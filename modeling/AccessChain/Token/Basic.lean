import AccessChain.Text.Escape
import AccessChain.Token.Kind

/-! Tokens: a kind, the exact text and the offset in bytes at which it starts. Debugging shows them as a
table, a heading and one line per token, with a mark on the token that the expression starts in. -/
namespace AccessChain

structure Token where
  kind : TokenKind
  text : Text
  offset : Nat
deriving DecidableEq

abbrev Tokenizer := Text → List Token

namespace Token

def byteLength (token : Token) : Nat := Text.byteLength token.text

def textWithoutComments (tokens : List Token) : Text :=
  (tokens.filter fun token => !token.kind.isComment).flatMap Token.text

/-- Tokens of given kinds and texts laid end to end from the offset on. -/
def laidOut : Nat → List (TokenKind × Text) → List Token
  | _, [] => []
  | offset, (kind, text) :: rest =>
    ⟨kind, text, offset⟩ :: laidOut (offset + Text.byteLength text) rest

def covers (token : Token) (place : Int) : Bool :=
  token.offset ≤ place && place < token.offset + token.byteLength

def padding (width : Nat) (string : String) : String :=
  String.ofList (List.replicate (width - string.length) ' ')

def dumpLine (start : Option Int) (token : Token) : String :=
  let offset := toString token.offset
  (if start.any token.covers then ">" else " ") ++ " " ++ padding 6 offset ++ offset ++ "  " ++
    token.kind.name ++ padding 20 token.kind.name ++ " " ++ Text.quoted token.text ++ "\n"

def dump (tokens : List Token) (start : Option Int) : String :=
  "Tokens\n" ++ String.join (tokens.map (dumpLine start))

end Token
end AccessChain
