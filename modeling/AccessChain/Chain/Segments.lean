import AccessChain.Chain.Pair
import AccessChain.Offset.Basic
import AccessChain.Text.Word
import AccessChain.Expression.Start
import AccessChain.Token.Stream

/-! The access chain of an expression: its segments from left to right, without comments, call arguments
and bodies of closures. A scanner finds the expression and its chain in the bytes before a cursor, a byte offset
that defaults to the end of the source. -/
namespace AccessChain
namespace Chain

/-- The text behind a keyword, up to the bracket of a parameter list, is that of a closure or function:
an optional ampersand and an optional name. -/
def isSignature (text : Text) : Bool :=
  let afterKeyword := text.dropWhile Sym.isBlank
  let named :=
    if Text.startsWith ['&'] afterKeyword then (afterKeyword.drop 1).dropWhile Sym.isBlank else afterKeyword
  Text.startsWith ['('] ((named.dropWhile Sym.isWord).dropWhile Sym.isBlank)

/-- Whether a function signature occurs in a text; `inWord` says whether a word character stands before. -/
def holdsSignature : Bool → Text → Bool
  | _, [] => false
  | inWord, symbol :: rest =>
    !inWord && Text.startsWith ['f', 'u', 'n', 'c', 't', 'i', 'o', 'n'] (symbol :: rest) &&
      isSignature (rest.drop 7) ||
    holdsSignature (Sym.isWord symbol) rest

def unwrapInstantiation (text : Text) : Text :=
  if Text.startsWith ['(', 'n', 'e', 'w'] text && (text.drop 4).head?.any Sym.isBlank then
    match Pair.matching? [.char '('] [.char ')'] text 0 with
    | some closing => (text.take closing).drop 1 ++ text.drop (closing + 1)
    | none => text
  else text

def split (first second : Sym) : Text → List Text
  | [] => [[]]
  | [symbol] => [[symbol]]
  | symbol :: next :: rest =>
    if symbol = first && next = second then [] :: split first second rest
    else
      match split first second (next :: rest) with
      | [] => [[symbol]]
      | piece :: pieces => (symbol :: piece) :: pieces

def withoutComments (tokenizer : Tokenizer) (text : Text) : Text :=
  Text.trim Sym.isBlank (Token.textWithoutComments (tokenizer (Text.trim Sym.isBlank text)))

/-- The text with its call arguments emptied, and before them the bodies of closures. -/
def emptied (text : Text) : Text :=
  let unwrapped := unwrapInstantiation text
  let bodiless :=
    if holdsSignature false unwrapped then Pair.stripContent [.char '{'] [.char '}'] unwrapped
    else unwrapped
  Pair.stripContent [.char '('] [.char ')'] bodiless

def pieces (text : Text) : List Text :=
  (split (.char '-') (.char '>') text).flatMap (split (.char ':') (.char ':'))

def segments (tokenizer : Tokenizer) (expression : Text) : List Text :=
  let text := emptied (withoutComments tokenizer expression)
  if text.isEmpty then [] else (pieces text).map (Text.trim Sym.isBlank)

end Chain

structure Scanner where
  boundary : KindSet := KindSet.boundary
  tokenizer : Tokenizer := tokenize

namespace Scanner

def cursorIn (source : Text) (cursor : Option Int) : Except OffsetError Nat :=
  let limit := Text.byteLength source
  Offset.checked "cursor" (cursor.getD limit) limit source

def startBefore (scanner : Scanner) (code : List UInt8) : Nat :=
  if code.isEmpty then 0
  else Expression.startIn scanner.boundary (scanner.tokenizer (Text.decode code)) code

def expressionStart (scanner : Scanner) (source : Text) (cursor : Option Int) : Except OffsetError Nat := do
  let stop ← cursorIn source cursor
  return scanner.startBefore ((Text.encode source).take stop)

def chainBetween (scanner : Scanner) (source : Text) (start stop : Nat) : List Text :=
  Chain.segments scanner.tokenizer (Text.decode (((Text.encode source).take stop).drop start))

def chain (scanner : Scanner) (source : Text) (cursor : Option Int) : Except OffsetError (List Text) := do
  let stop ← cursorIn source cursor
  let start ← scanner.expressionStart source cursor
  return scanner.chainBetween source start stop

end Scanner

end AccessChain
