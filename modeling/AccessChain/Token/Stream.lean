import AccessChain.Token.Basic
import AccessChain.Token.Heredoc

/-! The stream of tokens of a text. It leaves no gap and never fails: each step cuts one token off the
front, and whatever is no longer token is a single character. -/
namespace AccessChain

/-- What the tokens so far decide about the next one: whether text outside code comes next, and whether
the nearest token that is not trivia is an access operator, after which no name is a keyword. -/
structure Context where
  inHtml : Bool
  afterAccess : Bool
deriving DecidableEq

namespace Context

def start : Context := ⟨false, false⟩

def after (context : Context) (kind : TokenKind) : Context where
  inHtml := kind == .closeTag
  afterAccess := if kind.isTrivia then context.afterAccess else kind.isAccess

end Context

structure Cut where
  kind : TokenKind
  size : Nat
  size_pos : 0 < size := by omega

namespace Cut

/-- The operators by their first character and what follows it, longer ones first. -/
def operators : List (Char × List Char × TokenKind) := [
  ('<', ['=', '>'], .operator .spaceship),
  ('*', ['*', '='], .operator .powEqual),
  ('.', ['.', '.'], .operator .ellipsis),
  ('<', ['<', '='], .operator .slEqual),
  ('>', ['>', '='], .operator .srEqual),
  ('=', ['=', '='], .operator .isIdentical),
  ('!', ['=', '='], .operator .isNotIdentical),
  (':', [':'], .doubleColon),
  ('-', ['>'], .objectOperator),
  ('=', ['>'], .operator .doubleArrow),
  ('+', ['+'], .operator .inc),
  ('-', ['-'], .operator .dec),
  ('=', ['='], .operator .isEqual),
  ('!', ['='], .operator .isNotEqual),
  ('<', ['>'], .operator .isNotEqual),
  ('<', ['='], .operator .isSmallerOrEqual),
  ('>', ['='], .operator .isGreaterOrEqual),
  ('+', ['='], .operator .plusEqual),
  ('-', ['='], .operator .minusEqual),
  ('*', ['='], .operator .mulEqual),
  ('/', ['='], .operator .divEqual),
  ('.', ['='], .operator .concatEqual),
  ('%', ['='], .operator .modEqual),
  ('&', ['='], .operator .andEqual),
  ('|', ['='], .operator .orEqual),
  ('^', ['='], .operator .xorEqual),
  ('&', ['&'], .operator .booleanAnd),
  ('|', ['|'], .operator .booleanOr),
  ('?', ['?'], .operator .coalesce),
  ('<', ['<'], .operator .sl),
  ('>', ['>'], .operator .sr),
  ('*', ['*'], .operator .pow)]

/-- Lower case for the look-up of keywords. Of the characters outside ASCII only the Kelvin sign has an
ASCII letter for its lower case, so no other can occur in a keyword. -/
def lowered? : Sym → Option Char
  | .char value =>
    if value.toNat < 0x80 then some value.toLower
    else if value == '\u212A' then some 'k'
    else none
  | .stray _ _ => none

def keyword? (word : Text) : Option Keyword := (word.mapM lowered?).bind Keyword.ofSpelling?

def nameKind (afterAccess : Bool) (word : Text) : TokenKind :=
  if afterAccess then .identifier else ((keyword? word).map TokenKind.keyword).getD .identifier

def openingTag (text : Text) : Cut :=
  if Text.startsWith ['<', '?', '='] text then ⟨.openTagWithEcho, 3, by omega⟩
  else if (text.take 5).mapM lowered? = some ['<', '?', 'p', 'h', 'p'] then ⟨.openTag, 5, by omega⟩
  else ⟨.openTag, 2, by omega⟩

def operator (first : Sym) (rest : Text) : Cut :=
  match operators.find? fun row => first == .char row.1 && Text.startsWith row.2.1 rest with
  | some row => ⟨row.2.2, 1 + row.2.1.length, by omega⟩
  | none => ⟨.character, 1, by omega⟩

def ofCode (afterAccess : Bool) (first : Sym) (rest : Text) : Cut :=
  if first.satisfies Text.isCodeBlank then
    ⟨.whitespace, 1 + Extent.blanks rest, Nat.add_pos_left Nat.one_pos _⟩
  else if Text.startsWith ['<', '?'] (first :: rest) then openingTag (first :: rest)
  else if Text.startsWith ['?', '>'] (first :: rest) then
    ⟨.closeTag, 2 + Extent.lineBreak (rest.drop 1), Nat.add_pos_left Nat.two_pos _⟩
  else if first = .char '#' || Text.startsWith ['/', '/'] (first :: rest) then
    ⟨.lineComment, 1 + Extent.lineComment rest, Nat.add_pos_left Nat.one_pos _⟩
  else if Text.startsWith ['/', '*'] (first :: rest) then
    ⟨.blockComment, 2 + Extent.blockComment (rest.drop 1), Nat.add_pos_left Nat.two_pos _⟩
  else if first = .char '$' && rest.head?.any Extent.isNameStart then
    ⟨.varName, 1 + Extent.name rest, Nat.add_pos_left Nat.one_pos _⟩
  else if Extent.isQuote first then
    ⟨.stringLiteral, 1 + Extent.quoted first rest, Nat.add_pos_left Nat.one_pos _⟩
  else
    match if Text.startsWith ['<', '<', '<'] (first :: rest) then Heredoc.extent? (rest.drop 2) else none with
    | some size => ⟨.heredoc, 3 + size, Nat.add_pos_left (Nat.succ_pos 2) _⟩
    | none =>
      if Extent.isNameStart first then
        let size := Extent.name rest
        ⟨nameKind afterAccess (first :: rest.take size), 1 + size, Nat.add_pos_left Nat.one_pos _⟩
      else if first.satisfies Char.isDigit ||
          first = .char '.' && rest.head?.any (·.satisfies Text.isDigit) then
        ⟨.number, 1 + Extent.number rest, Nat.add_pos_left Nat.one_pos _⟩
      else if first = .char '\\' then ⟨.namespaceSeparator, 1, Nat.one_pos⟩
      else operator first rest

def ofText (context : Context) (first : Sym) (rest : Text) : Cut :=
  if context.inHtml && !Text.startsWith ['<', '?'] (first :: rest) then
    ⟨.inlineHtml, 1 + Extent.html rest, by omega⟩
  else ofCode context.afterAccess first rest

end Cut

def tokensFrom (context : Context) (offset : Nat) : Text → List Token
  | [] => []
  | first :: rest =>
    let cut := Cut.ofText context first rest
    let piece := (first :: rest).take cut.size
    ⟨cut.kind, piece, offset⟩ ::
      tokensFrom (context.after cut.kind) (offset + Text.byteLength piece) ((first :: rest).drop cut.size)
termination_by text => text.length
decreasing_by
  have := (Cut.ofText context first rest).size_pos
  simp only [List.length_drop, List.length_cons]
  omega

def tokenize : Tokenizer := tokensFrom Context.start 0

end AccessChain
