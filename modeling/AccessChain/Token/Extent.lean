import AccessChain.Text.Basic
import AccessChain.Text.Classes

/-! How far the tokens of each class extend. Each function counts the symbols that a token takes of the
text behind its opening; a token that is never closed takes all of it. -/
namespace AccessChain.Extent

def isNameStart : Sym → Bool
  | .char value => value == '_' || value.isAlpha || 0x80 ≤ value.toNat
  | .stray _ _ => true

def isNameChar (symbol : Sym) : Bool := isNameStart symbol || symbol.satisfies Char.isDigit

def isQuote (symbol : Sym) : Bool := symbol.satisfies ['\'', '"', '`'].contains

def isNumberChar (symbol : Sym) : Bool :=
  symbol.satisfies fun value => value.isAlphanum || value == '.' || value == '_'

def blanks (text : Text) : Nat := Text.countWhile (·.satisfies Text.isCodeBlank) text

def name (text : Text) : Nat := Text.countWhile isNameChar text

def number (text : Text) : Nat := Text.countWhile isNumberChar text

def lineBreak (text : Text) : Nat :=
  if Text.startsWith ['\r', '\n'] text then 2
  else if Text.startsWith ['\n'] text then 1
  else 0

/-- A line comment ends before a line break or a closing tag. -/
def lineComment : Text → Nat
  | [] => 0
  | symbol :: rest =>
    if symbol.satisfies ['\r', '\n'].contains || Text.startsWith ['?', '>'] (symbol :: rest) then 0
    else 1 + lineComment rest

def blockComment : Text → Nat
  | [] => 0
  | symbol :: rest =>
    if Text.startsWith ['*', '/'] (symbol :: rest) then 2 else 1 + blockComment rest

/-- A quoted string ends with the first quote that is not the second symbol of a pair that a backslash begins. -/
def quoted (quote : Sym) : Text → Nat
  | [] => 0
  | [_] => 1
  | symbol :: next :: rest =>
    if symbol = .char '\\' then 2 + quoted quote rest
    else if symbol = quote then 1
    else 1 + quoted quote (next :: rest)

def html : Text → Nat
  | [] => 0
  | symbol :: rest =>
    if Text.startsWith ['<', '?'] (symbol :: rest) then 0 else 1 + html rest

end AccessChain.Extent
