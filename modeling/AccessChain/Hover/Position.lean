import AccessChain.Offset.Basic
import AccessChain.Text.Classes

/-! Positions in a document. A requested position counts lines as cut at every line break in the wide sense
and columns in UTF-16 units; a reported one cuts lines at line feeds and counts characters. -/
namespace AccessChain

structure Position where
  line : Nat
  character : Nat
deriving DecidableEq

namespace Position

/-- The UTF-16 units of a symbol. A stray byte takes one, like the surrogate that stands for it. -/
def units : Sym → Nat
  | .char value => if value.toNat < 0x10000 then 1 else 2
  | .stray _ _ => 1

def unitsOf : Text → Nat
  | [] => 0
  | symbol :: rest => units symbol + unitsOf rest

def symbolsFor : Nat → Text → Nat
  | 0, _ => 0
  | _, [] => 0
  | wanted + 1, symbol :: rest => 1 + symbolsFor (wanted + 1 - units symbol) rest

def withLineFeed (line : Text) : Text :=
  if line.drop (line.length - 2) = [.char '\r', .char '\n'] then
    line.take (line.length - 2) ++ [.char '\n']
  else line

/-- The column of a position on a line, in characters. Behind the end of the line it is the place of the
line's last unit. -/
def columnIn (line : Text) (character : Nat) : Nat :=
  let shown := withLineFeed line
  symbolsFor (if unitsOf shown < character then unitsOf shown - 1 else character) shown

/-- The index of the character at a position. Below the last line it is counted from the start of the last
line on in the units of that line, so it can lie outside the text. -/
def toIndex (source : Text) (position : Position) : Nat :=
  let lines := Text.lines source
  match lines[position.line]? with
  | some line => (lines.take position.line).flatten.length + columnIn line position.character
  | none =>
    match lines.getLast? with
    | some line => lines.dropLast.flatten.length + unitsOf line
    | none => 0

def ofIndex (source : Text) (index : Nat) : Except OffsetError Position := do
  let line ← Offset.lineAt source (← Offset.byteOfChar index source)
  return ⟨line - 1, Text.lastLineLength (source.take index)⟩

end Position
end AccessChain
