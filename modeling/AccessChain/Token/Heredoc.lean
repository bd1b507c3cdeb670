import AccessChain.Text.Word
import AccessChain.Token.Extent

/-! Heredocs: three less-than signs, a label that may be quoted, lines of text, and the label again
at the start of a line. -/
namespace AccessChain.Heredoc

structure Opening where
  /-- The symbols from behind the less-than signs to the end of the first line. -/
  size : Nat
  label : Text

def isIndent (symbol : Sym) : Bool := symbol.satisfies [' ', '\t'].contains

def isLabelStart (symbol : Sym) : Bool :=
  symbol.satisfies fun value => Text.isWord value && !Text.isDecimal value

/-- The quote around a label, the same on both sides and possibly absent. -/
def labelQuote : Text → Text
  | symbol :: _ => if symbol.satisfies ['\'', '"'].contains then [symbol] else []
  | [] => []

def opening? (text : Text) : Option Opening :=
  let indent := Text.countWhile isIndent text
  let quote := labelQuote (text.drop indent)
  let labelled := text.drop (indent + quote.length)
  let label := labelled.takeWhile Sym.isWord
  let behind := labelled.drop label.length
  let ending := Extent.lineBreak (behind.drop quote.length)
  if label.head?.any isLabelStart && quote.isPrefixOf behind && ending ≠ 0 then
    some ⟨indent + quote.length + label.length + quote.length + ending, label⟩
  else none

/-- The indentation and label of a closing line that the text starts with. -/
def closing? (label : Text) (text : Text) : Option Nat :=
  let indent := Text.countWhile isIndent text
  let labelled := text.drop indent
  if label.isPrefixOf labelled && !(labelled.drop label.length).head?.any Sym.isWord then
    some (indent + label.length)
  else none

def body (label : Text) : Bool → Text → Nat
  | _, [] => 0
  | atLineStart, symbol :: rest =>
    match if atLineStart then closing? label (symbol :: rest) else none with
    | some size => size
    | none => 1 + body label (symbol == .char '\n') rest

def extent? (text : Text) : Option Nat :=
  (opening? text).map fun opening =>
    opening.size + body opening.label true (text.drop opening.size)

end AccessChain.Heredoc
