import AccessChain.Text.Basic

/-! Classes of characters, given as ascending lists of inclusive ranges of code points: white space, line
breaks and digits. The lines of a text are cut behind every line break in the wide sense; a carriage return
and the line feed behind it are one break. -/
namespace AccessChain
namespace Text
namespace Ranges

def holds : List (Nat × Nat) → Nat → Bool
  | [], _ => false
  | (low, high) :: rest, point => if point < low then false else point ≤ high || holds rest point

/-- How far a code point stands behind the start of the range that holds it. -/
def place? : List (Nat × Nat) → Nat → Option Nat
  | [], _ => none
  | (low, high) :: rest, point =>
    if point < low then none else if point ≤ high then some (point - low) else place? rest point

end Ranges

def blankRanges : List (Nat × Nat) := [
  (0x9, 0xD), (0x1C, 0x20), (0x85, 0x85), (0xA0, 0xA0), (0x1680, 0x1680), (0x2000, 0x200A),
  (0x2028, 0x2029), (0x202F, 0x202F), (0x205F, 0x205F), (0x3000, 0x3000)]

/-- White space in the wide sense, with the four information separators U+001C to U+001F. -/
def isBlank (character : Char) : Bool := Ranges.holds blankRanges character.toNat

def isCodeBlank (character : Char) : Bool := [' ', '\t', '\r', '\n'].contains character

/-- The characters that end a line in the wide sense. The information separator U+001F does not. -/
def breaksLine (character : Char) : Bool :=
  Ranges.holds [(0x0A, 0x0D), (0x1C, 0x1E), (0x85, 0x85), (0x2028, 0x2029)] character.toNat

def decimalRanges : List (Nat × Nat) := [
  (0x30, 0x39), (0x660, 0x669), (0x6F0, 0x6F9), (0x7C0, 0x7C9), (0x966, 0x96F), (0x9E6, 0x9EF),
  (0xA66, 0xA6F), (0xAE6, 0xAEF), (0xB66, 0xB6F), (0xBE6, 0xBEF), (0xC66, 0xC6F), (0xCE6, 0xCEF),
  (0xD66, 0xD6F), (0xDE6, 0xDEF), (0xE50, 0xE59), (0xED0, 0xED9), (0xF20, 0xF29), (0x1040, 0x1049),
  (0x1090, 0x1099), (0x17E0, 0x17E9), (0x1810, 0x1819), (0x1946, 0x194F), (0x19D0, 0x19D9), (0x1A80, 0x1A89),
  (0x1A90, 0x1A99), (0x1B50, 0x1B59), (0x1BB0, 0x1BB9), (0x1C40, 0x1C49), (0x1C50, 0x1C59), (0xA620, 0xA629),
  (0xA8D0, 0xA8D9), (0xA900, 0xA909), (0xA9D0, 0xA9D9), (0xA9F0, 0xA9F9), (0xAA50, 0xAA59), (0xABF0, 0xABF9),
  (0xFF10, 0xFF19), (0x104A0, 0x104A9), (0x10D30, 0x10D39), (0x11066, 0x1106F), (0x110F0, 0x110F9), (0x11136, 0x1113F),
  (0x111D0, 0x111D9), (0x112F0, 0x112F9), (0x11450, 0x11459), (0x114D0, 0x114D9), (0x11650, 0x11659), (0x116C0, 0x116C9),
  (0x11730, 0x11739), (0x118E0, 0x118E9), (0x11950, 0x11959), (0x11C50, 0x11C59), (0x11D50, 0x11D59), (0x11DA0, 0x11DA9),
  (0x16A60, 0x16A69), (0x16AC0, 0x16AC9), (0x16B50, 0x16B59), (0x1D7CE, 0x1D7FF), (0x1E140, 0x1E149), (0x1E2F0, 0x1E2F9),
  (0x1E950, 0x1E959), (0x1FBF0, 0x1FBF9)]

def digitRanges : List (Nat × Nat) := [
  (0x30, 0x39), (0xB2, 0xB3), (0xB9, 0xB9), (0x660, 0x669), (0x6F0, 0x6F9), (0x7C0, 0x7C9),
  (0x966, 0x96F), (0x9E6, 0x9EF), (0xA66, 0xA6F), (0xAE6, 0xAEF), (0xB66, 0xB6F), (0xBE6, 0xBEF),
  (0xC66, 0xC6F), (0xCE6, 0xCEF), (0xD66, 0xD6F), (0xDE6, 0xDEF), (0xE50, 0xE59), (0xED0, 0xED9),
  (0xF20, 0xF29), (0x1040, 0x1049), (0x1090, 0x1099), (0x1369, 0x1371), (0x17E0, 0x17E9), (0x1810, 0x1819),
  (0x1946, 0x194F), (0x19D0, 0x19DA), (0x1A80, 0x1A89), (0x1A90, 0x1A99), (0x1B50, 0x1B59), (0x1BB0, 0x1BB9),
  (0x1C40, 0x1C49), (0x1C50, 0x1C59), (0x2070, 0x2070), (0x2074, 0x2079), (0x2080, 0x2089), (0x2460, 0x2468),
  (0x2474, 0x247C), (0x2488, 0x2490), (0x24EA, 0x24EA), (0x24F5, 0x24FD), (0x24FF, 0x24FF), (0x2776, 0x277E),
  (0x2780, 0x2788), (0x278A, 0x2792), (0xA620, 0xA629), (0xA8D0, 0xA8D9), (0xA900, 0xA909), (0xA9D0, 0xA9D9),
  (0xA9F0, 0xA9F9), (0xAA50, 0xAA59), (0xABF0, 0xABF9), (0xFF10, 0xFF19), (0x104A0, 0x104A9), (0x10A40, 0x10A43),
  (0x10D30, 0x10D39), (0x10E60, 0x10E68), (0x11052, 0x1105A), (0x11066, 0x1106F), (0x110F0, 0x110F9), (0x11136, 0x1113F),
  (0x111D0, 0x111D9), (0x112F0, 0x112F9), (0x11450, 0x11459), (0x114D0, 0x114D9), (0x11650, 0x11659), (0x116C0, 0x116C9),
  (0x11730, 0x11739), (0x118E0, 0x118E9), (0x11950, 0x11959), (0x11C50, 0x11C59), (0x11D50, 0x11D59), (0x11DA0, 0x11DA9),
  (0x16A60, 0x16A69), (0x16AC0, 0x16AC9), (0x16B50, 0x16B59), (0x1D7CE, 0x1D7FF), (0x1E140, 0x1E149), (0x1E2F0, 0x1E2F9),
  (0x1E950, 0x1E959), (0x1F100, 0x1F10A), (0x1FBF0, 0x1FBF9)]

def isDecimal (character : Char) : Bool := Ranges.holds decimalRanges character.toNat

def isDigit (character : Char) : Bool := Ranges.holds digitRanges character.toNat

def decimalValue? (character : Char) : Option Nat :=
  (Ranges.place? decimalRanges character.toNat).map (· % 10)

/-- The most decimal digits with which an integer is read or written. -/
def digitLimit : Nat := 4300

/-- The lines of a text, of which `held` is what has been read of the first one, last symbol first. -/
def linesFrom (held : Text) : Text → List Text
  | [] => if held.isEmpty then [] else [held.reverse]
  | [symbol] => [(symbol :: held).reverse]
  | symbol :: next :: rest =>
    if symbol = .char '\r' && next = .char '\n' then (next :: symbol :: held).reverse :: linesFrom [] rest
    else if symbol.satisfies breaksLine then (symbol :: held).reverse :: linesFrom [] (next :: rest)
    else linesFrom (symbol :: held) (next :: rest)

def lines : Text → List Text := linesFrom []

theorem flatten_linesFrom (held text : Text) : (linesFrom held text).flatten = held.reverse ++ text := by
  fun_induction linesFrom held text <;> simp_all

theorem flatten_lines (text : Text) : (lines text).flatten = text := flatten_linesFrom [] text

def lineFeeds (text : Text) : Nat := text.count (.char '\n')

def lastLineLength (text : Text) : Nat := (text.reverse.takeWhile (· != .char '\n')).length

end Text

def Sym.isBlank (symbol : Sym) : Bool := symbol.satisfies Text.isBlank

end AccessChain
