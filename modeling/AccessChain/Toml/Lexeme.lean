import AccessChain.Toml.Value

/-! The smallest parts of a settings file: strings, keys, numbers, dates and times. A reader gives what it
has read and the rest of the text, or nothing if the text does not start with what it reads. -/
namespace AccessChain.Toml

abbrev Reader (α : Type) := List Char → Option (α × List Char)

inductive Rejection where
  | invalid
  | tooLong (digits : Nat)
  | tooDeep
deriving DecidableEq

def isSpace (character : Char) : Bool := character == ' ' || character == '\t'

def isSpaceOrBreak (character : Char) : Bool := isSpace character || character == '\n'

/-- The control characters, which may stand nowhere, apart from the tab. -/
def isForbidden (character : Char) : Bool :=
  (character < ' ' && character != '\t') || character == '\x7f'

def skipSpaces (chars : List Char) : List Char := chars.dropWhile isSpace

def afterComment? : List Char → Option (List Char)
  | '#' :: rest =>
    let comment := rest.takeWhile (· != '\n')
    if comment.any isForbidden then none else some (rest.drop comment.length)
  | chars => some chars

def afterLayout? : Bool → List Char → Option (List Char)
  | _, [] => some []
  | true, character :: rest =>
    if character = '\n' then afterLayout? false rest
    else if isForbidden character then none
    else afterLayout? true rest
  | false, character :: rest =>
    if isSpaceOrBreak character then afterLayout? false rest
    else if character = '#' then afterLayout? true rest
    else some (character :: rest)

/-! Strings -/

def hexValue? (digit : Char) : Option Nat :=
  if digit.isDigit then some (digit.toNat - '0'.toNat)
  else if 'a' ≤ digit && digit ≤ 'f' then some (digit.toNat - 'a'.toNat + 10)
  else if 'A' ≤ digit && digit ≤ 'F' then some (digit.toNat - 'A'.toNat + 10)
  else none

def hexChar? (width : Nat) : Reader (List Char) := fun chars => do
  let values ← (chars.take width).mapM hexValue?
  let point := values.foldl (fun value digit => value * 16 + digit) 0
  if values.length = width && point.isValidChar then some ([Char.ofNat point], chars.drop width) else none

/-- What follows the backslash of an escape. A backslash at the end of a line joins it to the next text
that is not blank. -/
def escape? (multiline : Bool) : Reader (List Char)
  | [] => none
  | character :: rest =>
    if multiline && isSpaceOrBreak character then
      match skipSpaces (character :: rest) with
      | '\n' :: below => some ([], below.dropWhile isSpaceOrBreak)
      | _ => none
    else
      match character with
      | 'b' => some (['\x08'], rest)
      | 't' => some (['\t'], rest)
      | 'n' => some (['\n'], rest)
      | 'f' => some (['\x0c'], rest)
      | 'r' => some (['\r'], rest)
      | '"' => some (['"'], rest)
      | '\\' => some (['\\'], rest)
      | 'u' => hexChar? 4 rest
      | 'U' => hexChar? 8 rest
      | _ => none

/-- A string with escapes, from behind its opening quotes on; each step takes at least one character. -/
def basicFrom? (multiline : Bool) : Nat → Reader (List Char)
  | 0, _ => none
  | _, [] => none
  | steps + 1, character :: rest =>
    if character = '"' && (!multiline || rest.take 2 = ['"', '"']) then
      some ([], if multiline then rest.drop 2 else rest)
    else if character = '\\' then do
      let (piece, rest) ← escape? multiline rest
      let (pieces, rest) ← basicFrom? multiline steps rest
      some (piece ++ pieces, rest)
    else if isForbidden character && !(multiline && character == '\n') then none
    else do
      let (pieces, rest) ← basicFrom? multiline steps rest
      some (character :: pieces, rest)

def basic? (multiline : Bool) : Reader (List Char) := fun chars => basicFrom? multiline chars.length chars

def literal? (multiline : Bool) : Reader (List Char)
  | [] => none
  | character :: rest =>
    if character = '\'' && (!multiline || rest.take 2 = ['\'', '\'']) then
      some ([], if multiline then rest.drop 2 else rest)
    else if isForbidden character && !(multiline && character == '\n') then none
    else do
      let (pieces, rest) ← literal? multiline rest
      some (character :: pieces, rest)

/-- Up to two quotes more than the closing ones belong to a string of several lines. -/
def withQuotes (quote : Char) (found : List Char × List Char) : List Char × List Char :=
  let more := ((found.2.take 2).takeWhile (· == quote)).length
  (found.1 ++ List.replicate more quote, found.2.drop more)

def string? : Reader String
  | '"' :: '"' :: '"' :: rest =>
    (basic? true (if rest.head? = some '\n' then rest.drop 1 else rest)).map fun found =>
      let (chars, rest) := withQuotes '"' found
      (String.ofList chars, rest)
  | '\'' :: '\'' :: '\'' :: rest =>
    (literal? true (if rest.head? = some '\n' then rest.drop 1 else rest)).map fun found =>
      let (chars, rest) := withQuotes '\'' found
      (String.ofList chars, rest)
  | '"' :: rest => (basic? false rest).map fun (chars, rest) => (String.ofList chars, rest)
  | '\'' :: rest => (literal? false rest).map fun (chars, rest) => (String.ofList chars, rest)
  | _ => none

/-! Keys -/

def isBare (character : Char) : Bool := character.isAlphanum || character == '-' || character == '_'

def startsKey (character : Char) : Bool := isBare character || character == '"' || character == '\''

def keyPart? : Reader String
  | '"' :: rest => (basic? false rest).map fun (chars, rest) => (String.ofList chars, rest)
  | '\'' :: rest => (literal? false rest).map fun (chars, rest) => (String.ofList chars, rest)
  | chars =>
    let bare := chars.takeWhile isBare
    if bare.isEmpty then none else some (String.ofList bare, chars.drop bare.length)

abbrev Path := List String

def keyFrom? : Nat → Reader Path
  | 0, _ => none
  | steps + 1, chars => do
    let (part, rest) ← keyPart? chars
    match skipSpaces rest with
    | '.' :: more =>
      let (parts, rest) ← keyFrom? steps (skipSpaces more)
      some (part :: parts, rest)
    | rest => some ([part], rest)

def key? : Reader Path := fun chars => keyFrom? (chars.length + 1) chars

/-! Numbers -/

def digitRun (isDigit : Char → Bool) : List Char → List Char × List Char
  | [] => ([], [])
  | [character] => if isDigit character then ([character], []) else ([], [character])
  | character :: next :: rest =>
    if isDigit character then
      let (digits, rest) := digitRun isDigit (next :: rest)
      (character :: digits, rest)
    else if character = '_' && isDigit next then
      let (digits, rest) := digitRun isDigit rest
      (next :: digits, rest)
    else ([], character :: next :: rest)

def digits? (isDigit : Char → Bool) : Reader (List Char) := fun chars =>
  if chars.head?.any isDigit then some (digitRun isDigit chars) else none

def natOf (base : Nat) (digits : List Char) : Nat :=
  digits.foldl (fun value digit => value * base + (hexValue? digit).getD 0) 0

def isDigitBelow (base : Nat) (character : Char) : Bool := (hexValue? character).any (· < base)

def based? : Reader Nat
  | '0' :: mark :: rest => do
    let base ← if mark = 'x' then some 16 else if mark = 'o' then some 8 else if mark = 'b' then some 2 else none
    let (digits, rest) ← digits? (isDigitBelow base) rest
    some (natOf base digits, rest)
  | _ => none

def sign : List Char → Bool × List Char
  | '-' :: rest => (true, rest)
  | '+' :: rest => (false, rest)
  | chars => (false, chars)

/-- The digits before the point, of which none but a lone zero starts with zero. -/
def whole? : Reader (List Char)
  | '0' :: rest => some (['0'], rest)
  | chars => digits? Char.isDigit chars

def fraction (chars : List Char) : List Char × List Char :=
  match chars with
  | '.' :: rest => (digits? Char.isDigit rest).getD ([], chars)
  | _ => ([], chars)

def exponent? : Reader Int
  | mark :: rest =>
    if mark = 'e' || mark = 'E' then
      let (negative, unsigned) := sign rest
      (digits? Char.isDigit unsigned).map fun (digits, rest) =>
        (if negative then -(natOf 10 digits : Int) else natOf 10 digits, rest)
    else none
  | [] => none

def Real.ofDecimal (negative : Bool) (digits : Nat) (exponent : Int) : Real :=
  match Decimal.Magnitude.ofDecimal digits exponent with
  | .finite significand exponent => .finite negative significand exponent
  | .infinite => .infinite negative

/-- A whole number in base ten, which must not have too many digits. -/
def integer (negative : Bool) (digits : List Char) : Except Rejection Value :=
  if Text.digitLimit < digits.length then .error (.tooLong digits.length)
  else .ok (.integer (if negative then -(natOf 10 digits : Int) else natOf 10 digits))

def decimal? : Reader (Except Rejection Value) := fun chars => do
  let (negative, unsigned) := sign chars
  let (whole, afterWhole) ← whole? unsigned
  let (places, afterPlaces) := fraction afterWhole
  match exponent? afterPlaces with
  | some (exponent, rest) =>
    some (.ok (.real (.ofDecimal negative (natOf 10 (whole ++ places)) (exponent - places.length))), rest)
  | none =>
    if places.isEmpty then some (integer negative whole, afterPlaces)
    else some (.ok (.real (.ofDecimal negative (natOf 10 (whole ++ places)) (-places.length))), afterPlaces)

def special? : Reader Value := fun chars =>
  let (negative, unsigned) := sign chars
  if unsigned.take 3 = ['i', 'n', 'f'] then some (.real (.infinite negative), unsigned.drop 3)
  else if unsigned.take 3 = ['n', 'a', 'n'] then some (.real .undefined, unsigned.drop 3)
  else none

/-- A number. In a base that is a power of two it may have any number of digits. -/
def number? : Reader (Except Rejection Value) := fun chars =>
  match based? chars with
  | some (value, rest) => some (.ok (.integer value), rest)
  | none => (decimal? chars).or ((special? chars).map fun (value, rest) => (.ok value, rest))

/-! Dates and times -/

def field? (before : Option Char) (width low high : Nat) : Reader Nat := fun chars => do
  let chars ← match before with
    | none => some chars
    | some expected => if chars.head? = some expected then some (chars.drop 1) else none
  let digits := (chars.take width).takeWhile Char.isDigit
  let value := natOf 10 digits
  if digits.length = width && low ≤ value && value ≤ high then some (value, chars.drop width) else none

/-- The microseconds of a fraction, of which digits behind the sixth do not count. -/
def microsecond (chars : List Char) : Nat × List Char :=
  match chars with
  | '.' :: rest =>
    let digits := rest.takeWhile Char.isDigit
    if digits.isEmpty then (0, chars)
    else (natOf 10 (digits.take 6) * Nat.pow 10 (6 - digits.length), rest.drop digits.length)
  | _ => (0, chars)

def time? : Reader Time := fun chars => do
  let (hour, rest) ← field? none 2 0 23 chars
  let (minute, rest) ← field? (some ':') 2 0 59 rest
  let (second, rest) ← field? (some ':') 2 0 59 rest
  let (fraction, rest) := microsecond rest
  some (⟨hour, minute, second, fraction⟩, rest)

def offset? : Reader Int
  | mark :: rest =>
    if mark = 'Z' || mark = 'z' then some (0, rest)
    else if mark = '+' || mark = '-' then do
      let (hours, rest) ← field? none 2 0 23 rest
      let (minutes, rest) ← field? (some ':') 2 0 59 rest
      let total : Int := hours * 60 + minutes
      some (if mark = '-' then -total else total, rest)
    else none
  | [] => none

def date? : Reader Date := fun chars => do
  let (year, rest) ← field? none 4 0 9999 chars
  let (month, rest) ← field? (some '-') 2 1 12 rest
  let (day, rest) ← field? (some '-') 2 1 31 rest
  some (⟨year, month, day⟩, rest)

def timePart? : Reader (Time × Option Int)
  | mark :: rest =>
    if mark = 'T' || mark = 't' || mark = ' ' then do
      let (clock, rest) ← time? rest
      match offset? rest with
      | some (offset, rest) => some ((clock, some offset), rest)
      | none => some ((clock, none), rest)
    else none
  | [] => none

def moment? : Reader Moment := fun chars =>
  match date? chars with
  | some (day, rest) =>
    match timePart? rest with
    | some ((clock, offset), rest) => some (.dateTime day clock offset, rest)
    | none => some (.date day, rest)
  | none => (time? chars).map fun (clock, rest) => (.time clock, rest)

def Moment.isValid : Moment → Bool
  | .date day => day.isValid
  | .dateTime day _ _ => day.isValid
  | .time _ => true

end AccessChain.Toml
