import AccessChain.Toml.Decimal
import AccessChain.Text.Classes
import AccessChain.Text.Escape
import AccessChain.Toml.Calendar

/-! The values of a settings file and the texts by which reports name them. -/
namespace AccessChain.Toml

inductive Real where
  | finite (negative : Bool) (significand : Nat) (exponent : Int)
  | infinite (negative : Bool)
  | undefined
deriving DecidableEq

inductive Value where
  | text (string : String)
  | boolean (truth : Bool)
  | integer (number : Int)
  | real (number : Real)
  | moment (point : Moment)
  | list (items : List Value)
  | table (entries : List (String × Value))

abbrev Table := List (String × Value)

/-- What fits the stack of the program that reads settings files and writes values out. Values nest, and each level of
nesting takes some of it. -/
structure Stack where
  reads : List Char → Bool
  writes : Value → Bool

namespace Real

/-- Numbers are written with the fewest digits that identify them, with the point in its place below
`10 ^ 16` and down to the fourth decimal place, otherwise with a signed exponent of at least two digits. -/
def layout : Decimal.Layout := ⟨-3, 16, 2⟩

def sign (negative : Bool) : String := if negative then "-" else ""

def written : Real → String
  | .finite negative significand exponent =>
    sign negative ++ String.ofList (layout.render (Decimal.shortest significand exponent))
  | .infinite negative => sign negative ++ "inf"
  | .undefined => "nan"

end Real

namespace Value

mutual

/-- The text of a value inside another one. There is none if an integer in it has too many digits. -/
def written? : Value → Option String
  | .text string => some (Text.quoted (Text.ofString string))
  | .boolean truth => some (if truth then "True" else "False")
  | .integer number => if number.natAbs < Nat.pow 10 Text.digitLimit then some (toString number) else none
  | .real number => some number.written
  | .moment point => some point.call
  | .list items => (writtenItems? items).map fun texts => "[" ++ String.intercalate ", " texts ++ "]"
  | .table entries =>
    (writtenEntries? entries).map fun texts => "\x7b" ++ String.intercalate ", " texts ++ "\x7d"

def writtenItems? : List Value → Option (List String)
  | [] => some []
  | item :: items => do
    let text ← written? item
    return text :: (← writtenItems? items)

def writtenEntries? : List (String × Value) → Option (List String)
  | [] => some []
  | (key, value) :: entries => do
    let text ← written? value
    return (Text.quoted (Text.ofString key) ++ ": " ++ text) :: (← writtenEntries? entries)

end

/-- The text of a value that stands by itself. -/
def shown? : Value → Option String
  | .text string => some string
  | .moment point => some point.iso
  | value => written? value

def entries? : Value → Option Table
  | .table entries => some entries
  | _ => none

def items? : Value → Option (List Value)
  | .list items => some items
  | _ => none

end Value

namespace Table

def get? (table : Table) (key : String) : Option Value := table.lookup key

def put (table : Table) (key : String) (value : Value) : Table :=
  match table with
  | [] => [(key, value)]
  | (present, old) :: entries =>
    if present = key then (present, value) :: entries else (present, old) :: put entries key value

end Table
end AccessChain.Toml
