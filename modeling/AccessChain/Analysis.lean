import AccessChain.Chain.Segments
import AccessChain.Text.Escape
import AccessChain.Token.Basic

/-! What a run finds out about a source and how it is printed. -/
namespace AccessChain

inductive Format where
  | text | json
deriving DecidableEq

namespace Format

def name : Format → String
  | .text => "text"
  | .json => "json"

def all : List Format := [.text, .json]

def ofName? (wanted : String) : Option Format := all.find? (·.name == wanted)

end Format

structure Cursor where
  offset : Option Int
  inChars : Bool

structure Analysis where
  start : Nat
  line : Nat
  chain : List Text
deriving DecidableEq

namespace Cursor

/-- The byte offset that the cursor stands for. Without an offset it is the end of the source. -/
def resolve (cursor : Cursor) (source : Text) : Except OffsetError Int :=
  match cursor.offset with
  | none => .ok (Text.byteLength source)
  | some offset =>
    if cursor.inChars then return Int.ofNat (← Offset.byteOfChar offset source) else .ok offset

end Cursor

namespace Analysis

def run (scanner : Scanner) (source : Text) (cursor : Cursor) : Except OffsetError (Analysis × List Token) := do
  let place ← cursor.resolve source
  let stop ← Scanner.cursorIn source (some place)
  let start ← scanner.expressionStart source (some place)
  let line ← Offset.lineAt source start
  let tokens := scanner.tokenizer (Text.decode ((Text.encode source).take stop))
  return (⟨start, line, scanner.chainBetween source start stop⟩, tokens)

def jsonText (analysis : Analysis) : String :=
  "\x7b\"start\": " ++ toString analysis.start ++ ", \"line\": " ++ toString analysis.line ++
    ", \"chain\": [" ++ String.intercalate ", " (analysis.chain.map Text.jsonString) ++ "]\x7d"

def plainText (analysis : Analysis) : Text := List.intercalate [.char '\n'] analysis.chain

def render (analysis : Analysis) : Format → Text
  | .text => analysis.plainText
  | .json => Text.ofString analysis.jsonText

end Analysis
end AccessChain
