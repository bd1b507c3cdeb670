import AccessChain.Text.Classes
import AccessChain.Text.Decoding

/-! Offsets into a text, in bytes and in characters, and the error of an offset outside it, whose report shows
the nearest end of the source. -/
namespace AccessChain

structure OffsetError where
  message : String
  offset : Int
  limit : Int
  source : Text
deriving DecidableEq

namespace OffsetError

def outside (unit : String) (offset : Int) (limit : Nat) (source : Text) : OffsetError :=
  ⟨unit ++ " offset " ++ toString offset ++ " is outside the source (0.." ++ toString limit ++ ")",
    offset, limit, source⟩

/-- The part of the source before the end that is nearest to the offset. -/
def before (error : OffsetError) : Text := if error.offset > error.limit then error.source else []

def line (error : OffsetError) : Nat := Text.lineFeeds error.before + 1

def column (error : OffsetError) : Nat := Text.lastLineLength error.before + 1

/-- A line without the line feeds and then without the carriage returns at its end. -/
def withoutEnding (line : Text) : Text :=
  ((line.reverse.dropWhile (· == .char '\n')).dropWhile (· == .char '\r')).reverse

def shownLine (error : OffsetError) : Text :=
  ((Text.lines error.source)[error.line - 1]?.map withoutEnding).getD []

def spaces (count : Nat) : String := String.ofList (List.replicate count ' ')

def report (filename : String) (error : OffsetError) : Text :=
  let number := toString error.line
  let gutter := spaces (number.length + 1)
  Text.ofString ("error: " ++ error.message ++ "\n" ++
    gutter ++ "--> " ++ filename ++ ":" ++ number ++ ":" ++ toString error.column ++ "\n" ++
    gutter ++ "|\n" ++ number ++ " | ") ++
    error.shownLine ++
    Text.ofString ("\n" ++ gutter ++ "| " ++ spaces (error.column - 1) ++ "^")

end OffsetError

namespace Offset

def checked (unit : String) (offset : Int) (limit : Nat) (source : Text) : Except OffsetError Nat :=
  if 0 ≤ offset ∧ offset ≤ limit then .ok offset.toNat
  else .error (OffsetError.outside unit offset limit source)

def charsWithin : Nat → Text → Nat
  | _, [] => 0
  | bytes, symbol :: rest =>
    if symbol.width ≤ bytes then 1 + charsWithin (bytes - symbol.width) rest else 0

/-- The number of the line, counted from one, on which a byte stands. -/
def lineAt (source : Text) (offset : Int) : Except OffsetError Nat := do
  let bytes ← checked "byte" offset (Text.byteLength source) source
  return ((Text.encode source).take bytes).count 0x0A + 1

def charOfByte (offset : Int) (text : Text) : Except OffsetError Nat := do
  let bytes ← checked "byte" offset (Text.byteLength text) text
  return charsWithin bytes text

def byteOfChar (offset : Int) (text : Text) : Except OffsetError Nat := do
  let count ← checked "character" offset text.length text
  return Text.byteLength (text.take count)

end Offset
end AccessChain
