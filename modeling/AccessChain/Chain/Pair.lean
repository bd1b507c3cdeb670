import AccessChain.Text.Basic

/-! Pairs of an opening and a closing delimiter. A delimiter is given as a text, and a symbol is that
delimiter if it is all of the text; where both delimiters are equal, every one of them opens. -/
namespace AccessChain.Chain.Pair

/-- Walks over a text with `held` as what has been read of a group that is still open, last symbol
first, and `depth` as the number of its delimiters that are still to be closed. A group that is closed
loses its content; one that stays open keeps it. -/
def collapse (opening closing : Text) : Nat → Text → Text → Text
  | _, held, [] => held.reverse
  | 0, _, symbol :: rest =>
    if [symbol] = opening then symbol :: collapse opening closing 1 [] rest
    else symbol :: collapse opening closing 0 [] rest
  | depth + 1, held, symbol :: rest =>
    if [symbol] = opening then collapse opening closing (depth + 2) (symbol :: held) rest
    else if [symbol] = closing then
      if depth = 0 then symbol :: collapse opening closing 0 [] rest
      else collapse opening closing depth (symbol :: held) rest
    else collapse opening closing (depth + 1) (symbol :: held) rest

def stripContent (opening closing : Text) (text : Text) : Text := collapse opening closing 0 [] text

/-- The number of symbols before the one that closes the last of `depth` open delimiters. -/
def distance (opening closing : Text) : Nat → Text → Option Nat
  | _, [] => none
  | depth, symbol :: rest =>
    if [symbol] = opening then (distance opening closing (depth + 1) rest).map (· + 1)
    else if [symbol] = closing then
      if depth ≤ 1 then some 0 else (distance opening closing (depth - 1) rest).map (· + 1)
    else (distance opening closing depth rest).map (· + 1)

def matching? (opening closing : Text) (text : Text) (start : Nat) : Option Nat :=
  match text.drop start with
  | [] => none
  | symbol :: rest =>
    if [symbol] = opening then (distance opening closing 1 rest).map (· + start + 1) else none

inductive PlaceError where
  | outOfRange
  | notRepresentable
deriving DecidableEq

namespace PlaceError

def message : PlaceError → String
  | .outOfRange => "string index out of range"
  | .notRepresentable => "cannot fit 'int' into an index-sized integer"

end PlaceError

/-- As `matching?`, for a start that may count from the end of the text, in which case the walk goes
on from the end of the text to its beginning, and the places before the end stay negative. -/
def matchingAt (opening closing : Text) (text : Text) (start : Int) : Except PlaceError (Option Int) :=
  if 0 ≤ start then .ok ((matching? opening closing text start.toNat).map Int.ofNat)
  else if start < -0x8000000000000000 then .error .notRepresentable
  else if start < -text.length then .error .outOfRange
  else
    let place := (text.length + start).toNat
    .ok ((matching? opening closing (text.drop place ++ text) 0).map fun found => start + found)

end AccessChain.Chain.Pair
