import AccessChain.Chain.Segments
import AccessChain.Hover.Position

/-! What is shown for a place in a document: the access chain that ends with the word there. -/
namespace AccessChain

structure Hover where
  markdown : Text
  first : Position
  last : Position
deriving DecidableEq

namespace Hover

/-- The end of the name that an index stands in or in front of. -/
def wordEnd (source : Text) (index : Nat) : Nat := index + Extent.name (source.drop index)

def codeOf (segment : Text) : Text := .char '`' :: segment ++ [.char '`']

def markdownOf (chain : List Text) : Text :=
  Text.ofString "**Access chain**\n\n" ++ List.intercalate (Text.ofString " → ") (chain.map codeOf)

structure Span where
  first : Nat
  stop : Nat
  chain : List Text
deriving DecidableEq

/-- The expression that ends with the word at an index, without the white space in front of it, or nothing
where no chain ends there. -/
def spanAt (source : Text) (index : Nat) : Except OffsetError (Option Span) := do
  let stop := wordEnd source index
  let cursor ← Offset.byteOfChar stop source
  let scanner : Scanner := {}
  let start ← scanner.expressionStart source (some cursor)
  let chain := scanner.chainBetween source start cursor
  if chain.isEmpty then return none
  let first ← Offset.charOfByte start source
  return some ⟨first + Text.countWhile Sym.isBlank ((source.take stop).drop first), stop, chain⟩

def atIndex (source : Text) (index : Nat) : Except OffsetError (Option Hover) := do
  match ← spanAt source index with
  | none => return none
  | some span =>
    return some ⟨markdownOf span.chain, ← Position.ofIndex source span.first,
      ← Position.ofIndex source span.stop⟩

def atPosition (source : Text) (position : Position) : Except OffsetError (Option Hover) :=
  atIndex source (position.toIndex source)

end Hover
end AccessChain
