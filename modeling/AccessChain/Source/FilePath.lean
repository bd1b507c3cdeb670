/-! Paths of files in their normal form: a root and the parts below it. Repeated slashes and parts that are
a single dot say nothing and are left out; parts that are two dots are kept. -/
namespace AccessChain

structure FilePath where
  root : String
  parts : List String
deriving DecidableEq

namespace FilePath

/-- Two leading slashes are a root of their own; more than two count as one. -/
def rootOf : List Char → String
  | '/' :: '/' :: '/' :: _ => "/"
  | '/' :: '/' :: _ => "//"
  | '/' :: _ => "/"
  | _ => ""

def pieces : List Char → List (List Char)
  | [] => [[]]
  | character :: rest =>
    if character = '/' then [] :: pieces rest
    else
      match pieces rest with
      | [] => [[character]]
      | piece :: more => (character :: piece) :: more

def ofString (string : String) : FilePath where
  root := rootOf string.toList
  parts := ((pieces string.toList).filter fun piece => piece ≠ [] && piece ≠ ['.']).map String.ofList

def toString (path : FilePath) : String :=
  if path.root.isEmpty && path.parts.isEmpty then "." else path.root ++ String.intercalate "/" path.parts

def parent (path : FilePath) : FilePath := { path with parts := path.parts.dropLast }

def child (path : FilePath) (name : String) : FilePath := { path with parts := path.parts ++ [name] }

end FilePath
end AccessChain
