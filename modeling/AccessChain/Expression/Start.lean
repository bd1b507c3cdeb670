import AccessChain.Token.Basic
import AccessChain.Token.KindSet

/-! Where the expression that ends at a cursor starts. The bytes before the cursor are visited from right
to left until one cannot belong to a chain of member and static accesses: a bracket that was never
closed, a delimiter, a token of a boundary kind, or whatever stands before a static class name.

Each byte is visited with the token it belongs to. Tokens are laid out from the right: each takes as many
bytes as its text has, but at least one, and the first token takes all that is left over. Tokens made by a
tokenizer for this text therefore own exactly their spans. -/
namespace AccessChain

inductive Bracket where
  | round | square | curly
deriving DecidableEq

namespace Bracket

def opening? (byte : UInt8) : Option Bracket :=
  if byte = 0x28 then some .round
  else if byte = 0x5B then some .square
  else if byte = 0x7B then some .curly
  else none

def closing? (byte : UInt8) : Option Bracket :=
  if byte = 0x29 then some .round
  else if byte = 0x5D then some .square
  else if byte = 0x7D then some .curly
  else none

end Bracket

namespace Expression

structure Cell where
  byte : UInt8
  /-- The kind of the token that owns the byte. -/
  kind : Option TokenKind
  /-- The kind of the token before that one. -/
  before : Option TokenKind
deriving DecidableEq

/-- Tokens and bytes are both given from right to left. -/
def layout : List Token → List UInt8 → List Cell
  | [], bytes => bytes.map fun byte => ⟨byte, none, none⟩
  | [token], bytes => bytes.map fun byte => ⟨byte, some token.kind, none⟩
  | token :: previous :: tokens, bytes =>
    let size := max 1 token.byteLength
    (bytes.take size).map (fun byte => ⟨byte, some token.kind, some previous.kind⟩) ++
      layout (previous :: tokens) (bytes.drop size)

theorem length_layout (tokens : List Token) (bytes : List UInt8) :
    (layout tokens bytes).length = bytes.length := by
  fun_induction layout tokens bytes with
  | case1 bytes => simp
  | case2 token bytes => simp
  | case3 token previous tokens bytes size ih => simp [ih]; omega

/-- For each kind of bracket, how many closing ones still wait for their opening one. -/
structure Depth where
  round : Nat
  square : Nat
  curly : Nat
deriving DecidableEq

namespace Depth

def zero : Depth := ⟨0, 0, 0⟩

def count (depth : Depth) : Bracket → Nat
  | .round => depth.round
  | .square => depth.square
  | .curly => depth.curly

def update (depth : Depth) (bracket : Bracket) (change : Nat → Nat) : Depth :=
  match bracket with
  | .round => { depth with round := change depth.round }
  | .square => { depth with square := change depth.square }
  | .curly => { depth with curly := change depth.curly }

end Depth

structure Progress where
  depth : Depth
  /-- Whether a double colon outside all brackets has been passed. -/
  inStaticName : Bool
deriving DecidableEq

def staticNameKinds : KindSet :=
  [.doubleColon, .identifier, .namespaceSeparator, .keyword .staticKw]

/-- The full stop, the comma, the question mark and the semicolon. -/
def delimiters : List UInt8 := [0x2E, 0x2C, 0x3F, 0x3B]

/-- Comments are passed over wherever they stand, and strings if the cursor is in one. -/
def Cell.isHidden (inString : Bool) (cell : Cell) : Bool :=
  cell.kind.any fun kind => kind.isComment || inString && kind == .stringLiteral

def Cell.isBoundary (boundary : KindSet) (cell : Cell) : Bool :=
  delimiters.contains cell.byte || cell.kind.any boundary.contains ||
    cell.byte == 0x3A && cell.kind != some .doubleColon

/-- A closing curly bracket outside round ones ends a block that is no part of the expression, unless
it belongs to a member access by a variable. -/
def visit (boundary : KindSet) (inString : Bool) (progress : Progress) (cell : Cell) : Option Progress :=
  if cell.isHidden inString then some progress
  else
    match Bracket.closing? cell.byte with
    | some bracket =>
      if bracket = .curly && progress.depth.round = 0 && cell.before ≠ some .varName then none
      else some { progress with depth := progress.depth.update bracket (· + 1) }
    | none =>
      match Bracket.opening? cell.byte with
      | some bracket =>
        if progress.depth.count bracket = 0 then none
        else some { progress with depth := progress.depth.update bracket (· - 1) }
      | none =>
        if progress.depth ≠ Depth.zero then some progress
        else if cell.isBoundary boundary then none
        else some { progress with
          inStaticName := progress.inStaticName || cell.kind == some .doubleColon }

def advance (boundary : KindSet) (inString : Bool) (progress : Progress) (cell : Cell) : Option Progress :=
  (visit boundary inString progress cell).filter fun next =>
    !(next.inStaticName && !cell.kind.any staticNameKinds.contains)

def scan (boundary : KindSet) (inString : Bool) : Progress → List Cell → Nat
  | _, [] => 0
  | progress, cell :: cells =>
    match advance boundary inString progress cell with
    | none => cells.length + 1
    | some next => scan boundary inString next cells

def startIn (boundary : KindSet) (tokens : List Token) (code : List UInt8) : Nat :=
  scan boundary (tokens.getLast?.any fun token => token.kind == .stringLiteral) ⟨Depth.zero, false⟩
    (layout tokens.reverse code.reverse)

theorem scan_le_length (boundary : KindSet) (inString : Bool) (progress : Progress) (cells : List Cell) :
    scan boundary inString progress cells ≤ cells.length := by
  induction cells generalizing progress with
  | nil => simp [scan]
  | cons cell cells ih =>
    simp only [scan]
    split
    · simp
    · exact Nat.le_succ_of_le (ih _)

theorem startIn_le_length (boundary : KindSet) (tokens : List Token) (code : List UInt8) :
    startIn boundary tokens code ≤ code.length := by
  have bound := scan_le_length boundary (tokens.getLast?.any fun token => token.kind == .stringLiteral)
    ⟨Depth.zero, false⟩ (layout tokens.reverse code.reverse)
  simpa [startIn, length_layout] using bound

end Expression
end AccessChain
