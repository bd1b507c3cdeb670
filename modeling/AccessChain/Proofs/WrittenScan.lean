import AccessChain.Proofs.Cells
import AccessChain.Proofs.WrittenTokens

/-! The scan over a well-formed chain. Outside all brackets it passes every piece of the chain, and inside round
brackets nested code leaves the depth as it was. -/
namespace AccessChain

namespace Bracket

theorem bytes_of_opener (bracket : Bracket) :
    ∃ byte, bracket.opener.bytes = [byte] ∧ opening? byte = some bracket := by
  cases bracket with
  | round => exact ⟨0x28, rfl, rfl⟩
  | square => exact ⟨0x5B, rfl, rfl⟩
  | curly => exact ⟨0x7B, rfl, rfl⟩

theorem bytes_of_closer (bracket : Bracket) :
    ∃ byte, bracket.closer.bytes = [byte] ∧ closing? byte = some bracket := by
  cases bracket with
  | round => exact ⟨0x29, rfl, rfl⟩
  | square => exact ⟨0x5D, rfl, rfl⟩
  | curly => exact ⟨0x7D, rfl, rfl⟩

theorem opener_of_mem_bytes (symbol : Sym) (byte : UInt8) (member : byte ∈ symbol.bytes) (bracket : Bracket)
    (opening : opening? byte = some bracket) : symbol = bracket.opener := by
  unfold opening? at opening
  split at opening
  · next same =>
    subst same
    cases opening
    exact Text.eq_char_of_mem_bytes symbol '(' (by decide) member
  · split at opening
    · next same =>
      subst same
      cases opening
      exact Text.eq_char_of_mem_bytes symbol '[' (by decide) member
    · split at opening
      · next same =>
        subst same
        cases opening
        exact Text.eq_char_of_mem_bytes symbol '{' (by decide) member
      · contradiction

theorem closer_of_mem_bytes (symbol : Sym) (byte : UInt8) (member : byte ∈ symbol.bytes) (bracket : Bracket)
    (closing : closing? byte = some bracket) : symbol = bracket.closer := by
  unfold closing? at closing
  split at closing
  · next same =>
    subst same
    cases closing
    exact Text.eq_char_of_mem_bytes symbol ')' (by decide) member
  · split at closing
    · next same =>
      subst same
      cases closing
      exact Text.eq_char_of_mem_bytes symbol ']' (by decide) member
    · split at closing
      · next same =>
        subst same
        cases closing
        exact Text.eq_char_of_mem_bytes symbol '}' (by decide) member
      · contradiction

end Bracket

namespace Expression

/-- What a byte in round brackets does to the depth. -/
def stepInside (depth : Depth) (byte : UInt8) : Option Depth :=
  if depth.round = 0 then none
  else
    match Bracket.closing? byte with
    | some bracket => some (depth.update bracket (· + 1))
    | none =>
      match Bracket.opening? byte with
      | some bracket => if depth.count bracket = 0 then none else some (depth.update bracket (· - 1))
      | none => some depth

def walkInside (depth : Depth) (bytes : List UInt8) : Option Depth := bytes.foldlM stepInside depth

theorem walkInside_append (depth : Depth) (left right : List UInt8) :
    walkInside depth (left ++ right) = (walkInside depth left).bind fun next => walkInside next right :=
  List.foldlM_append ..

theorem walkInside_plain (depth : Depth) (inside : depth.round ≠ 0) (bytes : List UInt8)
    (plain : ∀ byte ∈ bytes, Bracket.closing? byte = none ∧ Bracket.opening? byte = none) :
    walkInside depth bytes = some depth := by
  induction bytes with
  | nil => rfl
  | cons byte bytes ih =>
    obtain ⟨noClosing, noOpening⟩ := plain byte List.mem_cons_self
    have step : stepInside depth byte = some depth := by simp [stepInside, inside, noClosing, noOpening]
    rw [walkInside, List.foldlM_cons, step]
    exact ih fun other member => plain other (List.mem_cons_of_mem byte member)

theorem walkInside_closer (depth : Depth) (inside : depth.round ≠ 0) (bracket : Bracket) :
    walkInside depth bracket.closer.bytes.reverse = some (depth.update bracket (· + 1)) := by
  obtain ⟨byte, bytes, closing⟩ := bracket.bytes_of_closer
  rw [bytes]
  simp [walkInside, stepInside, inside, closing]

theorem walkInside_opener (depth : Depth) (inside : depth.round ≠ 0) (bracket : Bracket) :
    walkInside (depth.update bracket (· + 1)) bracket.opener.bytes.reverse = some depth := by
  obtain ⟨byte, bytes, opening⟩ := bracket.bytes_of_opener
  have noClosing := closing?_of_opening? byte bracket opening
  rw [bytes]
  cases bracket <;> simp [walkInside, stepInside, inside, opening, noClosing, Depth.update, Depth.count]

theorem walkInside_nested (text : Text) (nested : Nested Bracket.all text) (depth : Depth) (inside : depth.round ≠ 0) :
    walkInside depth (Text.encode text).reverse = some depth := by
  induction nested generalizing depth with
  | nil => rfl
  | plain symbol rest apart tail ih =>
    rw [Text.encode_cons, List.reverse_append, walkInside_append, ih depth inside]
    apply walkInside_plain depth inside
    intro byte member
    have owned := List.mem_reverse.mp member
    constructor
    · cases closing : Bracket.closing? byte with
      | none => rfl
      | some bracket =>
        exact absurd (Bracket.closer_of_mem_bytes symbol byte owned bracket closing) (apart bracket bracket.mem_all).2
    · cases opening : Bracket.opening? byte with
      | none => rfl
      | some bracket =>
        exact absurd (Bracket.opener_of_mem_bytes symbol byte owned bracket opening) (apart bracket bracket.mem_all).1
  | group bracket inner rest counted within tail innerIh restIh =>
    -- From right to left the closing bracket comes first and makes the depth greater.
    have deeper : (depth.update bracket (· + 1)).round ≠ 0 := by
      cases bracket <;> simp [Depth.update, inside]
    simp only [Text.encode_cons, Text.encode_append, List.reverse_append, walkInside_append]
    rw [restIh depth inside, Option.bind_some, walkInside_closer depth inside bracket, Option.bind_some,
      innerIh _ deeper, Option.bind_some, walkInside_opener depth inside bracket]

/-- Whether the scan looks at a cell when the cursor is in no string. -/
def isCode (cell : Cell) : Bool := !cell.isHidden false

theorem advance_inside (boundary : KindSet) (depth next : Depth) (cell : Cell) (code : isCode cell = true)
    (stepped : stepInside depth cell.byte = some next) :
    advance boundary false ⟨depth, false⟩ cell = some ⟨next, false⟩ := by
  have visible : cell.isHidden false = false := by simpa [isCode] using code
  unfold stepInside at stepped
  split at stepped
  · contradiction
  · next inside =>
    have deep : depth ≠ Depth.zero := by
      rintro rfl
      exact inside rfl
    unfold advance
    cases cell.role false with
    | hidden hidden =>
      rw [visible] at hidden
      contradiction
    | closing visible bracket closing =>
      rw [closing] at stepped
      rw [visit_closing _ _ _ cell bracket visible closing, if_neg (by simp [inside]), ← Option.some.inj stepped]
      simp
    | opening visible bracket opening =>
      simp only [closing?_of_opening? _ bracket opening, opening] at stepped
      split at stepped
      · contradiction
      · next waiting =>
        rw [visit_opening _ _ _ cell bracket visible opening, if_neg waiting, ← Option.some.inj stepped]
        simp
    | plain visible noOpening noClosing =>
      simp only [noClosing, noOpening] at stepped
      rw [visit_plain _ _ _ cell visible noOpening noClosing, if_pos deep, ← Option.some.inj stepped]
      simp

theorem run_of_walkInside (boundary : KindSet) (depth next : Depth) (cells : List Cell)
    (walked : walkInside depth ((cells.filter isCode).map Cell.byte) = some next) :
    run boundary false ⟨depth, false⟩ cells = some ⟨next, false⟩ := by
  induction cells generalizing depth with
  | nil =>
    obtain rfl := Option.some.inj walked
    rfl
  | cons cell cells ih =>
    rw [run_cons]
    cases code : isCode cell with
    | false =>
      have hidden : cell.isHidden false = true := by simpa [isCode] using code
      have kept : advance boundary false ⟨depth, false⟩ cell = some ⟨depth, false⟩ := by
        unfold advance
        rw [visit_hidden _ _ _ cell hidden]
        simp
      rw [List.filter_cons_of_neg (by simp [code])] at walked
      rw [kept]
      exact ih depth walked
    | true =>
      rw [List.filter_cons_of_pos code, List.map_cons, walkInside, List.foldlM_cons] at walked
      obtain ⟨middle, stepped, rest⟩ := Option.bind_eq_some_iff.mp walked
      rw [advance_inside boundary depth middle cell code stepped]
      exact ih middle rest

theorem code_of_cells (before : Option TokenKind) (pieces : List (TokenKind × Text)) :
    ((cells before pieces).filter isCode).map Cell.byte = (Text.encode (bare pieces)).reverse := by
  induction pieces generalizing before with
  | nil => rfl
  | cons piece pieces ih =>
    rw [cells_cons, List.filter_append, List.map_append, ih]
    cases comment : piece.1.isComment with
    | true =>
      have hidden : (pieceCells before piece).filter isCode = [] := by
        simp [pieceCells, isCode, Cell.isHidden, comment]
      rw [hidden]
      simp [bare, comment]
    | false =>
      have shown : (pieceCells before piece).filter isCode = pieceCells before piece := by
        simp [pieceCells, isCode, Cell.isHidden, comment]
      rw [shown, bare_cons _ _ comment, Text.encode_append, List.reverse_append]
      simp [pieceCells, Function.comp_def]

/-- A scan outside all brackets passes some pieces; the flags say whether it is in a static name. -/
def Passes (pieces : List (TokenKind × Text)) (inStaticName next : Bool) : Prop :=
  ∀ before, run KindSet.boundary false ⟨Depth.zero, inStaticName⟩ (cells before pieces) = some ⟨Depth.zero, next⟩

theorem Passes.append {left right : List (TokenKind × Text)} {inStaticName middle next : Bool}
    (second : Passes right inStaticName middle) (first : Passes left middle next) :
    Passes (left ++ right) inStaticName next := by
  intro before
  rw [cells_append, run_append, second, Option.bind_some, first]

theorem passes_nil (inStaticName : Bool) : Passes [] inStaticName inStaticName := fun _ => rfl

section Bracketed
variable (boundary : KindSet) (before : Option TokenKind) (inner : List (TokenKind × Text))

/-- A scan passes code in round brackets, and comes out of them as it came in. -/
theorem run_bracketed (depth : Depth) (nested : Nested Bracket.all (bare inner)) :
    run boundary false ⟨depth, false⟩ (cells before (Written.bracketed inner)) = some ⟨depth, false⟩ := by
  -- From right to left the closing bracket comes first, so the code in between is met inside.
  let inside := depth.update .round (· + 1)
  have walked := walkInside_nested _ nested inside (Nat.succ_ne_zero depth.round)
  rw [← code_of_cells (some .character)] at walked
  have closed : ∀ kind, run boundary false ⟨depth, false⟩ (cells kind [(.character, [.char ')'])]) =
      some ⟨inside, false⟩ := fun _ => rfl
  have opened : run boundary false ⟨inside, false⟩ (pieceCells before (.character, [.char '('])) =
      some ⟨depth, false⟩ := rfl
  rw [Written.bracketed, cells_cons, cells_append, run_append, run_append, closed, Option.bind_some,
    run_of_walkInside _ _ _ _ walked, Option.bind_some, opened]

/-- A bracket ends a static class name. -/
theorem run_bracketed_of_static (depth : Depth) :
    run boundary false ⟨depth, true⟩ (cells before (Written.bracketed inner)) = none := by
  have stopped : ∀ kind, run boundary false ⟨depth, true⟩ (cells kind [(.character, [.char ')'])]) = none :=
    fun _ => rfl
  rw [Written.bracketed, cells_cons, cells_append, run_append, run_append, stopped]
  rfl

end Bracketed

theorem passes_bracketed (inner : List (TokenKind × Text)) (nested : Nested Bracket.all (bare inner)) :
    Passes (Written.bracketed inner) false false :=
  fun before => run_bracketed KindSet.boundary before inner Depth.zero nested

/-- The characters that can end an expression or open and close a group in it. -/
def marks : List Char := Bracket.characters ++ ['.', ',', '?', ';', ':']

theorem plain_of_not_mem (text : Text) (absent : ∀ mark ∈ marks, Sym.char mark ∉ text) (byte : UInt8)
    (member : byte ∈ Text.encode text) : IsPlain byte := by
  obtain ⟨symbol, inside, owned⟩ := List.mem_flatMap.mp member
  have other : ∀ mark ∈ marks, mark.toNat < 0x80 → byte ≠ UInt8.ofNat mark.toNat := by
    intro mark listed low same
    rw [same] at owned
    rw [Text.eq_char_of_mem_bytes symbol mark low owned] at inside
    exact absent mark listed inside
  have closings : byte ≠ 0x29 ∧ byte ≠ 0x5D ∧ byte ≠ 0x7D :=
    ⟨other ')' (by decide) (by decide), other ']' (by decide) (by decide), other '}' (by decide) (by decide)⟩
  have openings : byte ≠ 0x28 ∧ byte ≠ 0x5B ∧ byte ≠ 0x7B :=
    ⟨other '(' (by decide) (by decide), other '[' (by decide) (by decide), other '{' (by decide) (by decide)⟩
  have ends : byte ≠ 0x2E ∧ byte ≠ 0x2C ∧ byte ≠ 0x3F ∧ byte ≠ 0x3B :=
    ⟨other '.' (by decide) (by decide), other ',' (by decide) (by decide), other '?' (by decide) (by decide),
      other ';' (by decide) (by decide)⟩
  refine ⟨?_, ?_, ?_, other ':' (by decide) (by decide)⟩
  · simp [Bracket.closing?, closings]
  · simp [Bracket.opening?, openings]
  · simp [delimiters, ends]

/-- A token without any mark is passed; within a static name it has to be a part of one. -/
theorem passes_word (kind : TokenKind) (text : Text) (inStaticName : Bool) (code : kind.isComment = false)
    (within : KindSet.boundary.contains kind = false) (noColons : kind ≠ .doubleColon)
    (absent : ∀ mark ∈ marks, Sym.char mark ∉ text)
    (named : inStaticName = true → staticNameKinds.contains kind = true) :
    Passes [(kind, text)] inStaticName inStaticName := by
  intro before
  have plain := plain_of_not_mem text absent
  have same : cells before [(kind, text)] = pieceCells before (kind, text) := List.nil_append _
  rw [same, pieceCells]
  have listed : ∀ byte ∈ (Text.encode text).reverse, byte ∈ Text.encode text := fun _ => List.mem_reverse.mp
  generalize (Text.encode text).reverse = bytes at listed
  induction bytes with
  | nil => rfl
  | cons byte bytes ih =>
    have here := plain byte (listed byte List.mem_cons_self)
    have visible : Cell.isHidden false ⟨byte, some kind, before⟩ = false := by simp [Cell.isHidden, code]
    have step : advance KindSet.boundary false ⟨Depth.zero, inStaticName⟩ ⟨byte, some kind, before⟩ =
        some ⟨Depth.zero, inStaticName⟩ := by
      unfold advance
      have goesOn := (here.isBoundary KindSet.boundary (some kind) before).trans within
      rw [visit_past _ _ _ ⟨byte, some kind, before⟩ visible here.noOpening here.noClosing rfl goesOn]
      cases inStaticName with
      | false => simp [noColons]
      | true =>
        have part := named rfl
        simp [List.contains_iff_mem.mp part]
    rw [List.map_cons, run_cons, step]
    exact ih fun other member => listed other (List.mem_cons_of_mem byte member)

theorem passes_colons (inStaticName : Bool) :
    Passes [(.doubleColon, Text.ofChars [':', ':'])] inStaticName true := by
  intro before
  cases inStaticName with
  | false => rfl
  | true => rfl

end Expression

open Expression

namespace Written

theorem unmarked_name (name : Name) : ∀ mark ∈ marks, Sym.char mark ∉ name.text := by
  have other : ∀ mark ∈ marks, Extent.isNameChar (.char mark) = false :=
    List.all_iff_forall_prop.mp (by decide)
  exact fun mark listed => name.not_mem_text mark (other mark listed)

theorem passes_name (name : Name) (inStaticName : Bool) :
    Passes [(.identifier, name.text)] inStaticName inStaticName :=
  passes_word .identifier name.text inStaticName rfl rfl (by decide) (unmarked_name name) fun _ => rfl

theorem passes_class (root : ClassName) (inStaticName : Bool) : Passes root.pieces inStaticName inStaticName := by
  have separator : Passes [(.namespaceSeparator, [.char '\\'])] inStaticName inStaticName :=
    passes_word _ _ inStaticName rfl rfl (by decide) (Text.not_mem_ofChars marks ['\\'] rfl) fun _ => rfl
  cases root with
  | static word reserved =>
    exact passes_word _ word.text inStaticName rfl rfl (by decide) (unmarked_name word) fun _ => rfl
  | qualified rooted name more free =>
    have parts : Passes (more.flatMap fun part => [(.namespaceSeparator, [.char '\\']), (.identifier, part.text)])
        inStaticName inStaticName := by
      clear free
      induction more with
      | nil => exact passes_nil inStaticName
      | cons part more ih => exact ih.append ((passes_name part inStaticName).append separator)
    have named := parts.append (passes_name name inStaticName)
    cases rooted with
    | false => exact named
    | true => exact named.append separator

theorem passes_call (call : Option Call) : Passes (callPieces call) false false := by
  cases call with
  | none => exact passes_nil false
  | some call =>
    apply passes_bracketed
    rw [Call.inner, ← textWithoutComments_eq_bare]
    exact call.nested

theorem passes_member (member : Member) : Passes member.pieces false false :=
  (passes_call member.call).append (passes_name member.name false)

theorem passes_members (members : List Member) : Passes (memberPieces members) false false := by
  have arrow : Passes [(.objectOperator, Text.ofChars ['-', '>'])] false false :=
    passes_word _ _ false rfl rfl (by decide) (Text.not_mem_ofChars marks _ rfl) (by decide)
  induction members with
  | nil => exact passes_nil false
  | cons member members ih => exact ih.append ((passes_member member).append arrow)

theorem passes_constants (constants : List Name) : Passes (constantPieces constants) true true := by
  induction constants with
  | nil => exact passes_nil true
  | cons name constants ih => exact ih.append ((passes_name name true).append (passes_colons true))

theorem passes_base (base : Base) : Passes base.pieces false base.isScoped := by
  cases base with
  | var name =>
    have sign : ∀ mark ∈ marks, mark ≠ '$' := List.all_iff_forall_prop.mp (by decide)
    refine passes_word .varName _ false rfl rfl (by decide) ?_ (by decide)
    intro mark listed member
    rcases List.mem_cons.mp member with first | later
    · exact sign mark listed (Sym.char.inj first)
    · exact unmarked_name name mark listed later
  | path root call => exact (passes_call call).append (passes_class root false)
  | scope root constants last =>
    have final := (passes_member last).append (passes_colons false)
    exact final.append ((passes_constants constants).append (passes_class root true))
  | creation gap apart root call =>
    apply passes_bracketed
    rw [bare_innerBase]
    exact nested_unwrapped Call.bare Call.nested _

theorem passes_pieces (written : Written) : Passes written.pieces false written.base.isScoped :=
  (passes_members written.members).append (passes_base written.base)

/-! The cursor behind a chain is in no string. -/

def EndsInCode (pieces : List (TokenKind × Text)) : Prop :=
  ∃ piece, pieces.getLast? = some piece ∧ piece.1 ≠ .stringLiteral

theorem EndsInCode.append {right : List (TokenKind × Text)} (ends : EndsInCode right)
    (left : List (TokenKind × Text)) : EndsInCode (left ++ right) := by
  obtain ⟨piece, last, code⟩ := ends
  exact ⟨piece, by rw [List.getLast?_append, last]; rfl, code⟩

theorem EndsInCode.parts {Part : Type} {front : List (TokenKind × Text)} (ends : EndsInCode front)
    (cut : Part → List (TokenKind × Text)) (each : ∀ part, EndsInCode (cut part)) (parts : List Part) :
    EndsInCode (front ++ parts.flatMap cut) := by
  induction parts generalizing front with
  | nil =>
    rw [List.flatMap_nil, List.append_nil]
    exact ends
  | cons part parts ih =>
    rw [List.flatMap_cons, ← List.append_assoc]
    exact ih ((each part).append front)

theorem EndsInCode.call {front : List (TokenKind × Text)} (ends : EndsInCode front) (call : Option Call) :
    EndsInCode (front ++ callPieces call) := by
  cases call with
  | none =>
    rw [callPieces, List.append_nil]
    exact ends
  | some call =>
    have closing : EndsInCode [(.character, [.char ')'])] := ⟨_, rfl, by decide⟩
    exact (closing.append ((.character, [.char '(']) :: call.inner)).append front

theorem endsInCode_name (name : Name) : EndsInCode [(.identifier, name.text)] := ⟨_, rfl, TokenKind.noConfusion⟩

theorem endsInCode_class (root : ClassName) : EndsInCode root.pieces := by
  cases root with
  | static word reserved => exact ⟨_, rfl, TokenKind.noConfusion⟩
  | qualified rooted name more free =>
    have named := (endsInCode_name name).append (if rooted then [(.namespaceSeparator, [.char '\\'])] else [])
    exact named.parts _ (fun part => (endsInCode_name part).append [(.namespaceSeparator, [.char '\\'])]) more

theorem endsInCode_member (member : Member) : EndsInCode member.pieces :=
  (endsInCode_name member.name).call member.call

theorem endsInCode_base (base : Base) : EndsInCode base.pieces := by
  cases base with
  | var name => exact ⟨_, rfl, TokenKind.noConfusion⟩
  | path root call => exact (endsInCode_class root).call call
  | scope root constants last =>
    have final := (endsInCode_member last).append [(.doubleColon, Text.ofChars [':', ':'])]
    exact final.append (root.pieces ++ constantPieces constants)
  | creation gap apart root call =>
    have closing : EndsInCode [(.character, [.char ')'])] := ⟨_, rfl, by decide⟩
    exact closing.append ((.character, [.char '(']) :: (Base.creation gap apart root call).innerPieces)

theorem endsInString_written (written : Written) (before : List (TokenKind × Text)) :
    endsInString (before ++ written.pieces) = false := by
  have ends : EndsInCode written.pieces := (endsInCode_base written.base).parts _
    (fun member => (endsInCode_member member).append [(.objectOperator, Text.ofChars ['-', '>'])]) written.members
  obtain ⟨piece, last, code⟩ := ends.append before
  rw [endsInString, last]
  simp [code]

end Written
end AccessChain
