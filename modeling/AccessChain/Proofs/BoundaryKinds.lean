import AccessChain.Proofs.BeforeCursor

/-! More boundary kinds. Two scans of the same bytes make the same progress until the one with more boundary kinds
stops, so it never stops earlier in the source, and where it stops first it has come to a token of an added kind. -/
namespace AccessChain.Expression

/-- The byte belongs to a token of a kind that is in the larger set only. -/
def Cell.IsAdded (fewer more : KindSet) (cell : Cell) : Prop :=
  ∃ kind ∈ more, kind ∉ fewer ∧ cell.kind = some kind

section Subset
variable (fewer more : KindSet) (subset : fewer ⊆ more) (inString : Bool)
include subset

theorem isBoundary_of_subset (cell : Cell) (ends : cell.isBoundary fewer = true) : cell.isBoundary more = true := by
  simp only [Cell.isBoundary, Bool.or_eq_true, Option.any_eq_true] at ends ⊢
  rcases ends with (delimits | ⟨kind, same, listed⟩) | colon
  · exact .inl (.inl delimits)
  · exact .inl (.inr ⟨kind, same, List.contains_iff_mem.mpr (subset (List.contains_iff_mem.mp listed))⟩)
  · exact .inr colon

omit subset in
theorem isAdded_of_isBoundary (cell : Cell) (ends : cell.isBoundary more = true) (goesOn : cell.isBoundary fewer = false) :
    cell.IsAdded fewer more := by
  simp only [Cell.isBoundary, Bool.or_eq_false_iff, Option.any_eq_false] at goesOn
  obtain ⟨⟨noDelimiter, noKind⟩, noColon⟩ := goesOn
  simp only [Cell.isBoundary, noDelimiter, noColon, Bool.false_or, Bool.or_false, Option.any_eq_true] at ends
  obtain ⟨kind, same, listed⟩ := ends
  refine ⟨kind, List.contains_iff_mem.mp listed, fun member => ?_, same⟩
  have absent := noKind kind same
  rw [List.contains_iff_mem.mpr member] at absent
  contradiction

/-- The boundary kinds matter to a visit only in that one of more kinds stops where one of fewer goes on. -/
theorem visit_of_subset (progress : Progress) (cell : Cell) :
    visit fewer inString progress cell = visit more inString progress cell ∨
      visit more inString progress cell = none ∧ cell.IsAdded fewer more := by
  cases cell.role inString with
  | hidden hidden =>
    rw [visit_hidden fewer inString progress cell hidden, visit_hidden more inString progress cell hidden]
    exact .inl rfl
  | closing visible bracket closing =>
    rw [visit_closing fewer inString progress cell bracket visible closing,
      visit_closing more inString progress cell bracket visible closing]
    exact .inl rfl
  | opening visible bracket opening =>
    rw [visit_opening fewer inString progress cell bracket visible opening,
      visit_opening more inString progress cell bracket visible opening]
    exact .inl rfl
  | plain visible noOpening noClosing =>
    rw [visit_plain fewer inString progress cell visible noOpening noClosing,
      visit_plain more inString progress cell visible noOpening noClosing]
    by_cases inside : progress.depth ≠ Depth.zero
    · rw [if_pos inside, if_pos inside]
      exact .inl rfl
    rw [if_neg inside, if_neg inside]
    cases ends : cell.isBoundary more with
    | false =>
      have goesOn : cell.isBoundary fewer = false :=
        eq_false_of_ne_true fun also => Bool.false_ne_true
          (ends.symm.trans (isBoundary_of_subset fewer more subset cell also))
      rw [goesOn]
      exact .inl rfl
    | true =>
      cases also : cell.isBoundary fewer with
      | true => exact .inl rfl
      | false => exact .inr ⟨rfl, isAdded_of_isBoundary fewer more cell ends also⟩

theorem advance_of_subset (progress : Progress) (cell : Cell) :
    advance fewer inString progress cell = advance more inString progress cell ∨
      advance more inString progress cell = none ∧ cell.IsAdded fewer more := by
  rcases visit_of_subset fewer more subset inString progress cell with same | ⟨stopped, added⟩
  · exact .inl (by rw [advance, advance, same])
  · exact .inr ⟨by rw [advance, stopped, Option.filter_none], added⟩

/-- The scans end at the same place, or the one of more kinds ends right behind a byte of an added kind and the other
goes on in front of it. -/
theorem scan_of_subset (progress : Progress) (cells : List Cell) :
    scan fewer inString progress cells = scan more inString progress cells ∨
      ∃ later cell earlier, cells = later ++ cell :: earlier ∧ cell.IsAdded fewer more ∧
        scan more inString progress cells = earlier.length + 1 ∧
        scan fewer inString progress cells ≤ earlier.length + 1 := by
  induction cells generalizing progress with
  | nil => exact .inl rfl
  | cons cell cells ih =>
    rw [scan, scan]
    rcases advance_of_subset fewer more subset inString progress cell with same | ⟨stopped, added⟩
    · rw [same]
      cases advance more inString progress cell with
      | none => exact .inl rfl
      | some next =>
        rcases ih next with together | ⟨later, other, earlier, rfl, added, ends, bound⟩
        · exact .inl together
        · exact .inr ⟨cell :: later, other, earlier, rfl, added, ends, bound⟩
    · refine .inr ⟨[], cell, cells, rfl, added, by rw [stopped], ?_⟩
      exact scan_le_length fewer inString progress (cell :: cells)

end Subset
end AccessChain.Expression

namespace AccessChain
open Expression

theorem startBefore_of_subset (tokenizer : Tokenizer) (fewer more : KindSet) (subset : fewer ⊆ more) (code : List UInt8) :
    Scanner.startBefore ⟨fewer, tokenizer⟩ code = Scanner.startBefore ⟨more, tokenizer⟩ code ∨
      ∃ cell, (layout (tokenizer (Text.decode code)).reverse code.reverse)[code.length -
          Scanner.startBefore ⟨more, tokenizer⟩ code]? = some cell ∧ cell.IsAdded fewer more ∧
        Scanner.startBefore ⟨fewer, tokenizer⟩ code ≤ Scanner.startBefore ⟨more, tokenizer⟩ code := by
  unfold Scanner.startBefore
  split
  · exact .inl rfl
  · rcases scan_of_subset fewer more subset _ ⟨Depth.zero, false⟩
      (layout (tokenizer (Text.decode code)).reverse code.reverse) with same | ⟨later, cell, earlier, cut, added, ends, bound⟩
    · exact .inl same
    · have size : later.length + (earlier.length + 1) = code.length := by
        rw [← List.length_cons, ← List.length_append, ← cut, length_layout, List.length_reverse]
      have place : code.length - (earlier.length + 1) = later.length := by omega
      rw [startIn, startIn, ends, place]
      refine .inr ⟨cell, ?_, added, bound⟩
      rw [cut, List.getElem?_append_right (Nat.le_refl _), Nat.sub_self]
      rfl

/-- More boundary kinds make an expression start at the same place or later, whatever the tokens are. If it starts
later, the byte before it belongs to a token of an added kind. -/
theorem expressionStart_mono (tokenizer : Tokenizer) (fewer more : KindSet) (subset : fewer ⊆ more) (source : Text)
    (cursor : Option Int) (code : List UInt8) (sees : Scanner.Sees source cursor code) :
    ∃ first second, Scanner.expressionStart ⟨fewer, tokenizer⟩ source cursor = .ok first ∧
      Scanner.expressionStart ⟨more, tokenizer⟩ source cursor = .ok second ∧ first ≤ second ∧
      (first < second → ∃ cell, (layout (tokenizer (Text.decode code)).reverse code.reverse)[code.length - second]? =
        some cell ∧ cell.IsAdded fewer more) := by
  refine ⟨_, _, sees.expressionStart ⟨fewer, tokenizer⟩, sees.expressionStart ⟨more, tokenizer⟩, ?_⟩
  rcases startBefore_of_subset tokenizer fewer more subset code with same | ⟨cell, found, added, bound⟩
  · exact ⟨Nat.le_of_eq same, fun later => absurd same (Nat.ne_of_lt later)⟩
  · exact ⟨bound, fun _ => ⟨cell, found, added⟩⟩

/-- An equals sign is of the added kind, and so is the one in brackets, which ends nothing. The cursor stands in front
of the last member. -/
theorem expressionStart_mono_of_sign :
    KindSet.boundary ⊆ KindSet.boundary.adding [.character] ∧
      Scanner.Sees (Text.ofString "$a=f(1=2)->b->c") (some 12) (Text.encode (Text.ofString "$a=f(1=2)->b")) ∧
      ∃ first second,
        Scanner.expressionStart ⟨KindSet.boundary, tokenize⟩ (Text.ofString "$a=f(1=2)->b->c") (some 12) = .ok first ∧
        Scanner.expressionStart ⟨KindSet.boundary.adding [.character], tokenize⟩ (Text.ofString "$a=f(1=2)->b->c")
          (some 12) = .ok second ∧ first ≤ second ∧ first = 0 ∧ second = 3 := by
  have subset : KindSet.boundary ⊆ KindSet.boundary.adding [.character] := List.subset_append_left _ _
  have sees : Scanner.Sees (Text.ofString "$a=f(1=2)->b->c") (some 12) (Text.encode (Text.ofString "$a=f(1=2)->b")) :=
    ⟨12, rfl, by decide +kernel, by decide +kernel⟩
  obtain ⟨first, second, one, other, ordered, _⟩ := expressionStart_mono tokenize _ _ subset _ _ _ sees
  have start : Scanner.startBefore ⟨KindSet.boundary, tokenize⟩ (Text.encode (Text.ofString "$a=f(1=2)->b")) = 0 := by
    decide +kernel
  have startMore : Scanner.startBefore ⟨KindSet.boundary.adding [.character], tokenize⟩
      (Text.encode (Text.ofString "$a=f(1=2)->b")) = 3 := by decide +kernel
  have shown := sees.expressionStart ⟨KindSet.boundary, tokenize⟩
  have shownMore := sees.expressionStart ⟨KindSet.boundary.adding [.character], tokenize⟩
  rw [start] at shown
  rw [startMore] at shownMore
  exact ⟨subset, sees, first, second, one, other, ordered, Except.ok.inj (one.symm.trans shown),
    Except.ok.inj (other.symm.trans shownMore)⟩

end AccessChain
