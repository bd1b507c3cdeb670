import AccessChain.Proofs.OpenGroups
import AccessChain.Proofs.WrittenSegments
import Mathlib.Data.List.Infix

/-! Where a text falls apart. It does so at each of its access operators, so texts with an operator between them fall
apart by themselves. Emptying some kinds of bracket hides the operators in them and no others. -/
namespace AccessChain

namespace Chain

section Split
variable (first second : Sym)

theorem split_match (text : Text) : split first second (first :: second :: text) = [] :: split first second text := by
  simp [split]

theorem split_ne_nil (text : Text) : split first second text ≠ [] := by
  fun_induction split first second text <;> simp_all

theorem split_cons (symbol : Sym) (text : Text) (apart : ¬ (symbol = first ∧ text.head? = some second)) :
    split first second (symbol :: text) = (split first second text).modifyHead (symbol :: ·) := by
  cases text with
  | nil => rfl
  | cons next text =>
    have other : ¬ (symbol = first ∧ next = second) := by simpa using apart
    rw [split, if_neg (by simpa using other)]
    cases parts : split first second (next :: text) with
    | nil => exact absurd parts (split_ne_nil first second _)
    | cons piece pieces => rfl

/-- Induction along a split: an occurrence of both symbols is taken at once. -/
theorem split_induction {motive : Text → Prop} (nil : motive [])
    (cut : ∀ text, motive text → motive (first :: second :: text))
    (cons : ∀ symbol text, ¬ (symbol = first ∧ text.head? = some second) → motive text → motive (symbol :: text))
    (text : Text) : motive text := by
  fun_induction split first second text with
  | case1 => exact nil
  | case2 symbol => exact cons symbol [] (by simp) nil
  | case3 symbol next rest both ih =>
    obtain ⟨rfl, rfl⟩ : symbol = first ∧ next = second := by simpa using both
    exact cut rest ih
  | case4 symbol next rest other _ ih => exact cons symbol _ (by simpa using other) ih
  | case5 symbol next rest other piece pieces _ ih => exact cons symbol _ (by simpa using other) ih

theorem split_of_length (text : Text) (single : (split first second text).length = 1) :
    split first second text = [text] := by
  induction text using split_induction first second with
  | nil => rfl
  | cut text ih =>
    have held := List.length_pos_iff.mpr (split_ne_nil first second text)
    rw [split_match, List.length_cons] at single
    omega
  | cons symbol text other ih =>
    rw [split_cons first second symbol text other, List.length_modifyHead] at single
    rw [split_cons first second symbol text other, ih single]
    rfl

theorem length_split_eq_one_iff (text : Text) : (split first second text).length = 1 ↔ ¬ [first, second] <:+: text := by
  induction text using split_induction first second with
  | nil => simp [split]
  | cut text ih =>
    have held := List.length_pos_iff.mpr (split_ne_nil first second text)
    rw [split_match, List.length_cons]
    exact iff_of_false (by omega) (not_not_intro ⟨[], text, rfl⟩)
  | cons symbol text other ih =>
    have here : ¬ [first, second] <+: symbol :: text := by
      intro starts
      obtain ⟨rest, same⟩ := starts
      obtain ⟨rfl, rfl⟩ := List.cons.inj same
      exact other ⟨rfl, rfl⟩
    rw [split_cons first second symbol text other, List.length_modifyHead, ih, List.infix_cons_iff, not_or,
      and_iff_right here]

theorem split_join (left right : Text) (apart : first = second → left.getLast? ≠ some first) :
    split first second (left ++ first :: second :: right) = split first second left ++ split first second right := by
  induction left using split_induction first second with
  | nil => exact split_match first second right
  | cut text ih =>
    rw [List.cons_append, List.cons_append, split_match, split_match, ih, List.cons_append]
    intro same
    have last := apart same
    cases text with
    | nil => simp
    | cons symbol text => simpa using last
  | cons symbol text other ih =>
    have here : ¬ (symbol = first ∧ (text ++ first :: second :: right).head? = some second) := by
      rintro ⟨rfl, headed⟩
      cases text with
      | nil =>
        obtain rfl : symbol = second := by simpa using headed
        exact apart rfl rfl
      | cons next text => exact other ⟨rfl, headed⟩
    rw [List.cons_append, split_cons first second symbol _ here, split_cons first second symbol _ other, ih]
    · cases parts : split first second text with
      | nil => exact absurd parts (split_ne_nil first second _)
      | cons piece pieces => rfl
    · intro same
      have last := apart same
      cases text with
      | nil => simp
      | cons next text => simpa using last

/-- Where no occurrence goes over from one text to the next, the last piece of the one and the first piece of the other
are put together. -/
theorem split_front (left right : Text) (apart : right.head? ≠ some second) :
    ∃ init last : _, split first second left = init ++ [last] ∧ last <:+ left ∧
      ∀ head tail, split first second right = head :: tail →
        split first second (left ++ right) = init ++ (last ++ head) :: tail := by
  induction left using split_induction first second with
  | nil => exact ⟨[], [], rfl, List.suffix_refl _, fun head tail parts => parts⟩
  | cut text ih =>
    obtain ⟨init, last, parts, suffix, glued⟩ := ih
    refine ⟨[] :: init, last, ?_, suffix.trans ((List.suffix_cons _ _).trans (List.suffix_cons _ _)), ?_⟩
    · rw [split_match, parts, List.cons_append]
    · intro head tail same
      rw [List.cons_append, List.cons_append, split_match, glued head tail same, List.cons_append]
  | cons symbol text other ih =>
    obtain ⟨init, last, parts, suffix, glued⟩ := ih
    have here : ¬ (symbol = first ∧ (text ++ right).head? = some second) := by
      rintro ⟨rfl, headed⟩
      cases text with
      | nil => exact apart headed
      | cons next text => exact other ⟨rfl, headed⟩
    cases init with
    | nil =>
      refine ⟨[], symbol :: last, ?_, ?_, ?_⟩
      · rw [split_cons first second symbol text other, parts]
        rfl
      · have whole := split_of_length first second text (by rw [parts]; rfl)
        obtain rfl : last = text := by simpa [parts] using whole
        exact List.suffix_refl _
      · intro head tail same
        rw [List.cons_append, split_cons first second symbol _ here, glued head tail same]
        rfl
    | cons piece init =>
      refine ⟨(symbol :: piece) :: init, last, ?_, suffix.trans (List.suffix_cons _ _), ?_⟩
      · rw [split_cons first second symbol text other, parts]
        rfl
      · intro head tail same
        rw [List.cons_append, split_cons first second symbol _ here, glued head tail same]
        rfl

end Split

theorem pieces_ne_nil (text : Text) : pieces text ≠ [] := by
  intro empty
  obtain ⟨piece, others, parts⟩ := List.exists_cons_of_ne_nil (split_ne_nil (.char '-') (.char '>') text)
  rw [pieces, parts, List.flatMap_cons] at empty
  exact split_ne_nil _ _ piece (List.append_eq_nil_iff.mp empty).1

theorem pieces_arrow (left right : Text) :
    pieces (left ++ (Text.ofChars ['-', '>'] ++ right)) = pieces left ++ pieces right := by
  have parts := split_join (.char '-') (.char '>') left right fun same => absurd same (by decide)
  rw [pieces, pieces, pieces, ← List.flatMap_append, ← parts]
  rfl

theorem pieces_colons (left right : Text) (apart : left.getLast? ≠ some (.char ':')) :
    pieces (left ++ (Text.ofChars [':', ':'] ++ right)) = pieces left ++ pieces right := by
  obtain ⟨head, tail, parts⟩ := List.exists_cons_of_ne_nil (split_ne_nil (.char '-') (.char '>') right)
  obtain ⟨init, last, front, suffix, glued⟩ :=
    split_front (.char '-') (.char '>') left (Text.ofChars [':', ':'] ++ right) (by simp [Text.ofChars])
  have colons : split (.char '-') (.char '>') (Text.ofChars [':', ':'] ++ right) =
      (.char ':' :: .char ':' :: head) :: tail := by
    have first := split_cons (.char '-') (.char '>') (.char ':') right (by simp)
    have both := split_cons (.char '-') (.char '>') (.char ':') (.char ':' :: right) (by simp)
    rw [first, parts] at both
    exact both
  have ends : last.getLast? ≠ some (.char ':') := by
    intro colon
    obtain ⟨front, same⟩ := suffix
    apply apart
    rw [← same, List.getLast?_append, colon]
    rfl
  have middle := split_join (.char ':') (.char ':') last head fun _ => ends
  rw [pieces, pieces, pieces, glued _ _ colons, front, parts]
  simp only [List.flatMap_append, List.flatMap_cons, List.flatMap_nil, List.append_nil, middle, List.append_assoc]

/-- The access operators. -/
def operators : List (List Char) := [['-', '>'], [':', ':']]

theorem length_le_flatMap {Part : Type} (cut : Part → List Text) (held : ∀ part, cut part ≠ []) (parts : List Part) :
    parts.length ≤ (parts.flatMap cut).length := by
  induction parts with
  | nil => exact Nat.le_refl 0
  | cons part parts ih =>
    have here := List.length_pos_iff.mpr (held part)
    rw [List.flatMap_cons, List.length_append, List.length_cons]
    omega

theorem length_flatMap_eq_iff {Part : Type} (cut : Part → List Text) (held : ∀ part, cut part ≠ []) (parts : List Part) :
    (parts.flatMap cut).length = parts.length ↔ ∀ part ∈ parts, (cut part).length = 1 := by
  induction parts with
  | nil => simp
  | cons part parts ih =>
    have here := List.length_pos_iff.mpr (held part)
    have least := length_le_flatMap cut held parts
    rw [List.forall_mem_cons, ← ih, List.flatMap_cons, List.length_append, List.length_cons]
    omega

theorem pieces_of_arrowless (text : Text) (absent : ¬ Text.ofChars ['-', '>'] <:+: text) :
    pieces text = split (.char ':') (.char ':') text := by
  have single := split_of_length _ _ text ((length_split_eq_one_iff (.char '-') (.char '>') text).mpr absent)
  rw [pieces, single, List.flatMap_cons, List.flatMap_nil, List.append_nil]

theorem length_pieces_eq_one_iff (text : Text) :
    (pieces text).length = 1 ↔ ∀ operator ∈ operators, ¬ Text.ofChars operator <:+: text := by
  have both : (∀ operator ∈ operators, ¬ Text.ofChars operator <:+: text) ↔
      ¬ Text.ofChars ['-', '>'] <:+: text ∧ ¬ Text.ofChars [':', ':'] <:+: text := by simp [operators]
  rw [both]
  by_cases absent : Text.ofChars ['-', '>'] <:+: text
  · have least := length_le_flatMap (split (.char ':') (.char ':')) (split_ne_nil _ _) (split (.char '-') (.char '>') text)
    have several : (split (.char '-') (.char '>') text).length ≠ 1 :=
      fun single => (length_split_eq_one_iff _ _ text).mp single absent
    have held := List.length_pos_iff.mpr (split_ne_nil (.char '-') (.char '>') text)
    rw [← pieces] at least
    exact iff_of_false (by omega) fun both => both.1 absent
  · rw [pieces_of_arrowless text absent, length_split_eq_one_iff, and_iff_right absent]
    rfl

theorem pieces_of_length (text : Text) (single : (pieces text).length = 1) : pieces text = [text] := by
  have absent := (length_pieces_eq_one_iff text).mp single ['-', '>'] (by decide)
  rw [pieces_of_arrowless text absent] at single ⊢
  exact split_of_length _ _ text single

/-! Operators in brackets. -/

open Pair

/-- Whether an operator stands in a text with no bracket of some kinds open in front of it. -/
def Exposes (hidden : List Bracket) (operator text : Text) : Prop :=
  ∃ left right, text = left ++ (operator ++ right) ∧ ∀ bracket ∈ hidden, openAfter bracket 0 left = 0

/-- A way to empty some kinds of bracket in nested text. -/
structure Hides (hidden : List Bracket) (hide : Text → Text) : Prop where
  nil : hide [] = []
  plain : ∀ symbol rest, (∀ bracket : Bracket, symbol ≠ bracket.opener ∧ symbol ≠ bracket.closer) →
    hide (symbol :: rest) = symbol :: hide rest
  group : ∀ (bracket : Bracket) (inner rest : Text), Nested Bracket.all inner →
    hide (bracket.opener :: (inner ++ bracket.closer :: rest)) =
      bracket.opener :: ((if bracket ∈ hidden then [] else hide inner) ++ bracket.closer :: hide rest)
  nested : ∀ text, Nested Bracket.all text → Nested Bracket.all (hide text)

theorem Hides.none : Hides [] id where
  nil := rfl
  plain := fun _ _ _ => rfl
  group := fun _ _ _ _ => rfl
  nested := fun _ nested => nested

theorem Hides.strip (bracket : Bracket) (hidden : List Bracket) (hide : Text → Text) (hides : Hides hidden hide) :
    Hides (bracket :: hidden) (fun text => Pair.strip bracket (hide text)) where
  nil := by
    rw [hides.nil]
    rfl
  plain := by
    intro symbol rest plain
    rw [hides.plain symbol rest plain, strip_cons_plain bracket symbol _ (plain bracket).1]
  group := by
    intro other inner rest nested
    have inside : Nested Bracket.all (if other ∈ hidden then [] else hide inner) := by
      split
      · exact .nil
      · exact hides.nested inner nested
    rw [hides.group other inner rest nested]
    by_cases same : other = bracket
    · subst same
      rw [strip_group _ _ _ (inside.only _ _ (Bracket.mem_all _)), if_pos List.mem_cons_self]
      rfl
    · rw [strip_other_group bracket other _ _ same (inside.only _ _ (Bracket.mem_all _))]
      simp only [List.mem_cons, same, false_or]
      split
      · rfl
      · rfl
  nested := fun text nested => nested_strip bracket _ (Bracket.mem_all _) _ (hides.nested text nested)

theorem Hides.head_iff {hidden : List Bracket} {hide : Text → Text} (hides : Hides hidden hide) (symbol : Sym)
    (text : Text) (nested : Nested Bracket.all text) : [symbol] <+: hide text ↔ [symbol] <+: text := by
  cases nested with
  | nil => rw [hides.nil]
  | plain other rest plain tail =>
    rw [hides.plain other rest fun bracket => plain bracket (Bracket.mem_all _)]
    simp
  | group bracket inner rest counted inside tail =>
    rw [hides.group bracket inner rest inside]
    simp

theorem openAfter_inside (bracket : Bracket) (depth : Nat) (text rest : Text) (nested : Nested [bracket] (text ++ rest)) :
    depth ≤ openAfter bracket depth text := by
  generalize whole : text ++ rest = all at nested
  induction nested generalizing text rest depth with
  | nil =>
    obtain ⟨rfl, _⟩ := List.append_eq_nil_iff.mp whole
    exact Nat.le_refl _
  | plain symbol tail apart nested ih =>
    cases text with
    | nil => exact Nat.le_refl _
    | cons first text =>
      obtain ⟨rfl, same⟩ := List.cons.inj whole
      obtain ⟨noOpener, noCloser⟩ := apart bracket List.mem_cons_self
      rw [openAfter_plain bracket depth first text noOpener noCloser]
      exact ih depth text rest same
  | group other inner tail counted inside nested innerIh tailIh =>
    obtain rfl := List.mem_singleton.mp counted
    cases text with
    | nil => exact Nat.le_refl _
    | cons first text =>
      obtain ⟨rfl, same⟩ := List.cons.inj whole
      rw [openAfter_opener]
      rcases List.append_eq_append_iff.mp same with ⟨others, parted, _⟩ | ⟨others, parted, behind⟩
      · exact Nat.le_of_succ_le (innerIh (depth + 1) text others parted.symm)
      · rw [parted, openAfter_append, openAfter_nested other _ inner inside]
        cases others with
        | nil => exact Nat.le_succ depth
        | cons closer others =>
          obtain ⟨rfl, remaining⟩ := List.cons.inj behind
          rw [openAfter_closer, Nat.add_sub_cancel]
          exact tailIh depth others rest remaining.symm

theorem openAfter_other (bracket other : Bracket) (apart : bracket ≠ other) (text : Text) :
    openAfter other 0 (bracket.opener :: text) = openAfter other 0 text :=
  openAfter_plain other 0 _ text (fun same => apart ((Bracket.opener_inj _ _).mp same)) (Bracket.opener_ne_closer _ _)

section Exposes
variable (hidden : List Bracket) (first second : Sym)
  (apart : ∀ symbol ∈ [first, second], ∀ bracket : Bracket, symbol ≠ bracket.opener ∧ symbol ≠ bracket.closer)

theorem exposes_cons (symbol : Sym) (rest : Text)
    (plain : ∀ bracket : Bracket, symbol ≠ bracket.opener ∧ symbol ≠ bracket.closer) :
    Exposes hidden [first, second] (symbol :: rest) ↔
      [first, second] <+: symbol :: rest ∨ Exposes hidden [first, second] rest := by
  constructor
  · rintro ⟨left, right, same, closed⟩
    cases left with
    | nil => exact .inl ⟨right, same.symm⟩
    | cons mark left =>
      obtain ⟨rfl, tail⟩ := List.cons.inj same
      refine .inr ⟨left, right, tail, fun bracket listed => ?_⟩
      have zero := closed bracket listed
      rwa [openAfter_plain bracket 0 symbol left (plain bracket).1 (plain bracket).2] at zero
  · rintro (⟨right, same⟩ | ⟨left, right, rfl, closed⟩)
    · exact ⟨[], right, same.symm, fun _ _ => rfl⟩
    · refine ⟨symbol :: left, right, rfl, fun bracket listed => ?_⟩
      rw [openAfter_plain bracket 0 symbol left (plain bracket).1 (plain bracket).2, closed bracket listed]

theorem infix_around (left right : Text) (mark : Sym) (other : mark ∉ [first, second]) :
    [first, second] <:+: (left ++ mark :: right) ↔ [first, second] <:+: left ∨ [first, second] <:+: right := by
  induction left with
  | nil =>
    have headed : ¬ [first, second] <+: mark :: right := by
      rintro ⟨rest, same⟩
      exact other (by simp [(List.cons.inj same).1])
    rw [List.nil_append, List.infix_cons_iff, or_iff_right headed]
    exact (or_iff_right (by simp)).symm
  | cons symbol left ih =>
    have front := Text.prefix_before_iff mark [first, second] (symbol :: left) right other
    rw [List.cons_append] at front
    rw [List.cons_append, List.infix_cons_iff, List.infix_cons_iff, front, ih, or_assoc]

include apart

theorem exposes_group (bracket : Bracket) (inner rest : Text) (nested : Nested Bracket.all inner) :
    Exposes hidden [first, second] (bracket.opener :: (inner ++ bracket.closer :: rest)) ↔
      (bracket ∉ hidden ∧ Exposes hidden [first, second] inner) ∨ Exposes hidden [first, second] rest := by
  obtain ⟨firstPlain, secondPlain⟩ : (∀ bracket : Bracket, first ≠ bracket.opener ∧ first ≠ bracket.closer) ∧
      ∀ bracket : Bracket, second ≠ bracket.opener ∧ second ≠ bracket.closer :=
    ⟨apart first (by simp), apart second (by simp)⟩
  have past : ∀ (other : Bracket) (left : Text),
      openAfter other 0 (bracket.opener :: (inner ++ bracket.closer :: left)) = openAfter other 0 left := by
    intro other left
    have group := Nested.enclose Bracket.all bracket inner (Bracket.mem_all _) nested
    have around := openAfter_around other 0 [] _ left (group.only _ other (Bracket.mem_all _))
    simpa using around
  constructor
  · rintro ⟨left, right, same, closed⟩
    cases left with
    | nil => exact absurd (List.cons.inj same).1.symm (firstPlain bracket).1
    | cons mark left =>
      obtain ⟨rfl, tail⟩ := List.cons.inj same
      rcases List.append_eq_append_iff.mp tail with ⟨others, parted, behind⟩ | ⟨others, parted, behind⟩
      · cases others with
        | nil => exact absurd (List.cons.inj behind).1.symm (firstPlain bracket).2
        | cons closer others =>
          obtain ⟨rfl, remaining⟩ := List.cons.inj behind
          refine .inr ⟨others, right, remaining, fun other listed => ?_⟩
          have zero := closed other listed
          rwa [parted, past] at zero
      · rcases others with _ | ⟨mark, _ | ⟨next, others⟩⟩
        · exact absurd (List.cons.inj behind).1 (firstPlain bracket).2
        · exact absurd (List.cons.inj (List.cons.inj behind).2).1 (secondPlain bracket).2
        · obtain ⟨rfl, nextSame⟩ := List.cons.inj behind
          obtain ⟨rfl, _⟩ := List.cons.inj nextSame
          have shownBracket : bracket ∉ hidden := by
            intro listed
            have zero := closed bracket listed
            have inside := openAfter_inside bracket 1 left (first :: second :: others)
              (parted ▸ nested.only _ bracket (Bracket.mem_all _))
            rw [openAfter_opener, Nat.zero_add] at zero
            omega
          refine .inl ⟨shownBracket, left, others, parted, fun other listed => ?_⟩
          have zero := closed other listed
          rwa [openAfter_other bracket other (fun same => shownBracket (same ▸ listed))] at zero
  · rintro (⟨shownBracket, left, right, rfl, closed⟩ | ⟨left, right, rfl, closed⟩)
    · refine ⟨bracket.opener :: left, right ++ bracket.closer :: rest, by simp, fun other listed => ?_⟩
      rw [openAfter_other bracket other (fun same => shownBracket (same ▸ listed)), closed other listed]
    · refine ⟨bracket.opener :: (inner ++ bracket.closer :: left), right, by simp, fun other listed => ?_⟩
      rw [past, closed other listed]

/-- Emptying hides an operator exactly where a bracket of the emptied kinds is open in front of it. -/
theorem exposes_iff (hide : Text → Text) (hides : Hides hidden hide) (text : Text) (nested : Nested Bracket.all text) :
    Exposes hidden [first, second] text ↔ [first, second] <:+: hide text := by
  induction nested with
  | nil =>
    rw [hides.nil]
    exact iff_of_false (fun ⟨left, right, same, _⟩ => by simp at same) (by simp)
  | plain symbol rest plain tail ih =>
    have other := fun bracket => plain bracket (Bracket.mem_all bracket)
    rw [exposes_cons hidden first second symbol rest other, hides.plain symbol rest other, List.infix_cons_iff, ih,
      List.cons_prefix_cons, List.cons_prefix_cons, hides.head_iff second rest tail]
  | group bracket inner rest counted inside tail innerIh restIh =>
    have closer : bracket.closer ∉ [first, second] := fun member => (apart _ member bracket).2 rfl
    have opener : ∀ more, ¬ [first, second] <+: bracket.opener :: more := by
      rintro more ⟨others, same⟩
      exact (apart first List.mem_cons_self bracket).1 (List.cons.inj same).1
    rw [exposes_group hidden first second apart bracket inner rest inside, hides.group bracket inner rest inside,
      List.infix_cons_iff, or_iff_right (opener _), infix_around first second _ _ bracket.closer closer, innerIh, restIh]
    by_cases listed : bracket ∈ hidden
    · simp [listed]
    · simp [listed]

end Exposes

end Chain
end AccessChain
