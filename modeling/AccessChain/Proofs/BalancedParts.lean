import AccessChain.Proofs.TopLevelGroups

/-! Where an opened delimiter is closed, said by counting. The search keeps a depth and stops at the first delimiter
that brings it to nothing, which is the end of the shortest part of the text that has as many closing delimiters as
opening ones. -/
namespace AccessChain.Chain.Pair

section Counting
variable (opening closing : Sym)

/-- The first symbols of a text close all delimiters that are open in front of it or opened among them. -/
def ClosesAll (depth : Nat) (text : Text) (count : Nat) : Prop :=
  depth + (text.take count).count opening = (text.take count).count closing

theorem not_closesAll_zero (depth : Nat) (text : Text) : ¬ ClosesAll opening closing (depth + 1) text 0 := by
  simp [ClosesAll]

/-- One symbol changes how many delimiters are open, and the rest of the text has to close those. -/
theorem closesAll_cons (depth next : Nat) (symbol : Sym) (text : Text) (count : Nat)
    (changed : next + [symbol].count closing = depth + [symbol].count opening) :
    ClosesAll opening closing depth (symbol :: text) (count + 1) ↔ ClosesAll opening closing next text count := by
  have parted : (symbol :: text).take (count + 1) = [symbol] ++ text.take count := rfl
  rw [ClosesAll, ClosesAll, parted, List.count_append, List.count_append]
  omega

variable (apart : opening ≠ closing)
include apart

theorem distance_eq_some_iff (depth : Nat) (text : Text) (size : Nat) :
    distance [opening] [closing] (depth + 1) text = some size ↔
      ClosesAll opening closing (depth + 1) text (size + 1) ∧
        ∀ fewer ≤ size, ¬ ClosesAll opening closing (depth + 1) text fewer := by
  induction text generalizing depth size with
  | nil => simp [distance, ClosesAll]
  | cons symbol text ih =>
    have unclosed := not_closesAll_zero opening closing
    rcases inside_cases opening closing depth symbol with ⟨⟨rfl, rfl, _⟩, ends⟩ | ⟨next, changed, goesOn⟩
    · have first : ClosesAll opening symbol 1 (symbol :: text) 1 := by simp [ClosesAll, Ne.symm apart]
      rw [(ends [] text).2, Option.some.injEq]
      constructor
      · rintro rfl
        refine ⟨first, fun fewer within => ?_⟩
        obtain rfl := Nat.le_zero.mp within
        exact unclosed 0 _
      · rintro ⟨_, shortest⟩
        exact (Nat.eq_zero_of_not_pos fun later => shortest 1 later first).symm
    · have shifted := closesAll_cons opening closing (depth + 1) (next + 1) symbol text
      have counted : next + 1 + [symbol].count closing = depth + 1 + [symbol].count opening := by
        have same := changed apart.symm
        omega
      rw [(goesOn [] text).2, Option.map_eq_some_iff]
      constructor
      · rintro ⟨further, found, rfl⟩
        obtain ⟨closed, shortest⟩ := (ih next further).mp found
        refine ⟨(shifted _ counted).mpr closed, fun fewer within => ?_⟩
        cases fewer with
        | zero => exact unclosed depth _
        | succ fewer => exact fun early => shortest fewer (Nat.le_of_succ_le_succ within) ((shifted _ counted).mp early)
      · rintro ⟨closed, shortest⟩
        have behind := (shifted _ counted).mp closed
        cases size with
        | zero => exact absurd behind (unclosed next text)
        | succ size =>
          refine ⟨size, (ih next size).mpr ⟨behind, fun fewer within early => ?_⟩, rfl⟩
          exact shortest (fewer + 1) (Nat.succ_le_succ within) ((shifted _ counted).mpr early)

end Counting

/-- The part of a text from one place to another, both of them included. -/
def part (text : Text) (first last : Nat) : Text := (text.take (last + 1)).drop first

/-- The part that starts at a place and ends behind it has as many opening delimiters as closing ones, and no shorter
part that starts there has. -/
structure BalancesFirst (opening closing : Sym) (text : Text) (start last : Nat) : Prop where
  behind : start < last
  balanced : (part text start last).count opening = (part text start last).count closing
  shortest : ∀ earlier, start ≤ earlier → earlier < last →
    (part text start earlier).count opening ≠ (part text start earlier).count closing

theorem balanced_part_iff (opening closing : Sym) (apart : opening ≠ closing) (front behind : Text) (count : Nat) :
    (part (front ++ opening :: behind) front.length (front.length + count)).count opening =
        (part (front ++ opening :: behind) front.length (front.length + count)).count closing ↔
      ClosesAll opening closing 1 behind count := by
  have parted : part (front ++ opening :: behind) front.length (front.length + count) = [opening] ++ behind.take count := by
    rw [part, Nat.add_assoc, List.take_length_add_append, List.drop_left]
    rfl
  have uncounted : [opening].count closing = 0 := List.count_eq_zero.mpr (by simpa using apart.symm)
  rw [parted, ClosesAll, List.count_append, List.count_append, List.count_singleton_self, uncounted, Nat.zero_add]

theorem balancesFirst_iff (opening closing : Sym) (apart : opening ≠ closing) (front behind : Text) (last : Nat) :
    BalancesFirst opening closing (front ++ opening :: behind) front.length last ↔
      ∃ size, last = front.length + (size + 1) ∧ distance [opening] [closing] 1 behind = some size := by
  have counted := balanced_part_iff opening closing apart front behind
  constructor
  · rintro ⟨later, balanced, shortest⟩
    obtain ⟨size, rfl⟩ := Nat.exists_eq_add_of_lt later
    refine ⟨size, rfl, (distance_eq_some_iff opening closing apart 0 behind size).mpr
      ⟨(counted _).mp balanced, fun fewer within early => ?_⟩⟩
    exact shortest (front.length + fewer) (Nat.le_add_right _ _) (by omega) ((counted fewer).mpr early)
  · rintro ⟨size, rfl, found⟩
    obtain ⟨closed, shortest⟩ := (distance_eq_some_iff opening closing apart 0 behind size).mp found
    refine ⟨by omega, (counted _).mpr closed, fun earlier least most balanced => ?_⟩
    obtain ⟨fewer, rfl⟩ := Nat.exists_eq_add_of_le least
    exact shortest fewer (by omega) ((counted fewer).mp balanced)

theorem matching?_eq_some_iff (opening closing : Sym) (apart : opening ≠ closing) (text : Text) (start last : Nat) :
    matching? [opening] [closing] text start = some last ↔
      text[start]? = some opening ∧ BalancesFirst opening closing text start last := by
  by_cases opens : text[start]? = some opening
  · obtain ⟨inside, found⟩ := List.getElem?_eq_some_iff.mp opens
    have parted : text = text.take start ++ opening :: text.drop (start + 1) := by
      rw [← found, ← List.drop_eq_getElem_cons inside, List.take_append_drop]
    have size : (text.take start).length = start := List.length_take_of_le (Nat.le_of_lt inside)
    have balances := balancesFirst_iff opening closing apart (text.take start) (text.drop (start + 1)) last
    rw [← parted, size] at balances
    have behind : text.drop start = opening :: text.drop (start + 1) := by
      rw [← found, List.drop_eq_getElem_cons inside]
    rw [and_iff_right opens, balances, matching?, behind]
    simp only [if_true, Option.map_eq_some_iff]
    constructor
    · rintro ⟨size, found, rfl⟩
      exact ⟨size, by omega, found⟩
    · rintro ⟨size, rfl, found⟩
      exact ⟨size, found, by omega⟩
  · refine iff_of_false ?_ fun both => opens both.1
    rw [← List.head?_drop] at opens
    rw [matching?]
    cases behind : text.drop start with
    | nil => simp
    | cons symbol rest =>
      rw [behind] at opens
      simp only [List.head?_cons, Option.some.injEq] at opens
      simp [opens]

/-- The delimiter that is found for an opening one is the last symbol of the shortest part from there on that has as many
opening delimiters as closing ones. None is found if and only if there is no such part, or no opening delimiter at the
start. -/
theorem matchingAt_balances_first (opening closing : Sym) (apart : opening ≠ closing) (text : Text) (start : Nat) :
    ∃ found : Option Nat, matchingAt [opening] [closing] text start = .ok (found.map Int.ofNat) ∧
      (∀ last, found = some last ↔ text[start]? = some opening ∧ BalancesFirst opening closing text start last) ∧
      (found = none ↔ text.length ≤ start ∨ text[start]? ≠ some opening ∨
        ¬ ∃ last, BalancesFirst opening closing text start last) := by
  have closes := matching?_eq_some_iff opening closing apart text start
  refine ⟨matching? [opening] [closing] text start, if_pos (Int.natCast_nonneg start), closes, ?_⟩
  have outside : text.length ≤ start → text[start]? ≠ some opening := by
    intro past
    rw [List.getElem?_eq_none past]
    exact (Option.some_ne_none opening).symm
  rw [← or_assoc, or_iff_right_of_imp outside, ← Classical.not_and_iff_not_or_not, Option.eq_none_iff_forall_ne_some]
  constructor
  · rintro never ⟨opens, last, balances⟩
    exact never last ((closes last).mpr ⟨opens, balances⟩)
  · intro never last found
    obtain ⟨opens, balances⟩ := (closes last).mp found
    exact never ⟨opens, last, balances⟩

/-- The call is in another group that stays open, and a bracket that closes nothing stands in front of both. -/
theorem matchingAt_balances_first_of_call :
    Sym.char '(' ≠ .char ')' ∧
    matchingAt [.char '('] [.char ')'] (Text.ofString ")(f(a(1))") (3 : Nat) = .ok (some 8) ∧
    BalancesFirst (.char '(') (.char ')') (Text.ofString ")(f(a(1))") 3 8 ∧
    ¬ ∃ last, BalancesFirst (.char '(') (.char ')') (Text.ofString ")(f(a(1))") 1 last := by
  have apart : Sym.char '(' ≠ .char ')' := by decide
  obtain ⟨inner, read, ends, _⟩ := matchingAt_balances_first _ _ apart (Text.ofString ")(f(a(1))") 3
  obtain ⟨outer, readOuter, _, never⟩ := matchingAt_balances_first _ _ apart (Text.ofString ")(f(a(1))") 1
  have eighth : matchingAt [.char '('] [.char ')'] (Text.ofString ")(f(a(1))") (3 : Nat) = .ok (some 8) := rfl
  have nowhere : matchingAt [.char '('] [.char ')'] (Text.ofString ")(f(a(1))") (1 : Nat) = .ok none := rfl
  have found : inner = some 8 := by
    obtain ⟨last, rfl, same⟩ := Option.map_eq_some_iff.mp (Except.ok.inj (read.symm.trans eighth))
    rw [Int.ofNat_inj.mp same]
  have missing : outer = none := Option.map_eq_none_iff.mp (Except.ok.inj (readOuter.symm.trans nowhere))
  refine ⟨apart, eighth, ((ends 8).mp found).2, ?_⟩
  rcases never.mp missing with past | other | none
  · exact absurd past (by decide)
  · exact absurd (by decide) other
  · exact none

end AccessChain.Chain.Pair
