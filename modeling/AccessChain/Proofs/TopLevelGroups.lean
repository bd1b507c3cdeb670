import AccessChain.Chain.Pair

/-! The groups of a pair of delimiters. One walk over a text empties all groups at its top level, and a search finds
where a single group ends. The groups that the walk empties are the ones that the search finds, each behind the one
before, up to the first that it finds no end of. -/
namespace AccessChain.Chain.Pair

section Delimiters
variable (opening closing : Sym)

theorem stripContent_plain (symbol : Sym) (rest : Text) (apart : symbol ≠ opening) :
    stripContent [opening] [closing] (symbol :: rest) = symbol :: stripContent [opening] [closing] rest := by
  simp [stripContent, collapse, apart]

theorem stripContent_front (front rest : Text) (unopened : opening ∉ front) :
    stripContent [opening] [closing] (front ++ rest) = front ++ stripContent [opening] [closing] rest := by
  induction front with
  | nil => rfl
  | cons symbol front ih =>
    rw [List.mem_cons, not_or] at unopened
    rw [List.cons_append, stripContent_plain opening closing symbol _ (Ne.symm unopened.1), ih unopened.2,
      List.cons_append]

theorem stripContent_unopened (text : Text) (unopened : opening ∉ text) :
    stripContent [opening] [closing] text = text := by
  have whole := stripContent_front opening closing text [] unopened
  simpa [stripContent, collapse] using whole

/-- A symbol in a group ends it for the walk and for the search, or both go on with the delimiters to be closed that the
symbol makes of those in front of it. -/
theorem inside_cases (depth : Nat) (symbol : Sym) :
    ((depth = 0 ∧ symbol = closing ∧ closing ≠ opening) ∧ ∀ held text,
      collapse [opening] [closing] (depth + 1) held (symbol :: text) = closing :: stripContent [opening] [closing] text ∧
      distance [opening] [closing] (depth + 1) (symbol :: text) = some 0) ∨
    ∃ next, (closing ≠ opening → next + [symbol].count closing = depth + [symbol].count opening) ∧ ∀ held text,
      collapse [opening] [closing] (depth + 1) held (symbol :: text) =
        collapse [opening] [closing] (next + 1) (symbol :: held) text ∧
      distance [opening] [closing] (depth + 1) (symbol :: text) =
        (distance [opening] [closing] (next + 1) text).map (· + 1) := by
  by_cases opens : symbol = opening
  · subst opens
    exact .inr ⟨depth + 1, fun apart => by simp [apart.symm], fun held text => by simp [collapse, distance]⟩
  by_cases closes : symbol = closing
  · subst closes
    cases depth with
    | zero => exact .inl ⟨⟨rfl, rfl, opens⟩, fun held text => by simp [collapse, distance, opens, stripContent]⟩
    | succ depth =>
      exact .inr ⟨depth, fun _ => by simp [opens], fun held text => by simp [collapse, distance, opens]⟩
  · exact .inr ⟨depth, fun _ => by simp [opens, closes], fun held text => by simp [collapse, distance, opens, closes]⟩

/-- A walk in a group drops what it has read of it if the search finds where the group ends, and else gives it back. -/
theorem collapse_inside (depth : Nat) (held text : Text) :
    collapse [opening] [closing] (depth + 1) held text =
      match distance [opening] [closing] (depth + 1) text with
      | none => held.reverse ++ text
      | some size => closing :: stripContent [opening] [closing] (text.drop (size + 1)) := by
  induction text generalizing depth held with
  | nil => simp [collapse, distance]
  | cons symbol text ih =>
    rcases inside_cases opening closing depth symbol with ⟨_, ends⟩ | ⟨next, _, goesOn⟩
    · obtain ⟨walked, found⟩ := ends held text
      rw [walked, found]
      rfl
    · obtain ⟨walked, found⟩ := goesOn held text
      rw [walked, found, ih]
      cases distance [opening] [closing] (next + 1) text with
      | none => simp
      | some size => rfl

theorem distance_split (depth : Nat) (text : Text) (size : Nat)
    (found : distance [opening] [closing] (depth + 1) text = some size) :
    closing ≠ opening ∧ ∃ inner rest, text = inner ++ closing :: rest ∧ inner.length = size := by
  induction text generalizing depth size with
  | nil => contradiction
  | cons symbol text ih =>
    rcases inside_cases opening closing depth symbol with ⟨⟨_, rfl, apart⟩, ends⟩ | ⟨next, _, goesOn⟩
    · rw [(ends [] text).2] at found
      exact ⟨apart, [], text, rfl, Option.some.inj found⟩
    · rw [(goesOn [] text).2] at found
      obtain ⟨behind, later, rfl⟩ := Option.map_eq_some_iff.mp found
      obtain ⟨apart, inner, rest, rfl, count⟩ := ih next behind later
      exact ⟨apart, symbol :: inner, rest, rfl, congrArg (· + 1) count⟩

theorem matching?_front (front behind : Text) :
    matching? [opening] [closing] (front ++ opening :: behind) front.length =
      (distance [opening] [closing] 1 behind).map (· + front.length + 1) := by
  rw [matching?, List.drop_left]
  exact if_pos rfl

theorem stripContent_unclosed (front behind : Text) (first : opening ∉ front)
    (missing : matching? [opening] [closing] (front ++ opening :: behind) front.length = none) :
    stripContent [opening] [closing] (front ++ opening :: behind) = front ++ opening :: behind := by
  rw [matching?_front, Option.map_eq_none_iff] at missing
  have kept := collapse_inside opening closing 0 [] behind
  rw [missing] at kept
  rw [stripContent_front opening closing front _ first, stripContent, collapse, if_pos rfl, kept]
  rfl

theorem stripContent_group (front inner rest : Text) (first : opening ∉ front)
    (closed : matching? [opening] [closing] (front ++ opening :: (inner ++ closing :: rest)) front.length =
      some (inner.length + front.length + 1)) :
    stripContent [opening] [closing] (front ++ opening :: (inner ++ closing :: rest)) =
      front ++ opening :: closing :: stripContent [opening] [closing] rest := by
  rw [matching?_front, Option.map_eq_some_iff] at closed
  obtain ⟨size, found, same⟩ := closed
  obtain rfl : size = inner.length := by omega
  have emptied := collapse_inside opening closing 0 [] (inner ++ closing :: rest)
  rw [found] at emptied
  rw [stripContent_front opening closing front _ first, stripContent, collapse, if_pos rfl, emptied]
  simp

theorem group_cases (text : Text) : opening ∉ text ∨
    (∃ front behind, text = front ++ opening :: behind ∧ opening ∉ front ∧
      matching? [opening] [closing] (front ++ opening :: behind) front.length = none) ∨
    ∃ front inner rest, text = front ++ opening :: (inner ++ closing :: rest) ∧ opening ∉ front ∧
      matching? [opening] [closing] (front ++ opening :: (inner ++ closing :: rest)) front.length =
        some (inner.length + front.length + 1) := by
  by_cases opened : opening ∈ text
  · obtain ⟨front, behind, rfl, first⟩ := List.eq_append_cons_of_mem opened
    cases found : distance [opening] [closing] 1 behind with
    | none => exact .inr (.inl ⟨front, behind, rfl, first, by rw [matching?_front, found]; rfl⟩)
    | some size =>
      obtain ⟨_, inner, rest, rfl, rfl⟩ := distance_split opening closing 0 behind size found
      exact .inr (.inr ⟨front, inner, rest, rfl, first, by rw [matching?_front, found]; rfl⟩)
  · exact .inl opened

/-- Where the first opening delimiter of a text stands, and the one that closes it. -/
def firstGroup? (text : Text) : Option (Nat × Nat) := do
  let first ← text.idxOf? opening
  let last ← matching? [opening] [closing] text first
  return (first, last)

theorem idxOf?_first (front behind : Text) (first : opening ∉ front) :
    (front ++ opening :: behind).idxOf? opening = some front.length := by
  induction front with
  | nil => simp [List.idxOf?_cons]
  | cons symbol front ih =>
    rw [List.mem_cons, not_or] at first
    rw [List.cons_append, List.idxOf?_cons, if_neg (by simpa using Ne.symm first.1), ih first.2]
    rfl

theorem firstGroup?_first (front behind : Text) (first : opening ∉ front) :
    firstGroup? opening closing (front ++ opening :: behind) =
      (matching? [opening] [closing] (front ++ opening :: behind) front.length).map (front.length, ·) := by
  rw [firstGroup?, idxOf?_first opening front behind first]
  exact Option.map_eq_bind.symm

/-- What is left of a text whose groups are emptied one after another, up to the first one that is not closed. -/
inductive Collapsed : Text → Text → Prop where
  | unopened (text : Text) (absent : opening ∉ text) : Collapsed text text
  | unclosed (front behind : Text) (first : opening ∉ front)
      (missing : matching? [opening] [closing] (front ++ opening :: behind) front.length = none) :
      Collapsed (front ++ opening :: behind) (front ++ opening :: behind)
  | group (front inner rest shown : Text) (first : opening ∉ front)
      (closed : matching? [opening] [closing] (front ++ opening :: (inner ++ closing :: rest)) front.length =
        some (inner.length + front.length + 1))
      (tail : Collapsed rest shown) :
      Collapsed (front ++ opening :: (inner ++ closing :: rest)) (front ++ opening :: closing :: shown)

theorem collapsed_stripContent (text : Text) : Collapsed opening closing text (stripContent [opening] [closing] text) := by
  induction length : text.length using Nat.strongRecOn generalizing text with
  | ind length ih =>
    rcases group_cases opening closing text with
      absent | ⟨front, behind, rfl, first, missing⟩ | ⟨front, inner, rest, rfl, first, closed⟩
    · rw [stripContent_unopened opening closing text absent]
      exact .unopened text absent
    · rw [stripContent_unclosed opening closing front behind first missing]
      exact .unclosed front behind first missing
    · rw [stripContent_group opening closing front inner rest first closed]
      refine .group front inner rest _ first closed (ih rest.length ?_ rest rfl)
      simp only [List.length_append, List.length_cons] at length
      omega

theorem collapsed_iff (text shown : Text) :
    Collapsed opening closing text shown ↔ shown = stripContent [opening] [closing] text := by
  constructor
  · intro collapsed
    induction collapsed with
    | unopened text absent => rw [stripContent_unopened opening closing text absent]
    | unclosed front behind first missing => rw [stripContent_unclosed opening closing front behind first missing]
    | group front inner rest shown first closed tail ih =>
      rw [stripContent_group opening closing front inner rest first closed, ih]
  · rintro rfl
    exact collapsed_stripContent opening closing text

theorem matching?_empty (front rest : Text) (apart : closing ≠ opening) :
    matching? [opening] [closing] (front ++ opening :: ([] ++ closing :: rest)) front.length =
      some (([] : Text).length + front.length + 1) := by
  simp [matching?_front, distance, apart]

theorem stripContent_of_collapsed (text shown : Text) (collapsed : Collapsed opening closing text shown) :
    stripContent [opening] [closing] shown = shown := by
  induction collapsed with
  | unopened text absent => exact stripContent_unopened opening closing text absent
  | unclosed front behind first missing => exact stripContent_unclosed opening closing front behind first missing
  | group front inner rest shown first closed tail ih =>
    rw [matching?_front, Option.map_eq_some_iff] at closed
    obtain ⟨size, found, _⟩ := closed
    obtain ⟨apart, _⟩ := distance_split opening closing 0 _ size found
    have emptied := stripContent_group opening closing front [] shown first (matching?_empty opening closing front shown apart)
    rwa [ih] at emptied

end Delimiters

/-- Emptying the groups of a text is emptying its first one, then those of the rest behind it, as long as the first one is
closed. What is left is the text outside these groups as it was, and it has nothing more to be emptied. -/
theorem stripContent_by_groups (opening closing : Sym) (text : Text) :
    stripContent [opening] [closing] text =
      (match firstGroup? opening closing text with
      | none => text
      | some (first, last) =>
        text.take (first + 1) ++ closing :: stripContent [opening] [closing] (text.drop (last + 1))) ∧
    stripContent [opening] [closing] (stripContent [opening] [closing] text) = stripContent [opening] [closing] text ∧
    ∀ shown, Collapsed opening closing text shown ↔ shown = stripContent [opening] [closing] text := by
  refine ⟨?_, stripContent_of_collapsed opening closing text _ (collapsed_stripContent opening closing text),
    collapsed_iff opening closing text⟩
  rcases group_cases opening closing text with
    absent | ⟨front, behind, rfl, first, missing⟩ | ⟨front, inner, rest, rfl, first, closed⟩
  · have nowhere : firstGroup? opening closing text = none := by
      rw [firstGroup?, List.idxOf?_eq_none_iff.mpr absent]
      rfl
    rw [nowhere, stripContent_unopened opening closing text absent]
  · rw [firstGroup?_first opening closing front behind first, missing,
      stripContent_unclosed opening closing front behind first missing]
    rfl
  · have upTo : (front ++ opening :: (inner ++ closing :: rest)).take (front.length + 1) = front ++ [opening] := by
      rw [List.append_cons]
      exact List.take_left' List.length_append
    have behind : (front ++ opening :: (inner ++ closing :: rest)).drop (inner.length + front.length + 1 + 1) = rest := by
      have parts : front ++ opening :: (inner ++ closing :: rest) = (front ++ opening :: (inner ++ [closing])) ++ rest := by simp
      rw [parts, List.drop_left']
      simp only [List.length_append, List.length_cons, List.length_nil]
      omega
    rw [firstGroup?_first opening closing front _ first, closed,
      stripContent_group opening closing front inner rest first closed]
    simp only [Option.map_some]
    rw [behind, upTo, List.append_assoc]
    rfl

example : stripContent [.char '('] [.char ')'] (Text.ofString ")a(b(c))d(e(f)") = Text.ofString ")a()d(e(f)" := by decide

end AccessChain.Chain.Pair
