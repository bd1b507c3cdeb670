import AccessChain.Hover.Answer
import AccessChain.Proofs.Failures
import AccessChain.Proofs.LineNumbers
import AccessChain.Proofs.Lines

/-! Reported positions as requested ones. A position is reported in line feeds and characters, and a request is read
in lines in the wide sense and UTF-16 units. A range that is sent back as it was reported leads to the characters it
stands for exactly where both ways to count agree. -/
namespace AccessChain

namespace Text

theorem parted_concat {front left right : Text} {last mark : Sym} (same : front ++ [last] = left ++ mark :: right) :
    (left = front ∧ mark = last ∧ right = []) ∨ ∃ more, right = more ++ [last] ∧ front = left ++ mark :: more := by
  rcases List.eq_nil_or_concat right with rfl | ⟨more, final, rfl⟩
  · obtain ⟨rfl, single⟩ := List.append_inj' same rfl
    exact .inl ⟨rfl, (List.cons.inj single).1.symm, rfl⟩
  · rw [List.concat_eq_append, ← List.cons_append, ← List.append_assoc] at same
    obtain ⟨rfl, single⟩ := List.append_inj' same rfl
    exact .inr ⟨more, by rw [List.concat_eq_append, (List.cons.inj single).1], rfl⟩

theorem mem_dropLast_iff (text : Text) (mark : Sym) :
    mark ∈ text.dropLast ↔ ∃ left right, text = left ++ mark :: right ∧ right ≠ [] := by
  constructor
  · intro member
    have held : text ≠ [] := by
      rintro rfl
      contradiction
    obtain ⟨left, right, same⟩ := List.append_of_mem member
    refine ⟨left, right ++ [text.getLast held], ?_, by simp⟩
    rw [← List.cons_append, ← List.append_assoc, ← same, List.dropLast_concat_getLast held]
  · rintro ⟨left, right, rfl, more⟩
    rw [List.dropLast_append_of_ne_nil (List.cons_ne_nil _ _), List.dropLast_cons_of_ne_nil more]
    simp

end Text

namespace Position
open Text

theorem ofIndex_length (front behind : Text) :
    ofIndex (front ++ behind) front.length = .ok ⟨lineFeeds front, lastLineLength front⟩ := by
  rw [ofIndex, Offset.byteOfChar_length]
  change (Offset.lineAt _ _).bind _ = _
  rw [Offset.lineAt_byteLength, List.take_left]
  rfl

theorem ofIndex_of_le (source : Text) (index : Nat) (inside : index ≤ source.length) :
    ofIndex source index = .ok ⟨lineFeeds (source.take index), lastLineLength (source.take index)⟩ := by
  have whole := ofIndex_length (source.take index) (source.drop index)
  rwa [List.take_append_drop, List.length_take_of_le inside] at whole

/-! Units. -/

theorem units_pos (symbol : Sym) : 0 < units symbol := by
  cases symbol with
  | char value =>
    rw [units]
    split <;> decide
  | stray byte high => exact Nat.one_pos

theorem length_le_unitsOf (text : Text) : text.length ≤ unitsOf text := by
  induction text with
  | nil => exact Nat.le_refl 0
  | cons symbol text ih =>
    have := units_pos symbol
    rw [unitsOf, List.length_cons]
    omega

theorem unitsOf_eq_length_iff (text : Text) : unitsOf text = text.length ↔ ∀ symbol ∈ text, units symbol = 1 := by
  induction text with
  | nil => simp [unitsOf]
  | cons symbol text ih =>
    have here := units_pos symbol
    have later := length_le_unitsOf text
    rw [List.forall_mem_cons, and_congr_right fun _ => ih.symm, unitsOf, List.length_cons]
    omega

theorem symbolsFor_le (wanted : Nat) (text : Text) : symbolsFor wanted text ≤ text.length := by
  fun_induction symbolsFor wanted text with
  | case1 => exact Nat.zero_le _
  | case2 => exact Nat.le_refl 0
  | case3 wanted symbol rest ih =>
    rw [List.length_cons]
    omega

theorem symbolsFor_le_wanted (wanted : Nat) (text : Text) : symbolsFor wanted text ≤ wanted := by
  fun_induction symbolsFor wanted text with
  | case1 => exact Nat.le_refl 0
  | case2 => exact Nat.zero_le _
  | case3 wanted symbol rest ih =>
    have := units_pos symbol
    omega

/-- The last of the characters that are counted may take two units. -/
theorem symbolsFor_eq_iff (count : Nat) (text : Text) (inside : count ≤ text.length) :
    symbolsFor count text = count ↔ ∀ symbol ∈ (text.take count).dropLast, units symbol = 1 := by
  induction text generalizing count with
  | nil =>
    obtain rfl := Nat.le_zero.mp inside
    simp [symbolsFor]
  | cons symbol text ih =>
    rcases count with _ | _ | count
    · simp [symbolsFor]
    · have exhausted : 0 + 1 - units symbol = 0 := by
        have := units_pos symbol
        omega
      simp [symbolsFor, exhausted]
    · have shorter : count + 1 ≤ text.length := Nat.le_of_succ_le_succ inside
      have more : text.take (count + 1) ≠ [] := by
        intro empty
        have length := congrArg List.length empty
        rw [List.length_take, List.length_nil] at length
        omega
      rw [symbolsFor, List.take_succ_cons, List.dropLast_cons_of_ne_nil more, List.forall_mem_cons, ← ih _ shorter]
      by_cases narrow : units symbol = 1
      · simp only [narrow, true_and, Nat.add_sub_cancel]
        omega
      · have least := units_pos symbol
        have most := symbolsFor_le_wanted (count + 1 + 1 - units symbol) text
        simp only [narrow, false_and, iff_false]
        omega

/-! The column on a line. -/

theorem withLineFeed_of_none (line : Text) (unended : ∀ base, line ≠ base ++ [.char '\r', .char '\n']) :
    withLineFeed line = line := by
  rw [withLineFeed, if_neg]
  intro both
  exact unended (line.take (line.length - 2)) (by rw [← both, List.take_append_drop])

theorem withLineFeed_of_both (line : Text) : withLineFeed (line ++ [.char '\r', .char '\n']) = line ++ [.char '\n'] := by
  simp [withLineFeed]

theorem columnIn_zero (line : Text) : columnIn line 0 = 0 := by
  simp [columnIn, symbolsFor]

theorem length_withLineFeed_le (line : Text) : (withLineFeed line).length ≤ line.length := by
  unfold withLineFeed
  split
  · next both =>
    have two : line.length - (line.length - 2) = 2 := by rw [← List.length_drop, both]; rfl
    rw [List.length_append, List.length_take]
    simp only [List.length_cons, List.length_nil]
    omega
  · exact Nat.le_refl _

theorem columnIn_le (line : Text) (character : Nat) : columnIn line character ≤ line.length :=
  Nat.le_trans (symbolsFor_le _ _) (length_withLineFeed_le line)

theorem columnIn_eq_iff (line : Text) (count : Nat) (inside : count ≤ (withLineFeed line).length) :
    columnIn line count = count ↔ ∀ symbol ∈ ((withLineFeed line).take count).dropLast, units symbol = 1 := by
  have fits : ¬ unitsOf (withLineFeed line) < count :=
    Nat.not_lt_of_le (Nat.le_trans inside (length_le_unitsOf _))
  rw [columnIn, if_neg fits, symbolsFor_eq_iff count _ inside]

/-! The index of a position, line by line. -/

section Lines
variable {body ending rest : Text} (line : FirstLine body ending rest)
include line

theorem toIndex_first (character : Nat) :
    toIndex (body ++ (ending ++ rest)) ⟨0, character⟩ = columnIn (body ++ ending) character := by
  simp [toIndex, line.lines_eq]

theorem toIndex_next (more : rest ≠ []) (number character : Nat) :
    toIndex (body ++ (ending ++ rest)) ⟨number + 1, character⟩ =
      (body ++ ending).length + toIndex rest ⟨number, character⟩ := by
  have held := lines_ne_nil rest more
  simp only [toIndex, line.lines_eq, List.getElem?_cons_succ]
  cases (lines rest)[number]? with
  | some found =>
    rw [List.take_succ_cons, List.flatten_cons, List.length_append]
    exact Nat.add_assoc ..
  | none =>
    rw [List.getLast?_cons_of_ne_nil held, List.dropLast_cons_of_ne_nil held,
      List.getLast?_eq_some_getLast held, List.flatten_cons, List.length_append]
    exact Nat.add_assoc ..

theorem toIndex_behind (last : rest = []) (number character : Nat) :
    toIndex (body ++ (ending ++ rest)) ⟨number + 1, character⟩ = unitsOf (body ++ ending) := by
  subst last
  simp only [toIndex, line.lines_eq]
  simp [lines, linesFrom]

end Lines

/-- A line that a line feed ends, given without the line feed. -/
structure Fed (inner : Text) : Prop where
  single : .char '\n' ∉ inner
  returns : ∀ left mark right, inner = left ++ mark :: right → mark.satisfies breaksLine = true →
    mark = .char '\r' ∧ right = []

/-- A line with no line feed: the text ends behind it, or it has another break. -/
structure Unfed (line rest : Text) : Prop where
  single : .char '\n' ∉ line
  unbroken : ∀ symbol ∈ line.dropLast, symbol.satisfies breaksLine = false
  ends : rest = [] ∨ ∃ front mark, line = front ++ [mark] ∧ mark.satisfies breaksLine = true ∧
    (mark = .char '\r' → rest.head? ≠ some (.char '\n'))

theorem fed_or_unfed {body ending rest : Text} (line : FirstLine body ending rest) :
    (∃ inner, body ++ ending = inner ++ [.char '\n'] ∧ Fed inner) ∨ Unfed (body ++ ending) rest := by
  have noFeed := line.not_mem_body '\n' (by decide)
  cases line.ends with
  | feed =>
    refine .inl ⟨body, rfl, noFeed, fun left mark right same breaks => ?_⟩
    exact absurd ((line.unbroken mark (same ▸ by simp)).symm.trans breaks) Bool.false_ne_true
  | returnFeed =>
    refine .inl ⟨body ++ [.char '\r'], by simp, by simpa using noFeed, fun left mark right same breaks => ?_⟩
    rcases parted_concat same with ⟨_, rfl, rfl⟩ | ⟨more, _, rfl⟩
    · exact ⟨rfl, rfl⟩
    · exact absurd ((line.unbroken mark (by simp)).symm.trans breaks) Bool.false_ne_true
  | other mark _ breaks apart alone =>
    refine .inr ⟨?_, by simpa using line.unbroken, .inr ⟨body, mark, rfl, breaks, alone⟩⟩
    simpa [noFeed] using apart.symm
  | last =>
    refine .inr ⟨by simpa using noFeed, fun symbol member => ?_, .inl rfl⟩
    rw [List.append_nil] at member
    exact line.unbroken symbol (List.dropLast_subset _ member)

/-- Where both ways to count lines and columns agree, for an index that parts a text in two. -/
structure CountsAlike (front behind : Text) : Prop where
  /-- The line breaks before the last symbol in front are line feeds, with or without a carriage return. -/
  feeds : ∀ left mark right, front = left ++ mark :: right → right ≠ [] → mark.satisfies breaksLine = true →
    mark = .char '\n' ∨ (mark = .char '\r' ∧ right.head? = some (.char '\n'))
  /-- No symbol on the line of the index takes two units, but the one right in front of it may. -/
  narrow : ∀ left mark right, front = left ++ mark :: right → right ≠ [] → .char '\n' ∉ mark :: right → units mark = 1
  /-- Behind the last line feed of a text the line in front of it counts, and no symbol on it takes two units. -/
  ended : behind = [] → ∀ left mark right, front = left ++ mark :: (right ++ [.char '\n']) →
    .char '\n' ∉ mark :: right → units mark = 1

/-- On a line without line feeds only the width of its symbols counts. -/
theorem countsAlike_on_line (front behind : Text) (single : .char '\n' ∉ front)
    (unbroken : ∀ symbol ∈ front.dropLast, symbol.satisfies breaksLine = false) :
    CountsAlike front behind ↔ ∀ symbol ∈ front.dropLast, units symbol = 1 := by
  constructor
  · intro alike symbol member
    obtain ⟨left, right, same, more⟩ := (mem_dropLast_iff front symbol).mp member
    refine alike.narrow left symbol right same more fun feed => single ?_
    rw [same]
    exact List.mem_append_right left feed
  · intro narrow
    refine ⟨fun left mark right same more breaks => ?_, fun left mark right same more _ => ?_,
      fun _ left mark right same => ?_⟩
    · have plain := unbroken mark ((mem_dropLast_iff front mark).mpr ⟨left, right, same, more⟩)
      exact absurd (plain.symm.trans breaks) Bool.false_ne_true
    · exact narrow mark ((mem_dropLast_iff front mark).mpr ⟨left, right, same, more⟩)
    · exact absurd (by rw [same]; simp) single

section Fed
variable {inner : Text} (fed : Fed inner)
include fed

theorem countsAlike_behind_line (rest : Text) :
    CountsAlike (inner ++ [.char '\n']) rest ↔ (rest = [] → ∀ symbol ∈ inner, units symbol = 1) := by
  constructor
  · intro alike atEnd symbol member
    obtain ⟨left, right, same⟩ := List.append_of_mem member
    refine alike.ended atEnd left symbol right (by rw [same]; simp) fun feed => fed.single ?_
    rw [same]
    exact List.mem_append_right left feed
  · intro narrow
    refine ⟨fun left mark right same _ breaks => ?_, fun left mark right same more absent => ?_,
      fun atEnd left mark right same _ => ?_⟩
    · rcases parted_concat same with ⟨_, feed, _⟩ | ⟨more, behind, front⟩
      · exact .inl feed
      · obtain ⟨carriage, rfl⟩ := fed.returns left mark more front breaks
        exact .inr ⟨carriage, by rw [behind]; rfl⟩
    · rcases parted_concat same with ⟨_, _, vacant⟩ | ⟨others, behind, _⟩
      · exact absurd vacant more
      · exact absurd (by rw [behind]; simp) absent
    · rw [← List.cons_append, ← List.append_assoc] at same
      obtain ⟨inside, _⟩ := List.append_inj' same rfl
      exact narrow atEnd mark (by rw [inside]; simp)

theorem countsAlike_next_line (front behind : Text) (more : front ≠ []) :
    CountsAlike (inner ++ [.char '\n'] ++ front) behind ↔ CountsAlike front behind := by
  constructor
  · intro alike
    have longer : ∀ {left mark right}, front = left ++ mark :: right →
        inner ++ [.char '\n'] ++ front = (inner ++ [.char '\n'] ++ left) ++ mark :: right := by
      intro left mark right same
      rw [same, List.append_assoc _ left]
    exact ⟨fun left mark right same => alike.feeds _ mark right (longer same),
      fun left mark right same => alike.narrow _ mark right (longer same),
      fun atEnd left mark right same => alike.ended atEnd _ mark right (longer same)⟩
  · intro alike
    -- A symbol of the whole front is on the line that ends with the line feed, or behind it.
    have parts : ∀ {left mark right}, inner ++ [.char '\n'] ++ front = left ++ mark :: right →
        (∃ others, left = inner ++ [.char '\n'] ++ others ∧ front = others ++ mark :: right) ∨
        (∃ others, inner ++ [.char '\n'] = left ++ mark :: others ∧ right = others ++ front) := by
      intro left mark right same
      rcases List.append_eq_append_iff.mp same with ⟨others, before, behind⟩ | ⟨others, before, behind⟩
      · exact .inl ⟨others, before, behind⟩
      · cases others with
        | nil => exact .inl ⟨[], by simpa using before.symm, by simpa using behind.symm⟩
        | cons symbol others =>
          obtain ⟨rfl, tail⟩ := List.cons.inj behind
          exact .inr ⟨others, before, tail⟩
    have feedInside : ∀ {left mark others}, inner ++ [.char '\n'] = left ++ mark :: others →
        mark = .char '\n' ∨ .char '\n' ∈ others := by
      intro left mark others same
      rcases parted_concat same with ⟨_, feed, _⟩ | ⟨between, behind, _⟩
      · exact .inl feed
      · exact .inr (by rw [behind]; simp)
    refine ⟨fun left mark right same held breaks => ?_, fun left mark right same held absent => ?_,
      fun atEnd left mark right same absent => ?_⟩
    · rcases parts same with ⟨others, _, inside⟩ | ⟨others, inside, rfl⟩
      · exact alike.feeds others mark right inside held breaks
      · rcases parted_concat inside with ⟨_, feed, _⟩ | ⟨between, rfl, whole⟩
        · exact .inl feed
        · obtain ⟨carriage, rfl⟩ := fed.returns left mark between whole breaks
          exact .inr ⟨carriage, rfl⟩
    · rcases parts same with ⟨others, _, inside⟩ | ⟨others, inside, rfl⟩
      · exact alike.narrow others mark right inside held absent
      · rcases feedInside inside with rfl | feed
        · exact absurd List.mem_cons_self absent
        · exact absurd (List.mem_cons_of_mem mark (List.mem_append_left front feed)) absent
    · rcases parts same with ⟨others, _, inside⟩ | ⟨others, inside, behind⟩
      · exact alike.ended atEnd others mark right inside absent
      · rcases feedInside inside with rfl | feed
        · exact absurd List.mem_cons_self absent
        · obtain ⟨last, ending, rfl⟩ := List.eq_nil_or_concat front |>.resolve_left more
          rw [List.concat_eq_append, ← List.append_assoc] at behind
          obtain ⟨same, _⟩ := List.append_inj' behind rfl
          exact absurd (List.mem_cons_of_mem mark (by rw [same]; exact List.mem_append_left _ feed)) absent

end Fed

/-- The column counts as far as the width of the symbols goes, also where a carriage return is left out. -/
theorem columnIn_on_line (front more : Text) (single : .char '\n' ∉ front) :
    columnIn (front ++ more) front.length = front.length ↔ ∀ symbol ∈ front.dropLast, units symbol = 1 := by
  suffices shown : front.length ≤ (withLineFeed (front ++ more)).length ∧
      ((withLineFeed (front ++ more)).take front.length).dropLast = front.dropLast by
    rw [columnIn_eq_iff _ _ shown.1, shown.2]
  by_cases unended : ∀ base, front ++ more ≠ base ++ [.char '\r', .char '\n']
  · rw [withLineFeed_of_none _ unended, List.take_left, List.length_append]
    exact ⟨Nat.le_add_right _ _, rfl⟩
  · obtain ⟨base, both⟩ := not_forall_not.mp unended
    rw [both, withLineFeed_of_both]
    obtain ⟨others, inside⟩ : ∃ others, base ++ [.char '\r'] = front ++ others := by
      rcases List.eq_nil_or_concat more with rfl | ⟨others, last, rfl⟩
      · exact absurd (by rw [← List.append_nil front, both]; simp) single
      · have parted : front ++ others ++ [last] = base ++ [.char '\r'] ++ [.char '\n'] := by simpa using both
        exact ⟨others, (List.append_inj' parted rfl).1.symm⟩
    rcases List.eq_nil_or_concat others with rfl | ⟨between, last, rfl⟩
    · rw [List.append_nil] at inside
      simp [← inside, List.take_of_length_le]
    · rw [List.concat_eq_append, ← List.append_assoc] at inside
      rw [(List.append_inj' inside rfl).1, List.append_assoc, List.take_left, List.length_append]
      exact ⟨Nat.le_add_right _ _, rfl⟩

/-- In a part of a line without line feeds only the last symbol can break it. -/
theorem unbroken_of_line {body ending rest front more : Text} (line : FirstLine body ending rest)
    (same : body ++ ending = front ++ more) (single : .char '\n' ∉ front) :
    ∀ symbol ∈ front.dropLast, symbol.satisfies breaksLine = false := by
  intro symbol member
  obtain ⟨left, right, parted, held⟩ := (mem_dropLast_iff front symbol).mp member
  rcases fed_or_unfed line with ⟨inner, feed, fed⟩ | unfed
  · apply eq_false_of_ne_true
    intro breaks
    rw [feed, parted, List.append_assoc, List.cons_append] at same
    rcases parted_concat same with ⟨_, _, vacant⟩ | ⟨between, behind, inside⟩
    · exact held (List.append_eq_nil_iff.mp vacant).1
    · obtain ⟨_, rfl⟩ := fed.returns left symbol between inside breaks
      obtain ⟨next, others, rfl⟩ := List.exists_cons_of_ne_nil held
      obtain ⟨rfl, _⟩ := List.cons.inj behind
      exact single (by rw [parted]; simp)
  · apply unfed.unbroken
    rw [mem_dropLast_iff]
    exact ⟨left, right ++ more, by rw [same, parted]; simp, by simp [held]⟩

/-- The front of a text is part of its first line, or goes on behind it. -/
theorem exists_line_of_front (front behind : Text) (held : front ++ behind ≠ []) :
    ∃ body ending rest, front ++ behind = body ++ (ending ++ rest) ∧ FirstLine body ending rest ∧
      ((∃ more, body ++ ending = front ++ more ∧ .char '\n' ∉ front) ∨
        ∃ later, front = body ++ ending ++ later ∧ rest = later ++ behind ∧
          (later = [] → ∃ inner, body ++ ending = inner ++ [.char '\n'] ∧ Fed inner)) := by
  obtain ⟨body, ending, rest, whole, line⟩ := exists_firstLine _ held
  refine ⟨body, ending, rest, whole, line, ?_⟩
  rw [← List.append_assoc] at whole
  rcases fed_or_unfed line with ⟨inner, feed, fed⟩ | unfed
  · rcases List.append_eq_append_iff.mp whole with ⟨more, same, behindSame⟩ | ⟨later, same, restSame⟩
    · rcases List.eq_nil_or_concat more with rfl | ⟨others, last, rfl⟩
      · exact .inr ⟨[], by simpa using same.symm, behindSame.symm, fun _ => ⟨inner, feed, fed⟩⟩
      · rw [feed, List.concat_eq_append, ← List.append_assoc] at same
        refine .inl ⟨_, by rw [feed, same, List.append_assoc], fun member => fed.single ?_⟩
        rw [(List.append_inj' same rfl).1]
        exact List.mem_append_left others member
    · exact .inr ⟨later, same, restSame, fun _ => ⟨inner, feed, fed⟩⟩
  · rcases List.append_eq_append_iff.mp whole with ⟨more, same, _⟩ | ⟨later, same, restSame⟩
    · exact .inl ⟨more, same, fun member => unfed.single (same ▸ List.mem_append_left more member)⟩
    · by_cases last : later = []
      · subst last
        rw [List.append_nil] at same
        exact .inl ⟨[], by rw [same, List.append_nil], same ▸ unfed.single⟩
      · exact .inr ⟨later, same, restSame, fun empty => absurd empty last⟩

theorem toIndex_zero (source : Text) : toIndex source ⟨0, 0⟩ = 0 := by
  cases source with
  | nil => rfl
  | cons symbol source =>
    obtain ⟨body, ending, rest, same, line⟩ := exists_firstLine (symbol :: source) (List.cons_ne_nil _ _)
    rw [same, toIndex_first line, columnIn_zero]

theorem lineFeeds_line_le {body ending rest : Text} (line : FirstLine body ending rest) :
    lineFeeds (body ++ ending) ≤ 1 := by
  rcases fed_or_unfed line with ⟨inner, feed, fed⟩ | unfed
  · rw [feed, lineFeeds_append, lineFeeds_eq_zero inner fed.single]
    decide
  · rw [lineFeeds_eq_zero _ unfed.single]
    exact Nat.zero_le 1

/-- Every line feed ends a line in the wide sense, so a line with a smaller number ends in front of the last of them. -/
theorem toIndex_lt (front behind : Text) (number : Nat) (fewer : number < lineFeeds front) :
    toIndex (front ++ behind) ⟨number, lastLineLength front⟩ < front.length := by
  induction size : front.length using Nat.strong_induction_on generalizing front number with
  | _ length ih =>
    subst size
    have feed : .char '\n' ∈ front := (lineFeeds_pos front).mp (Nat.zero_lt_of_lt fewer)
    have held : front ++ behind ≠ [] := List.append_ne_nil_of_left_ne_nil (List.ne_nil_of_mem feed) behind
    obtain ⟨body, ending, rest, whole, line, ⟨_, _, single⟩ | ⟨later, same, restSame, ends⟩⟩ :=
      exists_line_of_front front behind held
    · contradiction
    have positive := List.length_pos_iff.mpr line.held
    have total : front.length = (body ++ ending).length + later.length := by rw [same, List.length_append]
    rw [whole]
    cases number with
    | zero =>
      rw [toIndex_first line]
      by_cases short : lastLineLength front = 0
      · rw [short, columnIn_zero]
        omega
      · have more : later ≠ [] := by
          intro vacant
          obtain ⟨inner, feed, _⟩ := ends vacant
          rw [same, vacant, feed, lastLineLength_feed] at short
          contradiction
        have most := columnIn_le (body ++ ending) (lastLineLength front)
        have beyond := List.length_pos_iff.mpr more
        omega
    | succ number =>
      have one := lineFeeds_line_le line
      rw [same, lineFeeds_append] at fewer
      have further : number < lineFeeds later := by omega
      have member : .char '\n' ∈ later := (lineFeeds_pos later).mp (Nat.zero_lt_of_lt further)
      have bound := ih later.length (by omega) later number further rfl
      have column : lastLineLength front = lastLineLength later := by rw [same, lastLineLength_append _ _ member]
      rw [← restSame, ← column] at bound
      rw [toIndex_next line (by simp [restSame, List.ne_nil_of_mem member])]
      omega

section Behind
variable {body ending rest : Text} (line : FirstLine body ending rest)
include line

theorem toIndex_behind_line (inner : Text) (feed : body ++ ending = inner ++ [.char '\n']) :
    toIndex (body ++ (ending ++ rest)) ⟨1, 0⟩ = (inner ++ [Sym.char '\n']).length ↔
      (rest = [] → ∀ symbol ∈ inner, units symbol = 1) := by
  by_cases last : rest = []
  · have narrow : units (Sym.char '\n') = 1 := by decide
    rw [toIndex_behind line last, feed, unitsOf_eq_length_iff]
    simp [last, List.forall_mem_append, narrow, -List.mem_append]
  · rw [toIndex_next line last, toIndex_zero, feed]
    exact iff_of_true rfl fun empty => absurd empty last

/-- A number that leaves the first line out is too small for what stands behind that line. -/
theorem toIndex_behind_unfed (later behind : Text) (more : later ≠ []) (parted : rest = later ++ behind) :
    toIndex (body ++ (ending ++ rest)) ⟨lineFeeds later, lastLineLength (body ++ ending ++ later)⟩ <
      (body ++ ending ++ later).length := by
  rw [List.length_append]
  cases feeds : lineFeeds later with
  | zero =>
    have most := columnIn_le (body ++ ending) (lastLineLength (body ++ ending ++ later))
    have beyond := List.length_pos_iff.mpr more
    rw [toIndex_first line]
    omega
  | succ number =>
    have member : .char '\n' ∈ later := (lineFeeds_pos later).mp (by omega)
    have bound := toIndex_lt later behind number (by omega)
    rw [toIndex_next line (by simp [parted, more]), lastLineLength_append _ _ member, parted]
    omega

end Behind

theorem not_countsAlike_behind_unfed {front rest : Text} (later behind : Text) (unfed : Unfed front rest)
    (more : later ≠ []) (parted : rest = later ++ behind) : ¬ CountsAlike (front ++ later) behind := by
  intro alike
  rcases unfed.ends with empty | ⟨body, mark, same, breaks, alone⟩
  · simp [parted, more] at empty
  · have single := unfed.single
    rw [same] at alike single
    rcases alike.feeds body mark later (by simp) more breaks with feed | ⟨carriage, feed⟩
    · exact single (by simp [feed])
    · apply alone carriage
      rw [parted, List.head?_append, feed]
      rfl

/-- The index that a reported position is read as is the one it was reported for exactly where the counts agree. -/
theorem toIndex_eq_iff (front behind : Text) :
    toIndex (front ++ behind) ⟨lineFeeds front, lastLineLength front⟩ = front.length ↔ CountsAlike front behind := by
  induction size : front.length using Nat.strong_induction_on generalizing front with
  | _ length ih =>
    subst size
    by_cases vacant : front ++ behind = []
    · obtain ⟨rfl, rfl⟩ := List.append_eq_nil_iff.mp vacant
      exact iff_of_true rfl ((countsAlike_on_line [] [] (by simp) (by simp)).mpr (by simp))
    obtain ⟨body, ending, rest, whole, line, ⟨more, same, single⟩ | ⟨later, same, restSame, ends⟩⟩ :=
      exists_line_of_front front behind vacant
    · rw [whole, lineFeeds_eq_zero front single, lastLineLength_of_single front single, toIndex_first line, same,
        columnIn_on_line front more single,
        countsAlike_on_line front behind single (unbroken_of_line line same single)]
    rw [whole]
    by_cases last : later = []
    · obtain ⟨inner, feed, fed⟩ := ends last
      subst last
      rw [feed, List.append_nil] at same
      subst same
      have column : lastLineLength (inner ++ [.char '\n']) = 0 := by
        have behindFeed := lastLineLength_feed inner []
        rwa [List.append_nil] at behindFeed
      rw [List.nil_append] at restSame
      rw [lineFeeds_append, lineFeeds_eq_zero inner fed.single, column, ← restSame, countsAlike_behind_line fed]
      exact toIndex_behind_line line inner feed
    rcases fed_or_unfed line with ⟨inner, feed, fed⟩ | unfed
    · have shorter : later.length < front.length := by
        have positive := List.length_pos_iff.mpr line.held
        rw [same, List.length_append]
        omega
      have further := ih later.length shorter later rfl
      have number : lineFeeds front = lineFeeds later + 1 := by
        rw [same, feed, lineFeeds_append, lineFeeds_append, lineFeeds_eq_zero inner fed.single, Nat.zero_add,
          Nat.add_comm]
        rfl
      have column : lastLineLength front = lastLineLength later := by rw [same, feed, lastLineLength_feed]
      have total : front.length = (body ++ ending).length + later.length := by rw [same, List.length_append]
      rw [number, column, toIndex_next line (by simp [restSame, last]), restSame, total, Nat.add_left_cancel_iff, further,
        same, feed, countsAlike_next_line fed later behind last]
    · have short := toIndex_behind_unfed line later behind last restSame
      have number : lineFeeds front = lineFeeds later := by
        rw [same, lineFeeds_append, lineFeeds_eq_zero _ unfed.single, Nat.zero_add]
      rw [number, same]
      exact iff_of_false (Nat.ne_of_lt short) (not_countsAlike_behind_unfed later behind unfed last restSame)

theorem toIndex_of_ofIndex (source : Text) (index : Nat) (place : Position)
    (reported : ofIndex source index = .ok place) :
    place.toIndex source = index ↔ CountsAlike (source.take index) (source.drop index) := by
  have inside : index ≤ source.length := by
    obtain ⟨byte, cut, _⟩ := (bind_eq_ok_iff _ _ _).mp reported
    exact ((Offset.byteOfChar_eq_ok_iff index source byte).mp cut).1
  rw [ofIndex_of_le source index inside] at reported
  obtain rfl := Except.ok.inj reported
  have alike := toIndex_eq_iff (source.take index) (source.drop index)
  rwa [List.take_append_drop, List.length_take_of_le inside] at alike

end Position

namespace Hover
open Position

theorem atIndex_eq_ok_some (source : Text) (index : Nat) (hover : Hover)
    (shown : atIndex source index = .ok (some hover)) :
    ∃ span, spanAt source index = .ok (some span) ∧ hover.markdown = markdownOf span.chain ∧
      ofIndex source span.first = .ok hover.first ∧ ofIndex source span.stop = .ok hover.last := by
  obtain ⟨found, spanned, answered⟩ := (bind_eq_ok_iff _ _ _).mp shown
  cases found with
  | none => exact absurd (Except.ok.inj answered) (by simp)
  | some span =>
    obtain ⟨firstPlace, first, further⟩ := (bind_eq_ok_iff _ _ _).mp answered
    obtain ⟨lastPlace, last, same⟩ := (bind_eq_ok_iff _ _ _).mp further
    obtain rfl := Option.some.inj (Except.ok.inj same)
    exact ⟨span, spanned, rfl, first, last⟩

/-- Each end of a reported range is read as the character it was reported for exactly where the counts in front of
it agree. -/
theorem range_reads_back_iff (source : Text) (position : Position) (hover : Hover)
    (shown : atPosition source position = .ok (some hover)) :
    ∃ span, spanAt source (position.toIndex source) = .ok (some span) ∧ hover.markdown = markdownOf span.chain ∧
      (hover.first.toIndex source = span.first ↔ CountsAlike (source.take span.first) (source.drop span.first)) ∧
      (hover.last.toIndex source = span.stop ↔ CountsAlike (source.take span.stop) (source.drop span.stop)) := by
  obtain ⟨span, spanned, markdown, first, last⟩ := atIndex_eq_ok_some source _ hover shown
  exact ⟨span, spanned, markdown, toIndex_of_ofIndex source _ _ first, toIndex_of_ofIndex source _ _ last⟩

/-- A line break of two symbols and a wide character in front of the range's line change nothing. -/
theorem range_behind_return_reads_back :
    ∃ (hover : Hover) (span : Span),
      atPosition (Text.ofString "'😀';\r\n$é->tag") ⟨1, 5⟩ = .ok (some hover) ∧
      spanAt (Text.ofString "'😀';\r\n$é->tag") (toIndex (Text.ofString "'😀';\r\n$é->tag") ⟨1, 5⟩) = .ok (some span) ∧
      span.first < span.stop ∧
      CountsAlike ((Text.ofString "'😀';\r\n$é->tag").take span.first) ((Text.ofString "'😀';\r\n$é->tag").drop span.first) ∧
      CountsAlike ((Text.ofString "'😀';\r\n$é->tag").take span.stop) ((Text.ofString "'😀';\r\n$é->tag").drop span.stop) := by
  have shown : atPosition (Text.ofString "'😀';\r\n$é->tag") ⟨1, 5⟩ =
      .ok (some ⟨markdownOf [Text.ofString "$é", Text.ofString "tag"], ⟨1, 0⟩, ⟨1, 7⟩⟩) := by
    decide +kernel
  have span : spanAt (Text.ofString "'😀';\r\n$é->tag") (toIndex (Text.ofString "'😀';\r\n$é->tag") ⟨1, 5⟩) =
      .ok (some ⟨6, 13, [Text.ofString "$é", Text.ofString "tag"]⟩) := by
    decide +kernel
  obtain ⟨found, spanned, _, first, last⟩ := range_reads_back_iff _ _ _ shown
  obtain rfl := Option.some.inj (Except.ok.inj (spanned.symm.trans span))
  exact ⟨_, _, shown, span, by decide, first.mp (by decide +kernel), last.mp (by decide +kernel)⟩

/-- The variable takes three units and two characters, so the end of the range is read one character too early. -/
theorem range_behind_wide_character :
    ∃ (hover : Hover) (span : Span),
      atPosition (Text.ofString "$😀->b") ⟨0, 6⟩ = .ok (some hover) ∧
      spanAt (Text.ofString "$😀->b") (toIndex (Text.ofString "$😀->b") ⟨0, 6⟩) = .ok (some span) ∧
      hover.last.toIndex (Text.ofString "$😀->b") ≠ span.stop :=
  ⟨⟨markdownOf [Text.ofString "$😀", Text.ofString "b"], ⟨0, 0⟩, ⟨0, 5⟩⟩, ⟨0, 5, [Text.ofString "$😀", Text.ofString "b"]⟩,
    by decide +kernel, by decide +kernel, by decide +kernel⟩

end Hover
end AccessChain
