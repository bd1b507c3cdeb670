import AccessChain.Offset.Basic
import AccessChain.Proofs.ReportedPositions
import Mathlib.Data.List.DropRight

/-! The report of an offset outside its source. Its line and its column are counted in line feeds, and the text that it
shows is a line in the wide sense, so it shows the line of the place only where the two kinds of line agree. -/
namespace AccessChain

namespace Text
open Position (Fed Unfed fed_or_unfed)

theorem ofString_append (front behind : String) : ofString (front ++ behind) = ofString front ++ ofString behind := by
  simp [ofString, ofChars]

theorem length_ofString (string : String) : (ofString string).length = string.length := by
  rw [ofString, ofChars, List.length_map, String.length_toList]

/-- Lines with the line feeds that end them. -/
def fedLines (lines : List Text) : Text := lines.flatMap (· ++ [.char '\n'])

/-- A line of a source between the neighbouring line feeds, the lines in front of it and what stands behind it. -/
structure LineAt (source : Text) (earlier : List Text) (content rest : Text) : Prop where
  whole : source = fedLines earlier ++ (content ++ rest)
  single : ∀ line ∈ content :: earlier, .char '\n' ∉ line
  ends : rest = [] ∨ rest.head? = some (.char '\n')

theorem fedLines_cons (line : Text) (lines : List Text) (rest : Text) :
    fedLines (line :: lines) ++ rest = line ++ .char '\n' :: (fedLines lines ++ rest) := by
  simp [fedLines]

theorem exists_firstLineAt (source : Text) : ∃ content rest, LineAt source [] content rest := by
  by_cases fed : .char '\n' ∈ source
  · obtain ⟨content, more, whole, absent⟩ := List.eq_append_cons_of_mem fed
    exact ⟨content, .char '\n' :: more, whole, by simpa using absent, .inr rfl⟩
  · exact ⟨source, [], (List.append_nil source).symm, by simpa using fed, .inl rfl⟩

theorem exists_lastLineAt (source : Text) : ∃ earlier content, LineAt source earlier content [] := by
  induction source with
  | nil => exact ⟨[], [], rfl, by simp, .inl rfl⟩
  | cons symbol source ih =>
    obtain ⟨earlier, content, rfl, single, _⟩ := ih
    by_cases feed : symbol = .char '\n'
    · refine ⟨[] :: earlier, content, ?_, ?_, .inl rfl⟩
      · rw [fedLines_cons, feed, List.nil_append]
      · intro line member
        simp only [List.mem_cons] at member
        rcases member with rfl | rfl | later
        · exact single _ List.mem_cons_self
        · exact List.not_mem_nil
        · exact single line (List.mem_cons_of_mem content later)
    · have kept : ∀ line : Text, .char '\n' ∉ line → .char '\n' ∉ symbol :: line := by
        intro line absent
        rw [List.mem_cons, not_or]
        exact ⟨Ne.symm feed, absent⟩
      cases earlier with
      | nil =>
        refine ⟨[], symbol :: content, rfl, ?_, .inl rfl⟩
        simpa using kept content (single content List.mem_cons_self)
      | cons first earlier =>
        refine ⟨(symbol :: first) :: earlier, content, ?_, ?_, .inl rfl⟩
        · rw [fedLines_cons, fedLines_cons, List.cons_append]
        · intro line member
          simp only [List.mem_cons] at member
          rcases member with rfl | rfl | later
          · exact single _ List.mem_cons_self
          · exact kept first (single first (by simp))
          · exact single line (by simp [later])

section Counting
variable (earlier : List Text) (part : Text) (lines : ∀ line ∈ earlier, .char '\n' ∉ line) (absent : .char '\n' ∉ part)
include lines absent

theorem lineFeeds_fedLines : lineFeeds (fedLines earlier ++ part) = earlier.length := by
  induction earlier with
  | nil => exact lineFeeds_eq_zero part absent
  | cons line earlier ih =>
    obtain ⟨here, others⟩ := List.forall_mem_cons.mp lines
    rw [fedLines_cons, lineFeeds_append, lineFeeds_eq_zero line here, Nat.zero_add, lineFeeds, List.count_cons_self,
      ← lineFeeds, ih others, List.length_cons]

theorem lastLineLength_fedLines : lastLineLength (fedLines earlier ++ part) = part.length := by
  induction earlier with
  | nil => exact lastLineLength_of_single part absent
  | cons line earlier ih =>
    rw [fedLines_cons, ← List.singleton_append, ← List.append_assoc, lastLineLength_feed,
      ih (List.forall_mem_cons.mp lines).2]

end Counting

/-! Lines in the wide sense within lines that line feeds end. -/

theorem linesFrom_feed (held right : Text) :
    linesFrom held (.char '\n' :: right) = (.char '\n' :: held).reverse :: lines right := by
  have feed : (Sym.char '\n').satisfies breaksLine = true := by decide
  cases right with
  | nil => simp [linesFrom, lines]
  | cons next right => simp [linesFrom, lines, feed]

theorem linesFrom_behind_feed (held left right : Text) :
    linesFrom held (left ++ .char '\n' :: right) = linesFrom held (left ++ [.char '\n']) ++ lines right := by
  fun_induction linesFrom held left with
  | case1 held vacant => simp [linesFrom_feed, lines, linesFrom]
  | case2 held nonempty => simp [linesFrom_feed, lines, linesFrom]
  | case3 held symbol =>
    by_cases ends : symbol = .char '\r'
    · simp [linesFrom, lines, ends]
    · by_cases breaks : symbol.satisfies breaksLine = true
      · simp [linesFrom, lines, ends, breaks, linesFrom_feed]
      · simp [linesFrom, lines, ends, breaks, linesFrom_feed]
  | case4 held symbol next rest both ih => simpa [linesFrom, both] using ih
  | case5 held symbol next rest apart breaks ih => simpa [linesFrom, apart, breaks] using ih
  | case6 held symbol next rest apart plain ih => simpa [linesFrom, apart, plain] using ih

theorem lines_fedLines (earlier : List Text) (tail : Text) :
    lines (fedLines earlier ++ tail) = earlier.flatMap (fun line => lines (line ++ [.char '\n'])) ++ lines tail := by
  induction earlier with
  | nil => rfl
  | cons line earlier ih =>
    rw [fedLines_cons, lines, linesFrom_behind_feed, ← lines, ih, List.flatMap_cons, List.append_assoc]

/-- Up to its line feed a line is one line in the wide sense, unless it holds another break. -/
theorem lines_of_single (line : Text) (absent : .char '\n' ∉ line) :
    (Fed line ∧ lines (line ++ [.char '\n']) = [line ++ [.char '\n']]) ∨
      (¬ Fed line ∧ 1 < (lines (line ++ [.char '\n'])).length) := by
  obtain ⟨body, ending, rest, whole, first⟩ := exists_firstLine (line ++ [.char '\n']) (by simp)
  rw [whole, first.lines_eq]
  rw [← List.append_assoc] at whole
  rcases fed_or_unfed first with ⟨inner, same, fed⟩ | unfed
  · rw [same, List.append_assoc] at whole
    rcases parted_concat whole with ⟨rfl, _, rfl⟩ | ⟨more, _, rfl⟩
    · exact .inl ⟨fed, by rw [← List.append_assoc, same, List.append_nil]; rfl⟩
    · exact absurd (List.mem_append_right inner List.mem_cons_self) absent
  · rcases unfed.ends with rfl | ⟨front, mark, same, breaks, alone⟩
    · rw [List.append_nil] at whole
      exact absurd (whole ▸ List.mem_append_right line List.mem_cons_self) unfed.single
    · rw [same, List.append_assoc] at whole
      rcases parted_concat whole with ⟨_, rfl, _⟩ | ⟨more, rfl, rfl⟩
      · exact absurd (same ▸ List.mem_append_right front List.mem_cons_self) unfed.single
      · refine .inr ⟨fun fed => ?_, ?_⟩
        · obtain ⟨rfl, rfl⟩ := fed.returns front mark more rfl breaks
          exact alone rfl rfl
        · have behind := lines_ne_nil (more ++ [.char '\n']) (by simp)
          rw [List.length_cons]
          exact Nat.succ_lt_succ (List.length_pos_iff.mpr behind)

section Index
variable (earlier : List Text) (single : ∀ line ∈ earlier, .char '\n' ∉ line)
include single

theorem lines_of_fed (fed : ∀ line ∈ earlier, Fed line) :
    earlier.flatMap (fun line => lines (line ++ [.char '\n'])) = earlier.map (· ++ [.char '\n']) := by
  induction earlier with
  | nil => rfl
  | cons line earlier ih =>
    obtain ⟨here, others⟩ := List.forall_mem_cons.mp single
    obtain ⟨fedHere, fedOthers⟩ := List.forall_mem_cons.mp fed
    rcases lines_of_single line here with ⟨_, one⟩ | ⟨unfed, _⟩
    · rw [List.flatMap_cons, List.map_cons, one, ih others fedOthers]
      rfl
    · exact absurd fedHere unfed

theorem length_lines_le : earlier.length ≤ (earlier.flatMap (fun line => lines (line ++ [.char '\n']))).length := by
  induction earlier with
  | nil => exact Nat.le_refl 0
  | cons line earlier ih =>
    obtain ⟨here, others⟩ := List.forall_mem_cons.mp single
    have further := ih others
    rw [List.flatMap_cons, List.length_append, List.length_cons]
    rcases lines_of_single line here with ⟨_, one⟩ | ⟨_, several⟩
    · rw [one, List.length_singleton]
      omega
    · omega

theorem length_lines_lt (unfed : ¬ ∀ line ∈ earlier, Fed line) :
    earlier.length < (earlier.flatMap (fun line => lines (line ++ [.char '\n']))).length := by
  induction earlier with
  | nil => exact absurd nofun unfed
  | cons line earlier ih =>
    obtain ⟨here, others⟩ := List.forall_mem_cons.mp single
    have further := length_lines_le earlier others
    rw [List.flatMap_cons, List.length_append, List.length_cons]
    rcases lines_of_single line here with ⟨fed, one⟩ | ⟨_, several⟩
    · rw [List.forall_mem_cons, not_and] at unfed
      have strictly := ih others (unfed fed)
      rw [one, List.length_singleton]
      omega
    · omega

end Index

theorem eq_nil_of_feed (front text behind : Text) (absent : .char '\n' ∉ front) (same : text = front ++ behind)
    (ends : text = [] ∨ text.head? = some (.char '\n')) : front = [] := by
  cases front with
  | nil => rfl
  | cons symbol front =>
    rw [same] at ends
    rcases ends with never | feed
    · contradiction
    · obtain rfl := Option.some.inj feed
      exact absurd List.mem_cons_self absent

/-- A part of a line up to the first break on it: the whole line if there is none before its last symbol. -/
structure UpToBreak (content part : Text) : Prop where
  unbroken : ∀ symbol ∈ part.dropLast, symbol.satisfies breaksLine = false
  ends : part = content ∨ ∃ front mark behind, part = front ++ [mark] ∧ content = part ++ behind ∧
    mark.satisfies breaksLine = true

/-- The first line in the wide sense of a line and what stands behind it goes up to the first break, line feeds among
them. -/
theorem firstLine_cases (content rest : Text) (absent : .char '\n' ∉ content)
    (ends : rest = [] ∨ rest.head? = some (.char '\n')) (held : content ++ rest ≠ []) :
    ∃ part first others, lines (content ++ rest) = first :: others ∧
      (first = part ∨ first = part ++ [.char '\n']) ∧ .char '\n' ∉ part ∧ UpToBreak content part := by
  obtain ⟨body, ending, more, whole, line⟩ := exists_firstLine (content ++ rest) held
  have read := line.lines_eq
  rw [← whole] at read
  rw [← List.append_assoc] at whole
  rcases fed_or_unfed line with ⟨inner, same, fed⟩ | unfed
  · refine ⟨inner, _, _, read, .inr same, fed.single, ?_, .inl ?_⟩
    · intro symbol member
      obtain ⟨left, right, rfl, later⟩ := (mem_dropLast_iff inner symbol).mp member
      exact eq_false_of_ne_true fun breaks => later (fed.returns left symbol right rfl breaks).2
    · rw [same, List.append_assoc, List.singleton_append] at whole
      rcases List.append_eq_append_iff.mp whole with ⟨between, rfl, behind⟩ | ⟨between, rfl, behind⟩
      · have apart : .char '\n' ∉ between := fun member => fed.single (List.mem_append_right content member)
        rw [eq_nil_of_feed between rest _ apart behind ends, List.append_nil]
      · have apart : .char '\n' ∉ between := fun member => absent (List.mem_append_right inner member)
        rw [eq_nil_of_feed between _ rest apart behind (.inr rfl), List.append_nil]
  · refine ⟨body ++ ending, _, _, read, .inl rfl, unfed.single, unfed.unbroken, ?_⟩
    rcases List.append_eq_append_iff.mp whole with ⟨between, longer, behind⟩ | ⟨between, parted, behind⟩
    · have apart : .char '\n' ∉ between := fun member => unfed.single (longer ▸ List.mem_append_right content member)
      rw [longer, eq_nil_of_feed between rest more apart behind ends, List.append_nil]
      exact .inl rfl
    · rcases unfed.ends with rfl | ⟨front, mark, same, breaks, _⟩
      · obtain ⟨rfl, _⟩ := List.append_eq_nil_iff.mp behind.symm
        exact .inl (by rw [parted, List.append_nil])
      · exact .inr ⟨front, mark, between, same, parted, breaks⟩

end Text

namespace OffsetError
open Text
open Position (Fed)

theorem withoutEnding_eq (line : Text) :
    withoutEnding line = (line.rdropWhile (· == .char '\n')).rdropWhile (· == .char '\r') := by
  simp [withoutEnding, List.rdropWhile]

theorem withoutEnding_of_single (line : Text) (absent : .char '\n' ∉ line) :
    withoutEnding line = line.rdropWhile (· == .char '\r') := by
  have kept : line.rdropWhile (· == .char '\n') = line := by
    rw [List.rdropWhile_eq_self_iff]
    intro nonempty feed
    exact absent (beq_iff_eq.mp feed ▸ List.getLast_mem nonempty)
  rw [withoutEnding_eq, kept]

theorem withoutEnding_fed (line : Text) (absent : .char '\n' ∉ line) :
    withoutEnding (line ++ [.char '\n']) = line.rdropWhile (· == .char '\r') := by
  rw [← withoutEnding_of_single line absent, withoutEnding_eq, withoutEnding_eq, List.rdropWhile_concat_pos _ _ _ (by simp)]

/-- The part up to the first break shows the whole line if and only if nothing but carriage returns stands behind it. -/
theorem shows_iff (content part : Text) (upTo : UpToBreak content part) :
    part.rdropWhile (· == .char '\r') = content.rdropWhile (· == .char '\r') ↔
      ∀ symbol ∈ (content.rdropWhile (· == .char '\r')).dropLast, symbol.satisfies breaksLine = false := by
  let isReturn : Sym → Bool := (· == .char '\r')
  change part.rdropWhile isReturn = content.rdropWhile isReturn ↔ ∀ symbol ∈ (content.rdropWhile isReturn).dropLast, _
  constructor
  · intro same symbol member
    rw [← same] at member
    obtain ⟨left, right, parted, more⟩ := (mem_dropLast_iff _ symbol).mp member
    obtain ⟨returns, whole⟩ := List.rdropWhile_prefix isReturn part
    rw [parted, List.append_assoc, List.cons_append] at whole
    apply upTo.unbroken symbol
    exact (mem_dropLast_iff part symbol).mpr ⟨left, _, whole.symm, List.append_ne_nil_of_left_ne_nil more returns⟩
  · intro plain
    rcases upTo.ends with rfl | ⟨front, mark, behind, rfl, rfl, breaks⟩
    · rfl
    have whole : (front ++ [mark] ++ behind).rdropWhile isReturn ++ (front ++ [mark] ++ behind).rtakeWhile isReturn =
      front ++ [mark] ++ behind := List.rdropWhile_append_rtakeWhile
    have stable := List.rdropWhile_idempotent isReturn (front ++ [mark] ++ behind)
    have returned : ∀ symbol ∈ (front ++ [mark] ++ behind).rtakeWhile isReturn, isReturn symbol = true :=
      fun symbol member => List.mem_rtakeWhile_imp member
    generalize (front ++ [mark] ++ behind).rdropWhile isReturn = kept at whole stable plain ⊢
    rcases List.append_eq_append_iff.mp whole with ⟨returns, same, rest⟩ | ⟨more, same, _⟩
    · rw [same, List.rdropWhile, List.reverse_append, List.dropWhile_append_of_pos, ← List.rdropWhile, stable]
      intro symbol member
      rw [rest] at returned
      exact returned symbol (List.mem_append_left behind (List.mem_reverse.mp member))
    · cases more with
      | nil =>
        rw [List.append_nil] at same
        rw [← same, stable]
      | cons next more =>
        rw [List.append_assoc, List.singleton_append] at same
        have inside := (mem_dropLast_iff kept mark).mpr ⟨front, _, same, List.cons_ne_nil next more⟩
        exact absurd ((plain mark inside).symm.trans breaks) Bool.false_ne_true

theorem infix_of_withoutEnding (line first : Text) (absent : .char '\n' ∉ line) (inside : first <:+: line ++ [.char '\n']) :
    withoutEnding first <:+: line := by
  obtain ⟨before, behind, whole⟩ := inside
  rcases List.eq_nil_or_concat behind with rfl | ⟨behind, last, rfl⟩
  · rcases List.eq_nil_or_concat first with rfl | ⟨front, last, rfl⟩
    · exact List.nil_infix
    · rw [List.append_nil, List.concat_eq_append, ← List.append_assoc] at whole
      obtain ⟨rfl, feed⟩ := List.append_inj' whole rfl
      obtain ⟨rfl, _⟩ := List.cons.inj feed
      rw [List.concat_eq_append, withoutEnding_fed front fun member => absent (List.mem_append_right before member)]
      exact (List.rdropWhile_prefix _ front).isInfix.trans (List.suffix_append before front).isInfix
  · rw [List.concat_eq_append, ← List.append_assoc] at whole
    obtain ⟨rfl, _⟩ := List.append_inj' whole rfl
    have alone : .char '\n' ∉ first := fun member =>
      absent (List.mem_append_left behind (List.mem_append_right before member))
    rw [withoutEnding_of_single first alone]
    exact (List.rdropWhile_prefix _ first).isInfix.trans ⟨before, behind, rfl⟩

section Shown
variable (error : OffsetError) {earlier : List Text} {content rest : Text} (line : LineAt error.source earlier content rest)
  (counted : error.line = earlier.length + 1)
include line counted

theorem shownLine_of_fed (fed : ∀ line ∈ earlier, Fed line) :
    error.shownLine = content.rdropWhile (· == .char '\r') ↔
      ∀ symbol ∈ (content.rdropWhile (· == .char '\r')).dropLast, symbol.satisfies breaksLine = false := by
  obtain ⟨absent, single⟩ := List.forall_mem_cons.mp line.single
  have found : error.shownLine = ((lines (content ++ rest)).head?.map withoutEnding).getD [] := by
    rw [shownLine, counted, line.whole, lines_fedLines, lines_of_fed earlier single fed, Nat.add_sub_cancel,
      List.getElem?_append_right (by simp), List.length_map, Nat.sub_self, List.head?_eq_getElem?]
  by_cases held : content ++ rest = []
  · obtain ⟨rfl, rfl⟩ := List.append_eq_nil_iff.mp held
    rw [found]
    simp [lines, linesFrom]
  · obtain ⟨part, first, others, read, same, alone, upTo⟩ := firstLine_cases content rest absent line.ends held
    have stripped : withoutEnding first = part.rdropWhile (· == .char '\r') := by
      rcases same with rfl | rfl
      · exact withoutEnding_of_single first alone
      · exact withoutEnding_fed part alone
    rw [found, read, List.head?_cons, Option.map_some, Option.getD_some, stripped]
    exact shows_iff content part upTo

theorem shownLine_of_unfed (unfed : ¬ ∀ line ∈ earlier, Fed line) : ∃ line ∈ earlier, error.shownLine <:+: line := by
  obtain ⟨_, single⟩ := List.forall_mem_cons.mp line.single
  have early := length_lines_lt earlier single unfed
  have read := List.getElem_mem early
  have found : error.shownLine = withoutEnding (earlier.flatMap fun line => lines (line ++ [.char '\n']))[earlier.length] := by
    rw [shownLine, counted, line.whole, lines_fedLines, Nat.add_sub_cancel, List.getElem?_append_left early,
      List.getElem?_eq_getElem early]
    rfl
  obtain ⟨broken, member, held⟩ := List.mem_flatMap.mp read
  have inside := List.infix_of_mem_flatten held
  rw [flatten_lines] at inside
  exact ⟨broken, member, found ▸ infix_of_withoutEnding broken _ (single broken member) inside⟩

end Shown

theorem length_spaces (count : Nat) : (spaces count).length = count := by
  simp [spaces]

/-- The nearest end of the source is on the last line, behind all of it, or on the first, in front of it. -/
theorem exists_place (error : OffsetError) : ∃ earlier content rest column,
    LineAt error.source earlier content rest ∧ column ≤ content.length ∧
      (fedLines earlier).length + column = (if error.offset > error.limit then error.source.length else 0) ∧
      error.before = fedLines earlier ++ content.take column := by
  rw [before]
  by_cases beyond : error.offset > error.limit
  · obtain ⟨earlier, content, line⟩ := exists_lastLineAt error.source
    have whole := line.whole
    rw [List.append_nil] at whole
    refine ⟨earlier, content, [], content.length, line, Nat.le_refl _, ?_, ?_⟩
    · rw [if_pos beyond, whole, List.length_append]
    · rw [if_pos beyond, List.take_length, whole]
  · obtain ⟨content, rest, line⟩ := exists_firstLineAt error.source
    exact ⟨[], content, rest, 0, line, Nat.zero_le _, (if_neg beyond).symm, if_neg beyond⟩

/-- A report names the line and the column of the nearest end of the source, both counted from one between line feeds,
and its caret stands under that column. It shows the line of that place only as far as the first break in the wide
sense, and if there is one on an earlier line, then a part of an earlier line. -/
theorem report_points (filename : String) (error : OffsetError) : ∃ earlier content rest column,
    LineAt error.source earlier content rest ∧ column ≤ content.length ∧
    (fedLines earlier).length + column = (if error.offset > error.limit then error.source.length else 0) ∧
    (∃ number gutter margin under, number = toString (earlier.length + 1) ∧ gutter = spaces (number.length + 1) ∧
      margin = ofString (number ++ " | ") ∧ under = ofString (gutter ++ "| " ++ spaces column) ∧
      error.report filename = List.intercalate [.char '\n'] [ofString ("error: " ++ error.message),
        ofString (gutter ++ "--> " ++ filename ++ ":" ++ number ++ ":" ++ toString (column + 1)),
        ofString (gutter ++ "|"), margin ++ error.shownLine, under ++ [.char '^']] ∧
      under.length = margin.length + column) ∧
    ((∀ line ∈ earlier, Fed line) → (error.shownLine = content.rdropWhile (· == .char '\r') ↔
      ∀ symbol ∈ (content.rdropWhile (· == .char '\r')).dropLast, symbol.satisfies breaksLine = false)) ∧
    ((¬ ∀ line ∈ earlier, Fed line) → ∃ line ∈ earlier, error.shownLine <:+: line) := by
  obtain ⟨earlier, content, rest, column, line, within, place, front⟩ := exists_place error
  obtain ⟨absent, single⟩ := List.forall_mem_cons.mp line.single
  have clear : .char '\n' ∉ content.take column := fun member => absent (List.mem_of_mem_take member)
  have counted : error.line = earlier.length + 1 := by
    rw [OffsetError.line, front, lineFeeds_fedLines earlier _ single clear]
  have columned : error.column = column + 1 := by
    rw [OffsetError.column, front, lastLineLength_fedLines earlier _ single clear, List.length_take_of_le within]
  refine ⟨earlier, content, rest, column, line, within, place, ⟨_, _, _, _, rfl, rfl, rfl, rfl, ?_, ?_⟩,
    shownLine_of_fed error line counted, shownLine_of_unfed error line counted⟩
  · have feed : ofString "\n" = [.char '\n'] := rfl
    have caret : ofString "^" = [.char '^'] := rfl
    have bar : ofString "|\n" = ofString "|" ++ [.char '\n'] := rfl
    rw [report, counted, columned]
    simp [ofString_append, feed, caret, bar, List.intercalate]
  · simp only [length_ofString, String.length_append, length_spaces]
    have bar : " | ".length = 3 := rfl
    have sign : "| ".length = 2 := rfl
    omega

/-- The text that is shown ends at a form feed, and the caret stands behind it. -/
theorem report_before_form_feed :
    let error : OffsetError := ⟨"out of range", 9, 3, ofString "a\x0cb"⟩
    LineAt error.source [] error.source [] ∧ error.shownLine = ofString "a\x0c" ∧
      error.report "input.php" ≠ ofString "error: out of range\n  --> input.php:1:4\n  |\n1 | a\x0cb\n  |    ^" := by
  intro error
  refine ⟨⟨rfl, by decide, .inl rfl⟩, by decide, ?_⟩
  decide +kernel

end OffsetError
end AccessChain
