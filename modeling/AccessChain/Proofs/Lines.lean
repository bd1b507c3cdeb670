import AccessChain.Text.Classes
import Mathlib.Data.List.TakeWhile

/-! The first line of a text. A line break in the wide sense ends it, or the end of the text, and the lines behind
it are those of the rest of the text. -/
namespace AccessChain.Text

/-- How a line ends, given what stands behind it. -/
inductive EndsLine : Text → Text → Prop where
  | feed (rest : Text) : EndsLine [.char '\n'] rest
  | returnFeed (rest : Text) : EndsLine [.char '\r', .char '\n'] rest
  | other (mark : Sym) (rest : Text) (breaks : mark.satisfies breaksLine = true) (apart : mark ≠ .char '\n')
      (alone : mark = .char '\r' → rest.head? ≠ some (.char '\n')) : EndsLine [mark] rest
  | last : EndsLine [] []

/-- A text that starts with a line, given as what stands in front of its break and the break. -/
structure FirstLine (body ending rest : Text) : Prop where
  unbroken : ∀ symbol ∈ body, symbol.satisfies breaksLine = false
  ends : EndsLine ending rest
  held : body ++ ending ≠ []

theorem exists_firstLine (text : Text) (held : text ≠ []) :
    ∃ body ending rest, text = body ++ (ending ++ rest) ∧ FirstLine body ending rest := by
  induction text with
  | nil => contradiction
  | cons symbol text ih =>
    by_cases breaks : symbol.satisfies breaksLine = true
    · have unbroken : ∀ member ∈ ([] : Text), member.satisfies breaksLine = false := by simp
      by_cases feed : symbol = .char '\n'
      · exact ⟨[], [symbol], text, rfl, unbroken, feed ▸ .feed text, List.cons_ne_nil _ _⟩
      by_cases both : symbol = .char '\r' ∧ text.head? = some (.char '\n')
      · obtain ⟨rfl, headed⟩ := both
        obtain ⟨rest, rfl⟩ := List.head?_eq_some_iff.mp headed
        exact ⟨[], _, rest, rfl, unbroken, .returnFeed rest, List.cons_ne_nil _ _⟩
      · exact ⟨[], [symbol], text, rfl, unbroken, .other symbol text breaks feed fun single headed => both ⟨single, headed⟩,
          List.cons_ne_nil _ _⟩
    · have plain : symbol.satisfies breaksLine = false := eq_false_of_ne_true breaks
      by_cases more : text = []
      · subst more
        exact ⟨[symbol], [], [], rfl, by simpa using plain, .last, List.cons_ne_nil _ _⟩
      · obtain ⟨body, ending, rest, same, line⟩ := ih more
        refine ⟨symbol :: body, ending, rest, congrArg (symbol :: ·) same, ?_, line.ends, List.cons_ne_nil _ _⟩
        intro other member
        rcases List.mem_cons.mp member with rfl | later
        · exact plain
        · exact line.unbroken other later

theorem linesFrom_firstLine (held body ending rest : Text) (ends : EndsLine ending rest)
    (unbroken : ∀ symbol ∈ body, symbol.satisfies breaksLine = false) (nonempty : held ++ (body ++ ending) ≠ []) :
    linesFrom held (body ++ (ending ++ rest)) = (held.reverse ++ (body ++ ending)) :: lines rest := by
  induction body generalizing held with
  | nil =>
    cases ends with
    | feed =>
      have feed : (Sym.char '\n').satisfies breaksLine = true := by decide
      cases rest with
      | nil => simp [linesFrom, lines]
      | cons next rest => simp [linesFrom, lines, feed]
    | returnFeed => simp [linesFrom, lines]
    | other mark _ breaks apart alone =>
      cases rest with
      | nil => simp [linesFrom, lines]
      | cons next rest =>
        have single : ¬ (mark = .char '\r' ∧ next = .char '\n') := fun both => alone both.1 (congrArg _ both.2)
        simp [linesFrom, lines, single, breaks]
    | last =>
      have kept : held ≠ [] := by simpa using nonempty
      simp [linesFrom, lines, kept]
  | cons symbol body ih =>
    have plain := unbroken symbol List.mem_cons_self
    have apart : symbol ≠ .char '\r' := by
      rintro rfl
      exact absurd plain (by decide)
    have further := ih (symbol :: held) (fun other member => unbroken other (List.mem_cons_of_mem _ member))
      (List.cons_ne_nil _ _)
    cases tail : body ++ (ending ++ rest) with
    | nil =>
      obtain ⟨rfl, vacant⟩ := List.append_eq_nil_iff.mp tail
      obtain ⟨rfl, rfl⟩ := List.append_eq_nil_iff.mp vacant
      simp [linesFrom, lines]
    | cons next more =>
      rw [tail] at further
      rw [List.cons_append, tail, linesFrom, if_neg (by simp [apart]), if_neg (by simp [plain]), further]
      simp

namespace FirstLine
variable {body ending rest : Text} (line : FirstLine body ending rest)
include line

theorem lines_eq : lines (body ++ (ending ++ rest)) = (body ++ ending) :: lines rest :=
  linesFrom_firstLine [] body ending rest line.ends line.unbroken line.held

theorem not_mem_body (mark : Char) (breaks : breaksLine mark = true) : Sym.char mark ∉ body := by
  intro member
  have plain : breaksLine mark = false := line.unbroken _ member
  exact Bool.false_ne_true (plain.symm.trans breaks)

end FirstLine

theorem lines_ne_nil (text : Text) (held : text ≠ []) : lines text ≠ [] := by
  obtain ⟨body, ending, rest, rfl, line⟩ := exists_firstLine text held
  rw [line.lines_eq]
  exact List.cons_ne_nil _ _

theorem lineFeeds_append (left right : Text) : lineFeeds (left ++ right) = lineFeeds left + lineFeeds right :=
  List.count_append

theorem lineFeeds_eq_zero (text : Text) (absent : .char '\n' ∉ text) : lineFeeds text = 0 :=
  List.count_eq_zero.mpr absent

theorem lineFeeds_pos (text : Text) : 0 < lineFeeds text ↔ .char '\n' ∈ text :=
  List.count_pos_iff

theorem lastLineLength_of_single (text : Text) (absent : .char '\n' ∉ text) : lastLineLength text = text.length := by
  have all : ∀ symbol ∈ text.reverse, (symbol != .char '\n') = true := by
    intro symbol member
    exact bne_iff_ne.mpr fun feed => absent (feed ▸ List.mem_reverse.mp member)
  have whole : text.reverse.takeWhile (· != .char '\n') = text.reverse :=
    List.takeWhile_eq_self_iff.mpr all
  rw [lastLineLength, whole, List.length_reverse]

theorem lastLineLength_append (left right : Text) (member : .char '\n' ∈ right) :
    lastLineLength (left ++ right) = lastLineLength right := by
  have short : right.reverse.takeWhile (· != .char '\n') ≠ right.reverse := by
    intro whole
    have each := List.takeWhile_eq_self_iff.mp whole _ (List.mem_reverse.mpr member)
    simp at each
  have stopped : (right.reverse.takeWhile (· != .char '\n')).length ≠ right.reverse.length :=
    fun same => short ((List.takeWhile_prefix _).eq_of_length same)
  rw [lastLineLength, List.reverse_append, List.takeWhile_append, if_neg stopped, lastLineLength]

theorem lastLineLength_feed (left right : Text) :
    lastLineLength (left ++ [.char '\n'] ++ right) = lastLineLength right := by
  have stops : List.takeWhile (fun symbol : Sym => symbol != .char '\n') (.char '\n' :: left.reverse) = [] := by simp
  have reversed : (left ++ [Sym.char '\n'] ++ right).reverse = right.reverse ++ .char '\n' :: left.reverse := by simp
  rw [lastLineLength, reversed, List.takeWhile_append, stops, List.append_nil, lastLineLength]
  split
  · next whole => rw [(List.takeWhile_prefix _).eq_of_length whole]
  · rfl

/-! Lines in the narrow sense, which end at line feeds only. -/

theorem splitOn_feed (left right : Text) :
    (left ++ .char '\n' :: right).splitOn (.char '\n') = left.splitOn (.char '\n') ++ right.splitOn (.char '\n') :=
  List.splitOnP_append_cons left right (beq_self_eq_true _)

theorem splitOn_single (text : Text) (absent : .char '\n' ∉ text) : text.splitOn (.char '\n') = [text] :=
  List.splitOnP_eq_singleton fun _ member => beq_eq_false_iff_ne.mpr fun feed => absent (feed ▸ member)

theorem not_mem_of_mem_splitOn (text line : Text) (member : line ∈ text.splitOn (.char '\n')) : .char '\n' ∉ line := by
  induction text generalizing line with
  | nil =>
    rw [splitOn_single [] List.not_mem_nil, List.mem_singleton] at member
    rw [member]
    exact List.not_mem_nil
  | cons symbol text ih =>
    by_cases feed : symbol = .char '\n'
    · have parts : (symbol :: text).splitOn (.char '\n') = [] :: text.splitOn (.char '\n') := by
        rw [feed, ← List.nil_append (.char '\n' :: text), splitOn_feed, splitOn_single [] List.not_mem_nil]
        rfl
      rw [parts, List.mem_cons] at member
      rcases member with rfl | later
      · exact List.not_mem_nil
      · exact ih line later
    · have parts : (symbol :: text).splitOn (.char '\n') = (text.splitOn (.char '\n')).modifyHead (symbol :: ·) := by
        rw [List.splitOn, List.splitOnP_cons_eq_if_modifyHead, if_neg (by simpa using feed)]
        rfl
      rw [parts] at member
      cases lines : text.splitOn (.char '\n') with
      | nil => exact absurd lines (List.splitOn_ne_nil _ text)
      | cons first others =>
        rw [lines] at ih member
        rcases List.mem_cons.mp member with rfl | later
        · rw [List.mem_cons, not_or]
          exact ⟨Ne.symm feed, ih first List.mem_cons_self⟩
        · exact ih line (List.mem_cons_of_mem first later)

end AccessChain.Text
