import AccessChain.Token.Heredoc
import Mathlib.Data.Bool.AllAny
import Mathlib.Data.List.TakeWhile

/-! What heredocs are written like. An opening line and a closing label are given by the parts they consist of, so
that nothing behind them decides whether they are read. -/
namespace AccessChain

namespace Text

theorem takeWhile_of_head (test : Sym → Bool) (text rest : Text) (inside : ∀ symbol ∈ text, test symbol = true)
    (ends : rest.head?.any test = false) : (text ++ rest).takeWhile test = text := by
  rw [List.takeWhile_append_of_pos inside]
  cases rest with
  | nil => simp
  | cons symbol rest =>
    have stops : test symbol = false := ends
    simp [stops]

theorem countWhile_of_head (test : Sym → Bool) (text rest : Text) (inside : ∀ symbol ∈ text, test symbol = true)
    (ends : rest.head?.any test = false) : countWhile test (text ++ rest) = text.length := by
  rw [countWhile, takeWhile_of_head test text rest inside ends]

theorem take_countWhile (test : Sym → Bool) (text : Text) : text.take (countWhile test text) = text.takeWhile test :=
  (List.prefix_iff_eq_take.mp (List.takeWhile_prefix test)).symm

theorem takeWhile_append_drop (test : Sym → Bool) (text : Text) :
    text.takeWhile test ++ text.drop (countWhile test text) = text := by
  rw [← take_countWhile, List.take_append_drop]

end Text

namespace Extent

theorem lineBreak_eq (text : Text) (breaks : lineBreak text ≠ 0) :
    ∃ ending rest, text = ending ++ rest ∧ ending.length = lineBreak text ∧
      (ending = Text.ofChars ['\r', '\n'] ∨ ending = Text.ofChars ['\n']) := by
  unfold lineBreak at breaks ⊢
  split
  · next both =>
    obtain ⟨rest, same⟩ := List.isPrefixOf_iff_prefix.mp both
    exact ⟨_, rest, same.symm, rfl, Or.inl rfl⟩
  · next notBoth =>
    rw [if_neg notBoth] at breaks
    split
    · next feed =>
      obtain ⟨rest, same⟩ := List.isPrefixOf_iff_prefix.mp feed
      exact ⟨_, rest, same.symm, rfl, Or.inr rfl⟩
    · next none =>
      rw [if_neg none] at breaks
      contradiction

theorem mem_of_mem_lineBreak (text : Text) (symbol : Sym) (member : symbol ∈ text.take (lineBreak text)) :
    symbol ∈ Text.ofChars ['\r', '\n'] := by
  by_cases unbroken : lineBreak text = 0
  · rw [unbroken] at member
    contradiction
  · obtain ⟨ending, rest, same, size, breaks⟩ := lineBreak_eq text unbroken
    rw [← size, same, List.take_left] at member
    rcases breaks with rfl | rfl
    · exact member
    · exact List.mem_cons_of_mem _ member

end Extent

namespace Heredoc

/-- The parts of an opening line behind its three less-than signs. -/
structure OpeningLine where
  indent : Text
  quote : Text
  label : Text
  ending : Text
  indented : ∀ symbol ∈ indent, isIndent symbol = true
  quoted : quote = [] ∨ quote = Text.ofChars ['\''] ∨ quote = Text.ofChars ['"']
  starts : label.head?.any isLabelStart = true
  wordy : ∀ symbol ∈ label, symbol.isWord = true
  breaks : ending = Text.ofChars ['\r', '\n'] ∨ ending = Text.ofChars ['\n']

namespace OpeningLine

def text (line : OpeningLine) : Text :=
  line.indent ++ (line.quote ++ (line.label ++ (line.quote ++ line.ending)))

def opening (line : OpeningLine) : Opening := ⟨line.text.length, line.label⟩

end OpeningLine

theorem labelQuote_cases (text : Text) : ∃ rest, text = labelQuote text ++ rest ∧
    (labelQuote text = [] ∨ labelQuote text = Text.ofChars ['\''] ∨ labelQuote text = Text.ofChars ['"']) := by
  cases text with
  | nil => exact ⟨[], rfl, Or.inl rfl⟩
  | cons symbol rest =>
    by_cases mark : symbol.satisfies ['\'', '"'].contains = true
    · have taken : labelQuote (symbol :: rest) = [symbol] := if_pos mark
      rw [taken]
      refine ⟨rest, rfl, Or.inr ?_⟩
      cases symbol with
      | stray byte high => contradiction
      | char value =>
        have listed : value ∈ ['\'', '"'] := List.contains_iff_mem.mp mark
        simp only [List.mem_cons, List.not_mem_nil, or_false] at listed
        rcases listed with rfl | rfl
        · exact Or.inl rfl
        · exact Or.inr rfl
    · have taken : labelQuote (symbol :: rest) = [] := if_neg mark
      rw [taken]
      exact ⟨symbol :: rest, rfl, Or.inl rfl⟩

theorem apart_of_isWord (symbol : Sym) (wordy : symbol.isWord = true) :
    isIndent symbol = false ∧ symbol.satisfies ['\'', '"'].contains = false ∧ symbol ≠ .char '\n' := by
  cases symbol with
  | stray byte high => contradiction
  | char value =>
    have wordless : ∀ other ∈ [' ', '\t', '\'', '"', '\n'], Text.isWord other = false :=
      List.all_iff_forall_prop.mp (by decide +kernel)
    have apart : value ∉ [' ', '\t', '\'', '"', '\n'] := by
      intro listed
      have word : Text.isWord value = true := wordy
      exact Bool.false_ne_true ((wordless value listed).symm.trans word)
    simp only [List.mem_cons, List.not_mem_nil, or_false, not_or] at apart
    obtain ⟨space, tab, single, double, feed⟩ := apart
    simp [isIndent, Sym.satisfies, space, tab, single, double, feed]

namespace OpeningLine
variable (line : OpeningLine) (rest : Text)

theorem label_head : ∃ symbol more, line.label = symbol :: more ∧ isIndent symbol = false ∧
    symbol.satisfies ['\'', '"'].contains = false := by
  have starts := line.starts
  cases label : line.label with
  | nil =>
    rw [label] at starts
    contradiction
  | cons symbol more =>
    obtain ⟨noIndent, noMark, _⟩ := apart_of_isWord symbol (line.wordy symbol (label ▸ List.mem_cons_self))
    exact ⟨symbol, more, rfl, noIndent, noMark⟩

theorem labelQuote_label : labelQuote (line.quote ++ (line.label ++ rest)) = line.quote := by
  obtain ⟨symbol, more, label, _, noMark⟩ := line.label_head
  rcases line.quoted with quote | quote | quote
  · rw [quote, label]
    exact if_neg (by simp [noMark])
  · rw [quote]
    rfl
  · rw [quote]
    rfl

theorem countWhile_indent :
    Text.countWhile isIndent (line.indent ++ (line.quote ++ (line.label ++ rest))) = line.indent.length := by
  apply Text.countWhile_of_head isIndent _ _ line.indented
  obtain ⟨symbol, more, label, noIndent, _⟩ := line.label_head
  rcases line.quoted with quote | quote | quote
  · rw [quote, label]
    exact noIndent
  · rw [quote]
    rfl
  · rw [quote]
    rfl

theorem takeWhile_label :
    (line.label ++ (line.quote ++ (line.ending ++ rest))).takeWhile Sym.isWord = line.label := by
  apply Text.takeWhile_of_head Sym.isWord _ _ line.wordy
  have wordless : ∀ mark ∈ ['\'', '"', '\r', '\n'], Sym.isWord (.char mark) = false :=
    List.all_iff_forall_prop.mp (by decide +kernel)
  rcases line.quoted with quote | quote | quote
  · rcases line.breaks with ending | ending
    · rw [quote, ending]
      exact wordless '\r' (by decide)
    · rw [quote, ending]
      exact wordless '\n' (by decide)
  · rw [quote]
    exact wordless '\'' (by decide)
  · rw [quote]
    exact wordless '"' (by decide)

theorem lineBreak_ending : Extent.lineBreak (line.ending ++ rest) = line.ending.length := by
  rcases line.breaks with ending | ending
  · rw [ending]
    rfl
  · rw [ending]
    rfl

theorem length_ending : line.ending.length ≠ 0 := by
  rcases line.breaks with ending | ending <;> simp [ending, Text.ofChars]

end OpeningLine

theorem opening?_eq_some_iff (text : Text) (opening : Opening) :
    opening? text = some opening ↔ ∃ (line : OpeningLine) (rest : Text), text = line.text ++ rest ∧
      opening = line.opening := by
  constructor
  · intro found
    have indented := Text.takeWhile_append_drop isIndent text
    obtain ⟨labelled, quoted, marks⟩ := labelQuote_cases (text.drop (Text.countWhile isIndent text))
    have dropped : text.drop (Text.countWhile isIndent text +
        (labelQuote (text.drop (Text.countWhile isIndent text))).length) = labelled := by
      rw [← List.drop_drop]
      exact (congrArg (List.drop _) quoted).trans List.drop_left
    simp only [opening?, dropped] at found
    generalize labelQuote (text.drop (Text.countWhile isIndent text)) = quote at quoted marks dropped found
    split at found
    · next valid =>
      simp only [Bool.and_eq_true, decide_eq_true_eq] at valid
      obtain ⟨⟨starts, closed⟩, breaks⟩ := valid
      obtain ⟨behind, closed⟩ := List.isPrefixOf_iff_prefix.mp closed
      rw [← closed, List.drop_left] at breaks found
      obtain ⟨ending, rest, same, size, breaks⟩ := Extent.lineBreak_eq behind breaks
      have label := Text.takeWhile_append_drop Sym.isWord labelled
      refine ⟨⟨text.takeWhile isIndent, quote, labelled.takeWhile Sym.isWord, ending, fun symbol =>
        List.mem_takeWhile_imp, marks, starts, fun symbol => List.mem_takeWhile_imp, breaks⟩, rest, ?_, ?_⟩
      · calc
          text = text.takeWhile isIndent ++ (quote ++ labelled) := by rw [← quoted, indented]
          _ = _ := by
            conv => lhs; rw [← label]
            simp [OpeningLine.text, Text.countWhile, ← closed, same]
      · obtain rfl := Option.some.inj found
        simp [OpeningLine.opening, OpeningLine.text, size, Text.countWhile]
        omega
    · contradiction
  · rintro ⟨line, rest, rfl, rfl⟩
    simp only [OpeningLine.text, OpeningLine.opening, List.append_assoc]
    simp only [opening?, line.countWhile_indent, List.drop_left, line.labelQuote_label, ← List.drop_drop,
      line.takeWhile_label, line.lineBreak_ending]
    have closed : line.quote.isPrefixOf (line.quote ++ (line.ending ++ rest)) = true :=
      List.isPrefixOf_iff_prefix.mpr (List.prefix_append _ _)
    rw [if_pos (by simp [line.starts, closed, line.length_ending])]
    simp [Nat.add_assoc]

theorem opening?_extended (text more : Text) (opening : Opening) (found : opening? text = some opening) :
    opening? (text ++ more) = some opening := by
  obtain ⟨line, rest, rfl, rfl⟩ := (opening?_eq_some_iff _ _).mp found
  exact (opening?_eq_some_iff _ _).mpr ⟨line, rest ++ more, List.append_assoc .., rfl⟩

theorem label_of_opening? (text : Text) (opening : Opening) (found : opening? text = some opening) :
    opening.size ≤ text.length ∧ opening.label ≠ [] ∧ ∀ symbol ∈ opening.label, symbol.isWord = true := by
  obtain ⟨line, rest, rfl, rfl⟩ := (opening?_eq_some_iff text opening).mp found
  obtain ⟨symbol, more, label, _⟩ := line.label_head
  refine ⟨?_, ?_, line.wordy⟩
  · rw [List.length_append]
    exact Nat.le_add_right _ _
  · intro empty
    rw [OpeningLine.opening, label] at empty
    contradiction

theorem closing?_eq_some_iff (label text : Text) (size : Nat) (labelled : label ≠ [])
    (wordy : ∀ symbol ∈ label, symbol.isWord = true) :
    closing? label text = some size ↔ ∃ indent rest, text = indent ++ (label ++ rest) ∧
      (∀ symbol ∈ indent, isIndent symbol = true) ∧ rest.head?.any Sym.isWord = false ∧
      size = indent.length + label.length := by
  constructor
  · intro found
    have indented := Text.takeWhile_append_drop isIndent text
    dsimp only [closing?] at found
    split at found
    · next closed =>
      obtain ⟨starts, ends⟩ := Bool.and_eq_true_iff.mp closed
      obtain ⟨rest, same⟩ := List.isPrefixOf_iff_prefix.mp starts
      rw [← same, List.drop_left] at ends
      refine ⟨text.takeWhile isIndent, rest, ?_, fun symbol => List.mem_takeWhile_imp, by simpa using ends, ?_⟩
      · rw [same, indented]
      · exact (Option.some.inj found).symm
    · contradiction
  · rintro ⟨indent, rest, rfl, indented, ends, rfl⟩
    have headed : (label ++ rest).head?.any isIndent = false := by
      obtain ⟨symbol, more, rfl⟩ := List.exists_cons_of_ne_nil labelled
      exact (apart_of_isWord symbol (wordy symbol List.mem_cons_self)).1
    have closed : label.isPrefixOf (label ++ rest) = true := List.isPrefixOf_iff_prefix.mpr (List.prefix_append _ _)
    simp only [closing?, Text.countWhile_of_head isIndent indent _ indented headed, List.drop_left, closed, ends]
    rfl

end Heredoc
end AccessChain
