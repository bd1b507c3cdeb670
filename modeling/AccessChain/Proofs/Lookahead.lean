import AccessChain.Proofs.Cutting
import AccessChain.Proofs.HeredocForm
import Mathlib.Data.List.Find

/-! Lexing in front of a symbol that goes on no token, such as a bracket. A token that ends before the symbol is
cut off without a look behind it, so the pieces in front of it do not depend on the text that follows. -/
namespace AccessChain

/-- A symbol that no token has behind its first symbols, unless it is quoted, in a comment or outside code. -/
structure IsStop (mark : Sym) : Prop where
  blank : mark.satisfies Text.isCodeBlank = false
  name : Extent.isNameChar mark = false
  number : Extent.isNumberChar mark = false
  digit : mark.satisfies Text.isDigit = false
  label : mark.isWord = false
  operator : ∀ row ∈ Cut.operators, mark ∉ Text.ofChars row.2.1
  apart : mark ∉ Text.ofChars ['\'', '"', '?', '<', '>', '=']
  letter : ∀ character ∈ ['<', '?', 'p', 'h', 'p'], Cut.lowered? mark ≠ some character

namespace IsStop
variable {mark : Sym} (stop : IsStop mark)
include stop

theorem nameStart : Extent.isNameStart mark = false := by
  have unnamed := stop.name
  rw [Extent.isNameChar, Bool.or_eq_false_iff] at unnamed
  exact unnamed.1

theorem ne_of_isCodeBlank (value : Char) (blank : Text.isCodeBlank value = true) : mark ≠ .char value := by
  rintro rfl
  exact Bool.false_ne_true (stop.blank.symm.trans blank)

theorem indent : Heredoc.isIndent mark = false := by
  cases mark with
  | stray byte high => rfl
  | char value =>
    apply eq_false_of_ne_true
    intro listed
    have each : ∀ blank ∈ [' ', '\t'], Text.isCodeBlank blank = true := by decide
    exact stop.ne_of_isCodeBlank value (each value (List.contains_iff_mem.mp listed)) rfl

theorem not_mem_ofChars (characters : List Char)
    (listed : ∀ character ∈ characters, character ∈ ['\'', '"', '?', '<', '>', '='] ∨ Text.isCodeBlank character = true) :
    mark ∉ Text.ofChars characters := by
  intro member
  obtain ⟨character, inside, rfl⟩ := List.mem_map.mp member
  rcases listed character inside with sign | blank
  · exact stop.apart (List.mem_map_of_mem sign)
  · exact stop.ne_of_isCodeBlank character blank rfl

end IsStop

namespace Text

section Marked
variable (mark : Sym)

theorem takeWhile_before (test : Sym → Bool) (text more : Text) (rejected : test mark = false) :
    (text ++ mark :: more).takeWhile test = text.takeWhile test := by
  induction text with
  | nil => simp [rejected]
  | cons symbol text ih =>
    rw [List.cons_append, List.takeWhile_cons, List.takeWhile_cons, ih]

theorem dropWhile_before (test : Sym → Bool) (text more : Text) (rejected : test mark = false) :
    (text ++ mark :: more).dropWhile test = text.dropWhile test ++ mark :: more := by
  induction text with
  | nil => simp [rejected]
  | cons symbol text ih =>
    rw [List.cons_append, List.dropWhile_cons, List.dropWhile_cons, ih]
    split <;> rfl

theorem countWhile_before (test : Sym → Bool) (text more : Text) (rejected : test mark = false) :
    countWhile test (text ++ mark :: more) = countWhile test text := by
  rw [countWhile, takeWhile_before mark test text more rejected, countWhile]

theorem prefix_before_iff (part text more : Text) (absent : mark ∉ part) :
    part <+: text ++ mark :: more ↔ part <+: text := by
  constructor
  · rintro ⟨rest, same⟩
    rcases List.append_eq_append_iff.mp same with ⟨remaining, whole, _⟩ | ⟨beyond, longer, tail⟩
    · exact ⟨remaining, whole.symm⟩
    · cases beyond with
      | nil => exact ⟨[], by rw [longer, List.append_nil, List.append_nil]⟩
      | cons symbol beyond =>
        obtain ⟨rfl, _⟩ := List.cons.inj tail
        exact absurd (longer ▸ List.mem_append_right text List.mem_cons_self) absent
  · exact fun front => front.trans (List.prefix_append text _)

theorem isPrefixOf_before (wanted text more : Text) (absent : mark ∉ wanted) :
    wanted.isPrefixOf (text ++ mark :: more) = wanted.isPrefixOf text := by
  rw [Bool.eq_iff_iff, List.isPrefixOf_iff_prefix, List.isPrefixOf_iff_prefix,
    prefix_before_iff mark wanted text more absent]

theorem startsWith_before (characters : List Char) (text more : Text) (absent : mark ∉ ofChars characters) :
    startsWith characters (text ++ mark :: more) = startsWith characters text :=
  isPrefixOf_before mark _ text more absent

theorem head?_any_before (test : Sym → Bool) (text more : Text) (rejected : test mark = false) :
    (text ++ mark :: more).head?.any test = text.head?.any test := by
  cases text with
  | nil => simp [rejected]
  | cons symbol text => rfl

theorem take_before (size : Nat) (text more : Text) (inside : size ≤ text.length) :
    (text ++ mark :: more).take size = text.take size :=
  List.take_append_of_le_length inside

theorem drop_before (size : Nat) (text more : Text) (inside : size ≤ text.length) :
    (text ++ mark :: more).drop size = text.drop size ++ mark :: more :=
  List.drop_append_of_le_length inside

end Marked

theorem countWhile_le (test : Sym → Bool) (text : Text) : countWhile test text ≤ text.length :=
  (List.takeWhile_sublist test).length_le

end Text

/-- Whether a line closes a heredoc is seen before a symbol that is neither indentation nor part of a word. -/
theorem Heredoc.closing?_before_mark (mark : Sym) (noIndent : isIndent mark = false) (noLabel : mark.isWord = false)
    (label text more : Text) (absent : mark ∉ label) : closing? label (text ++ mark :: more) = closing? label text := by
  have indents : Text.countWhile isIndent text ≤ text.length := Text.countWhile_le isIndent text
  simp only [closing?, Text.countWhile_before mark isIndent text more noIndent]
  generalize Text.countWhile isIndent text = indent at indents ⊢
  rw [Text.drop_before mark indent text more indents, Text.isPrefixOf_before mark label _ more absent]
  cases found : label.isPrefixOf (text.drop indent) with
  | false => simp
  | true =>
    have short := (List.isPrefixOf_iff_prefix.mp found).length_le
    rw [Text.drop_before mark _ (text.drop indent) more short, Text.head?_any_before mark Sym.isWord _ more noLabel]

section Stopped
variable {mark : Sym} (stop : IsStop mark)

namespace Extent

include stop in
theorem lineBreak_before (text more : Text) : lineBreak (text ++ mark :: more) = lineBreak text := by
  unfold lineBreak
  rw [Text.startsWith_before mark _ text more (stop.not_mem_ofChars _ (by decide)),
    Text.startsWith_before mark _ text more (stop.not_mem_ofChars _ (by decide))]

/-- An extent that is found by a search for its end, symbol by symbol. -/
theorem search_before (extent : Text → Nat) (ends : Text → Bool) (last : Nat) (empty : extent [] = 0)
    (step : ∀ symbol rest, extent (symbol :: rest) = if ends (symbol :: rest) then last else 1 + extent rest)
    (blind : ∀ text more, ends (text ++ mark :: more) = ends text) (atEnd : ends [] = false)
    (text more : Text) (ended : extent (text ++ [mark]) ≤ text.length) :
    extent (text ++ mark :: more) = extent (text ++ [mark]) := by
  induction text with
  | nil =>
    have passed : ends [mark] = false := (blind [] []).trans atEnd
    rw [List.nil_append, step, passed, empty] at ended
    contradiction
  | cons symbol text ih =>
    have same := (blind (symbol :: text) more).trans (blind (symbol :: text) []).symm
    simp only [List.cons_append] at same ended ⊢
    rw [step] at ended
    rw [step, step, same]
    split
    · rfl
    · next goesOn =>
      rw [if_neg goesOn, List.length_cons] at ended
      rw [ih (by omega)]

include stop in
theorem lineComment_before (text more : Text) (ended : lineComment (text ++ [mark]) ≤ text.length) :
    lineComment (text ++ mark :: more) = lineComment (text ++ [mark]) := by
  apply search_before lineComment
    (fun text => text.head?.any (·.satisfies ['\r', '\n'].contains) || Text.startsWith ['?', '>'] text) 0
    rfl (fun _ _ => rfl) ?_ rfl text more ended
  intro text more
  have noBreak : mark.satisfies ['\r', '\n'].contains = false := by
    cases mark with
    | stray byte high => rfl
    | char value =>
      apply eq_false_of_ne_true
      intro listed
      have each : ∀ feed ∈ ['\r', '\n'], Text.isCodeBlank feed = true := by decide
      exact stop.ne_of_isCodeBlank value (each value (List.contains_iff_mem.mp listed)) rfl
  rw [Text.head?_any_before mark _ text more noBreak,
    Text.startsWith_before mark _ text more (stop.not_mem_ofChars _ (by decide))]

theorem blockComment_before (absent : mark ∉ Text.ofChars ['*', '/']) (text more : Text)
    (ended : blockComment (text ++ [mark]) ≤ text.length) :
    blockComment (text ++ mark :: more) = blockComment (text ++ [mark]) :=
  search_before blockComment (Text.startsWith ['*', '/']) 2 rfl (fun _ _ => rfl)
    (fun text more => Text.startsWith_before mark _ text more absent) rfl text more ended

include stop in
theorem html_before (text more : Text) (ended : html (text ++ [mark]) ≤ text.length) :
    html (text ++ mark :: more) = html (text ++ [mark]) :=
  search_before html (Text.startsWith ['<', '?']) 0 rfl (fun _ _ => rfl)
    (fun text more => Text.startsWith_before mark _ text more (stop.not_mem_ofChars _ (by decide))) rfl text more ended

theorem quoted_before (quote : Sym) (text more : Text)
    (ended : quoted quote (text ++ [mark]) ≤ text.length) :
    quoted quote (text ++ mark :: more) = quoted quote (text ++ [mark]) := by
  fun_induction quoted quote text with
  | case1 => simp [quoted] at ended
  | case2 symbol =>
    simp only [List.singleton_append, List.length_singleton] at ended ⊢
    by_cases escape : symbol = .char '\\'
    · simp [quoted, escape] at ended
    · by_cases last : symbol = quote
      · subst last
        simp [quoted, escape]
      · simp [quoted, last, escape] at ended
  | case3 next rest ih =>
    simp only [List.cons_append, List.length_cons] at ended ⊢
    simp only [quoted, if_true] at ended ⊢
    rw [ih (by omega)]
  | case4 next rest escape => simp [quoted, escape]
  | case5 symbol next rest escape last ih =>
    simp only [List.cons_append, List.length_cons] at ih ended ⊢
    simp only [quoted, escape, last, if_false] at ended ⊢
    rw [ih (by omega)]

end Extent

namespace Heredoc
include stop

theorem OpeningLine.stop_not_mem (line : OpeningLine) : mark ∉ line.text := by
  have noIndent : mark ∉ line.indent := fun member =>
    Bool.false_ne_true (stop.indent.symm.trans (line.indented _ member))
  have noQuote : mark ∉ line.quote := by
    rcases line.quoted with quote | quote | quote
    · rw [quote]
      exact List.not_mem_nil
    · rw [quote]
      exact stop.not_mem_ofChars _ (by decide)
    · rw [quote]
      exact stop.not_mem_ofChars _ (by decide)
  have noLabel : mark ∉ line.label := fun member =>
    Bool.false_ne_true (stop.label.symm.trans (line.wordy _ member))
  have noEnding : mark ∉ line.ending := by
    rcases line.breaks with ending | ending
    · rw [ending]
      exact stop.not_mem_ofChars _ (by decide)
    · rw [ending]
      exact stop.not_mem_ofChars _ (by decide)
  simp only [OpeningLine.text, List.mem_append, noIndent, noQuote, noLabel, noEnding, or_self, not_false_eq_true]

theorem opening?_before (text more : Text) : opening? (text ++ mark :: more) = opening? text := by
  apply Option.ext
  intro opening
  constructor
  · intro found
    obtain ⟨line, rest, same, rfl⟩ := (opening?_eq_some_iff _ _).mp found
    obtain ⟨remaining, whole⟩ :=
      (Text.prefix_before_iff mark line.text text more (line.stop_not_mem stop)).mp ⟨rest, same.symm⟩
    exact (opening?_eq_some_iff _ _).mpr ⟨line, remaining, whole.symm, rfl⟩
  · exact opening?_extended text _ opening

theorem closing?_before (label text more : Text) (absent : mark ∉ label) :
    closing? label (text ++ mark :: more) = closing? label text :=
  closing?_before_mark mark stop.indent stop.label label text more absent

theorem body_before (label : Text) (atLineStart : Bool) (text more : Text) (absent : mark ∉ label)
    (labelled : label ≠ []) (ended : body label atLineStart (text ++ [mark]) ≤ text.length) :
    body label atLineStart (text ++ mark :: more) = body label atLineStart (text ++ [mark]) := by
  have same := fun text more =>
    (closing?_before stop label text more absent).trans (closing?_before stop label text [] absent).symm
  induction text generalizing atLineStart with
  | nil =>
    have unclosed : closing? label [mark] = none := by
      have alone : closing? label [mark] = closing? label [] := closing?_before stop label [] [] absent
      rw [alone]
      cases label with
      | nil => contradiction
      | cons symbol label => rfl
    simp [body, unclosed] at ended
  | cons symbol text ih =>
    have here := same (symbol :: text) more
    simp only [List.cons_append, List.length_cons] at here ended ⊢
    rw [body] at ended
    rw [body, body, here]
    split
    · rfl
    · next goesOn =>
      rw [goesOn] at ended
      simp only at ended
      rw [ih (symbol == .char '\n') (by omega)]

theorem extent?_before (text more : Text)
    (ended : ∀ size, extent? (text ++ [mark]) = some size → size ≤ text.length) :
    extent? (text ++ mark :: more) = extent? (text ++ [mark]) := by
  simp only [extent?, opening?_before stop] at ended ⊢
  cases found : opening? text with
  | none => rfl
  | some opening =>
    obtain ⟨inside, labelled, wordy⟩ := label_of_opening? text opening found
    have absent : mark ∉ opening.label := fun member =>
      Bool.false_ne_true (stop.label.symm.trans (wordy _ member))
    have bound : opening.size + body opening.label true ((text ++ [mark]).drop opening.size) ≤ text.length :=
      ended _ (by rw [found]; rfl)
    simp only [Option.map_some, Option.some.injEq, Nat.add_right_inj]
    rw [Text.drop_before mark _ text [] inside] at bound ⊢
    rw [Text.drop_before mark _ text more inside]
    apply body_before stop opening.label true _ more absent labelled
    rw [List.length_drop]
    omega

end Heredoc

namespace Cut

theorem length_of_mapM_lowered? (text : Text) (word : List Char) (lowered : text.mapM lowered? = some word) :
    text.length = word.length := by
  induction text generalizing word with
  | nil =>
    obtain rfl := Option.some.inj lowered
    rfl
  | cons first text ih =>
    rw [List.mapM_cons] at lowered
    obtain ⟨character, _, rest⟩ := Option.bind_eq_some_iff.mp lowered
    obtain ⟨characters, later, same⟩ := Option.bind_eq_some_iff.mp rest
    obtain rfl := Option.some.inj same
    rw [List.length_cons, List.length_cons, ih characters later]

theorem take_lowered_before (text more : Text) (word : List Char) (size : Nat) (long : word.length = size)
    (absent : ∀ character ∈ word, lowered? mark ≠ some character) :
    ((text ++ mark :: more).take size).mapM lowered? = some word ↔ (text.take size).mapM lowered? = some word := by
  by_cases inside : size ≤ text.length
  · rw [List.take_append_of_le_length inside]
  · constructor
    · intro lowered
      have member : mark ∈ (text ++ mark :: more).take size := by
        obtain ⟨further, fits⟩ : ∃ further, size = text.length + (further + 1) := ⟨size - text.length - 1, by omega⟩
        rw [fits, List.take_length_add_append]
        simp
      obtain ⟨character, listed, same⟩ := mem_of_mapM_lowered? _ word lowered _ member
      exact absurd same (absent character listed)
    · intro lowered
      have short := length_of_mapM_lowered? _ word lowered
      rw [List.length_take] at short
      omega

include stop

theorem openingTag_before (text more : Text) : openingTag (text ++ mark :: more) = openingTag text := by
  unfold openingTag
  rw [Text.startsWith_before mark _ text more (stop.not_mem_ofChars _ (by decide))]
  simp only [take_lowered_before text _ ['<', '?', 'p', 'h', 'p'] 5 rfl stop.letter]

theorem operator_before (first : Sym) (text more : Text) :
    operator first (text ++ mark :: more) = operator first text := by
  have rows : (operators.find? fun row => first == .char row.1 && Text.startsWith row.2.1 (text ++ mark :: more)) =
      operators.find? fun row => first == .char row.1 && Text.startsWith row.2.1 text := by
    apply List.find?_congr
    intro row member
    rw [Text.startsWith_before mark row.2.1 text more (stop.operator row member)]
  unfold operator
  rw [rows]

theorem heredoc_before (text more : Text) (long : 2 ≤ text.length)
    (ended : ∀ size, Heredoc.extent? ((text ++ [mark]).drop 2) = some size → 3 + size ≤ 1 + text.length) :
    Heredoc.extent? ((text ++ mark :: more).drop 2) = Heredoc.extent? ((text ++ [mark]).drop 2) := by
  rw [Text.drop_before mark 2 text _ long] at ended ⊢
  rw [Text.drop_before mark 2 text _ long]
  apply Heredoc.extent?_before stop
  intro size found
  have bound := ended size found
  rw [List.length_drop]
  omega

section Code
variable (noSlash : mark ≠ .char '/') (noStar : mark ≠ .char '*')
include noSlash noStar

theorem ofCode_before (afterAccess : Bool) (first : Sym) (text more : Text)
    (ended : (ofCode afterAccess first (text ++ [mark])).size ≤ 1 + text.length) :
    ofCode afterAccess first (text ++ mark :: more) = ofCode afterAccess first (text ++ [mark]) := by
  have starts := fun wanted absent more => Text.startsWith_before mark wanted (first :: text) more absent
  have heads := fun test rejected more => Text.head?_any_before mark test text more rejected
  have comments : mark ∉ Text.ofChars ['/', '/'] ∧ mark ∉ Text.ofChars ['/', '*'] ∧ mark ∉ Text.ofChars ['*', '/'] := by
    simp [Text.ofChars, noSlash, noStar]
  simp only [List.cons_append] at starts
  revert ended
  simp only [ofCode, starts ['<', '?'] (stop.not_mem_ofChars _ (by decide)),
    starts ['?', '>'] (stop.not_mem_ofChars _ (by decide)), starts ['/', '/'] comments.1,
    starts ['/', '*'] comments.2.1, starts ['<', '<', '<'] (stop.not_mem_ofChars _ (by decide)),
    heads Extent.isNameStart stop.nameStart, heads (·.satisfies Text.isDigit) stop.digit]
  -- All tests give the same answers, so only the extents are left to compare.
  by_cases blank : first.satisfies Text.isCodeBlank = true
  · intro _
    simp only [blank, if_true, Extent.blanks,
      Text.countWhile_before mark (·.satisfies Text.isCodeBlank) text _ stop.blank]
  simp only [blank, Bool.false_eq_true, if_false]
  by_cases opens : Text.startsWith ['<', '?'] (first :: text) = true
  · intro _
    simp only [opens, if_true]
    exact (openingTag_before stop (first :: text) more).trans (openingTag_before stop (first :: text) []).symm
  simp only [opens, Bool.false_eq_true, if_false]
  by_cases closes : Text.startsWith ['?', '>'] (first :: text) = true
  · intro _
    cases text with
    | nil => simp [Text.startsWith, Text.ofChars] at closes
    | cons next text =>
      simp only [closes, if_true, List.cons_append, List.drop_one, List.tail_cons, Extent.lineBreak_before stop]
  simp only [closes, Bool.false_eq_true, if_false]
  by_cases line : (first = .char '#' || Text.startsWith ['/', '/'] (first :: text)) = true
  · simp only [line, if_true]
    intro ended
    have same := Extent.lineComment_before stop text more (by omega)
    simp only [same]
  simp only [line, Bool.false_eq_true, if_false]
  by_cases block : Text.startsWith ['/', '*'] (first :: text) = true
  · simp only [block, if_true]
    cases text with
    | nil => simp [Text.startsWith, Text.ofChars] at block
    | cons next text =>
      simp only [List.cons_append, List.drop_one, List.tail_cons, List.length_cons]
      intro ended
      have same := Extent.blockComment_before comments.2.2 text more (by omega)
      simp only [same]
  simp only [block, Bool.false_eq_true, if_false]
  by_cases variable_ : (first = .char '$' && text.head?.any Extent.isNameStart) = true
  · intro _
    simp only [variable_, if_true, Extent.name, Text.countWhile_before mark Extent.isNameChar text _ stop.name]
  simp only [variable_, Bool.false_eq_true, if_false]
  by_cases quote : Extent.isQuote first = true
  · simp only [quote, if_true]
    intro ended
    have same : Extent.quoted first (text ++ mark :: more) = Extent.quoted first (text ++ [mark]) :=
      Extent.quoted_before first text more (by omega)
    simp only [same]
  simp only [quote, Bool.false_eq_true, if_false]
  have size := fun more => Text.countWhile_before mark Extent.isNameChar text more stop.name
  have digits := fun more => Text.countWhile_before mark Extent.isNumberChar text more stop.number
  have word : ∀ more : Text, (text ++ mark :: more).take (Text.countWhile Extent.isNameChar text) =
      text.take (Text.countWhile Extent.isNameChar text) :=
    fun more => Text.take_before mark _ text more (Text.countWhile_le Extent.isNameChar text)
  simp only [Extent.name, Extent.number, size, digits, word, operator_before stop]
  by_cases heredoc : Text.startsWith ['<', '<', '<'] (first :: text) = true
  · have long : 2 ≤ text.length := by
      have short := (List.isPrefixOf_iff_prefix.mp heredoc).length_le
      simpa [Text.ofChars] using short
    simp only [heredoc, if_true]
    intro ended
    rw [heredoc_before stop text more long]
    intro size found
    rw [found] at ended
    exact ended
  · simp only [heredoc, Bool.false_eq_true, if_false]
    exact fun _ => trivial

theorem ofText_before (context : Context) (first : Sym) (text more : Text)
    (ended : (ofText context first (text ++ [mark])).size ≤ 1 + text.length) :
    ofText context first (text ++ mark :: more) = ofText context first (text ++ [mark]) := by
  have starts := fun more => Text.startsWith_before mark ['<', '?'] (first :: text) more
    (stop.not_mem_ofChars _ (by decide))
  simp only [List.cons_append] at starts
  revert ended
  simp only [ofText, starts]
  by_cases outside : (context.inHtml && !Text.startsWith ['<', '?'] (first :: text)) = true
  · simp only [outside, if_true]
    intro ended
    have same := Extent.html_before stop text more (by omega)
    simp only [same]
  · simp only [outside, Bool.false_eq_true, if_false]
    exact ofCode_before stop noSlash noStar context.afterAccess first text more

end Code
end Cut

section Bracketed
variable (noSlash : mark ≠ .char '/') (noStar : mark ≠ .char '*')
  (alone : ∀ afterAccess rest, Cut.ofCode afterAccess mark rest = ⟨.character, 1, Nat.one_pos⟩)
include stop noSlash noStar alone

/-- The pieces in front of a stop that is a piece of its own, whatever follows it. -/
theorem pieces_before (context : Context) (text more : Text) (before : List (TokenKind × Text))
    (cut : pieces context (text ++ [mark]) = before ++ [(.character, [mark])]) :
    pieces context (text ++ mark :: more) = before ++ (.character, [mark]) :: pieces Context.start more := by
  have whole : text = before.flatMap Prod.snd := by
    have texts := flatMap_pieces context (text ++ [mark])
    rw [cut, List.flatMap_append] at texts
    exact (List.append_cancel_right texts).symm
  -- By induction on the pieces in front: the first of them ends within the text, so it is the same cut.
  induction before generalizing context text with
  | nil =>
    subst whole
    obtain ⟨inHtml, afterAccess⟩ := context
    have kind : (Cut.ofText ⟨inHtml, afterAccess⟩ mark []).kind = .character := by
      rw [List.flatMap_nil, List.nil_append, pieces_cons] at cut
      exact congrArg Prod.fst (List.cons.inj cut).1
    have code : ∀ rest, Cut.ofText ⟨inHtml, afterAccess⟩ mark rest = Cut.ofCode afterAccess mark rest := by
      intro rest
      have untagged := Text.startsWith_before mark ['<', '?'] [] rest (stop.not_mem_ofChars _ (by decide))
      have untaggedAlone := Text.startsWith_before mark ['<', '?'] [] [] (stop.not_mem_ofChars _ (by decide))
      cases inHtml with
      | false => rfl
      | true => simp_all [Cut.ofText, Text.startsWith, Text.ofChars]
    rw [List.flatMap_nil, List.nil_append, List.nil_append, pieces_cons, code, alone]
    rfl
  | cons piece before ih =>
    have held : piece.2 ≠ [] := ne_nil_of_mem_pieces context _ piece (by rw [cut]; exact List.mem_cons_self)
    cases text with
    | nil => exact absurd (List.append_eq_nil_iff.mp whole.symm).1 held
    | cons first text =>
      rw [List.cons_append, pieces_cons] at cut
      obtain ⟨rfl, tail⟩ := List.cons.inj cut
      have short := congrArg List.length whole
      simp only [List.flatMap_cons, List.length_append, List.length_take, List.length_cons, List.length_nil] at short
      have ended : (Cut.ofText context first (text ++ [mark])).size ≤ 1 + text.length := by omega
      have same := Cut.ofText_before stop noSlash noStar context first text more ended
      have inside : (Cut.ofText context first (text ++ [mark])).size ≤ (first :: text).length := by
        rw [List.length_cons]
        omega
      have taken := fun more => Text.take_before mark _ (first :: text) more inside
      have dropped := fun more => Text.drop_before mark _ (first :: text) more inside
      simp only [List.cons_append] at taken dropped
      rw [dropped] at tail
      rw [taken, List.flatMap_cons] at whole
      rw [List.cons_append, pieces_cons, same, taken, taken, dropped, List.cons_append]
      have later : (first :: text).drop (Cut.ofText context first (text ++ [mark])).size =
          before.flatMap Prod.snd :=
        List.append_cancel_left ((List.take_append_drop _ _).trans whole)
      rw [ih _ _ tail later]

end Bracketed
end Stopped

theorem isStop (mark : Char) (listed : mark ∈ ['(', ')', '[', ']', '{', '}', '/']) : IsStop (.char mark) where
  blank := (by decide : ∀ mark ∈ ['(', ')', '[', ']', '{', '}', '/'], (Sym.char mark).satisfies Text.isCodeBlank = false)
    mark listed
  name := (by decide : ∀ mark ∈ ['(', ')', '[', ']', '{', '}', '/'], Extent.isNameChar (.char mark) = false) mark listed
  number := (by decide : ∀ mark ∈ ['(', ')', '[', ']', '{', '}', '/'], Extent.isNumberChar (.char mark) = false)
    mark listed
  digit := (by decide +kernel : ∀ mark ∈ ['(', ')', '[', ']', '{', '}', '/'],
    (Sym.char mark).satisfies Text.isDigit = false) mark listed
  label := (by decide +kernel : ∀ mark ∈ ['(', ')', '[', ']', '{', '}', '/'],
    Sym.isWord (.char mark) = false) mark listed
  operator := (by decide : ∀ mark ∈ ['(', ')', '[', ']', '{', '}', '/'], ∀ row ∈ Cut.operators,
    Sym.char mark ∉ Text.ofChars row.2.1) mark listed
  apart := (by decide : ∀ mark ∈ ['(', ')', '[', ']', '{', '}', '/'],
    Sym.char mark ∉ Text.ofChars ['\'', '"', '?', '<', '>', '=']) mark listed
  letter := (by decide : ∀ mark ∈ ['(', ')', '[', ']', '{', '}', '/'], ∀ character ∈ ['<', '?', 'p', 'h', 'p'],
    Cut.lowered? (.char mark) ≠ some character) mark listed

/-- The pieces in front of a bracket do not depend on what follows the bracket. -/
theorem pieces_before_bracket (mark : Char) (listed : mark ∈ ['(', ')', '[', ']', '{', '}']) (context : Context)
    (text more : Text) (before : List (TokenKind × Text))
    (cut : pieces context (text ++ [.char mark]) = before ++ [(.character, [.char mark])]) :
    pieces context (text ++ .char mark :: more) = before ++ (.character, [.char mark]) :: pieces Context.start more := by
  have stop : IsStop (.char mark) := isStop mark (List.mem_append_left ['/'] listed)
  have apart : ∀ mark ∈ ['(', ')', '[', ']', '{', '}'], mark ≠ '/' ∧ mark ≠ '*' := by decide
  obtain ⟨noSlash, noStar⟩ := apart mark listed
  apply pieces_before stop (fun same => noSlash (Sym.char.inj same)) (fun same => noStar (Sym.char.inj same)) _
    context text more before cut
  simp only [List.mem_cons, List.not_mem_nil, or_false] at listed
  rcases listed with rfl | rfl | rfl | rfl | rfl | rfl <;> exact fun _ _ => rfl

end AccessChain
