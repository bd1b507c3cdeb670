import AccessChain.Proofs.Delimiters

/-! Names as the labels of heredocs. A label is a word while a name may hold any character outside ASCII, so some names are
no labels. A name that is one ends its heredoc at the first line that closes it, and no part of a word follows there. -/
namespace AccessChain

open Delimited

/-- In ASCII the characters of names are those of labels. -/
theorem Heredoc.label_of_ascii (symbol : Sym) (ascii : symbol.isAscii = true) :
    (Extent.isNameStart symbol = true → isLabelStart symbol = true) ∧
      (Extent.isNameChar symbol = true → symbol.isWord = true) := by
  cases symbol with
  | stray byte high => contradiction
  | char value =>
    exact Text.forall_ascii (fun value => (Extent.isNameStart (.char value) = true → isLabelStart (.char value) = true) ∧
      (Extent.isNameChar (.char value) = true → Sym.isWord (.char value) = true)) (by decide +kernel) value
        (of_decide_eq_true ascii)

/-- What stands behind a heredoc is no part of a word. -/
theorem Delimited.HeredocText.outside (text rest : Text) (formed : HeredocText text rest) :
    rest.head?.any Sym.isWord = false := by
  cases formed with
  | closed opening lines indent rest starts indented ends first => exact ends
  | unclosed opening lines absent => rfl

namespace CodeName

/-- Whether a name is a word that does not start with a digit, and so the label of heredocs. -/
def isLabel (name : CodeName) : Bool := Heredoc.isLabelStart name.first && name.rest.all Sym.isWord

variable (name : CodeName)

theorem isLabel_iff : name.isLabel = true ↔
    name.text.head?.any Heredoc.isLabelStart = true ∧ ∀ symbol ∈ name.text, symbol.isWord = true := by
  have word : Heredoc.isLabelStart name.first = true → Sym.isWord name.first = true := by
    intro starts
    cases first : name.first with
    | stray byte high =>
      rw [first] at starts
      contradiction
    | char value =>
      rw [first] at starts
      exact (Bool.and_eq_true_iff.mp starts).1
  rw [isLabel, Bool.and_eq_true, List.all_eq_true, text, List.forall_mem_cons]
  exact ⟨fun both => ⟨both.1, word both.1, both.2⟩, fun both => ⟨both.1, both.2.2⟩⟩

/-- A name of ASCII characters is a label. -/
theorem isLabel_of_ascii (ascii : ∀ symbol ∈ name.text, symbol.isAscii = true) : name.isLabel = true := by
  rw [isLabel, Bool.and_eq_true, List.all_eq_true]
  refine ⟨(Heredoc.label_of_ascii _ (ascii _ List.mem_cons_self)).1 name.starts, fun symbol member => ?_⟩
  exact (Heredoc.label_of_ascii symbol (ascii symbol (List.mem_cons_of_mem _ member))).2 (name.goesOn symbol member)

end CodeName

namespace Heredoc

/-- A heredoc with a name for its label, up to the end of its last line. -/
def labelled (name : CodeName) (body : Text) : Text :=
  Text.ofChars ['<', '<', '<'] ++ (name.text ++ .char '\n' :: (body ++ .char '\n' :: name.text))

/-- Whether some line of a text closes a heredoc with a label. -/
def LinesClose (label text : Text) : Prop :=
  ∃ left right, text = left ++ right ∧ startsLine left = true ∧ Closes label right

/-! The opening line. -/

theorem not_mem_of_class (test : Sym → Bool) (marks : List Char) (outside : ∀ mark ∈ marks, test (.char mark) = false)
    (symbol : Sym) (held : test symbol = true) : symbol ∉ Text.ofChars marks := by
  intro member
  obtain ⟨mark, listed, rfl⟩ := List.mem_map.mp member
  exact Bool.false_ne_true ((outside mark listed).symm.trans held)

theorem not_feed_of_isWord (symbol : Sym) (wordy : symbol.isWord = true) : symbol ∉ Text.ofChars ['\r', '\n'] :=
  not_mem_of_class Sym.isWord _ (List.all_iff_forall_prop.mp (by decide +kernel)) symbol wordy

theorem not_feed_of_isNameChar (symbol : Sym) (named : Extent.isNameChar symbol = true) : symbol ∉ Text.ofChars ['\r', '\n'] :=
  not_mem_of_class Extent.isNameChar _ (by decide) symbol named

theorem apart_of_isNameStart (symbol : Sym) (starts : Extent.isNameStart symbol = true) :
    isIndent symbol = false ∧ ∀ mark ∈ ['\'', '"'], symbol ≠ .char mark := by
  have apart : symbol ∉ Text.ofChars [' ', '\t', '\'', '"'] := not_mem_of_class Extent.isNameStart _ (by decide) symbol starts
  refine ⟨?_, ?_⟩
  · cases symbol with
    | stray byte high => rfl
    | char value => simp_all [isIndent, Sym.satisfies, Text.ofChars]
  · rintro mark listed rfl
    exact apart (List.mem_map_of_mem (List.mem_append_right [' ', '\t'] listed))

/-- The label on an opening line that starts with a name is the whole name. -/
theorem label_eq_name (line : OpeningLine) (name : CodeName) (more rest : Text)
    (same : name.text ++ .char '\n' :: more = line.text ++ rest) : line.label = name.text := by
  obtain ⟨noIndent, noMark⟩ := apart_of_isNameStart name.first name.starts
  have unindented : line.indent = [] := by
    cases indent : line.indent with
    | nil => rfl
    | cons symbol others =>
      rw [OpeningLine.text, indent] at same
      have blank := line.indented symbol (indent ▸ List.mem_cons_self)
      rw [← (List.cons.inj same).1, noIndent] at blank
      contradiction
  have unquoted : line.quote = [] := by
    rw [OpeningLine.text, unindented] at same
    rcases line.quoted with unquoted | quote | quote
    · exact unquoted
    · rw [quote] at same
      exact absurd (List.cons.inj same).1 (noMark _ (by decide))
    · rw [quote] at same
      exact absurd (List.cons.inj same).1 (noMark _ (by decide))
  have text : name.text ++ .char '\n' :: more = line.label ++ (line.ending ++ rest) := by
    rw [same, OpeningLine.text, unindented, unquoted]
    simp
  -- Neither the name nor the label holds a part of a line break, and both have one behind them.
  have onLine : ∀ symbol : Sym, (!(Text.ofChars ['\r', '\n']).contains symbol) = true ↔ symbol ∉ Text.ofChars ['\r', '\n'] := by
    simp
  have nameTaken := Text.takeWhile_of_head (fun symbol => !(Text.ofChars ['\r', '\n']).contains symbol) name.text
    (.char '\n' :: more)
    (fun symbol member => (onLine symbol).mpr (not_feed_of_isNameChar symbol (name.isNameChar_of_mem symbol member))) rfl
  have labelTaken := Text.takeWhile_of_head (fun symbol => !(Text.ofChars ['\r', '\n']).contains symbol) line.label
    (line.ending ++ rest) (fun symbol member => (onLine symbol).mpr (not_feed_of_isWord symbol (line.wordy symbol member)))
    (by rcases line.breaks with ending | ending <;> rw [ending] <;> rfl)
  rw [← nameTaken, text, labelTaken]

theorem opening?_name (name : CodeName) (more : Text) : opening? (name.text ++ .char '\n' :: more) =
    if name.isLabel then some ⟨name.text.length + 1, name.text⟩ else none := by
  split
  · next label =>
    obtain ⟨starts, wordy⟩ := name.isLabel_iff.mp label
    let line : OpeningLine := ⟨[], [], name.text, Text.ofChars ['\n'], by simp, .inl rfl, starts, wordy, .inr rfl⟩
    have parts : name.text ++ .char '\n' :: more = line.text ++ more := by simp [line, OpeningLine.text, Text.ofChars]
    refine (opening?_eq_some_iff _ _).mpr ⟨line, more, parts, ?_⟩
    simp [line, OpeningLine.opening, OpeningLine.text, Text.ofChars]
  · next label =>
    rw [Option.eq_none_iff_forall_ne_some]
    intro opening found
    obtain ⟨line, rest, same, _⟩ := (opening?_eq_some_iff _ _).mp found
    have whole := label_eq_name line name more rest same
    exact label (name.isLabel_iff.mpr ⟨whole ▸ line.starts, whole ▸ line.wordy⟩)

/-! The lines up to the closing one. -/

section Label
variable (label : Text) (labelled : label ≠ []) (wordy : ∀ symbol ∈ label, symbol.isWord = true)
include labelled wordy

/-- Lines that close nothing are passed over. -/
theorem body_passed (front lines behind : Text)
    (passed : ∀ left right, lines = left ++ right → right ≠ [] → startsLine (front ++ left) = true →
      ¬ Closes label (right ++ behind)) :
    body label (startsLine front) (lines ++ behind) = lines.length + body label (startsLine (front ++ lines)) behind := by
  induction lines generalizing front with
  | nil => simp
  | cons symbol lines ih =>
    have unclosed : (if startsLine front then closing? label (symbol :: (lines ++ behind)) else none) = none := by
      split
      · next starts =>
        have open' := passed [] (symbol :: lines) rfl (by simp) (by simpa using starts)
        rw [closes_iff label _ labelled wordy, not_not] at open'
        exact open'
      · rfl
    have later := ih (front ++ [symbol]) fun left right same more starts =>
      passed (symbol :: left) right (by rw [same, List.cons_append]) more (by simpa using starts)
    rw [startsLine_behind, List.append_assoc] at later
    rw [List.cons_append, body, unclosed]
    simp only [later, List.length_cons, List.singleton_append]
    omega

theorem closing?_le (text : Text) (size : Nat) (found : closing? label text = some size) : size ≤ text.length := by
  obtain ⟨indent, rest, rfl, _, _, rfl⟩ := (closing?_eq_some_iff label text size labelled wordy).mp found
  simp only [List.length_append]
  omega

omit labelled in
theorem closing?_before_feed (text more : Text) : closing? label (text ++ .char '\n' :: more) = closing? label text := by
  have absent : .char '\n' ∉ label := fun member => not_feed_of_isWord _ (wordy _ member) (by decide)
  exact closing?_before_mark (.char '\n') (by decide) (by decide +kernel) label text more absent

theorem closes_before_feed_iff (text more : Text) : Closes label (text ++ .char '\n' :: more) ↔ Closes label text := by
  rw [closes_iff label _ labelled wordy, closes_iff label _ labelled wordy, closing?_before_feed label wordy]

/-- A heredoc does not go on behind a line that closes it. -/
theorem body_le (front left right more : Text) (starts : startsLine (front ++ left) = true) (closes : Closes label right) :
    body label (startsLine front) (left ++ (right ++ .char '\n' :: more)) ≤ left.length + right.length := by
  induction left generalizing front with
  | nil =>
    rw [List.append_nil] at starts
    obtain ⟨size, found⟩ := Option.ne_none_iff_exists'.mp ((closes_iff label right labelled wordy).mp closes)
    have bound := closing?_le label labelled wordy right size found
    rw [← closing?_before_feed label wordy right more] at found
    obtain ⟨symbol, others, same⟩ : ∃ symbol others, right ++ .char '\n' :: more = symbol :: others :=
      List.exists_cons_of_ne_nil (by simp)
    rw [same] at found
    rw [List.nil_append, same, body, if_pos starts, found, List.length_nil, Nat.zero_add]
    exact bound
  | cons symbol left ih =>
    have later := ih (front ++ [symbol]) (by simpa using starts)
    rw [startsLine_behind] at later
    rw [List.cons_append, body]
    split
    · next size found =>
      split at found
      · have whole : symbol :: (left ++ (right ++ .char '\n' :: more)) =
            (symbol :: (left ++ right)) ++ .char '\n' :: more := by simp
        rw [whole, closing?_before_feed label wordy] at found
        have bound := closing?_le label labelled wordy _ size found
        simp only [List.length_cons, List.length_append] at bound ⊢
        omega
      · contradiction
    · simp only [List.length_cons]
      omega

theorem body_closed (rest : Text) (ends : rest.head?.any Sym.isWord = false) : body label true (label ++ rest) = label.length := by
  have found := (closing?_eq_some_iff label (label ++ rest) _ labelled wordy).mpr
    ⟨[], rest, rfl, fun symbol member => absurd member List.not_mem_nil, ends, rfl⟩
  obtain ⟨symbol, others, same⟩ := List.exists_cons_of_ne_nil labelled
  generalize whole : label ++ rest = text at found
  rw [same, List.cons_append] at whole
  rw [← whole] at found ⊢
  rw [body, if_pos rfl, found, List.length_nil, Nat.zero_add]

/-- A heredoc reaches to the label that is put behind some lines exactly if none of them closes it. -/
theorem body_eq_iff (lines rest : Text) (ends : rest.head?.any Sym.isWord = false) :
    body label true (lines ++ .char '\n' :: (label ++ rest)) = lines.length + 1 + label.length ↔ ¬ LinesClose label lines := by
  constructor
  · rintro size ⟨left, right, rfl, starts, closes⟩
    have bound := body_le label labelled wordy [] left right (label ++ rest) starts closes
    have begins : startsLine [] = true := rfl
    rw [begins, ← List.append_assoc, size, List.length_append] at bound
    omega
  · intro unclosed
    have passed := body_passed label labelled wordy [] (lines ++ [.char '\n']) (label ++ rest) (by
      intro left right same more starts closes
      obtain rfl | ⟨others, last, rfl⟩ := List.eq_nil_or_concat right
      · contradiction
      rw [List.concat_eq_append, ← List.append_assoc] at same
      obtain ⟨rfl, feed⟩ := List.append_inj' same rfl
      obtain rfl := List.singleton_inj.mp feed
      rw [List.concat_eq_append, List.append_assoc, List.singleton_append,
        closes_before_feed_iff label labelled wordy] at closes
      exact unclosed ⟨left, others, rfl, starts, closes⟩)
    rw [List.nil_append, startsLine_behind, List.append_assoc, List.singleton_append] at passed
    exact passed.trans (by rw [List.length_append]; exact congrArg _ (body_closed label labelled wordy rest ends))

end Label

/-! The tokens. -/

theorem extent?_labelled (name : CodeName) (body : Text) (rest : Text) :
    extent? (name.text ++ .char '\n' :: (body ++ .char '\n' :: (name.text ++ rest))) =
      if name.isLabel then
        some (name.text.length + 1 + Heredoc.body name.text true (body ++ .char '\n' :: (name.text ++ rest)))
      else none := by
  rw [extent?, opening?_name]
  split
  · have behind : (name.text ++ .char '\n' :: (body ++ .char '\n' :: (name.text ++ rest))).drop (name.text.length + 1) =
        body ++ .char '\n' :: (name.text ++ rest) := by
      rw [← List.drop_drop, List.drop_left]
      rfl
    rw [Option.map_some, behind]
  · rfl

end Heredoc

namespace Cut

/-- Three less-than signs start a heredoc where an opening line stands behind them, and else the operator of two. -/
theorem ofText_signs (text : Text) : ofText Context.start (.char '<') (.char '<' :: .char '<' :: text) =
    (Heredoc.extent? text).elim ⟨.operator .sl, 2, Nat.two_pos⟩ fun size =>
      ⟨.heredoc, 3 + size, Nat.add_pos_left (Nat.succ_pos 2) _⟩ := by
  have code : ofText Context.start (.char '<') (.char '<' :: .char '<' :: text) =
      ofCode false (.char '<') (.char '<' :: .char '<' :: text) := rfl
  have blank : (Sym.char '<').satisfies Text.isCodeBlank = false := by decide +kernel
  have apart : ∀ mark ∈ [['<', '?'], ['?', '>'], ['/', '/'], ['/', '*']],
      Text.startsWith mark (.char '<' :: .char '<' :: .char '<' :: text) = false := List.forall_mem_cons.mpr
    ⟨rfl, List.forall_mem_cons.mpr ⟨rfl, List.forall_mem_cons.mpr ⟨rfl, List.forall_mem_singleton.mpr rfl⟩⟩⟩
  have opens : Text.startsWith ['<', '<', '<'] (.char '<' :: .char '<' :: .char '<' :: text) = true := rfl
  have quote : Extent.isQuote (.char '<') = false := by decide
  have named : Extent.isNameStart (.char '<') = false := by decide
  have digit : (Sym.char '<').satisfies Char.isDigit = false := by decide
  have other : operator (.char '<') (.char '<' :: .char '<' :: text) = ⟨.operator .sl, 2, Nat.two_pos⟩ := rfl
  rw [code, ofCode]
  cases found : Heredoc.extent? text with
  | some size => simp [blank, apart, quote, opens, found]
  | none => simp [blank, apart, quote, opens, found, named, digit, other]

end Cut

namespace Heredoc

variable (name : CodeName) (lines rest : Text)

/-- How far a heredoc with a name for its label extends into a text behind it. -/
def reach : Nat := 3 + (name.text.length + 1 + body name.text true (lines ++ .char '\n' :: (name.text ++ rest)))

theorem labelled_append : labelled name lines ++ rest = .char '<' :: .char '<' :: .char '<' ::
    (name.text ++ .char '\n' :: (lines ++ .char '\n' :: (name.text ++ rest))) := by
  simp [labelled, Text.ofChars]

theorem tokenize_of_label (label : name.isLabel = true) : tokenize (labelled name lines ++ rest) =
    ⟨.heredoc, (labelled name lines ++ rest).take (reach name lines rest), 0⟩ ::
      tokensFrom Context.start (Text.byteLength ((labelled name lines ++ rest).take (reach name lines rest)))
        ((labelled name lines ++ rest).drop (reach name lines rest)) := by
  rw [tokenize, labelled_append, tokensFrom_cons, Cut.ofText_signs, extent?_labelled, if_pos label]
  simp only [Nat.zero_add]
  rfl

theorem head?_tokenize_of_no_label (label : name.isLabel = false) :
    (tokenize (labelled name lines ++ rest)).head? = some ⟨.operator .sl, Text.ofChars ['<', '<'], 0⟩ := by
  rw [tokenize, labelled_append, tokensFrom_cons, Cut.ofText_signs, extent?_labelled, if_neg (by simp [label])]
  rfl

theorem reach_eq_iff (label : name.isLabel = true) (ends : rest.head?.any Sym.isWord = false) :
    reach name lines rest = (labelled name lines).length ↔ ¬ LinesClose name.text lines := by
  rw [← body_eq_iff name.text (List.cons_ne_nil _ _) (name.isLabel_iff.mp label).2 lines rest ends]
  simp only [reach, labelled, Text.ofChars, List.length_append, List.length_map, List.length_cons, List.length_nil]
  omega

theorem tokensFrom_semicolon (offset : Nat) :
    tokensFrom Context.start offset [.char ';'] = [⟨.character, [.char ';'], offset⟩] := by
  have single : pieces Context.start [.char ';'] = [(.character, [.char ';'])] := by decide +kernel
  rw [tokensFrom_eq_laidOut, single]
  rfl

/-- The heredoc is a token of its own in front of a semicolon exactly if none of its lines closes it. -/
theorem tokenize_of_label_eq_iff (label : name.isLabel = true) :
    tokenize (labelled name lines ++ [.char ';']) =
        [⟨.heredoc, labelled name lines, 0⟩, ⟨.character, [.char ';'], Text.byteLength (labelled name lines)⟩] ↔
      ¬ LinesClose name.text lines := by
  rw [tokenize_of_label name lines [.char ';'] label, ← reach_eq_iff name lines [.char ';'] label (by decide +kernel)]
  constructor
  · intro same
    have text := (Token.mk.inj (List.cons.inj same).1).2.1
    have length := congrArg List.length text
    rw [List.length_take, List.length_append, List.length_singleton] at length
    omega
  · intro reaches
    rw [reaches, List.take_left, List.drop_left, tokensFrom_semicolon]

end Heredoc

/-- A name behind three less-than signs starts a heredoc exactly if it is a word that does not start with a digit, as names of
ASCII characters are. The heredoc ends with the name in front of a semicolon unless a line closes it before. What follows
any heredoc is no part of a word, so it can only go on a name as a character outside ASCII. -/
theorem heredoc_of_name (name : CodeName) (lines source : Text) :
    ((tokenize (Heredoc.labelled name lines ++ [.char ';'])).head?.map Token.kind = some .heredoc ↔ name.isLabel = true) ∧
    (tokenize (Heredoc.labelled name lines ++ [.char ';']) =
        [⟨.heredoc, Heredoc.labelled name lines, 0⟩,
          ⟨.character, [.char ';'], Text.byteLength (Heredoc.labelled name lines)⟩] ↔
      name.isLabel = true ∧ ¬ Heredoc.LinesClose name.text lines) ∧
    ((∀ symbol ∈ name.text, symbol.isAscii = true) → name.isLabel = true) ∧
    ∀ (before : List Token) (token : Token) (after : List Token),
      tokenize source = before ++ token :: after → token.kind = .heredoc →
        ∀ symbol, (after.flatMap Token.text).head? = some symbol →
          symbol.isWord = false ∧ (Extent.isNameChar symbol = true → symbol.isAscii = false) := by
  refine ⟨?_, ?_, name.isLabel_of_ascii, ?_⟩
  · cases label : name.isLabel with
    | true =>
      rw [Heredoc.tokenize_of_label name lines _ label]
      exact ⟨fun _ => rfl, fun _ => rfl⟩
    | false =>
      rw [Heredoc.head?_tokenize_of_no_label name lines _ label]
      exact ⟨nofun, nofun⟩
  · cases label : name.isLabel with
    | true =>
      rw [Heredoc.tokenize_of_label_eq_iff name lines label]
      exact ⟨fun unclosed => ⟨rfl, unclosed⟩, And.right⟩
    | false =>
      have head := Heredoc.head?_tokenize_of_no_label name lines [.char ';'] label
      constructor
      · intro same
        rw [same] at head
        exact absurd (Token.mk.inj (Option.some.inj head)).1 nofun
      · rintro ⟨again, _⟩
        contradiction
  · intro before token after split kind symbol next
    obtain ⟨formed, _⟩ := tokenize_parts source before after token split
    rw [kind] at formed
    have outside : symbol.isWord = false := by
      have behind := HeredocText.outside _ _ formed
      rwa [next, Option.any_some] at behind
    refine ⟨outside, fun named => ?_⟩
    by_contra narrow
    have wordy := (Heredoc.label_of_ascii symbol (Bool.eq_true_of_not_eq_false narrow)).2 named
    exact Bool.false_ne_true (outside.symm.trans wordy)

/-- The euro sign is a name and no word: it labels no heredoc, and a heredoc ends in front of it. -/
theorem sign_is_no_label :
    Extent.isNameStart (.char '\u20AC') = true ∧
    (tokenize (Text.ofString "<<<\u20AC\nx\n\u20AC;")).head? = some ⟨.operator .sl, Text.ofChars ['<', '<'], 0⟩ ∧
    tokenize (Text.ofString "<<<A\nx\nA\u20AC") =
      [⟨.heredoc, Text.ofString "<<<A\nx\nA", 0⟩, ⟨.identifier, Text.ofString "\u20AC", 8⟩] := by
  decide +kernel

end AccessChain
