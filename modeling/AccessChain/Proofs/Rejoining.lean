import AccessChain.Proofs.Truncation

/-! Lexing when what follows a token is replaced. A token that ends with the part that is kept is cut off again if
a stop comes behind it, unless it ends only because of what was there: a line comment or text outside code. -/
namespace AccessChain

theorem Text.startsWith_rejoined (characters : List Char) (text more other : Text)
    (seen : characters.length ≤ text.length) :
    startsWith characters (text ++ other) = startsWith characters (text ++ more) := by
  rw [startsWith_truncated characters text other seen, startsWith_truncated characters text more seen]

namespace Extent

theorem quoted_pos (quote : Sym) (text : Text) (held : text ≠ []) : 0 < quoted quote text := by
  fun_cases quoted quote text with
  | case1 => contradiction
  | case2 symbol => exact Nat.one_pos
  | case3 next rest => exact Nat.add_pos_left Nat.two_pos _
  | case4 next rest => exact Nat.one_pos
  | case5 symbol next rest => exact Nat.add_pos_left Nat.one_pos _

theorem quoted_rejoined (quote : Sym) (text more other : Text) (held : more ≠ [])
    (short : quoted quote (text ++ more) ≤ text.length) :
    quoted quote (text ++ other) = quoted quote (text ++ more) := by
  have further := quoted_pos quote more held
  fun_induction quoted quote text with
  | case1 =>
    rw [List.nil_append, List.length_nil] at short
    omega
  | case2 symbol =>
    obtain ⟨next, rest, rfl⟩ := List.exists_cons_of_ne_nil held
    simp only [List.singleton_append, List.length_singleton, quoted] at short ⊢
    by_cases escape : symbol = .char '\\'
    · rw [if_pos escape] at short
      omega
    · by_cases last : symbol = quote
      · rw [if_neg escape, if_pos last]
        cases other with
        | nil => rfl
        | cons another other => simp only [quoted, if_neg escape, if_pos last]
      · rw [if_neg escape, if_neg last] at short
        omega
  | case3 next rest ih =>
    simp only [List.cons_append, List.length_cons, quoted, if_true] at short ⊢
    rw [ih (by omega)]
  | case4 next rest escape => simp [quoted, escape]
  | case5 symbol next rest escape last ih =>
    simp only [List.cons_append, List.length_cons, quoted, escape, last, if_false] at ih short ⊢
    rw [ih (by omega)]

/-- An extent that is found by a search for its end, symbol by symbol, where two symbols decide whether it ends.
The end is in view if the extent ends before the last symbol, or if it would not end with what follows. -/
theorem search_rejoined (extent : Text → Nat) (ends : Text → Bool) (last gap : Nat)
    (step : ∀ symbol rest, extent (symbol :: rest) = if ends (symbol :: rest) then last else 1 + extent rest)
    (extended : ∀ text more, ends text = true → ends (text ++ more) = true) (text more other : Text)
    (narrow : ∀ text : Text, 2 ≤ text.length → ends (text ++ other) = ends (text ++ more))
    (short : extent (text ++ more) + gap ≤ text.length) (further : 0 < extent more + gap)
    (seen : ∀ size, extent (text ++ more) = size + last → ends (text.drop size ++ more) = true →
      ends (text.drop size) = true) :
    extent (text ++ other) = extent (text ++ more) := by
  induction text with
  | nil =>
    rw [List.nil_append, List.length_nil] at short
    omega
  | cons symbol text ih =>
    have same := narrow (symbol :: text)
    have kept := extended (symbol :: text) other
    rw [List.cons_append] at same short seen kept
    rw [List.cons_append, List.cons_append, step, step]
    rw [step] at short
    by_cases ended : ends (symbol :: (text ++ more)) = true
    · rw [step, if_pos ended] at seen
      have here : ends (symbol :: text) = true := seen 0 (Nat.zero_add last).symm ended
      rw [if_pos ended, if_pos (kept here)]
    · rw [if_neg ended, List.length_cons] at short
      have long : 2 ≤ (symbol :: text).length := by
        cases text with
        | nil =>
          rw [List.nil_append, List.length_nil] at short
          omega
        | cons next text => exact Nat.le_add_left 2 text.length
      rw [List.cons_append] at same
      rw [if_neg ended, if_neg (by rw [same long]; exact ended), ih (by omega)]
      intro size found
      have later := seen (size + 1)
      rw [step, if_neg ended, List.drop_succ_cons] at later
      exact later (by omega)

theorem lineComment_rejoined (text more other : Text) (short : lineComment (text ++ more) < text.length)
    (seen : Text.startsWith ['?', '>'] ((text ++ more).drop (lineComment (text ++ more))) = true →
      lineComment (text ++ more) + 2 ≤ text.length) :
    lineComment (text ++ other) = lineComment (text ++ more) := by
  apply search_rejoined lineComment endsLine 0 1 (fun _ _ => rfl) endsLine_extended text more other ?_ short
    (Nat.succ_pos _) (endsLine_seen text more short seen)
  intro text long
  have held : text ≠ [] := List.ne_nil_of_length_pos (by omega)
  rw [endsLine, endsLine, Text.head?_any_truncated _ text other held, Text.head?_any_truncated _ text more held,
    Text.startsWith_rejoined ['?', '>'] text more other long]

theorem blockComment_pos (text : Text) (held : text ≠ []) : 0 < blockComment text := by
  obtain ⟨symbol, rest, rfl⟩ := List.exists_cons_of_ne_nil held
  rw [blockComment]
  split
  · exact Nat.two_pos
  · exact Nat.add_pos_left Nat.one_pos _

theorem blockComment_rejoined (text more other : Text) (held : more ≠ [])
    (short : blockComment (text ++ more) ≤ text.length) :
    blockComment (text ++ other) = blockComment (text ++ more) := by
  apply search_rejoined blockComment (Text.startsWith ['*', '/']) 2 0 (fun _ _ => rfl)
    (Text.startsWith_extended ['*', '/']) text more other
    (fun text => Text.startsWith_rejoined ['*', '/'] text more other) short (blockComment_pos more held)
  intro size found starts
  rwa [Text.startsWith_truncated] at starts
  rw [List.length_drop, List.length_cons, List.length_singleton]
  omega

theorem html_rejoined (text more other : Text) (short : html (text ++ more) < text.length)
    (seen : Text.startsWith ['<', '?'] ((text ++ more).drop (html (text ++ more))) = true →
      html (text ++ more) + 2 ≤ text.length) : html (text ++ other) = html (text ++ more) :=
  search_rejoined html (Text.startsWith ['<', '?']) 0 1 (fun _ _ => rfl) (Text.startsWith_extended ['<', '?'])
    text more other (fun text => Text.startsWith_rejoined ['<', '?'] text more other) short (Nat.succ_pos _)
    (html_seen text more short seen)

end Extent

theorem Heredoc.body_pos (label : Text) (labelled : label ≠ [])
    (wordy : ∀ symbol ∈ label, symbol.isWord = true) (atLineStart : Bool) (text : Text) (held : text ≠ []) :
    0 < body label atLineStart text := by
  obtain ⟨symbol, rest, rfl⟩ := List.exists_cons_of_ne_nil held
  rw [body]
  split
  · next size found =>
    split at found
    · obtain ⟨indent, _, _, _, _, rfl⟩ := (closing?_eq_some_iff label _ _ labelled wordy).mp found
      exact Nat.add_pos_right _ (List.length_pos_iff.mpr labelled)
    · contradiction
  · exact Nat.add_pos_left Nat.one_pos _

section Stopped
variable {mark : Sym} (stop : IsStop mark)
include stop

theorem Extent.lineBreak_rejoined (text more tail : Text) (short : lineBreak (text ++ more) ≤ text.length) :
    lineBreak (text ++ mark :: tail) = lineBreak (text ++ more) := by
  rw [lineBreak_truncated text more short, lineBreak_before stop text tail]

namespace Heredoc

section Labelled
variable (label : Text) (labelled : label ≠ []) (wordy : ∀ symbol ∈ label, symbol.isWord = true)
include labelled wordy

theorem closing?_rejoined (text more tail : Text) (size : Nat) (found : closing? label (text ++ more) = some size)
    (short : size ≤ text.length) : closing? label (text ++ mark :: tail) = some size := by
  obtain ⟨indent, rest, same, indented, ends, rfl⟩ := (closing?_eq_some_iff label _ _ labelled wordy).mp found
  rw [← List.append_assoc] at same
  obtain ⟨remaining, rfl⟩ := Text.prefix_of_short (indent ++ label) rest text more same (by
    rw [List.length_append]
    exact short)
  refine (closing?_eq_some_iff label _ _ labelled wordy).mpr
    ⟨indent, remaining ++ mark :: tail, by simp, indented, ?_, rfl⟩
  rw [List.append_assoc, List.append_cancel_left_eq] at same
  cases remaining with
  | nil => exact stop.label
  | cons symbol remaining =>
    rw [← same] at ends
    exact ends

theorem body_rejoined (atLineStart : Bool) (text more tail : Text) (held : more ≠ [])
    (short : body label atLineStart (text ++ more) ≤ text.length) :
    body label atLineStart (text ++ mark :: tail) = body label atLineStart (text ++ more) := by
  have further := fun atLineStart => body_pos label labelled wordy atLineStart more held
  have absent : mark ∉ label := fun member => Bool.false_ne_true (stop.label.symm.trans (wordy _ member))
  induction text generalizing atLineStart with
  | nil => exact absurd short (Nat.not_le_of_lt (further atLineStart))
  | cons symbol text ih =>
    rw [List.cons_append, body] at short
    rw [List.cons_append, List.cons_append, body, body]
    cases here : (if atLineStart then closing? label (symbol :: (text ++ more)) else none) with
    | some size =>
      rw [here] at short
      have same : (if atLineStart then closing? label (symbol :: (text ++ mark :: tail)) else none) = some size := by
        split at here
        · next starts =>
          exact (if_pos starts).trans
            (closing?_rejoined stop label labelled wordy (symbol :: text) more tail size here short)
        · contradiction
      rw [same]
    | none =>
      rw [here] at short
      simp only [List.length_cons] at short
      cases there : (if atLineStart then closing? label (symbol :: (text ++ mark :: tail)) else none) with
      | none =>
        simp only
        rw [ih _ (by omega)]
      | some size =>
        -- The stop would close the heredoc where a longer word stood, so the heredoc went on behind the word.
        split at there
        · next starts =>
          rw [if_pos starts] at here
          have early : closing? label (symbol :: text) = some size :=
            (closing?_before stop label (symbol :: text) tail absent).symm.trans there
          have plain := closing?_lost label labelled wordy (symbol :: text) more size early here
          rw [List.mem_cons, not_or] at plain
          have far := body_plain label text more plain.2
          have beyond := further false
          rw [beq_false_of_ne (Ne.symm plain.1)] at short
          omega
        · contradiction

end Labelled

theorem extent?_rejoined (text more tail : Text) (held : more ≠ [])
    (short : ∀ size, extent? (text ++ more) = some size → size ≤ text.length) :
    extent? (text ++ mark :: tail) = extent? (text ++ more) := by
  cases found : opening? (text ++ more) with
  | none =>
    have unopened : opening? text = none := by
      rw [Option.eq_none_iff_forall_ne_some] at found ⊢
      exact fun opening opened => found opening (opening?_extended text more opening opened)
    rw [extent?, opening?_before stop, unopened, extent?, found]
    rfl
  | some opening =>
    have bound : opening.size + body opening.label true ((text ++ more).drop opening.size) ≤ text.length :=
      short _ (by rw [extent?, found]; rfl)
    have opened := opening?_truncated text more opening found (by omega)
    obtain ⟨inside, labelled, wordy⟩ := label_of_opening? text opening opened
    rw [extent?, opening?_before stop, opened, extent?, found, Option.map_some, Option.map_some,
      Text.drop_before mark _ text tail inside]
    rw [List.drop_append_of_le_length inside] at bound ⊢
    rw [body_rejoined stop opening.label labelled wordy true _ more tail held]
    rw [List.length_drop]
    omega

end Heredoc

namespace Cut

theorem operator_rejoined (first : Sym) (text more tail : Text)
    (short : (operator first (text ++ more)).size ≤ 1 + text.length) :
    operator first (text ++ mark :: tail) = operator first (text ++ more) := by
  rw [operator_before stop first text tail, operator_truncated first text more short]

theorem openingTag_rejoined (text more tail : Text) (short : (openingTag (text ++ more)).size ≤ text.length) :
    openingTag (text ++ mark :: tail) = openingTag (text ++ more) := by
  rw [openingTag_before stop text tail, openingTag_truncated text more short]

theorem heredoc_rejoined (first : Sym) (text more tail : Text) (held : more ≠ [])
    (short : ∀ size, (if Text.startsWith ['<', '<', '<'] (first :: (text ++ more)) then
      Heredoc.extent? ((text ++ more).drop 2) else none) = some size → 2 + size ≤ text.length) :
    (if Text.startsWith ['<', '<', '<'] (first :: (text ++ mark :: tail)) then
      Heredoc.extent? ((text ++ mark :: tail).drop 2) else none) =
    if Text.startsWith ['<', '<', '<'] (first :: (text ++ more)) then
      Heredoc.extent? ((text ++ more).drop 2) else none := by
  have kept : Text.startsWith ['<', '<', '<'] (first :: (text ++ mark :: tail)) =
      Text.startsWith ['<', '<', '<'] (first :: text) :=
    Text.startsWith_before mark _ (first :: text) tail (stop.not_mem_ofChars _ (by decide))
  by_cases inside : 2 ≤ text.length
  · have same : Text.startsWith ['<', '<', '<'] (first :: (text ++ more)) =
        Text.startsWith ['<', '<', '<'] (first :: text) :=
      Text.startsWith_truncated _ (first :: text) more (Nat.succ_le_succ inside)
    rw [same] at short ⊢
    rw [kept]
    split
    · next opens =>
      rw [if_pos opens] at short
      rw [Text.drop_before mark 2 text tail inside]
      rw [List.drop_append_of_le_length inside] at short ⊢
      apply Heredoc.extent?_rejoined stop _ more tail held
      intro size found
      have bound := short size found
      rw [List.length_drop]
      omega
    · rfl
  · have closed : ¬ Text.startsWith ['<', '<', '<'] (first :: text) = true := by
      intro starts
      have size := (List.isPrefixOf_iff_prefix.mp starts).length_le
      simp only [Text.ofChars, List.length_map, List.length_cons, List.length_nil] at size
      omega
    rw [kept, if_neg closed]
    cases found : (if Text.startsWith ['<', '<', '<'] (first :: (text ++ more)) then
        Heredoc.extent? ((text ++ more).drop 2) else none) with
    | none => rfl
    | some size =>
      have bound := short size found
      omega

/-- A cut of several symbols. -/
theorem ofCode_rejoined_inside (afterAccess : Bool) (first : Sym) (text more tail : Text) (held : more ≠ [])
    (several : text ≠ []) (short : (ofCode afterAccess first (text ++ more)).size ≤ 1 + text.length)
    (line : (ofCode afterAccess first (text ++ more)).kind = .lineComment →
      (ofCode afterAccess first (text ++ more)).size ≤ text.length ∧
        (Text.startsWith ['?', '>'] ((first :: (text ++ more)).drop (ofCode afterAccess first (text ++ more)).size) = true →
          (ofCode afterAccess first (text ++ more)).size + 1 ≤ text.length)) :
    ofCode afterAccess first (text ++ mark :: tail) = ofCode afterAccess first (text ++ more) := by
  have long : 1 ≤ text.length := List.length_pos_iff.mpr several
  have two : 2 ≤ (first :: text).length := Nat.succ_le_succ long
  have starts := fun wanted rest => Text.startsWith_truncated wanted (first :: text) rest
  have heads := fun test rest => Text.head?_any_truncated test text rest several
  have behind : ∀ rest : Text, (text ++ rest).drop 1 = text.drop 1 ++ rest :=
    fun rest => List.drop_append_of_le_length long
  have counts := fun test rejected => Text.countWhile_before mark test text tail rejected
  simp only [List.cons_append] at starts
  revert short line
  simp only [ofCode, starts ['<', '?'] _ two, starts ['?', '>'] _ two, starts ['/', '/'] _ two, starts ['/', '*'] _ two,
    heads]
  -- The tests of two symbols give the same answers, so the extents are left to compare, and heredocs.
  by_cases blank : first.satisfies Text.isCodeBlank = true
  · simp only [blank, if_true]
    intro short _
    have same := Text.countWhile_truncated (·.satisfies Text.isCodeBlank) text more (Nat.le_of_add_le_add_left short)
    simp only [Extent.blanks, same, counts _ stop.blank]
  simp only [blank, Bool.false_eq_true, if_false]
  by_cases opens : Text.startsWith ['<', '?'] (first :: text) = true
  · simp only [opens, if_true]
    intro short _
    exact openingTag_rejoined stop (first :: text) more tail (by rw [List.length_cons, Nat.add_comm]; exact short)
  simp only [opens, Bool.false_eq_true, if_false]
  by_cases closes : Text.startsWith ['?', '>'] (first :: text) = true
  · simp only [closes, if_true]
    intro short _
    rw [behind] at short
    have same := Extent.lineBreak_rejoined stop (text.drop 1) more tail (by rw [List.length_drop]; omega)
    simp only [behind, same]
  simp only [closes, Bool.false_eq_true, if_false]
  by_cases comment : (first = .char '#' || Text.startsWith ['/', '/'] (first :: text)) = true
  · simp only [comment, if_true]
    intro _ line
    obtain ⟨short, seen⟩ := line trivial
    have same := Extent.lineComment_rejoined text more (mark :: tail) (by omega) (by
      intro starts
      have two := seen (by rw [Nat.add_comm 1, List.drop_succ_cons]; exact starts)
      omega)
    simp only [same]
  simp only [comment, Bool.false_eq_true, if_false]
  by_cases block : Text.startsWith ['/', '*'] (first :: text) = true
  · simp only [block, if_true]
    intro short _
    rw [behind] at short
    have same := Extent.blockComment_rejoined (text.drop 1) more (mark :: tail) held (by
      rw [List.length_drop]
      omega)
    simp only [behind, same]
  simp only [block, Bool.false_eq_true, if_false]
  by_cases variable_ : (first = .char '$' && text.head?.any Extent.isNameStart) = true
  · simp only [variable_, if_true]
    intro short _
    have same := Text.countWhile_truncated Extent.isNameChar text more (Nat.le_of_add_le_add_left short)
    simp only [Extent.name, same, counts _ stop.name]
  simp only [variable_, Bool.false_eq_true, if_false]
  by_cases quote : Extent.isQuote first = true
  · simp only [quote, if_true]
    intro short _
    have same := Extent.quoted_rejoined first text more (mark :: tail) held (Nat.le_of_add_le_add_left short)
    simp only [same]
  simp only [quote, Bool.false_eq_true, if_false]
  intro short _
  have same := heredoc_rejoined stop first text more tail held (by
    intro size found
    rw [found] at short
    simp only at short
    omega)
  rw [same]
  split
  · rfl
  · next absent =>
    rw [absent] at short
    simp only at short
    by_cases name : Extent.isNameStart first = true
    · simp only [name, if_true] at short ⊢
      have size : Extent.name (text ++ more) = Extent.name text :=
        Text.countWhile_truncated Extent.isNameChar text more (Nat.le_of_add_le_add_left short)
      have kept : Extent.name (text ++ mark :: tail) = Extent.name text := counts _ stop.name
      have word : ∀ rest : Text, (text ++ rest).take (Extent.name text) = text.take (Extent.name text) :=
        fun _ => List.take_append_of_le_length (Text.countWhile_le Extent.isNameChar text)
      simp only [size, kept, word]
    simp only [name, Bool.false_eq_true, if_false] at short ⊢
    by_cases number : (first.satisfies Char.isDigit ||
        first = .char '.' && text.head?.any (·.satisfies Text.isDigit)) = true
    · simp only [number, if_true] at short ⊢
      have same := Text.countWhile_truncated Extent.isNumberChar text more (Nat.le_of_add_le_add_left short)
      simp only [Extent.number, same, counts _ stop.number]
    simp only [number, Bool.false_eq_true, if_false] at short ⊢
    by_cases slash : first = .char '\\'
    · rw [if_pos slash, if_pos slash]
    rw [if_neg slash] at short
    rw [if_neg slash, if_neg slash]
    exact operator_rejoined stop first text more tail short

section Single
variable (afterAccess : Bool) (first : Sym) (more tail : Text)

theorem startsWith_stopped (one another : Char) (listed : another ∈ ['?', '<', '>', '=']) (others : List Char) :
    Text.startsWith (one :: another :: others) (first :: mark :: tail) = false := by
  have apart : (Sym.char another == mark) = false := by
    apply beq_false_of_ne
    rintro rfl
    have each : ∀ sign ∈ ['?', '<', '>', '='], Sym.char sign ∈ Text.ofChars ['\'', '"', '?', '<', '>', '='] := by decide
    exact stop.apart (each another listed)
  simp [Text.startsWith, Text.ofChars, List.isPrefixOf, apart]

/-- The cut in front of a stop of a symbol that begins no comment or string. -/
theorem ofCode_stopped (noSlash : first ≠ .char '/')
    (apart : first.satisfies Text.isCodeBlank = true ∨ first ≠ .char '#' ∧ Extent.isQuote first = false) :
    ofCode afterAccess first (mark :: tail) =
      if first.satisfies Text.isCodeBlank then ⟨.whitespace, 1, Nat.one_pos⟩
      else if Extent.isNameStart first then ⟨nameKind afterAccess [first], 1, Nat.one_pos⟩
      else if first.satisfies Char.isDigit then ⟨.number, 1, Nat.one_pos⟩
      else if first = .char '\\' then ⟨.namespaceSeparator, 1, Nat.one_pos⟩
      else operator first [] := by
  have opens := startsWith_stopped stop first tail '<' '?' (by decide) []
  have closes := startsWith_stopped stop first tail '?' '>' (by decide) []
  have heredoc := startsWith_stopped stop first tail '<' '<' (by decide) ['<']
  have slash : ∀ others : List Char, Text.startsWith ('/' :: others) (first :: mark :: tail) = false := by
    intro others
    simp [Text.startsWith, Text.ofChars, List.isPrefixOf, beq_false_of_ne (Ne.symm noSlash)]
  have blanks : Extent.blanks (mark :: tail) = 0 := Text.countWhile_before mark _ [] tail stop.blank
  have name : Extent.name (mark :: tail) = 0 := Text.countWhile_before mark _ [] tail stop.name
  have number : Extent.number (mark :: tail) = 0 := Text.countWhile_before mark _ [] tail stop.number
  have sign : operator first (mark :: tail) = operator first [] := operator_before stop first [] tail
  rcases apart with blank | ⟨noHash, noQuote⟩
  · simp [ofCode, blank, blanks]
  · simp [ofCode, opens, closes, heredoc, slash, blanks, name, number, sign, stop.nameStart, stop.digit, noHash, noQuote]

/-- A cut of one symbol. A full stop is a number only in front of a digit. -/
theorem ofCode_rejoined_single (held : more ≠ []) (short : (ofCode afterAccess first more).size ≤ 1)
    (noLine : (ofCode afterAccess first more).kind ≠ .lineComment) (noSlash : first ≠ .char '/') :
    ofCode afterAccess first (mark :: tail) =
      if (ofCode afterAccess first more).kind = .number ∧ first = .char '.' then ⟨.character, 1, Nat.one_pos⟩
      else ofCode afterAccess first more := by
  have long := two_le_openingTag (first :: more)
  have quoted := Extent.quoted_pos first more held
  revert short noLine
  fun_cases ofCode afterAccess first more with
  | case1 blank =>
    intro short _
    have size : Extent.blanks more = 0 := Nat.le_zero.mp (Nat.le_of_add_le_add_left short)
    simp [ofCode_stopped stop afterAccess first tail noSlash (Or.inl blank), blank, size]
  | case2 blank opens => exact fun short => absurd short (Nat.not_le_of_lt long)
  | case3 => exact fun short => absurd (Nat.le_trans (Nat.le_add_right _ _) short) (by decide)
  | case4 => exact fun _ noLine => absurd rfl noLine
  | case5 => exact fun short => absurd (Nat.le_trans (Nat.le_add_right _ _) short) (by decide)
  | case6 blank opens closes line block variable_ =>
    intro short
    obtain ⟨_, starts⟩ := Bool.and_eq_true_iff.mp variable_
    obtain ⟨next, rest, rfl⟩ := List.exists_cons_of_ne_nil held
    have named : Extent.isNameChar next = true := by
      rw [Extent.isNameChar, Bool.or_eq_true]
      exact Or.inl starts
    have positive : 0 < Extent.name (next :: rest) := by
      rw [Extent.name, Text.countWhile, List.takeWhile_cons_of_pos named]
      exact Nat.succ_pos _
    exact absurd (Nat.le_of_add_le_add_left short) (Nat.not_le_of_lt positive)
  | case7 => exact fun short => absurd (Nat.le_of_add_le_add_left short) (Nat.not_le_of_lt quoted)
  | case8 => exact fun short => absurd (Nat.le_trans (Nat.le_add_right _ _) short) (by decide)
  | case9 blank opens closes line block variable_ quote absent name size =>
    intro short _
    have nothing : Extent.name more = 0 := Nat.le_zero.mp (Nat.le_of_add_le_add_left short)
    have apart : first ≠ .char '#' ∧ Extent.isQuote first = false := by simp_all
    have kind : nameKind afterAccess [first] ≠ .number := by
      rcases nameKind_cases afterAccess [first] with other | ⟨_, other⟩ <;> simp [other]
    simp [ofCode_stopped stop afterAccess first tail noSlash (Or.inr apart), blank, name, size, nothing, kind]
  | case10 blank opens closes line block variable_ quote absent name number =>
    intro short _
    have nothing : Extent.number more = 0 := Nat.le_zero.mp (Nat.le_of_add_le_add_left short)
    have apart : first ≠ .char '#' ∧ Extent.isQuote first = false := by simp_all
    by_cases point : first = .char '.'
    · subst point
      exact ofCode_stopped stop afterAccess (.char '.') tail noSlash (Or.inr apart)
    · have digit : first.satisfies Char.isDigit = true := by simpa [point] using number
      simp [ofCode_stopped stop afterAccess first tail noSlash (Or.inr apart), blank, name, nothing, digit, point]
  | case11 blank opens closes line block variable_ quote absent name number slash =>
    subst slash
    exact fun _ _ => rfl
  | case12 blank opens closes line block variable_ quote absent name number slash =>
    intro short _
    have apart : first ≠ .char '#' ∧ Extent.isQuote first = false := by simp_all
    have digit : first.satisfies Char.isDigit = false := by simp_all
    have same : operator first more = operator first [] := operator_truncated first [] more short
    simp only [ofCode_stopped stop afterAccess first tail noSlash (Or.inr apart), blank, name, slash, digit, same,
      Bool.false_eq_true, if_false]
    split
    · next point =>
      obtain ⟨_, rfl⟩ := point
      rfl
    · rfl

end Single

/-- What is cut off in front of a stop, given what was cut off in front of other text. A full stop may have been
a number there. -/
def stopped (cut : Cut) (first : Sym) (text : Text) : Cut :=
  if text = [] ∧ cut.kind = .number ∧ first = .char '.' then ⟨.character, 1, Nat.one_pos⟩ else cut

theorem ofCode_rejoined (afterAccess : Bool) (first : Sym) (text more tail : Text) (held : more ≠ [])
    (short : (ofCode afterAccess first (text ++ more)).size ≤ 1 + text.length)
    (line : (ofCode afterAccess first (text ++ more)).kind = .lineComment →
      (ofCode afterAccess first (text ++ more)).size ≤ text.length ∧
        (Text.startsWith ['?', '>'] ((first :: (text ++ more)).drop (ofCode afterAccess first (text ++ more)).size) = true →
          (ofCode afterAccess first (text ++ more)).size + 1 ≤ text.length))
    (noSlash : text = [] → first ≠ .char '/') :
    ofCode afterAccess first (text ++ mark :: tail) =
      stopped (ofCode afterAccess first (text ++ more)) first text := by
  by_cases single : text = []
  · subst single
    have noLine : (ofCode afterAccess first more).kind ≠ .lineComment := by
      intro kind
      exact absurd (line kind).1 (Nat.not_le_of_lt (ofCode afterAccess first more).size_pos)
    simpa [stopped] using ofCode_rejoined_single stop afterAccess first more tail held short noLine (noSlash rfl)
  · rw [stopped, if_neg (fun point => single point.1)]
    exact ofCode_rejoined_inside stop afterAccess first text more tail held single short line

theorem ofText_rejoined (context : Context) (first : Sym) (text more tail : Text) (held : more ≠ [])
    (short : (ofText context first (text ++ more)).size ≤ 1 + text.length)
    (ended : ∀ tag, tagBehind? (ofText context first (text ++ more)).kind = some tag →
      (ofText context first (text ++ more)).size ≤ text.length ∧
        (Text.startsWith tag ((first :: (text ++ more)).drop (ofText context first (text ++ more)).size) = true →
          (ofText context first (text ++ more)).size + 1 ≤ text.length))
    (noSlash : text = [] → first ≠ .char '/') :
    ofText context first (text ++ mark :: tail) =
      stopped (ofText context first (text ++ more)) first text := by
  have starts : text ≠ [] → Text.startsWith ['<', '?'] (first :: (text ++ mark :: tail)) =
      Text.startsWith ['<', '?'] (first :: (text ++ more)) := by
    intro several
    exact Text.startsWith_rejoined ['<', '?'] (first :: text) more (mark :: tail)
      (Nat.succ_le_succ (List.length_pos_iff.mpr several))
  by_cases outside : (context.inHtml && !Text.startsWith ['<', '?'] (first :: (text ++ more))) = true
  · have cut : ofText context first (text ++ more) = ⟨.inlineHtml, 1 + Extent.html (text ++ more), by omega⟩ :=
      if_pos outside
    rw [cut] at ended ⊢
    obtain ⟨inside, seen⟩ := ended _ rfl
    simp only at inside seen
    have several : text ≠ [] := List.ne_nil_of_length_pos (by omega)
    have same := Extent.html_rejoined text more (mark :: tail) (by omega) (by
      intro tagged
      have two := seen (by rw [Nat.add_comm 1, List.drop_succ_cons]; exact tagged)
      omega)
    rw [stopped, if_neg (fun point => several point.1), ofText, starts several, if_pos outside]
    simp only [same]
  · have cut : ofText context first (text ++ more) = ofCode context.afterAccess first (text ++ more) := if_neg outside
    have still : ¬ (context.inHtml && !Text.startsWith ['<', '?'] (first :: (text ++ mark :: tail))) = true := by
      by_cases single : text = []
      · subst single
        intro html
        obtain ⟨inHtml, _⟩ := Bool.and_eq_true_iff.mp html
        have tagged : Text.startsWith ['<', '?'] (first :: more) = true := by
          simpa [inHtml] using outside
        obtain ⟨rest, same⟩ := (Text.startsWith_iff _ _).mp tagged
        obtain ⟨rfl, rfl⟩ := List.cons.inj same
        rw [cut] at short
        exact absurd short (Nat.not_le_of_lt (two_le_openingTag (.char '<' :: .char '?' :: rest)))
      · rw [starts single]
        exact outside
    rw [cut] at short ended ⊢
    rw [ofText, if_neg still]
    exact ofCode_rejoined stop context.afterAccess first text more tail held short
      (fun kind => ended ['?', '>'] (by rw [kind]; rfl)) noSlash

end Cut

theorem pieces_cons_rejoined (context : Context) (text more tail : Text) (piece next : TokenKind × Text)
    (others : List (TokenKind × Text)) (held : more ≠ []) (cut : pieces context (text ++ more) = piece :: next :: others)
    (inside : piece.2.length + next.2.length ≤ text.length) :
    ∃ rest, text = piece.2 ++ rest ∧ pieces (context.after piece.1) (rest ++ more) = next :: others ∧
      pieces context (text ++ mark :: tail) = piece :: pieces (context.after piece.1) (rest ++ mark :: tail) := by
  have owned := ne_nil_of_mem_pieces context (text ++ more) piece (by rw [cut]; exact List.mem_cons_self)
  cases text with
  | nil =>
    have positive := List.length_pos_iff.mpr owned
    rw [List.length_nil] at inside
    omega
  | cons first text =>
    obtain ⟨short, same, further, seen⟩ := cut_inside context first text more piece next others cut inside
    have several : text ≠ [] :=
      List.ne_nil_of_length_pos (Nat.lt_of_lt_of_le (Cut.ofText context first (text ++ more)).size_pos short)
    have kept := Cut.ofText_rejoined stop context first text more tail held (by omega)
      (fun tag behind => ⟨short, seen tag behind⟩) (fun single => absurd single several)
    rw [Cut.stopped, if_neg (fun point => several point.1)] at kept
    have fits : (Cut.ofText context first (text ++ more)).size ≤ (first :: text).length := Nat.le_succ_of_le short
    refine ⟨(first :: text).drop (Cut.ofText context first (text ++ more)).size, ?_, further, ?_⟩
    · rw [same, List.take_append_drop]
    · rw [List.cons_append, pieces_cons, kept, same, ← List.cons_append, Text.take_before mark _ (first :: text) tail fits,
        Text.drop_before mark _ (first :: text) tail fits]

/-- A full stop that was a number is none in front of a stop. -/
def stoppedPiece (piece : TokenKind × Text) : TokenKind × Text :=
  if piece = (.number, [.char '.']) then (.character, [.char '.']) else piece

theorem pieces_last_rejoined (context : Context) (more tail : Text) (last : TokenKind × Text)
    (rest : List (TokenKind × Text)) (held : more ≠ []) (cut : pieces context (last.2 ++ more) = last :: rest)
    (ended : Cut.tagBehind? last.1 = none) (noSlash : last.2 ≠ [.char '/']) :
    pieces context (last.2 ++ mark :: tail) =
      stoppedPiece last :: pieces (context.after last.1) (mark :: tail) := by
  have owned := ne_nil_of_mem_pieces context (last.2 ++ more) last (by rw [cut]; exact List.mem_cons_self)
  obtain ⟨kind, text⟩ := last
  obtain ⟨first, text, rfl⟩ := List.exists_cons_of_ne_nil owned
  rw [List.cons_append, pieces_cons] at cut
  obtain ⟨same, _⟩ := List.cons.inj cut
  obtain ⟨rfl, taken⟩ := Prod.mk.inj same
  have size : (Cut.ofText context first (text ++ more)).size = 1 + text.length := by
    have length := congrArg List.length taken
    have beyond := List.length_pos_iff.mpr held
    simp only [List.length_take, List.length_cons, List.length_append] at length
    omega
  have kept := Cut.ofText_rejoined stop context first text more tail held (Nat.le_of_eq size)
    (fun tag behind => absurd (ended.symm.trans behind) (Option.some_ne_none tag).symm) (by
      rintro rfl rfl
      exact noSlash rfl)
  rw [List.cons_append, pieces_cons, kept]
  by_cases point : text = [] ∧ (Cut.ofText context first (text ++ more)).kind = .number ∧ first = .char '.'
  · obtain ⟨rfl, number, rfl⟩ := point
    rw [Cut.stopped, if_pos ⟨rfl, number, rfl⟩, number]
    rfl
  · rw [Cut.stopped, if_neg point, size, Nat.add_comm 1, List.take_succ_cons, List.take_left, List.drop_succ_cons,
      List.drop_left, stoppedPiece, if_neg]
    intro same
    obtain ⟨number, single⟩ := Prod.mk.inj same
    obtain ⟨sign, alone⟩ := List.cons.inj single
    exact point ⟨alone, number, sign⟩

/-- The pieces in front of a place where two pieces met, with a stop put there instead of the second one. -/
theorem pieces_rejoined (context : Context) (more tail : Text) (front rest : List (TokenKind × Text))
    (last : TokenKind × Text) (held : more ≠ [])
    (cut : pieces context ((front ++ [last]).flatMap Prod.snd ++ more) = front ++ last :: rest)
    (ended : Cut.tagBehind? last.1 = none) (noSlash : last.2 ≠ [.char '/']) :
    pieces context ((front ++ [last]).flatMap Prod.snd ++ mark :: tail) =
      front ++ stoppedPiece last :: pieces (context.through (front ++ [last])) (mark :: tail) := by
  induction front generalizing context with
  | nil =>
    simp only [List.nil_append, List.flatMap_singleton] at cut ⊢
    exact pieces_last_rejoined stop context more tail last rest held cut ended noSlash
  | cons piece front ih =>
    obtain ⟨next, others, along⟩ : ∃ next others, front ++ last :: rest = next :: others ∧
        next.2.length ≤ ((front ++ [last]).flatMap Prod.snd).length := by
      cases front with
      | nil => exact ⟨last, rest, rfl, by simp⟩
      | cons next front => exact ⟨next, front ++ last :: rest, rfl, by simp⟩
    rw [List.cons_append, List.cons_append, along.1] at cut
    obtain ⟨remaining, parted, further, kept⟩ := pieces_cons_rejoined stop context _ more tail piece next others held cut
      (by
        rw [List.flatMap_cons, List.length_append]
        exact Nat.add_le_add_left along.2 _)
    rw [List.flatMap_cons, List.append_cancel_left_eq] at parted
    rw [← parted, ← along.1] at further
    rw [List.cons_append, kept, ← parted, ih _ further, List.cons_append, Context.through_cons]

end Stopped
end AccessChain
