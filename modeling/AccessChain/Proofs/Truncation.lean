import AccessChain.Proofs.Cutting
import AccessChain.Proofs.Lookahead

/-! Lexing a text that is cut short. A token is decided by itself and what stands directly behind it, so all
tokens of the whole text that end before the end of the part are tokens of the part, up to the last of them. -/
namespace AccessChain

namespace Text

theorem countWhile_truncated (test : Sym → Bool) (text more : Text)
    (short : countWhile test (text ++ more) ≤ text.length) :
    countWhile test (text ++ more) = countWhile test text := by
  rw [countWhile, List.takeWhile_append] at short
  rw [countWhile, List.takeWhile_append]
  split
  · next all =>
    rw [if_pos all, List.length_append] at short
    rw [List.length_append, countWhile, all]
    omega
  · rfl

theorem prefix_of_short (part rest text more : Text) (same : text ++ more = part ++ rest)
    (short : part.length ≤ text.length) : ∃ remaining, text = part ++ remaining := by
  obtain ⟨remaining, whole⟩ := List.prefix_of_prefix_length_le ⟨rest, same.symm⟩ (List.prefix_append text more) short
  exact ⟨remaining, whole.symm⟩

theorem startsWith_extended (characters : List Char) (text more : Text) (starts : startsWith characters text = true) :
    startsWith characters (text ++ more) = true := by
  obtain ⟨rest, same⟩ := List.isPrefixOf_iff_prefix.mp starts
  exact List.isPrefixOf_iff_prefix.mpr ⟨rest ++ more, by rw [← List.append_assoc, same]⟩

theorem startsWith_truncated (characters : List Char) (text more : Text) (seen : characters.length ≤ text.length) :
    startsWith characters (text ++ more) = startsWith characters text := by
  rw [Bool.eq_iff_iff]
  constructor
  · intro starts
    obtain ⟨rest, same⟩ := List.isPrefixOf_iff_prefix.mp starts
    obtain ⟨remaining, whole⟩ := prefix_of_short _ rest text more same.symm (by simpa [ofChars] using seen)
    exact List.isPrefixOf_iff_prefix.mpr ⟨remaining, whole.symm⟩
  · exact startsWith_extended characters text more

theorem head?_any_truncated (test : Sym → Bool) (text more : Text) (held : text ≠ []) :
    (text ++ more).head?.any test = text.head?.any test := by
  obtain ⟨symbol, rest, rfl⟩ := List.exists_cons_of_ne_nil held
  rfl

end Text

namespace Extent

theorem lineBreak_truncated (text more : Text) (short : lineBreak (text ++ more) ≤ text.length) :
    lineBreak (text ++ more) = lineBreak text := by
  by_cases both : Text.startsWith ['\r', '\n'] (text ++ more) = true
  · have two : 2 ≤ text.length := by simpa [lineBreak, both] using short
    rw [lineBreak, lineBreak, Text.startsWith_truncated ['\r', '\n'] text more two,
      Text.startsWith_truncated ['\n'] text more (Nat.le_of_succ_le two)]
  · have notBoth : ¬ Text.startsWith ['\r', '\n'] text = true :=
      fun starts => both (Text.startsWith_extended _ text more starts)
    by_cases feed : Text.startsWith ['\n'] (text ++ more) = true
    · have one : 1 ≤ text.length := by simpa [lineBreak, both, feed] using short
      rw [lineBreak, lineBreak, if_neg both, if_neg notBoth, Text.startsWith_truncated ['\n'] text more one]
    · have noFeed : ¬ Text.startsWith ['\n'] text = true :=
        fun starts => feed (Text.startsWith_extended _ text more starts)
      rw [lineBreak, lineBreak, if_neg both, if_neg notBoth, if_neg feed, if_neg noFeed]

/-- An extent that is found by a search for its end, symbol by symbol, if that end is in view. -/
theorem search_truncated (extent : Text → Nat) (ends : Text → Bool) (last : Nat)
    (step : ∀ symbol rest, extent (symbol :: rest) = if ends (symbol :: rest) then last else 1 + extent rest)
    (extended : ∀ text more, ends text = true → ends (text ++ more) = true) (text more : Text)
    (short : extent (text ++ more) < text.length)
    (seen : ∀ size, extent (text ++ more) = size + last → ends (text.drop size ++ more) = true →
      ends (text.drop size) = true) :
    extent (text ++ more) = extent text := by
  induction text with
  | nil => contradiction
  | cons symbol text ih =>
    have kept := extended (symbol :: text) more
    rw [List.cons_append] at short seen kept ⊢
    rw [step, step]
    by_cases ended : ends (symbol :: (text ++ more)) = true
    · rw [step, if_pos ended] at seen
      have here : ends (symbol :: text) = true := seen 0 (Nat.zero_add last).symm ended
      rw [if_pos ended, if_pos here]
    · rw [step, if_neg ended, List.length_cons] at short
      rw [if_neg ended, if_neg fun here => ended (kept here), ih (by omega)]
      intro size found
      have later := seen (size + 1)
      rw [step, if_neg ended, List.drop_succ_cons] at later
      exact later (by omega)

/-- Whether a line comment ends in front of a text. -/
def endsLine (text : Text) : Bool :=
  text.head?.any (·.satisfies ['\r', '\n'].contains) || Text.startsWith ['?', '>'] text

theorem endsLine_extended (text more : Text) (ends : endsLine text = true) : endsLine (text ++ more) = true := by
  rw [endsLine, Bool.or_eq_true] at ends ⊢
  rcases ends with breaks | closes
  · left
    cases text with
    | nil => contradiction
    | cons symbol text => exact breaks
  · exact Or.inr (Text.startsWith_extended _ text more closes)

theorem endsLine_seen (text more : Text) (short : lineComment (text ++ more) < text.length)
    (seen : Text.startsWith ['?', '>'] ((text ++ more).drop (lineComment (text ++ more))) = true →
      lineComment (text ++ more) + 2 ≤ text.length) (size : Nat) (found : lineComment (text ++ more) = size + 0)
    (ends : endsLine (text.drop size ++ more) = true) : endsLine (text.drop size) = true := by
  obtain rfl : lineComment (text ++ more) = size := found
  rw [List.drop_append_of_le_length (Nat.le_of_lt short)] at seen
  have held : text.drop (lineComment (text ++ more)) ≠ [] := by
    rw [Ne, List.drop_eq_nil_iff]
    omega
  rw [endsLine, Text.head?_any_truncated _ _ more held, Bool.or_eq_true] at ends
  rw [endsLine, Bool.or_eq_true]
  rcases ends with breaks | closes
  · exact Or.inl breaks
  · have two := seen closes
    rw [Text.startsWith_truncated _ _ _ (by rw [List.length_drop, List.length_cons, List.length_singleton]; omega)]
      at closes
    exact Or.inr closes

theorem lineComment_truncated (text more : Text) (short : lineComment (text ++ more) < text.length)
    (seen : Text.startsWith ['?', '>'] ((text ++ more).drop (lineComment (text ++ more))) = true →
      lineComment (text ++ more) + 2 ≤ text.length) :
    lineComment (text ++ more) = lineComment text :=
  search_truncated lineComment endsLine 0 (fun _ _ => rfl) endsLine_extended text more short
    (endsLine_seen text more short seen)

theorem blockComment_truncated (text more : Text) (short : blockComment (text ++ more) < text.length) :
    blockComment (text ++ more) = blockComment text := by
  apply search_truncated blockComment (Text.startsWith ['*', '/']) 2 (fun _ _ => rfl)
    (Text.startsWith_extended ['*', '/']) text more short
  intro size found starts
  rwa [Text.startsWith_truncated] at starts
  rw [List.length_drop, List.length_cons, List.length_singleton]
  omega

theorem html_seen (text more : Text) (short : html (text ++ more) < text.length)
    (seen : Text.startsWith ['<', '?'] ((text ++ more).drop (html (text ++ more))) = true →
      html (text ++ more) + 2 ≤ text.length) (size : Nat) (found : html (text ++ more) = size + 0)
    (starts : Text.startsWith ['<', '?'] (text.drop size ++ more) = true) :
    Text.startsWith ['<', '?'] (text.drop size) = true := by
  obtain rfl : html (text ++ more) = size := found
  rw [List.drop_append_of_le_length (Nat.le_of_lt short)] at seen
  have two := seen starts
  rwa [Text.startsWith_truncated] at starts
  rw [List.length_drop, List.length_cons, List.length_singleton]
  omega

theorem html_truncated (text more : Text) (short : html (text ++ more) < text.length)
    (seen : Text.startsWith ['<', '?'] ((text ++ more).drop (html (text ++ more))) = true →
      html (text ++ more) + 2 ≤ text.length) : html (text ++ more) = html text :=
  search_truncated html (Text.startsWith ['<', '?']) 0 (fun _ _ => rfl)
    (Text.startsWith_extended ['<', '?']) text more short (html_seen text more short seen)

theorem quoted_truncated (quote : Sym) (text more : Text) (short : quoted quote (text ++ more) < text.length) :
    quoted quote (text ++ more) = quoted quote text := by
  fun_induction quoted quote text with
  | case1 => contradiction
  | case2 symbol =>
    cases more with
    | nil => rfl
    | cons next more =>
      simp only [List.singleton_append, quoted, List.length_singleton] at short
      split at short
      · omega
      · split at short <;> omega
  | case3 next rest ih =>
    simp only [List.cons_append, List.length_cons, quoted, if_true] at short ⊢
    rw [ih (by omega)]
  | case4 next rest escape => simp [quoted, escape]
  | case5 symbol next rest escape last ih =>
    simp only [List.cons_append, List.length_cons, quoted, escape, last, if_false] at ih short ⊢
    rw [ih (by omega)]

end Extent

namespace Heredoc

theorem opening?_truncated (text more : Text) (opening : Opening) (found : opening? (text ++ more) = some opening)
    (inside : opening.size ≤ text.length) : opening? text = some opening := by
  obtain ⟨line, rest, same, rfl⟩ := (opening?_eq_some_iff _ _).mp found
  obtain ⟨remaining, whole⟩ := Text.prefix_of_short line.text rest text more same inside
  exact (opening?_eq_some_iff _ _).mpr ⟨line, remaining, whole, rfl⟩

theorem body_plain (label text more : Text) (plain : .char '\n' ∉ text) :
    body label false (text ++ more) = text.length + body label false more := by
  induction text with
  | nil => exact (Nat.zero_add _).symm
  | cons symbol text ih =>
    rw [List.mem_cons, not_or] at plain
    obtain ⟨other, rest⟩ := plain
    have later : (symbol == .char '\n') = false := beq_false_of_ne (Ne.symm other)
    rw [List.cons_append, body, List.length_cons]
    simp only [Bool.false_eq_true, if_false, later]
    have := ih rest
    omega

section Labelled
variable (label : Text) (labelled : label ≠ []) (wordy : ∀ symbol ∈ label, symbol.isWord = true)
include labelled wordy

theorem closing?_truncated (text more : Text) (size : Nat) (found : closing? label (text ++ more) = some size)
    (short : size < text.length) : closing? label text = some size := by
  obtain ⟨indent, rest, same, indented, ends, rfl⟩ := (closing?_eq_some_iff label _ _ labelled wordy).mp found
  rw [← List.append_assoc] at same
  obtain ⟨remaining, rfl⟩ := Text.prefix_of_short (indent ++ label) rest text more same (by
    rw [List.length_append]
    omega)
  rw [List.append_assoc, List.append_cancel_left_eq] at same
  refine (closing?_eq_some_iff label _ _ labelled wordy).mpr ⟨indent, remaining, List.append_assoc .., indented, ?_, rfl⟩
  rwa [← same, Text.head?_any_truncated] at ends
  rintro rfl
  simp at short

/-- A label that is taken for the closing one only because the text ends there. -/
theorem closing?_lost (text more : Text) (size : Nat) (found : closing? label text = some size)
    (missing : closing? label (text ++ more) = none) : .char '\n' ∉ text := by
  obtain ⟨indent, rest, rfl, indented, ends, rfl⟩ := (closing?_eq_some_iff label _ _ labelled wordy).mp found
  have nothing : rest = [] := by
    apply Classical.byContradiction
    intro held
    have still := (closing?_eq_some_iff label (indent ++ (label ++ rest) ++ more) _ labelled wordy).mpr
      ⟨indent, rest ++ more, by simp, indented, (Text.head?_any_truncated _ rest more held).trans ends, rfl⟩
    rw [missing] at still
    contradiction
  subst nothing
  intro member
  rw [List.append_nil] at member
  rcases List.mem_append.mp member with blank | word
  · exact absurd (indented _ blank) (by decide)
  · exact (apart_of_isWord _ (wordy _ word)).2.2 rfl

theorem body_truncated (atLineStart : Bool) (text more : Text)
    (short : body label atLineStart (text ++ more) < text.length) :
    body label atLineStart (text ++ more) = body label atLineStart text := by
  induction text generalizing atLineStart with
  | nil => contradiction
  | cons symbol text ih =>
    rw [List.cons_append, body] at short ⊢
    rw [body]
    cases here : (if atLineStart then closing? label (symbol :: (text ++ more)) else none) with
    | some size =>
      rw [here] at short
      have same : (if atLineStart then closing? label (symbol :: text) else none) = some size := by
        split at here
        · next starts => exact (if_pos starts).trans (closing?_truncated label labelled wordy _ more size here short)
        · contradiction
      rw [same]
    | none =>
      rw [here] at short
      simp only [List.length_cons] at short ⊢
      cases there : (if atLineStart then closing? label (symbol :: text) else none) with
      | none => rw [ih _ (by omega)]
      | some size =>
        -- The label that closes the part early reaches up to its end, so the heredoc goes on behind it.
        split at there
        · next starts =>
          rw [if_pos starts] at here
          have plain := closing?_lost label labelled wordy _ more size there here
          rw [List.mem_cons, not_or] at plain
          have far := body_plain label text more plain.2
          rw [beq_false_of_ne (Ne.symm plain.1)] at short
          omega
        · contradiction

end Labelled

theorem extent?_truncated (text more : Text) (size : Nat) (found : extent? (text ++ more) = some size)
    (short : size < text.length) : extent? text = some size := by
  obtain ⟨opening, opened, rfl⟩ := Option.map_eq_some_iff.mp found
  have opened' := opening?_truncated text more opening opened (by omega)
  obtain ⟨inside, labelled, wordy⟩ := label_of_opening? text opening opened'
  rw [List.drop_append_of_le_length inside] at short ⊢
  rw [extent?, opened', Option.map_some, body_truncated opening.label labelled wordy]
  rw [List.length_drop]
  omega

theorem extent?_lost (text more : Text) (missing : extent? (text ++ more) = none) : extent? text = none := by
  rw [extent?, Option.map_eq_none_iff, Option.eq_none_iff_forall_ne_some] at missing ⊢
  exact fun opening found => missing opening (opening?_extended text more opening found)

end Heredoc

namespace Cut

theorem operator_truncated (first : Sym) (text more : Text)
    (inside : (operator first (text ++ more)).size ≤ 1 + text.length) :
    operator first (text ++ more) = operator first text := by
  have extended : ∀ row : Char × List Char × TokenKind,
      (first == .char row.1 && Text.startsWith row.2.1 text) = true →
        (first == .char row.1 && Text.startsWith row.2.1 (text ++ more)) = true := by
    intro row matched
    rw [Bool.and_eq_true] at matched ⊢
    exact ⟨matched.1, Text.startsWith_extended _ text more matched.2⟩
  unfold operator at inside ⊢
  cases found : operators.find? fun row => first == .char row.1 && Text.startsWith row.2.1 (text ++ more) with
  | none =>
    have missing : (operators.find? fun row => first == .char row.1 && Text.startsWith row.2.1 text) = none := by
      rw [List.find?_eq_none] at found ⊢
      exact fun row listed matched => found row listed (extended row matched)
    rw [missing]
  | some row =>
    rw [found] at inside
    have same : (operators.find? fun row => first == .char row.1 && Text.startsWith row.2.1 text) = some row := by
      rw [List.find?_eq_some_iff_append] at found ⊢
      obtain ⟨matched, before, after, listed, others⟩ := found
      refine ⟨?_, before, after, listed, ?_⟩
      · rwa [Text.startsWith_truncated row.2.1 text more (Nat.le_of_add_le_add_left inside)] at matched
      · intro other earlier
        have rejected := others other earlier
        rw [Bool.not_eq_true'] at rejected ⊢
        exact Bool.eq_false_iff.mpr fun matched => Bool.eq_false_iff.mp rejected (extended other matched)
    rw [same]

theorem openingTag_truncated (text more : Text) (inside : (openingTag (text ++ more)).size ≤ text.length) :
    openingTag (text ++ more) = openingTag text := by
  by_cases echo : Text.startsWith ['<', '?', '='] (text ++ more) = true
  · have three : 3 ≤ text.length := by simpa [openingTag, echo] using inside
    rw [openingTag, if_pos echo]
    rw [Text.startsWith_truncated ['<', '?', '='] text more three] at echo
    rw [openingTag, if_pos echo]
  · have noEcho : ¬ Text.startsWith ['<', '?', '='] text = true :=
      fun starts => echo (Text.startsWith_extended _ text more starts)
    have taken : 5 ≤ text.length → (text ++ more).take 5 = text.take 5 := List.take_append_of_le_length
    by_cases long : ((text ++ more).take 5).mapM lowered? = some ['<', '?', 'p', 'h', 'p']
    · have five : 5 ≤ text.length := by simpa [openingTag, echo, long] using inside
      rw [openingTag, if_neg echo, if_pos long]
      rw [taken five] at long
      rw [openingTag, if_neg noEcho, if_pos long]
    · have notLong : (text.take 5).mapM lowered? ≠ some ['<', '?', 'p', 'h', 'p'] := by
        intro lowered
        have five := length_of_mapM_lowered? _ _ lowered
        rw [List.length_take, List.length_cons] at five
        rw [taken (by simp at five; omega)] at long
        exact long lowered
      rw [openingTag, if_neg echo, if_neg long, openingTag, if_neg noEcho, if_neg notLong]

/-- The tag that a token of some kind ends in front of, if it does not end with a symbol of its own. -/
def tagBehind? : TokenKind → Option (List Char)
  | .lineComment => some ['?', '>']
  | .inlineHtml => some ['<', '?']
  | _ => none

theorem tag_of_tagBehind? (kind : TokenKind) (tag : List Char) (behind : tagBehind? kind = some tag) :
    tag = ['?', '>'] ∨ tag = ['<', '?'] := by
  cases kind with
  | lineComment => exact .inl (Option.some.inj behind).symm
  | inlineHtml => exact .inr (Option.some.inj behind).symm
  | _ => contradiction

theorem heredoc_truncated (first : Sym) (text more : Text)
    (inside : ∀ size, (if Text.startsWith ['<', '<', '<'] (first :: (text ++ more)) then
      Heredoc.extent? ((text ++ more).drop 2) else none) = some size → 3 + size ≤ text.length) :
    (if Text.startsWith ['<', '<', '<'] (first :: (text ++ more)) then
      Heredoc.extent? ((text ++ more).drop 2) else none) =
    if Text.startsWith ['<', '<', '<'] (first :: text) then Heredoc.extent? (text.drop 2) else none := by
  have starts := Text.startsWith_truncated ['<', '<', '<'] (first :: text) more
  have behind : 2 ≤ text.length → (text ++ more).drop 2 = text.drop 2 ++ more := List.drop_append_of_le_length
  cases found : (if Text.startsWith ['<', '<', '<'] (first :: (text ++ more)) then
      Heredoc.extent? ((text ++ more).drop 2) else none) with
  | some size =>
    have long := inside size found
    rw [← List.cons_append, starts (by simp; omega), behind (by omega)] at found
    split at found
    · next opens =>
      rw [if_pos opens, Heredoc.extent?_truncated _ more size found (by rw [List.length_drop]; omega)]
    · contradiction
  | none =>
    split
    · next opens =>
      have long := (List.isPrefixOf_iff_prefix.mp opens).length_le
      simp only [Text.ofChars, List.length_map, List.length_cons, List.length_nil] at long
      have still : Text.startsWith ['<', '<', '<'] (first :: (text ++ more)) = true :=
        Text.startsWith_extended _ (first :: text) more opens
      rw [if_pos still, behind (by omega)] at found
      rw [Heredoc.extent?_lost _ more found]
    · rfl

theorem ofCode_truncated (afterAccess : Bool) (first : Sym) (text more : Text)
    (short : (ofCode afterAccess first (text ++ more)).size ≤ text.length)
    (seen : ∀ tag, tagBehind? (ofCode afterAccess first (text ++ more)).kind = some tag →
      Text.startsWith tag ((first :: (text ++ more)).drop (ofCode afterAccess first (text ++ more)).size) = true →
      (ofCode afterAccess first (text ++ more)).size + 1 ≤ text.length) :
    ofCode afterAccess first (text ++ more) = ofCode afterAccess first text := by
  have long := Nat.lt_of_lt_of_le (ofCode afterAccess first (text ++ more)).size_pos short
  have held : text ≠ [] := List.ne_nil_of_length_pos long
  have starts := fun wanted => Text.startsWith_truncated wanted (first :: text) more
  have two : 2 ≤ (first :: text).length := Nat.succ_le_succ long
  have heads := fun test => Text.head?_any_truncated test text more held
  have behind : (text ++ more).drop 1 = text.drop 1 ++ more := List.drop_append_of_le_length long
  simp only [List.cons_append] at starts
  revert short seen
  simp only [ofCode, starts ['<', '?'] two, starts ['?', '>'] two, starts ['/', '/'] two, starts ['/', '*'] two, heads]
  -- The tests of two symbols give the same answers, so the extents are left to compare, and heredocs.
  by_cases blank : first.satisfies Text.isCodeBlank = true
  · simp only [blank, if_true]
    intro short _
    have same := Text.countWhile_truncated (·.satisfies Text.isCodeBlank) text more (by
      simp only [Extent.blanks] at short
      omega)
    simp only [Extent.blanks, same]
  simp only [blank, Bool.false_eq_true, if_false]
  by_cases opens : Text.startsWith ['<', '?'] (first :: text) = true
  · simp only [opens, if_true]
    intro short _
    exact openingTag_truncated (first :: text) more (Nat.le_succ_of_le short)
  simp only [opens, Bool.false_eq_true, if_false]
  by_cases closes : Text.startsWith ['?', '>'] (first :: text) = true
  · simp only [closes, if_true]
    intro short _
    rw [behind] at short
    have same := Extent.lineBreak_truncated (text.drop 1) more (by rw [List.length_drop]; omega)
    simp only [behind, same]
  simp only [closes, Bool.false_eq_true, if_false]
  by_cases line : (first = .char '#' || Text.startsWith ['/', '/'] (first :: text)) = true
  · simp only [line, if_true]
    intro short seen
    have same := Extent.lineComment_truncated text more (by omega) (by
      intro starts
      have two := seen _ rfl (by rw [Nat.add_comm 1, List.drop_succ_cons]; exact starts)
      omega)
    simp only [same]
  simp only [line, Bool.false_eq_true, if_false]
  by_cases block : Text.startsWith ['/', '*'] (first :: text) = true
  · simp only [block, if_true]
    intro short _
    rw [behind] at short
    have same := Extent.blockComment_truncated (text.drop 1) more (by rw [List.length_drop]; omega)
    simp only [behind, same]
  simp only [block, Bool.false_eq_true, if_false]
  by_cases variable_ : (first = .char '$' && text.head?.any Extent.isNameStart) = true
  · simp only [variable_, if_true]
    intro short _
    have same := Text.countWhile_truncated Extent.isNameChar text more (by
      simp only [Extent.name] at short
      omega)
    simp only [Extent.name, same]
  simp only [variable_, Bool.false_eq_true, if_false]
  by_cases quote : Extent.isQuote first = true
  · simp only [quote, if_true]
    intro short _
    have same := Extent.quoted_truncated first text more (by omega)
    simp only [same]
  simp only [quote, Bool.false_eq_true, if_false]
  intro short _
  have same := heredoc_truncated first text more (by
    intro size found
    rw [found] at short
    exact short)
  rw [same] at short ⊢
  split
  · rfl
  · next absent =>
    rw [absent] at short
    simp only at short
    by_cases name : Extent.isNameStart first = true
    · simp only [name, if_true] at short ⊢
      have size : Extent.name (text ++ more) = Extent.name text :=
        Text.countWhile_truncated Extent.isNameChar text more (by
          simp only [Extent.name] at short
          omega)
      rw [size] at short
      simp only [size, List.take_append_of_le_length (show Extent.name text ≤ text.length by omega)]
    simp only [name, Bool.false_eq_true, if_false] at short ⊢
    by_cases number : (first.satisfies Char.isDigit ||
        first = .char '.' && text.head?.any (·.satisfies Text.isDigit)) = true
    · simp only [number, if_true] at short ⊢
      have same := Text.countWhile_truncated Extent.isNumberChar text more (by
        simp only [Extent.number] at short
        omega)
      simp only [Extent.number, same]
    simp only [number, Bool.false_eq_true, if_false] at short ⊢
    by_cases slash : first = .char '\\'
    · rw [if_pos slash, if_pos slash]
    rw [if_neg slash] at short
    rw [if_neg slash, if_neg slash]
    exact operator_truncated first text more (by omega)

theorem ofText_truncated (context : Context) (first : Sym) (text more : Text)
    (short : (ofText context first (text ++ more)).size ≤ text.length)
    (seen : ∀ tag, tagBehind? (ofText context first (text ++ more)).kind = some tag →
      Text.startsWith tag ((first :: (text ++ more)).drop (ofText context first (text ++ more)).size) = true →
      (ofText context first (text ++ more)).size + 1 ≤ text.length) :
    ofText context first (text ++ more) = ofText context first text := by
  have long := Nat.lt_of_lt_of_le (ofText context first (text ++ more)).size_pos short
  have starts : Text.startsWith ['<', '?'] (first :: (text ++ more)) = Text.startsWith ['<', '?'] (first :: text) :=
    Text.startsWith_truncated ['<', '?'] (first :: text) more (Nat.succ_le_succ long)
  revert short seen
  simp only [ofText, starts]
  by_cases outside : (context.inHtml && !Text.startsWith ['<', '?'] (first :: text)) = true
  · simp only [outside, if_true]
    intro short seen
    have same := Extent.html_truncated text more (by omega) (by
      intro starts
      have two := seen _ rfl (by rw [Nat.add_comm 1, List.drop_succ_cons]; exact starts)
      omega)
    simp only [same]
  · simp only [outside, Bool.false_eq_true, if_false]
    exact ofCode_truncated context.afterAccess first text more

theorem two_le_openingTag (text : Text) : 2 ≤ (openingTag text).size := by
  unfold openingTag
  split
  · exact Nat.le_succ 2
  · split <;> simp

end Cut

theorem long_of_tag (context : Context) (text : Text) (next : TokenKind × Text) (others : List (TokenKind × Text))
    (cut : pieces context text = next :: others)
    (tagged : Text.startsWith ['<', '?'] text = true ∨ context.inHtml = false ∧ Text.startsWith ['?', '>'] text = true) :
    2 ≤ next.2.length := by
  rcases tagged with opens | ⟨inCode, closes⟩
  · obtain ⟨rest, rfl⟩ := (Text.startsWith_iff _ _).mp opens
    change pieces context (.char '<' :: .char '?' :: rest) = _ at cut
    have tag : Cut.ofText context (.char '<') (.char '?' :: rest) = Cut.openingTag (.char '<' :: .char '?' :: rest) := by
      obtain ⟨inHtml, afterAccess⟩ := context
      cases inHtml <;> rfl
    rw [pieces_cons, tag] at cut
    rw [← (List.cons.inj cut).1, List.length_take, List.length_cons, List.length_cons]
    have long := Cut.two_le_openingTag (.char '<' :: .char '?' :: rest)
    omega
  · obtain ⟨rest, rfl⟩ := (Text.startsWith_iff _ _).mp closes
    change pieces context (.char '?' :: .char '>' :: rest) = _ at cut
    have tag : (Cut.ofText context (.char '?') (.char '>' :: rest)).size = 2 + Extent.lineBreak rest := by
      obtain ⟨inHtml, afterAccess⟩ := context
      obtain rfl : inHtml = false := inCode
      rfl
    rw [pieces_cons, tag] at cut
    rw [← (List.cons.inj cut).1, List.length_take, List.length_cons, List.length_cons]
    omega

theorem tagged_behind (context : Context) (kind : TokenKind) (tag : List Char) (text : Text)
    (behind : Cut.tagBehind? kind = some tag) (starts : Text.startsWith tag text = true) :
    Text.startsWith ['<', '?'] text = true ∨
      (context.after kind).inHtml = false ∧ Text.startsWith ['?', '>'] text = true := by
  cases kind with
  | lineComment =>
    obtain rfl := Option.some.inj behind
    exact Or.inr ⟨rfl, starts⟩
  | inlineHtml =>
    obtain rfl := Option.some.inj behind
    exact Or.inl starts
  | _ => contradiction

/-- A first piece that ends in front of another one within the part is cut off within the part. -/
theorem cut_inside (context : Context) (first : Sym) (text more : Text) (piece next : TokenKind × Text)
    (others : List (TokenKind × Text)) (cut : pieces context (first :: (text ++ more)) = piece :: next :: others)
    (inside : piece.2.length + next.2.length ≤ (first :: text).length) :
    (Cut.ofText context first (text ++ more)).size ≤ text.length ∧
      piece = ((Cut.ofText context first (text ++ more)).kind,
        (first :: text).take (Cut.ofText context first (text ++ more)).size) ∧
      pieces (context.after piece.1) ((first :: text).drop (Cut.ofText context first (text ++ more)).size ++ more) =
        next :: others ∧
      ∀ tag, Cut.tagBehind? (Cut.ofText context first (text ++ more)).kind = some tag →
        Text.startsWith tag ((first :: (text ++ more)).drop (Cut.ofText context first (text ++ more)).size) = true →
        (Cut.ofText context first (text ++ more)).size + 1 ≤ text.length := by
  have held := ne_nil_of_mem_pieces context (first :: (text ++ more))
  rw [cut] at held
  have another := List.length_pos_iff.mpr (held next (List.mem_cons_of_mem _ List.mem_cons_self))
  rw [pieces_cons] at cut
  obtain ⟨rfl, tail⟩ := List.cons.inj cut
  have left : (Cut.ofText context first (text ++ more)).size < (first :: (text ++ more)).length := by
    apply Nat.lt_of_not_le
    intro whole
    rw [List.drop_eq_nil_of_le whole, pieces_nil] at tail
    contradiction
  rw [List.length_take, Nat.min_eq_left (Nat.le_of_lt left), List.length_cons] at inside
  have fits : (Cut.ofText context first (text ++ more)).size ≤ (first :: text).length := by
    rw [List.length_cons]
    omega
  have taken : (first :: (text ++ more)).take (Cut.ofText context first (text ++ more)).size =
      (first :: text).take (Cut.ofText context first (text ++ more)).size := List.take_append_of_le_length fits
  refine ⟨by omega, by rw [taken], ?_, ?_⟩
  · rw [← List.drop_append_of_le_length fits]
    exact tail
  · intro tag behind starts
    have long := long_of_tag _ _ next others tail (tagged_behind context _ tag _ behind starts)
    omega

theorem pieces_cons_truncated (context : Context) (text more : Text) (piece next : TokenKind × Text)
    (others : List (TokenKind × Text)) (cut : pieces context (text ++ more) = piece :: next :: others)
    (inside : piece.2.length + next.2.length ≤ text.length) :
    ∃ rest, text = piece.2 ++ rest ∧ pieces (context.after piece.1) (rest ++ more) = next :: others ∧
      pieces context text = piece :: pieces (context.after piece.1) rest := by
  have held := ne_nil_of_mem_pieces context (text ++ more) piece (by rw [cut]; exact List.mem_cons_self)
  cases text with
  | nil =>
    have positive := List.length_pos_iff.mpr held
    rw [List.length_nil] at inside
    omega
  | cons first text =>
    obtain ⟨short, same, tail, seen⟩ := cut_inside context first text more piece next others cut inside
    have kept := Cut.ofText_truncated context first text more short seen
    refine ⟨(first :: text).drop (Cut.ofText context first (text ++ more)).size, ?_, tail, ?_⟩
    · rw [same, List.take_append_drop]
    · rw [pieces_cons, ← kept, same]

theorem pieces_truncated (context : Context) (text more : Text) (before after : List (TokenKind × Text))
    (last : TokenKind × Text) (cut : pieces context (text ++ more) = before ++ last :: after)
    (inside : ((before ++ [last]).flatMap Prod.snd).length ≤ text.length) :
    ∃ rest, pieces context text = before ++ rest := by
  -- By induction on the pieces: behind each of them stands another one that ends within the part.
  induction before generalizing context text with
  | nil => exact ⟨_, rfl⟩
  | cons piece before ih =>
    obtain ⟨next, others, behind, short⟩ : ∃ next others, before ++ last :: after = next :: others ∧
        next.2.length ≤ ((before ++ [last]).flatMap Prod.snd).length := by
      cases before with
      | nil => exact ⟨last, after, rfl, by simp⟩
      | cons next before => exact ⟨next, before ++ last :: after, rfl, by simp⟩
    rw [List.cons_append, List.flatMap_cons, List.length_append] at inside
    rw [List.cons_append, behind] at cut
    obtain ⟨rest, rfl, tail, head⟩ := pieces_cons_truncated context text more piece next others cut (by omega)
    rw [← behind] at tail
    rw [List.length_append] at inside
    obtain ⟨remaining, same⟩ := ih (context.after piece.1) rest tail (by omega)
    exact ⟨remaining, by rw [head, same, List.cons_append]⟩

section Marked
variable (mark : Sym) (untagged : mark ∉ Text.ofChars ['?', '<'])
include untagged

/-- A first piece that ends in front of a mark is cut off with nothing but the mark in view behind it. -/
theorem cut_before_mark (context : Context) (first : Sym) (text more : Text) (piece : TokenKind × Text)
    (rest : List (TokenKind × Text)) (cut : pieces context (first :: (text ++ mark :: more)) = piece :: rest)
    (inside : piece.2.length ≤ (first :: text).length) :
    piece = ((Cut.ofText context first (text ++ [mark])).kind,
      (first :: text).take (Cut.ofText context first (text ++ [mark])).size) := by
  have view : text ++ mark :: more = text ++ [mark] ++ more := List.append_cons text mark more
  rw [pieces_cons] at cut
  obtain ⟨rfl, _⟩ := List.cons.inj cut
  have short : (Cut.ofText context first (text ++ mark :: more)).size ≤ (first :: text).length := by
    simp only [List.length_take, List.length_cons, List.length_append] at inside ⊢
    omega
  have taken : (first :: (text ++ mark :: more)).take (Cut.ofText context first (text ++ mark :: more)).size =
      (first :: text).take (Cut.ofText context first (text ++ mark :: more)).size :=
    Text.take_before mark _ (first :: text) more short
  have seen : ∀ tag, Cut.tagBehind? (Cut.ofText context first (text ++ mark :: more)).kind = some tag →
      Text.startsWith tag ((first :: (text ++ mark :: more)).drop
        (Cut.ofText context first (text ++ mark :: more)).size) = true →
      (Cut.ofText context first (text ++ mark :: more)).size + 1 ≤ (text ++ [mark]).length := by
    intro tag behind starts
    rcases Nat.lt_or_eq_of_le short with further | whole
    · simp only [List.length_append, List.length_cons, List.length_nil] at further ⊢
      omega
    · have tail : (first :: text ++ mark :: more).drop (first :: text).length = mark :: more := List.drop_left
      rw [List.cons_append] at tail
      rw [whole, tail] at starts
      obtain ⟨rest, same⟩ := (Text.startsWith_iff _ _).mp starts
      rcases Cut.tag_of_tagBehind? _ tag behind with rfl | rfl
      · exact absurd (by simp [Text.ofChars, (List.cons.inj same).1]) untagged
      · exact absurd (by simp [Text.ofChars, (List.cons.inj same).1]) untagged
  rw [taken]
  rw [view] at short seen ⊢
  rw [Cut.ofText_truncated context first (text ++ [mark]) more (by simpa using short) seen]

/-- Where tokens end in front of a mark, they are the same whatever follows the mark. -/
theorem pieces_before_mark (context : Context) (more other : Text) (front others rest behind : List (TokenKind × Text))
    (cut : pieces context (front.flatMap Prod.snd ++ mark :: more) = front ++ rest)
    (again : pieces context (others.flatMap Prod.snd ++ mark :: other) = others ++ behind)
    (same : front.flatMap Prod.snd = others.flatMap Prod.snd) : front = others := by
  have owned := ne_nil_of_mem_pieces context (front.flatMap Prod.snd ++ mark :: more)
  have ownedAgain := ne_nil_of_mem_pieces context (others.flatMap Prod.snd ++ mark :: other)
  rw [cut] at owned
  rw [again] at ownedAgain
  induction front generalizing context others with
  | nil =>
    cases others with
    | nil => rfl
    | cons piece others =>
      rw [List.flatMap_nil, List.flatMap_cons, eq_comm, List.append_eq_nil_iff] at same
      exact absurd same.1 (ownedAgain piece (by simp))
  | cons piece front ih =>
    have held := owned piece (by simp)
    cases others with
    | nil =>
      rw [List.flatMap_nil, List.flatMap_cons, List.append_eq_nil_iff] at same
      exact absurd same.1 held
    | cons next others =>
      obtain ⟨first, whole, text⟩ : ∃ first whole, (piece :: front).flatMap Prod.snd = first :: whole :=
        List.exists_cons_of_ne_nil fun vacant => held (List.append_eq_nil_iff.mp vacant).1
      have within : ∀ {part : TokenKind × Text} {parts : List (TokenKind × Text)},
          (part :: parts).flatMap Prod.snd = first :: whole → part.2.length ≤ (first :: whole).length := by
        intro part parts text
        rw [← text, List.flatMap_cons, List.length_append]
        exact Nat.le_add_right _ _
      have textAgain := same.symm.trans text
      have one := cut_before_mark mark untagged context first whole more piece _
        (by rw [← List.cons_append, ← text]; exact cut) (within text)
      have another := cut_before_mark mark untagged context first whole other next _
        (by rw [← List.cons_append, ← textAgain]; exact again) (within textAgain)
      obtain rfl := one.trans another.symm
      rw [List.flatMap_cons, List.append_assoc] at cut again
      have further := pieces_behind context piece.2 _ [piece] (front ++ rest) cut (List.flatMap_singleton ..)
      have furtherAgain := pieces_behind context piece.2 _ [piece] (others ++ behind) again (List.flatMap_singleton ..)
      rw [ih _ others further furtherAgain (List.append_cancel_left same)
        (fun piece member => owned piece (List.mem_cons_of_mem _ member))
        (fun piece member => ownedAgain piece (List.mem_cons_of_mem _ member))]

end Marked

theorem Token.laidOut_append (offset : Nat) (left right : List (TokenKind × Text)) :
    laidOut offset (left ++ right) =
      laidOut offset left ++ laidOut (offset + Text.byteLength (left.flatMap Prod.snd)) right := by
  induction left generalizing offset with
  | nil => rfl
  | cons head left ih => simp [laidOut, ih, Nat.add_assoc]

/-- Tokens do not depend on what follows the next one: all tokens of a source in front of one that ends within
its first characters are the first tokens of those characters alone. -/
theorem tokenize_truncated (source : Text) (count : Nat) (before after : List Token) (last : Token)
    (cut : tokenize source = before ++ last :: after)
    (inside : ((before ++ [last]).flatMap Token.text).length ≤ count) :
    before <+: tokenize (source.take count) := by
  have parted : pieces Context.start source = before.map Token.piece ++ last.piece :: after.map Token.piece := by
    rw [pieces, ← tokenize, cut, List.map_append, List.map_cons]
  have texts : (before.map Token.piece ++ [last.piece]).flatMap Prod.snd = (before ++ [last]).flatMap Token.text := by
    rw [← List.map_singleton, ← List.map_append, List.flatMap_map]
    rfl
  have whole : ((before ++ [last]).flatMap Token.text).length ≤ source.length := by
    have all := congrArg List.length (flatMap_text_tokenize source)
    rw [cut, ← List.singleton_append, ← List.append_assoc, List.flatMap_append, List.length_append] at all
    omega
  rw [← List.take_append_drop count source] at parted
  obtain ⟨rest, same⟩ := pieces_truncated Context.start _ _ _ _ _ parted (by
    rw [texts, List.length_take]
    exact Nat.le_min.mpr ⟨inside, whole⟩)
  have front : Token.laidOut 0 (before.map Token.piece) = before := by
    have layout := tokensFrom_eq_laidOut Context.start 0 source
    rw [List.take_append_drop] at parted
    rw [← tokenize, cut, parted, Token.laidOut_append] at layout
    have size := congrArg List.length (Token.map_piece_laidOut 0 (before.map Token.piece))
    rw [List.length_map, List.length_map] at size
    exact (List.append_inj_left layout size.symm).symm
  rw [tokenize, tokensFrom_eq_laidOut, same, Token.laidOut_append, front]
  exact List.prefix_append _ _

/-- A comment that ends in front of a closing tag, which is the last token before the cut. -/
theorem tokenize_truncated_behind_tag :
    tokenize (Text.ofString "$a//b?>c<?d") =
      [⟨.varName, Text.ofString "$a", 0⟩, ⟨.lineComment, Text.ofString "//b", 2⟩] ++
        ⟨.closeTag, Text.ofString "?>", 5⟩ :: [⟨.inlineHtml, Text.ofString "c", 7⟩,
          ⟨.openTag, Text.ofString "<?", 8⟩, ⟨.identifier, Text.ofString "d", 10⟩] ∧
      (([⟨.varName, Text.ofString "$a", 0⟩, ⟨.lineComment, Text.ofString "//b", 2⟩] ++
        [⟨.closeTag, Text.ofString "?>", 5⟩] : List Token).flatMap Token.text).length ≤ 7 ∧
      ([⟨.varName, Text.ofString "$a", 0⟩, ⟨.lineComment, Text.ofString "//b", 2⟩] : List Token) <+:
        tokenize ((Text.ofString "$a//b?>c<?d").take 7) := by
  have cut : tokenize (Text.ofString "$a//b?>c<?d") =
      [⟨.varName, Text.ofString "$a", 0⟩, ⟨.lineComment, Text.ofString "//b", 2⟩] ++
        ⟨.closeTag, Text.ofString "?>", 5⟩ :: [⟨.inlineHtml, Text.ofString "c", 7⟩,
          ⟨.openTag, Text.ofString "<?", 8⟩, ⟨.identifier, Text.ofString "d", 10⟩] := by decide +kernel
  exact ⟨cut, by decide, tokenize_truncated _ 7 _ _ _ cut (by decide)⟩

end AccessChain
