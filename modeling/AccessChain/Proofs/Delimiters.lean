import AccessChain.Proofs.Comments

/-! Tokens that start with a mark and reach to the mark that closes them: strings, comments, heredocs and the text
outside code. Each is said by what it holds and what stands behind it. Only the last token of a text is left open. -/
namespace AccessChain

namespace Delimited

/-- What a string holds: pairs of a backslash and any symbol, and symbols that are neither a backslash nor the quote. -/
inductive InString (quote : Sym) : Text → Prop where
  | nil : InString quote []
  | pair (symbol : Sym) (rest : Text) (more : InString quote rest) : InString quote (.char '\\' :: symbol :: rest)
  | plain (symbol : Sym) (rest : Text) (apart : symbol ≠ .char '\\') (inside : symbol ≠ quote)
      (more : InString quote rest) : InString quote (symbol :: rest)

/-- A string in front of a text. Where none stands behind it, the last backslash may have no symbol to go with. -/
inductive StringLiteral : Text → Text → Prop where
  | closed (quote : Sym) (body rest : Text) (marks : Extent.isQuote quote = true) (inside : InString quote body) :
      StringLiteral (quote :: (body ++ [quote])) rest
  | unclosed (quote : Sym) (body : Text) (marks : Extent.isQuote quote = true) (inside : InString quote body) :
      StringLiteral (quote :: body) []
  | escape (quote : Sym) (body : Text) (marks : Extent.isQuote quote = true) (inside : InString quote body) :
      StringLiteral (quote :: (body ++ [.char '\\'])) []

/-- A block comment in front of a text. -/
inductive BlockComment : Text → Text → Prop where
  | closed (inner rest : Text)
      (first : ∀ left right, inner ++ Text.ofChars ['*', '/'] = left ++ (Text.ofChars ['*', '/'] ++ right) → right = []) :
      BlockComment (Text.ofChars ['/', '*'] ++ (inner ++ Text.ofChars ['*', '/'])) rest
  | unclosed (inner : Text) (absent : ∀ left right, inner ≠ left ++ (Text.ofChars ['*', '/'] ++ right)) :
      BlockComment (Text.ofChars ['/', '*'] ++ inner) []

/-- A line comment in front of a text. -/
structure LineComment (text rest : Text) : Prop where
  starts : ∃ mark ∈ [['#'], ['/', '/']], ∃ more, text = Text.ofChars mark ++ more
  single : ∀ feed ∈ ['\r', '\n'], .char feed ∉ text
  inCode : ∀ left right, text ≠ left ++ (Text.ofChars ['?', '>'] ++ right)
  ends : rest = [] ∨ ∃ mark ∈ [['\r'], ['\n'], ['?', '>']], ∃ more, rest = Text.ofChars mark ++ more

/-- Whether a text starts with a heredoc's label, behind blanks and with no part of a word behind it. -/
def Closes (label text : Text) : Prop :=
  ∃ indent rest, text = indent ++ (label ++ rest) ∧ (∀ symbol ∈ indent, Heredoc.isIndent symbol = true) ∧
    rest.head?.any Sym.isWord = false

/-- Whether a line starts behind some text. -/
def startsLine (front : Text) : Bool := front.getLast?.all (· == .char '\n')

/-- A heredoc in front of a text. -/
inductive HeredocText : Text → Text → Prop where
  | closed (opening : Heredoc.OpeningLine) (lines indent rest : Text) (starts : startsLine lines = true)
      (indented : ∀ symbol ∈ indent, Heredoc.isIndent symbol = true)
      (ends : rest.head?.any Sym.isWord = false)
      (first : ∀ left right, lines = left ++ right → right ≠ [] → startsLine left = true →
        ¬ Closes opening.label (right ++ (indent ++ (opening.label ++ rest)))) :
      HeredocText (Text.ofChars ['<', '<', '<'] ++ (opening.text ++ (lines ++ (indent ++ opening.label)))) rest
  | unclosed (opening : Heredoc.OpeningLine) (lines : Text)
      (absent : ∀ left right, lines = left ++ right → startsLine left = true → ¬ Closes opening.label right) :
      HeredocText (Text.ofChars ['<', '<', '<'] ++ (opening.text ++ lines)) []

/-- A part outside code in front of a text. -/
structure OutsideCode (text rest : Text) : Prop where
  plain : ∀ left right, text ≠ left ++ (Text.ofChars ['<', '?'] ++ right)
  ends : rest = [] ∨ ∃ more, rest = Text.ofChars ['<', '?'] ++ more

/-- What a token of a kind is like, given what stands behind it. -/
def OfKind (kind : TokenKind) (text rest : Text) : Prop :=
  match kind with
  | .stringLiteral => StringLiteral text rest
  | .blockComment => BlockComment text rest
  | .lineComment => LineComment text rest
  | .heredoc => HeredocText text rest
  | .inlineHtml => OutsideCode text rest
  | _ => ∀ symbol ∈ text, Extent.isQuote symbol = false

end Delimited
open Delimited

namespace Extent

/-- A search goes on to the first place where it ends, or to the end of the text. -/
theorem search_parts (extent : Text → Nat) (ends : Text → Bool) (last : Nat) (empty : extent [] = 0)
    (step : ∀ symbol rest, extent (symbol :: rest) = if ends (symbol :: rest) then last else 1 + extent rest)
    (text : Text) : ∃ front behind, text = front ++ behind ∧
      (∀ left right, front = left ++ right → right ≠ [] → ends (right ++ behind) = false) ∧
      ((behind = [] ∧ extent text = front.length) ∨ (ends behind = true ∧ extent text = front.length + last)) := by
  induction text with
  | nil =>
    exact ⟨[], [], rfl, fun left right same more => absurd (List.append_eq_nil_iff.mp same.symm).2 more, .inl ⟨rfl, empty⟩⟩
  | cons symbol text ih =>
    by_cases ended : ends (symbol :: text) = true
    · refine ⟨[], symbol :: text, rfl, fun left right same more => ?_, .inr ⟨ended, ?_⟩⟩
      · exact absurd (List.append_eq_nil_iff.mp same.symm).2 more
      · rw [step, if_pos ended, List.length_nil, Nat.zero_add]
    · obtain ⟨front, behind, rfl, passed, reached⟩ := ih
      refine ⟨symbol :: front, behind, rfl, fun left right same more => ?_, ?_⟩
      · cases left with
        | nil =>
          obtain rfl : symbol :: front = right := same
          exact eq_false_of_ne_true ended
        | cons first left => exact passed left right (List.cons.inj same).2 more
      · rw [step, if_neg ended, List.length_cons, Nat.add_comm 1]
        exact reached.imp (fun both => ⟨both.1, by rw [both.2]⟩)
          (fun both => ⟨both.1, by rw [both.2, Nat.add_right_comm]⟩)

section Mark
variable (ends : Text → Bool) (mark : List Char) (found : ∀ more, ends (Text.ofChars mark ++ more) = true)
include found

/-- A mark at which a search ends is in no part that it passes. -/
theorem not_passed (held : mark ≠ []) (front behind : Text)
    (passed : ∀ left right, front = left ++ right → right ≠ [] → ends (right ++ behind) = false) (left right : Text) :
    front ≠ left ++ (Text.ofChars mark ++ right) := by
  intro same
  have absent := passed left _ same (by simp [Text.ofChars, held])
  rw [List.append_assoc, found] at absent
  contradiction

theorem last_of_passed (front more : Text)
    (passed : ∀ left right, front = left ++ right → right ≠ [] → ends (right ++ (Text.ofChars mark ++ more)) = false)
    (left right : Text) (same : front ++ Text.ofChars mark = left ++ (Text.ofChars mark ++ right)) : right = [] := by
  rcases List.append_eq_append_iff.mp same with ⟨others, _, tail⟩ | ⟨others, whole, tail⟩
  · have length := congrArg List.length tail
    simp only [List.length_append] at length
    exact List.eq_nil_of_length_eq_zero (by omega)
  · by_cases alone : others = []
    · rw [alone, List.nil_append] at tail
      exact List.append_right_eq_self.mp tail
    · have stop := passed left others whole alone
      rw [← List.append_assoc, ← tail, List.append_assoc, found] at stop
      contradiction

end Mark

theorem startsWith_mark (mark : List Char) (more : Text) : Text.startsWith mark (Text.ofChars mark ++ more) = true :=
  (Text.startsWith_iff _ _).mpr ⟨more, rfl⟩

theorem quoted_parts (quote : Sym) (text : Text) : ∃ body behind, text = body ++ behind ∧ InString quote body ∧
    ((∃ more, behind = quote :: more ∧ quoted quote text = body.length + 1) ∨
      (behind = [] ∧ quoted quote text = body.length) ∨
      (behind = [.char '\\'] ∧ quoted quote text = body.length + 1)) := by
  fun_induction quoted quote text with
  | case1 => exact ⟨[], [], rfl, .nil, .inr (.inl ⟨rfl, rfl⟩)⟩
  | case2 symbol =>
    by_cases last : symbol = quote
    · exact ⟨[], [symbol], rfl, .nil, .inl ⟨[], by rw [last], rfl⟩⟩
    by_cases escape : symbol = .char '\\'
    · exact ⟨[], [symbol], rfl, .nil, .inr (.inr ⟨by rw [escape], rfl⟩)⟩
    · exact ⟨[symbol], [], rfl, .plain symbol [] escape last .nil, .inr (.inl ⟨rfl, rfl⟩)⟩
  | case3 next rest ih =>
    obtain ⟨body, behind, rfl, inside, reached⟩ := ih
    refine ⟨.char '\\' :: next :: body, behind, rfl, .pair next body inside, ?_⟩
    simp only [List.length_cons]
    rcases reached with ⟨more, same, size⟩ | ⟨same, size⟩ | ⟨same, size⟩
    · exact .inl ⟨more, same, by omega⟩
    · exact .inr (.inl ⟨same, by omega⟩)
    · exact .inr (.inr ⟨same, by omega⟩)
  | case4 next rest escape => exact ⟨[], _, rfl, .nil, .inl ⟨_, rfl, rfl⟩⟩
  | case5 symbol next rest escape last ih =>
    obtain ⟨body, behind, same, inside, reached⟩ := ih
    refine ⟨symbol :: body, behind, by rw [same, List.cons_append], .plain symbol body escape last inside, ?_⟩
    simp only [List.length_cons]
    rcases reached with ⟨more, same, size⟩ | ⟨same, size⟩ | ⟨same, size⟩
    · exact .inl ⟨more, same, by omega⟩
    · exact .inr (.inl ⟨same, by omega⟩)
    · exact .inr (.inr ⟨same, by omega⟩)

theorem string_parts (quote : Sym) (marks : isQuote quote = true) (text : Text) : ∃ front behind,
    quote :: text = front ++ behind ∧ front.length = 1 + quoted quote text ∧ StringLiteral front behind := by
  obtain ⟨body, behind, same, inside, ⟨more, rfl, size⟩ | ⟨rfl, size⟩ | ⟨rfl, size⟩⟩ := quoted_parts quote text
  · exact ⟨_, more, by simp [same], by simp [size, Nat.add_comm], .closed quote body more marks inside⟩
  · exact ⟨_, [], by simp [same], by simp [size, Nat.add_comm], .unclosed quote body marks inside⟩
  · exact ⟨_, [], by simp [same], by simp [size, Nat.add_comm], .escape quote body marks inside⟩

theorem blockComment_parts (text : Text) : ∃ front behind,
    Text.ofChars ['/', '*'] ++ text = front ++ behind ∧ front.length = 2 + blockComment text ∧
      BlockComment front behind := by
  obtain ⟨inner, behind, same, passed, ⟨rfl, size⟩ | ⟨ended, size⟩⟩ :=
    search_parts blockComment (Text.startsWith ['*', '/']) 2 rfl (fun _ _ => rfl) text
  · have absent := not_passed _ ['*', '/'] (startsWith_mark _) (by decide) inner [] passed
    refine ⟨_, [], by simp [same], ?_, .unclosed inner absent⟩
    rw [size, List.length_append]
    rfl
  · obtain ⟨more, rfl⟩ := (Text.startsWith_iff _ _).mp ended
    have last := last_of_passed _ ['*', '/'] (startsWith_mark _) inner more passed
    refine ⟨_, more, by simp [same], ?_, .closed inner more last⟩
    rw [size, List.length_append, List.length_append]
    rfl

theorem html_parts (first : Sym) (text : Text) (plain : Text.startsWith ['<', '?'] (first :: text) = false) :
    ∃ front behind, first :: text = front ++ behind ∧ front.length = 1 + html text ∧ OutsideCode front behind := by
  obtain ⟨front, behind, same, passed, reached⟩ :=
    search_parts html (Text.startsWith ['<', '?']) 0 rfl (fun _ _ => rfl) (first :: text)
  have absent := not_passed _ ['<', '?'] (startsWith_mark _) (by decide) front behind passed
  have size : html (first :: text) = 1 + html text := if_neg (Bool.not_eq_true _ ▸ plain)
  rw [size] at reached
  rcases reached with ⟨rfl, length⟩ | ⟨ended, length⟩
  · exact ⟨front, [], same, length.symm, absent, .inl rfl⟩
  · exact ⟨front, behind, same, length.symm, absent, .inr ((Text.startsWith_iff _ _).mp ended)⟩

theorem endsLine_iff (text : Text) :
    endsLine text = true ↔ ∃ mark ∈ [['\r'], ['\n'], ['?', '>']], ∃ more, text = Text.ofChars mark ++ more := by
  rw [endsLine, Bool.or_eq_true, Text.startsWith_iff]
  constructor
  · rintro (feed | tag)
    · cases text with
      | nil => contradiction
      | cons symbol rest =>
      cases symbol with
      | stray byte high => contradiction
      | char value =>
        have either : value ∈ ['\r', '\n'] := List.contains_iff_mem.mp feed
        simp only [List.mem_cons, List.not_mem_nil, or_false] at either
        rcases either with rfl | rfl
        · exact ⟨['\r'], by decide, rest, rfl⟩
        · exact ⟨['\n'], by decide, rest, rfl⟩
    · exact ⟨['?', '>'], by decide, tag⟩
  · rintro ⟨mark, listed, more, rfl⟩
    simp only [List.mem_cons, List.not_mem_nil, or_false] at listed
    rcases listed with rfl | rfl | rfl
    · exact .inl rfl
    · exact .inl rfl
    · exact .inr ⟨more, rfl⟩

theorem endsLine_sign (mark : Char) (listed : mark ∈ ['#', '/']) (more : Text) : endsLine (.char mark :: more) = false := by
  apply eq_false_of_ne_true
  rw [endsLine_iff]
  rintro ⟨ending, among, rest, same⟩
  have others : ∀ ending ∈ [['\r'], ['\n'], ['?', '>']], ∀ mark ∈ ['#', '/'],
      (Text.ofChars ending).head? ≠ some (.char mark) ∧ ending ≠ [] := by decide
  obtain ⟨apart, held⟩ := others ending among mark listed
  obtain ⟨first, letters, rfl⟩ := List.exists_cons_of_ne_nil held
  exact apart (congrArg some (List.cons.inj same).1.symm)

/-- The search for the end of a line goes on at every symbol of a comment's mark. -/
theorem mark_passed (mark : List Char) (signs : ∀ sign ∈ mark, sign ∈ ['#', '/']) (front behind more : Text)
    (whole : Text.ofChars mark ++ more = front ++ behind) (ends : behind = [] ∨ endsLine behind = true) :
    ∃ more, front = Text.ofChars mark ++ more := by
  rcases List.append_eq_append_iff.mp whole with ⟨others, taken, _⟩ | ⟨others, cut, tail⟩
  · exact ⟨others, taken⟩
  · cases others with
    | nil => exact ⟨[], by rw [cut, List.append_nil, List.append_nil]⟩
    | cons symbol others =>
      have member : symbol ∈ Text.ofChars mark := cut ▸ List.mem_append_right front List.mem_cons_self
      obtain ⟨sign, among, rfl⟩ := List.mem_map.mp member
      have goesOn := endsLine_sign sign (signs sign among) (others ++ more)
      rw [tail, List.cons_append, goesOn] at ends
      simp at ends

theorem lineComment_of_passed (front behind : Text)
    (starts : ∃ mark ∈ [['#'], ['/', '/']], ∃ more, front = Text.ofChars mark ++ more)
    (passed : ∀ left right, front = left ++ right → right ≠ [] → endsLine (right ++ behind) = false)
    (ends : behind = [] ∨ endsLine behind = true) : LineComment front behind := by
  have absent : ∀ ending ∈ [['\r'], ['\n'], ['?', '>']], ∀ left right,
      front ≠ left ++ (Text.ofChars ending ++ right) := by
    intro ending among
    have held : ending ≠ [] := by
      rintro rfl
      simp at among
    have found : ∀ more, endsLine (Text.ofChars ending ++ more) = true :=
      fun more => (endsLine_iff _).mpr ⟨ending, among, more, rfl⟩
    exact not_passed endsLine ending found held front behind passed
  refine ⟨starts, ?_, absent ['?', '>'] (by decide), ends.imp_right (endsLine_iff behind).mp⟩
  intro feed among member
  obtain ⟨left, right, parted⟩ := List.append_of_mem member
  have single : ∀ feed ∈ ['\r', '\n'], [feed] ∈ [['\r'], ['\n'], ['?', '>']] := by decide
  exact absent [feed] (single feed among) left right parted

theorem lineComment_parts (first : Sym) (text : Text)
    (starts : ∃ mark ∈ [['#'], ['/', '/']], ∃ more, first :: text = Text.ofChars mark ++ more) :
    ∃ front behind, first :: text = front ++ behind ∧ front.length = 1 + lineComment text ∧
      LineComment front behind := by
  obtain ⟨front, behind, same, passed, reached⟩ :=
    search_parts lineComment endsLine 0 rfl (fun _ _ => rfl) (first :: text)
  have ends : behind = [] ∨ endsLine behind = true := reached.imp And.left And.left
  obtain ⟨mark, listed, more, whole⟩ := starts
  have signs : ∀ mark ∈ [['#'], ['/', '/']], (∃ sign others, mark = sign :: others) ∧ ∀ sign ∈ mark, sign ∈ ['#', '/'] := by
    simp
  obtain ⟨⟨sign, others, rfl⟩, among⟩ := signs mark listed
  have goesOn : endsLine (first :: text) = false := by
    rw [whole]
    exact endsLine_sign sign (among sign List.mem_cons_self) _
  have size : lineComment (first :: text) = 1 + lineComment text := if_neg (Bool.not_eq_true _ ▸ goesOn)
  have length : front.length = lineComment (first :: text) := by
    rcases reached with ⟨_, reached⟩ | ⟨_, reached⟩ <;> exact reached.symm
  have started := mark_passed _ among front behind more (whole.symm.trans same) ends
  exact ⟨front, behind, same, length.trans size, lineComment_of_passed front behind ⟨_, listed, started⟩ passed ends⟩

end Extent

namespace Heredoc

theorem closes_iff (label text : Text) (labelled : label ≠ []) (wordy : ∀ symbol ∈ label, symbol.isWord = true) :
    Closes label text ↔ closing? label text ≠ none := by
  rw [Option.ne_none_iff_exists']
  constructor
  · rintro ⟨indent, rest, same, indented, ends⟩
    exact ⟨_, (closing?_eq_some_iff label text _ labelled wordy).mpr ⟨indent, rest, same, indented, ends, rfl⟩⟩
  · rintro ⟨size, found⟩
    obtain ⟨indent, rest, same, indented, ends, _⟩ := (closing?_eq_some_iff label text size labelled wordy).mp found
    exact ⟨indent, rest, same, indented, ends⟩

theorem startsLine_behind (front : Text) (symbol : Sym) : startsLine (front ++ [symbol]) = (symbol == .char '\n') := by
  simp [startsLine]

theorem body_parts (label : Text) (labelled : label ≠ []) (wordy : ∀ symbol ∈ label, symbol.isWord = true)
    (front text : Text) : ∃ lines behind, text = lines ++ behind ∧
      (∀ left right, lines = left ++ right → right ≠ [] → startsLine (front ++ left) = true →
        ¬ Closes label (right ++ behind)) ∧
      ((behind = [] ∧ body label (startsLine front) text = lines.length) ∨
        (startsLine (front ++ lines) = true ∧ ∃ indent rest, behind = indent ++ (label ++ rest) ∧
          (∀ symbol ∈ indent, isIndent symbol = true) ∧ rest.head?.any Sym.isWord = false ∧
          body label (startsLine front) text = lines.length + (indent.length + label.length))) := by
  induction text generalizing front with
  | nil =>
    exact ⟨[], [], rfl, fun left right same more => absurd (List.append_eq_nil_iff.mp same.symm).2 more, .inl ⟨rfl, rfl⟩⟩
  | cons symbol text ih =>
    cases there : (if startsLine front then closing? label (symbol :: text) else none) with
    | some size =>
      split at there
      · next starts =>
        obtain ⟨indent, rest, same, indented, ends, rfl⟩ := (closing?_eq_some_iff label _ _ labelled wordy).mp there
        refine ⟨[], symbol :: text, rfl, fun left right vacant more => ?_, .inr ⟨by simpa using starts, ?_⟩⟩
        · exact absurd (List.append_eq_nil_iff.mp vacant.symm).2 more
        · exact ⟨indent, rest, same, indented, ends, by rw [body, if_pos starts, there, List.length_nil, Nat.zero_add]⟩
      · contradiction
    | none =>
      obtain ⟨lines, behind, rfl, passed, reached⟩ := ih (front ++ [symbol])
      rw [startsLine_behind] at reached
      refine ⟨symbol :: lines, behind, rfl, fun left right same more starts => ?_, ?_⟩
      · cases left with
        | nil =>
          obtain rfl : symbol :: lines = right := same
          rw [List.append_nil] at starts
          rw [if_pos starts] at there
          rw [closes_iff label _ labelled wordy]
          exact not_not_intro there
        | cons first left =>
          obtain ⟨rfl, tail⟩ := List.cons.inj same
          exact passed left right tail more (by simpa using starts)
      · have further : body label (startsLine front) (symbol :: (lines ++ behind)) =
            1 + body label (symbol == .char '\n') (lines ++ behind) := by rw [body, there]
        rw [further, List.length_cons]
        rcases reached with ⟨inside, size⟩ | ⟨starts, indent, rest, same, indented, ends, size⟩
        · exact .inl ⟨inside, by rw [size, Nat.add_comm]⟩
        · exact .inr ⟨by simpa using starts, indent, rest, same, indented, ends, by rw [size]; omega⟩

theorem not_closes_nil (label : Text) (labelled : label ≠ []) : ¬ Closes label [] := by
  rintro ⟨indent, rest, same, _, _⟩
  exact labelled (List.append_eq_nil_iff.mp (List.append_eq_nil_iff.mp same.symm).2).1

theorem heredoc_parts (text : Text) (size : Nat) (found : extent? text = some size) : ∃ front behind,
    Text.ofChars ['<', '<', '<'] ++ text = front ++ behind ∧ front.length = 3 + size ∧ HeredocText front behind := by
  obtain ⟨opening, opened, rfl⟩ := Option.map_eq_some_iff.mp found
  obtain ⟨_, labelled, wordy⟩ := label_of_opening? text opening opened
  obtain ⟨line, rest, rfl, rfl⟩ := (opening?_eq_some_iff _ _).mp opened
  have size : line.opening.size + body line.opening.label true ((line.text ++ rest).drop line.opening.size) =
      line.text.length + body line.label (startsLine []) rest :=
    congrArg (line.text.length + body line.label true ·) List.drop_left
  rw [size]
  obtain ⟨lines, behind, rfl, passed, ⟨rfl, length⟩ | ⟨starts, indent, rest, rfl, indented, ends, length⟩⟩ :=
    body_parts line.label labelled wordy [] rest
  · refine ⟨Text.ofChars ['<', '<', '<'] ++ (line.text ++ lines), [], by simp, ?_, .unclosed line lines ?_⟩
    · rw [length, List.length_append, List.length_append]
      rfl
    · intro left right same starts
      by_cases last : right = []
      · exact last ▸ not_closes_nil line.label labelled
      · have apart := passed left right same last starts
        rwa [List.append_nil] at apart
  · refine ⟨_, rest, ?_, ?_, .closed line lines indent rest starts indented ends passed⟩
    · simp
    · rw [length]
      simp only [List.length_append]
      rfl

end Heredoc

/-! The other tokens hold no quote. -/

namespace Extent

theorem not_isQuote_of_mem_ofChars (characters : List Char) (noQuote : ∀ value ∈ ['\'', '"', '`'], value ∉ characters)
    (symbol : Sym) (member : symbol ∈ Text.ofChars characters) : isQuote symbol = false := by
  apply not_isQuote_of_ne
  rintro value listed rfl
  obtain ⟨character, among, same⟩ := List.mem_map.mp member
  exact noQuote value listed (Sym.char.inj same ▸ among)

theorem not_isQuote_of_countWhile (test : Sym → Bool) (noQuote : ∀ value ∈ ['\'', '"', '`'], test (.char value) = false)
    (first : Sym) (here : isQuote first = false) (rest : Text) :
    ∀ symbol ∈ (first :: rest).take (1 + Text.countWhile test rest), isQuote symbol = false := by
  rw [Nat.add_comm, List.take_succ_cons, Text.take_countWhile]
  intro symbol member
  rcases List.mem_cons.mp member with rfl | later
  · exact here
  · exact not_isQuote_of_accepted test noQuote symbol (List.mem_takeWhile_imp later)

theorem not_isQuote_of_closeTag (rest : Text) :
    ∀ symbol ∈ (Text.ofChars ['?', '>'] ++ rest).take (2 + lineBreak rest), isQuote symbol = false := by
  have taken : (Text.ofChars ['?', '>'] ++ rest).take (2 + lineBreak rest) =
      Text.ofChars ['?', '>'] ++ rest.take (lineBreak rest) := by
    rw [Nat.add_comm]
    rfl
  rw [taken]
  intro symbol member
  rcases List.mem_append.mp member with tag | feed
  · exact not_isQuote_of_mem_ofChars ['?', '>'] (by decide) symbol tag
  · exact not_isQuote_of_mem_ofChars ['\r', '\n'] (by decide) symbol (mem_of_mem_lineBreak rest symbol feed)

end Extent

namespace Cut

theorem not_isQuote_of_openingTag (text : Text) (opens : Text.startsWith ['<', '?'] text = true) :
    ∀ symbol ∈ text.take (openingTag text).size, Extent.isQuote symbol = false := by
  have others : ∀ value ∈ ['\'', '"', '`'], value ∉ ['<', '?', '='] ∧
      ∀ character ∈ ['<', '?', 'p', 'h', 'p'], lowered? (.char value) ≠ some character := by decide
  intro symbol member
  apply Extent.not_isQuote_of_ne
  rintro value listed rfl
  exact not_mem_openingTag text opens value (others value listed) member

theorem not_isQuote_of_operator (first : Sym) (here : Extent.isQuote first = false) (rest : Text) :
    ∀ symbol ∈ (first :: rest).take (operator first rest).size, Extent.isQuote symbol = false := by
  have rows : ∀ row ∈ operators, ∀ value ∈ ['\'', '"', '`'], value ∉ row.1 :: row.2.1 := by decide
  rcases take_operator first rest with ⟨row, listed, _, taken⟩ | ⟨_, taken⟩
  · rw [taken]
    exact Extent.not_isQuote_of_mem_ofChars _ (rows row listed)
  · rw [taken]
    exact List.forall_mem_singleton.mpr here

theorem operator_kind (first : Sym) (rest : Text) :
    (operator first rest).kind ∉ [.stringLiteral, .blockComment, .lineComment, .heredoc, .inlineHtml] := by
  have rows : ∀ row ∈ operators, row.2.2 ∉ [.stringLiteral, .blockComment, .lineComment, .heredoc, .inlineHtml] := by
    decide
  rcases take_operator first rest with ⟨row, listed, kind, _⟩ | ⟨kind, _⟩
  · exact kind ▸ rows row listed
  · exact kind ▸ by decide

theorem ofKind_of_parts (kind : TokenKind) (text front behind : Text) (size : Nat) (same : text = front ++ behind)
    (length : front.length = size) (formed : OfKind kind front behind) : OfKind kind (text.take size) (text.drop size) := by
  subst same length
  rwa [List.take_left, List.drop_left]

theorem ofKind_plain (kind : TokenKind) (text rest : Text)
    (apart : kind ∉ [.stringLiteral, .blockComment, .lineComment, .heredoc, .inlineHtml]) :
    OfKind kind text rest ↔ ∀ symbol ∈ text, Extent.isQuote symbol = false := by
  unfold OfKind
  split <;> first | rfl | simp at apart

/-- What a cut takes off a text in code. -/
theorem ofKind_ofCode (afterAccess : Bool) (first : Sym) (rest : Text) :
    OfKind (ofCode afterAccess first rest).kind ((first :: rest).take (ofCode afterAccess first rest).size)
      ((first :: rest).drop (ofCode afterAccess first rest).size) := by
  fun_cases ofCode afterAccess first rest with
  | case1 blank =>
    apply Extent.not_isQuote_of_countWhile _ (by decide)
    exact Extent.not_isQuote_of_accepted (·.satisfies Text.isCodeBlank) (by decide) first blank
  | case2 blank opens =>
    have plain := not_isQuote_of_openingTag _ opens
    rcases openingTag_kind (first :: rest) with kind | kind
    · rw [kind]
      exact plain
    · rw [kind]
      exact plain
  | case3 blank opens closes =>
    obtain ⟨more, same⟩ := (Text.startsWith_iff _ _).mp closes
    obtain ⟨rfl, rfl⟩ : first = .char '?' ∧ rest = .char '>' :: more := List.cons.inj same
    exact Extent.not_isQuote_of_closeTag more
  | case4 blank opens closes line =>
    have starts : ∃ mark ∈ [['#'], ['/', '/']], ∃ more, first :: rest = Text.ofChars mark ++ more := by
      rcases Bool.or_eq_true_iff.mp line with hash | slashes
      · exact ⟨['#'], by decide, rest, congrArg (· :: rest) (of_decide_eq_true hash)⟩
      · exact ⟨['/', '/'], by decide, (Text.startsWith_iff _ _).mp slashes⟩
    obtain ⟨front, behind, same, length, formed⟩ := Extent.lineComment_parts first rest starts
    exact ofKind_of_parts .lineComment _ front behind _ same length formed
  | case5 blank opens closes line block =>
    obtain ⟨more, same⟩ := (Text.startsWith_iff _ _).mp block
    obtain ⟨rfl, rfl⟩ : first = .char '/' ∧ rest = .char '*' :: more := List.cons.inj same
    obtain ⟨front, behind, same, length, formed⟩ := Extent.blockComment_parts more
    exact ofKind_of_parts .blockComment _ front behind _ same length formed
  | case6 blank opens closes line block variable_ =>
    have sign : first = .char '$' := of_decide_eq_true (Bool.and_eq_true_iff.mp variable_).1
    exact Extent.not_isQuote_of_countWhile Extent.isNameChar (by decide) first (sign ▸ by decide) rest
  | case7 blank opens closes line block variable_ quote =>
    obtain ⟨front, behind, same, length, formed⟩ := Extent.string_parts first quote rest
    exact ofKind_of_parts .stringLiteral _ front behind _ same length formed
  | case8 blank opens closes line block variable_ quote size found =>
    split at found
    · next signs =>
      obtain ⟨more, same⟩ := (Text.startsWith_iff _ _).mp signs
      obtain ⟨rfl, rfl⟩ : first = .char '<' ∧ rest = .char '<' :: .char '<' :: more := List.cons.inj same
      obtain ⟨front, behind, same, length, formed⟩ := Heredoc.heredoc_parts more size found
      exact ofKind_of_parts .heredoc _ front behind _ same length formed
    · contradiction
  | case9 blank opens closes line block variable_ quote found name size =>
    have plain := Extent.not_isQuote_of_countWhile Extent.isNameChar (by decide) first (eq_false_of_ne_true quote) rest
    rcases nameKind_cases afterAccess (first :: rest.take size) with kind | ⟨word, kind⟩
    · rw [kind]
      exact plain
    · rw [kind]
      exact plain
  | case10 blank opens closes line block variable_ quote found name number =>
    exact Extent.not_isQuote_of_countWhile Extent.isNumberChar (by decide) first (eq_false_of_ne_true quote) rest
  | case11 blank opens closes line block variable_ quote found name number backslash =>
    subst backslash
    exact Extent.not_isQuote_of_mem_ofChars ['\\'] (by decide)
  | case12 blank opens closes line block variable_ quote found name number backslash =>
    exact (ofKind_plain _ _ _ (operator_kind first rest)).mpr (not_isQuote_of_operator first (eq_false_of_ne_true quote) rest)

theorem ofCode_kind_ne_inlineHtml (afterAccess : Bool) (first : Sym) (rest : Text) :
    (ofCode afterAccess first rest).kind ≠ .inlineHtml := by
  fun_cases ofCode afterAccess first rest with
  | case2 =>
    rcases openingTag_kind (first :: rest) with kind | kind <;> simp [kind]
  | case9 _ _ _ _ _ _ _ _ _ size =>
    rcases nameKind_cases afterAccess (first :: rest.take size) with kind | ⟨word, kind⟩ <;> simp [kind]
  | case12 =>
    intro html
    have apart := operator_kind first rest
    rw [html] at apart
    simp at apart
  | _ => simp

theorem ofKind_ofText (context : Context) (first : Sym) (rest : Text) :
    OfKind (ofText context first rest).kind ((first :: rest).take (ofText context first rest).size)
      ((first :: rest).drop (ofText context first rest).size) ∧
      ((ofText context first rest).kind = .inlineHtml → context.inHtml = true) := by
  unfold ofText
  split
  · next html =>
    obtain ⟨outside, plain⟩ := Bool.and_eq_true_iff.mp html
    obtain ⟨front, behind, same, length, formed⟩ := Extent.html_parts first rest (by simpa using plain)
    exact ⟨ofKind_of_parts .inlineHtml _ front behind _ same length formed, fun _ => outside⟩
  · exact ⟨ofKind_ofCode context.afterAccess first rest,
      fun html => absurd html (ofCode_kind_ne_inlineHtml context.afterAccess first rest)⟩

end Cut

/-- What the first piece of a text is like, given what stands behind it. -/
theorem ofKind_first (context : Context) (piece : TokenKind × Text) (behind : Text) (others : List (TokenKind × Text))
    (cut : pieces context (piece.2 ++ behind) = piece :: others) : OfKind piece.1 piece.2 behind := by
  have owned := ne_nil_of_mem_pieces context (piece.2 ++ behind) piece (by rw [cut]; exact List.mem_cons_self)
  obtain ⟨kind, text⟩ := piece
  obtain ⟨first, text, rfl⟩ := List.exists_cons_of_ne_nil owned
  have formed := (Cut.ofKind_ofText context first (text ++ behind)).1
  have whole := List.take_append_drop (Cut.ofText context first (text ++ behind)).size (first :: (text ++ behind))
  rw [List.cons_append, pieces_cons] at cut
  obtain ⟨rfl, taken⟩ := Prod.mk.inj (List.cons.inj cut).1
  rw [taken] at formed whole
  rwa [List.append_cancel_left whole] at formed

/-- Every symbol of a text that is laid out in tokens is in one of them. -/
theorem Token.exists_holding (tokens : List Token) (left right : Text) (mark : Sym)
    (same : tokens.flatMap text = left ++ mark :: right) :
    ∃ before token after front behind, tokens = before ++ token :: after ∧ left = before.flatMap text ++ front ∧
      token.text = front ++ mark :: behind := by
  induction tokens generalizing left with
  | nil => simp at same
  | cons token tokens ih =>
    rw [List.flatMap_cons] at same
    rcases List.append_eq_append_iff.mp same with ⟨others, whole, tail⟩ | ⟨others, whole, tail⟩
    · obtain ⟨before, holder, after, front, behind, rfl, rfl, held⟩ := ih others tail
      exact ⟨token :: before, holder, after, front, behind, rfl, by rw [whole, List.flatMap_cons, List.append_assoc], held⟩
    · cases others with
      | nil =>
        rw [List.append_nil] at whole
        obtain ⟨before, holder, after, front, behind, rfl, parted, held⟩ := ih [] tail.symm
        refine ⟨token :: before, holder, after, front, behind, rfl, ?_, held⟩
        rw [List.flatMap_cons, List.append_assoc, ← parted, List.append_nil, whole]
      | cons symbol others =>
        obtain ⟨rfl, _⟩ := List.cons.inj tail
        exact ⟨[], token, tokens, left, others, rfl, rfl, whole⟩

/-- What each token is like and what stands in front of it and behind it. -/
theorem tokenize_parts (source : Text) (before after : List Token) (token : Token)
    (split : tokenize source = before ++ token :: after) :
    OfKind token.kind token.text (after.flatMap Token.text) ∧
      (token.kind = .inlineHtml → ∃ earlier tag, before = earlier ++ [tag] ∧ tag.kind = .closeTag) := by
  obtain ⟨rest, _, tail⟩ := tokensFrom_split Context.start 0 source before _ split
  cases rest with
  | nil => simp at tail
  | cons first rest =>
    obtain ⟨formed, outside⟩ := Cut.ofKind_ofText (Context.start.through (before.map Token.piece)) first rest
    rw [tokensFrom_cons] at tail
    obtain ⟨rfl, behind⟩ := List.cons.inj tail
    refine ⟨?_, fun html => ?_⟩
    · rw [behind, tokensFrom_eq_laidOut, Token.flatMap_text_laidOut, flatMap_pieces]
      exact formed
    · have inHtml := outside html
      rcases List.eq_nil_or_concat before with rfl | ⟨earlier, tag, rfl⟩
      · contradiction
      · refine ⟨earlier, tag, List.concat_eq_append, ?_⟩
        by_contra other
        rw [List.concat_eq_append, List.map_append] at inHtml
        have inCode := Context.inHtml_through Context.start (earlier.map Token.piece) tag.piece other
        exact Bool.false_ne_true (inCode.symm.trans inHtml)

/-- A string, a comment, a heredoc and a part outside code reach from their opening mark to the first place where they
can end, and only where no text is left behind them to the end of the text. Each quote of a text is in one of them. -/
theorem tokenize_delimited (source : Text) :
    (∀ before token after, tokenize source = before ++ token :: after →
      OfKind token.kind token.text (after.flatMap Token.text) ∧
      (after.flatMap Token.text = [] → after = []) ∧
      (token.kind = .inlineHtml → ∃ earlier tag, before = earlier ++ [tag] ∧ tag.kind = .closeTag)) ∧
    ∀ left mark right, source = left ++ mark :: right → Extent.isQuote mark = true →
      ∃ before token after front behind, tokenize source = before ++ token :: after ∧
        left = before.flatMap Token.text ++ front ∧ token.text = front ++ mark :: behind ∧
        token.kind ∈ [.stringLiteral, .blockComment, .lineComment, .heredoc, .inlineHtml] := by
  constructor
  · intro before token after split
    obtain ⟨formed, outside⟩ := tokenize_parts source before after token split
    refine ⟨formed, fun empty => ?_, outside⟩
    rw [List.flatMap_eq_nil_iff] at empty
    cases after with
    | nil => rfl
    | cons next after =>
      have member : next.piece ∈ pieces Context.start source := by
        rw [pieces, ← tokenize, split]
        simp
      exact absurd (empty next List.mem_cons_self) (ne_nil_of_mem_pieces Context.start source next.piece member)
  · intro left mark right same quote
    obtain ⟨before, token, after, front, behind, split, parted, held⟩ :=
      Token.exists_holding (tokenize source) left right mark (by rw [flatMap_text_tokenize, same])
    refine ⟨before, token, after, front, behind, split, parted, held, ?_⟩
    by_contra apart
    have plain := (Cut.ofKind_plain _ _ _ apart).mp (tokenize_parts source before after token split).1 mark
    rw [held, quote] at plain
    simp at plain

end AccessChain
