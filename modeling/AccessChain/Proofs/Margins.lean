import AccessChain.Proofs.Restart
import AccessChain.Proofs.Truncation
import AccessChain.Proofs.WrittenTokens

/-! White space at the margins of an expression. Lexing need not be what it is without it, since blanks outside
ASCII are part of names and a line break can end a heredoc's first line, but no comment comes or goes: what is left
without the comments is the same but for white space. -/
namespace AccessChain

namespace Text

theorem length_le_countWhile (test : Sym → Bool) (part rest : Text) (inside : ∀ symbol ∈ part, test symbol = true) :
    part.length ≤ countWhile test (part ++ rest) := by
  rw [countWhile, List.takeWhile_append_of_pos inside, List.length_append]
  exact Nat.le_add_right _ _

theorem countWhile_mono (narrow wide : Sym → Bool) (text : Text)
    (within : ∀ symbol, narrow symbol = true → wide symbol = true) : countWhile narrow text ≤ countWhile wide text := by
  conv_rhs => rw [← List.takeWhile_append_dropWhile (p := narrow) (l := text)]
  apply length_le_countWhile
  intro symbol member
  exact within symbol (List.mem_takeWhile_imp member)

end Text

namespace Cut

/-- What the first symbol of a text must be for some kinds of cut. -/
theorem first_of_ofCode (afterAccess : Bool) (first : Sym) (rest : Text) :
    ((ofCode afterAccess first rest).kind.isComment = true → first = .char '#' ∨ first = .char '/') ∧
      ((ofCode afterAccess first rest).kind = .closeTag → first = .char '?') := by
  have signs : ∀ row ∈ operators, row.2.2.isComment = false ∧ row.2.2 ≠ .closeTag := by decide
  have neither : ∀ kind : TokenKind, kind.isComment = false → kind ≠ .closeTag →
      (kind.isComment = true → first = .char '#' ∨ first = .char '/') ∧ (kind = .closeTag → first = .char '?') :=
    fun kind code noTag =>
      ⟨fun comment => absurd (code.symm.trans comment) Bool.false_ne_true, fun tag => absurd tag noTag⟩
  fun_cases ofCode afterAccess first rest with
  | case2 blank opens =>
    rcases openingTag_kind (first :: rest) with kind | kind
    · rw [kind]
      exact neither _ rfl (by decide)
    · rw [kind]
      exact neither _ rfl (by decide)
  | case3 blank opens closes =>
    obtain ⟨more, same⟩ := (Text.startsWith_iff _ _).mp closes
    exact ⟨fun comment => absurd comment Bool.false_ne_true, fun _ => (List.cons.inj same).1⟩
  | case4 blank opens closes line =>
    refine ⟨fun _ => ?_, fun tag => absurd tag (by simp)⟩
    rcases Bool.or_eq_true_iff.mp line with hash | slashes
    · exact .inl (of_decide_eq_true hash)
    · obtain ⟨more, same⟩ := (Text.startsWith_iff _ _).mp slashes
      exact .inr (List.cons.inj same).1
  | case5 blank opens closes line block =>
    obtain ⟨more, same⟩ := (Text.startsWith_iff _ _).mp block
    exact ⟨fun _ => .inr (List.cons.inj same).1, fun tag => absurd tag (by simp)⟩
  | case9 =>
    rcases nameKind_cases afterAccess _ with kind | ⟨word, kind⟩
    · rw [kind]
      exact neither _ rfl (by simp)
    · rw [kind]
      exact neither _ rfl (by simp)
  | case12 =>
    rcases take_operator first rest with ⟨row, listed, kind, _⟩ | ⟨kind, _⟩
    · obtain ⟨code, noTag⟩ := signs row listed
      rw [kind]
      exact neither _ code noTag
    · rw [kind]
      exact neither _ rfl (by simp)
  | _ => exact neither _ rfl (by simp)

theorem isComment_ofText (context : Context) (first : Sym) (rest : Text)
    (noSign : ∀ mark ∈ ['#', '/'], first ≠ .char mark) : (ofText context first rest).kind.isComment = false := by
  cases comment : (ofText context first rest).kind.isComment with
  | false => rfl
  | true =>
    unfold ofText at comment
    split at comment
    · contradiction
    · rcases (first_of_ofCode context.afterAccess first rest).1 comment with rfl | rfl
      · exact absurd rfl (noSign '#' (by decide))
      · exact absurd rfl (noSign '/' (by decide))

/-- An access operator in front makes no difference to the extent of a cut, nor to whether it is a comment. -/
theorem ofText_after_access (context other : Context) (first : Sym) (rest : Text)
    (same : context.inHtml = other.inHtml) :
    (ofText context first rest).size = (ofText other first rest).size ∧
      (ofText context first rest).kind.isComment = (ofText other first rest).kind.isComment ∧
      ((ofText context first rest).kind == .closeTag) = ((ofText other first rest).kind == .closeTag) := by
  have alike : ∀ afterAccess, (ofCode afterAccess first rest).size = (ofCode true first rest).size ∧
      (ofCode afterAccess first rest).kind.isComment = (ofCode true first rest).kind.isComment ∧
      ((ofCode afterAccess first rest).kind == .closeTag) = ((ofCode true first rest).kind == .closeTag) := by
    intro afterAccess
    cases afterAccess with
    | true => exact ⟨rfl, rfl, rfl⟩
    | false =>
      obtain ⟨size, kind⟩ := ofCode_after_access first rest
      refine ⟨size, ?_⟩
      by_cases name : (ofCode true first rest).kind = .identifier
      · rw [if_pos name] at kind
        rw [kind, name]
        rcases nameKind_cases false ((first :: rest).take (ofCode true first rest).size) with word | ⟨keyword, word⟩
        · rw [word]
          exact ⟨rfl, rfl⟩
        · rw [word]
          exact ⟨rfl, rfl⟩
      · rw [if_neg name] at kind
        rw [kind]
        exact ⟨rfl, rfl⟩
  unfold ofText
  rw [same]
  split
  · exact ⟨rfl, rfl, rfl⟩
  · obtain ⟨size, comment, tag⟩ := alike context.afterAccess
    obtain ⟨otherSize, otherComment, otherTag⟩ := alike other.afterAccess
    exact ⟨size.trans otherSize.symm, comment.trans otherComment.symm, tag.trans otherTag.symm⟩

end Cut

theorem bare_after_access (context other : Context) (text : Text) (same : context.inHtml = other.inHtml) :
    bare (pieces context text) = bare (pieces other text) := by
  induction context, text using pieces_induction generalizing other with
  | nil context => rw [pieces_nil, pieces_nil]
  | cons context first rest ih =>
    obtain ⟨size, comment, tag⟩ := Cut.ofText_after_access context other first rest same
    have further := ih (other.after (Cut.ofText other first rest).kind) tag
    rw [pieces_cons context, pieces_cons other, ← size]
    cases noted : (Cut.ofText context first rest).kind.isComment with
    | true => rw [bare_comment _ _ noted, bare_comment _ _ (comment.symm.trans noted), further]
    | false => rw [bare_cons _ _ noted, bare_cons _ _ (comment.symm.trans noted), further]

/-- Code has the same text without comments when it is lexed alone. -/
theorem bare_in_code (context : Context) (text : Text)
    (inCode : ∀ piece, (pieces context text).head? = some piece → piece.1 ≠ .inlineHtml) :
    bare (pieces Context.start text) = bare (pieces context text) := by
  have code := tokensFrom_in_code context 0 text (by
    intro token found
    apply inCode token.piece
    rw [pieces, List.head?_map, found]
    rfl)
  have lexed : pieces context text = pieces ⟨false, context.afterAccess⟩ text := congrArg (List.map Token.piece) code
  rw [lexed]
  exact bare_after_access _ _ text rfl

/-! In front of a text. Names, numbers, white space and the operators made of full stops, equals and greater-than
signs are lexed without a look at anything else, and no other symbol is drawn into them. -/

def isLoose (symbol : Sym) : Bool :=
  Extent.isNameChar symbol || Sym.isBlank symbol || symbol.satisfies ['.', '=', '>'].contains

theorem isLoose_of_isNumberChar (symbol : Sym) (number : Extent.isNumberChar symbol = true) : isLoose symbol = true := by
  cases symbol with
  | stray byte high => contradiction
  | char value =>
    simp only [Extent.isNumberChar, Sym.satisfies, Char.isAlphanum, Bool.or_eq_true, beq_iff_eq] at number
    rcases number with ((letter | digit) | rfl) | rfl
    · simp [isLoose, Extent.isNameChar, Extent.isNameStart, letter]
    · simp [isLoose, Extent.isNameChar, Sym.satisfies, digit]
    · rfl
    · rfl

/-- A cut in loose text ends with it. -/
theorem Cut.ofCode_loose (afterAccess : Bool) (first : Sym) (text rest : Text)
    (loose : ∀ symbol ∈ first :: text, isLoose symbol = true) (ends : rest.head?.any isLoose = false) :
    (ofCode afterAccess first (text ++ rest)).size ≤ 1 + text.length := by
  have here := loose first List.mem_cons_self
  have whole : Text.countWhile isLoose (text ++ rest) = text.length :=
    Text.countWhile_of_head isLoose text rest (fun symbol member => loose symbol (List.mem_cons_of_mem _ member)) ends
  have counts : ∀ test : Sym → Bool, (∀ symbol, test symbol = true → isLoose symbol = true) →
      1 + Text.countWhile test (text ++ rest) ≤ 1 + text.length := by
    intro test within
    rw [← whole]
    exact Nat.add_le_add_left (Text.countWhile_mono test isLoose _ within) 1
  have others : ∀ mark ∈ ['<', '?', '#', '/', '$', '\'', '"', '`', '\\'], first ≠ .char mark := by
    have rejected : ∀ mark ∈ ['<', '?', '#', '/', '$', '\'', '"', '`', '\\'], isLoose (.char mark) = false := by decide
    rintro mark listed rfl
    rw [rejected mark listed] at here
    contradiction
  have apart : ∀ (mark : Char) (more : List Char), mark ∈ ['<', '?', '#', '/', '$', '\'', '"', '`', '\\'] →
      Text.startsWith (mark :: more) (first :: (text ++ rest)) = false := by
    intro mark more listed
    exact Text.startsWith_cons_ne mark more first _ (others mark listed)
  have operators : ∀ row ∈ operators, isLoose (.char row.1) = true →
      ∀ symbol ∈ Text.ofChars row.2.1, isLoose symbol = true := by decide
  fun_cases ofCode afterAccess first (text ++ rest) with
  | case1 blank =>
    apply counts
    intro symbol other
    rw [isLoose, Written.isBlank_of_isCodeBlank symbol other, Bool.or_true, Bool.true_or]
  | case2 blank opens =>
    rw [apart '<' ['?'] (by decide)] at opens
    contradiction
  | case3 blank opens closes =>
    rw [apart '?' ['>'] (by decide)] at closes
    contradiction
  | case4 blank opens closes line => simp [apart, others] at line
  | case5 blank opens closes line block =>
    rw [apart '/' ['*'] (by decide)] at block
    contradiction
  | case6 blank opens closes line block variable_ => simp [others] at variable_
  | case7 blank opens closes line block variable_ quote =>
    cases first with
    | stray byte high => contradiction
    | char value =>
      have listed : value ∈ ['\'', '"', '`'] := List.contains_iff_mem.mp quote
      exact absurd rfl (others value (by simp at listed ⊢; tauto))
  | case8 blank opens closes line block variable_ quote size found =>
    rw [apart '<' ['<', '<'] (by decide)] at found
    contradiction
  | case9 =>
    apply counts
    intro symbol name
    rw [isLoose, name, Bool.true_or, Bool.true_or]
  | case10 => exact counts _ isLoose_of_isNumberChar
  | case11 => exact Nat.le_add_right 1 _
  | case12 =>
    unfold operator
    split
    · next row found =>
      have matched := List.find?_some found
      obtain ⟨sign, starts⟩ := Bool.and_eq_true_iff.mp matched
      obtain ⟨more, same⟩ := (Text.startsWith_iff _ _).mp starts
      rw [eq_of_beq sign] at here
      have inside := operators row (List.mem_of_find?_eq_some found) here
      have bound := Text.length_le_countWhile isLoose (Text.ofChars row.2.1) more inside
      rw [← same, whole] at bound
      exact Nat.add_le_add_left (by simpa [Text.ofChars] using bound) 1
    · exact Nat.le_add_right 1 _

theorem bare_loose (afterAccess : Bool) (text rest : Text) (loose : ∀ symbol ∈ text, isLoose symbol = true)
    (ends : rest.head?.any isLoose = false) :
    bare (pieces ⟨false, afterAccess⟩ (text ++ rest)) = text ++ bare (pieces Context.start rest) := by
  generalize count : text.length = length
  -- By induction on the length: each cut takes a part of what is loose.
  induction length using Nat.strong_induction_on generalizing text afterAccess with
  | _ length ih =>
    cases text with
    | nil => exact bare_after_access _ _ rest rfl
    | cons first text =>
      have others : ∀ mark ∈ ['#', '/', '?'], first ≠ .char mark := by
        have rejected : ∀ mark ∈ ['#', '/', '?'], isLoose (.char mark) = false := by decide
        rintro mark listed rfl
        have here := loose _ List.mem_cons_self
        rw [rejected mark listed] at here
        contradiction
      have cut : Cut.ofText ⟨false, afterAccess⟩ first (text ++ rest) = Cut.ofCode afterAccess first (text ++ rest) := rfl
      have short := Cut.ofCode_loose afterAccess first text rest loose ends
      have code := Cut.isComment_ofText ⟨false, afterAccess⟩ first (text ++ rest) (by
        intro mark listed
        exact others mark (by simp at listed ⊢; tauto))
      have inCode : ((Cut.ofCode afterAccess first (text ++ rest)).kind == .closeTag) = false := by
        apply beq_false_of_ne
        intro tag
        exact others '?' (by decide) ((Cut.first_of_ofCode afterAccess first (text ++ rest)).2 tag)
      have positive := (Cut.ofCode afterAccess first (text ++ rest)).size_pos
      rw [cut] at code
      rw [List.cons_append, pieces_cons, cut, bare_cons _ _ code, ← List.cons_append]
      generalize (Cut.ofCode afterAccess first (text ++ rest)).size = size at short positive
      have within : size ≤ (first :: text).length := by
        rw [List.length_cons]
        omega
      rw [List.take_append_of_le_length within, List.drop_append_of_le_length within, Context.after, inCode,
        ih _ ?_ _ _ ?_ rfl, ← List.append_assoc, List.take_append_drop]
      · rw [← count, List.length_drop, List.length_cons]
        omega
      · intro symbol member
        exact loose symbol (List.mem_of_mem_drop member)

/-- White space in front of a text stays in front of what is left of it. -/
theorem bare_behind_blanks (blanks text : Text) (blank : ∀ symbol ∈ blanks, symbol.isBlank = true) :
    bare (pieces Context.start (blanks ++ text)) = blanks ++ bare (pieces Context.start text) := by
  have parted : text.takeWhile isLoose ++ text.dropWhile isLoose = text := List.takeWhile_append_dropWhile
  have ends : (text.dropWhile isLoose).head?.any isLoose = false := by
    rcases Text.dropWhile_cases isLoose text with ended | ⟨symbol, rest, behind, rejected⟩
    · rw [ended]
      rfl
    · rw [behind]
      exact rejected
  have loose : ∀ symbol ∈ text.takeWhile isLoose, isLoose symbol = true :=
    fun symbol member => List.mem_takeWhile_imp member
  have front : ∀ symbol ∈ blanks ++ text.takeWhile isLoose, isLoose symbol = true := by
    intro symbol member
    rcases List.mem_append.mp member with first | later
    · rw [isLoose, blank symbol first, Bool.or_true, Bool.true_or]
    · exact loose symbol later
  rw [← parted]
  generalize text.takeWhile isLoose = part at loose front
  generalize text.dropWhile isLoose = rest at ends
  calc bare (pieces Context.start (blanks ++ (part ++ rest)))
      = blanks ++ part ++ bare (pieces Context.start rest) := by
        rw [← List.append_assoc]
        exact bare_loose false _ rest front ends
    _ = blanks ++ bare (pieces Context.start (part ++ rest)) := by
        rw [List.append_assoc]
        exact congrArg _ (bare_loose false part rest loose ends).symm

/-! Behind a text. A cut that reaches into the white space takes all that is left of the text without it, too, or
the text holds no sign of a comment. -/

section Blanks
variable (blanks : Text) (blank : ∀ symbol ∈ blanks, symbol.isBlank = true)

namespace Text

theorem all_of_countWhile (test : Sym → Bool) (text more : Text) (covers : text.length ≤ countWhile test (text ++ more)) :
    ∀ symbol ∈ text, test symbol = true := by
  have taken : text <+: (text ++ more).takeWhile test :=
    List.prefix_of_prefix_length_le (List.prefix_append text more) (List.takeWhile_prefix test) covers
  intro symbol member
  exact List.mem_takeWhile_imp (taken.subset member)

theorem not_mem_of_countWhile (test : Sym → Bool) (first : Sym) (text more : Text) (signs : List Char)
    (rejected : ∀ mark ∈ signs, test (.char mark) = false) (apart : ∀ mark ∈ signs, first ≠ .char mark)
    (covers : text.length < 1 + countWhile test (text ++ more)) : ∀ mark ∈ signs, .char mark ∉ first :: text := by
  intro mark listed member
  rcases List.mem_cons.mp member with same | later
  · exact apart mark listed same.symm
  · have inside := all_of_countWhile test text more (by omega)
    exact Bool.false_ne_true ((rejected mark listed).symm.trans (inside _ later))

theorem head?_any_append (test : Sym → Bool) (text more : Text) (accepted : text.head?.any test = true) :
    (text ++ more).head?.any test = true := by
  cases text with
  | nil => contradiction
  | cons next text => exact accepted

include blank in
theorem startsWith_blanks (characters : List Char) (ink : ∀ character ∈ characters, isBlank character = false)
    (text : Text) : startsWith characters (text ++ blanks) = startsWith characters text := by
  by_cases seen : characters.length ≤ text.length
  · exact startsWith_truncated characters text blanks seen
  · have short : ¬ startsWith characters text = true := by
      intro starts
      have bound := (List.isPrefixOf_iff_prefix.mp starts).length_le
      rw [ofChars, List.length_map] at bound
      exact seen bound
    have shorter : ¬ startsWith characters (text ++ blanks) = true := by
      intro starts
      obtain ⟨rest, same⟩ := (startsWith_iff _ _).mp starts
      obtain ⟨remaining, parted⟩ := prefix_of_short text blanks (ofChars characters) rest same.symm (by
        rw [ofChars, List.length_map]
        exact Nat.le_of_not_le seen)
      cases remaining with
      | nil =>
        rw [List.append_nil] at parted
        exact short (by rw [startsWith, parted]; simp)
      | cons symbol remaining =>
        rw [parted, List.append_assoc, List.append_cancel_left_eq] at same
        have blankOne : symbol.isBlank = true := blank symbol (by rw [same]; exact List.mem_cons_self)
        have member : symbol ∈ ofChars characters := by
          rw [parted]
          simp
        obtain ⟨character, listed, rfl⟩ := List.mem_map.mp member
        exact Bool.false_ne_true ((ink character listed).symm.trans blankOne)
    rw [eq_false_of_ne_true short, eq_false_of_ne_true shorter]

end Text

namespace Extent

theorem search_covers (extent : Text → Nat) (ends : Text → Bool) (last : Nat)
    (step : ∀ symbol rest, extent (symbol :: rest) = if ends (symbol :: rest) then last else 1 + extent rest)
    (text more : Text) (same : ∀ text : Text, text ≠ [] → ends (text ++ more) = ends text)
    (covers : text.length ≤ extent (text ++ more)) : text.length ≤ extent text := by
  induction text with
  | nil => exact Nat.zero_le _
  | cons symbol text ih =>
    have alike := same (symbol :: text) (List.cons_ne_nil _ _)
    rw [List.cons_append] at covers alike
    rw [step, alike] at covers
    rw [step]
    split
    · next ended => rwa [if_pos ended] at covers
    · next further =>
      rw [if_neg further, List.length_cons, Nat.add_comm] at covers
      rw [List.length_cons, Nat.add_comm]
      exact Nat.add_le_add_left (ih (Nat.le_of_add_le_add_left covers)) 1

include blank in
theorem lineComment_covers (text : Text) (covers : text.length ≤ lineComment (text ++ blanks)) :
    text.length ≤ lineComment text := by
  apply search_covers lineComment endsLine 0 (fun _ _ => rfl) text blanks _ covers
  intro text held
  rw [endsLine, endsLine, Text.head?_any_truncated _ text blanks held,
    Text.startsWith_blanks blanks blank ['?', '>'] (by decide)]

include blank in
theorem blockComment_covers (text : Text) (covers : text.length ≤ blockComment (text ++ blanks)) :
    text.length ≤ blockComment text :=
  search_covers blockComment (Text.startsWith ['*', '/']) 2 (fun _ _ => rfl) text blanks
    (fun text _ => Text.startsWith_blanks blanks blank ['*', '/'] (by decide) text) covers

include blank in
theorem html_covers (text : Text) (covers : text.length ≤ html (text ++ blanks)) : text.length ≤ html text :=
  search_covers html (Text.startsWith ['<', '?']) 0 (fun _ _ => rfl) text blanks
    (fun text _ => Text.startsWith_blanks blanks blank ['<', '?'] (by decide) text) covers

theorem quoted_covers (quote : Sym) (text more : Text) (covers : text.length ≤ quoted quote (text ++ more)) :
    text.length ≤ quoted quote text := by
  fun_induction quoted quote text with
  | case1 => exact Nat.le_refl 0
  | case2 symbol => exact Nat.le_refl 1
  | case3 next rest ih =>
    simp only [List.cons_append, List.length_cons, quoted, if_true] at covers ⊢
    have further := ih (by omega)
    omega
  | case4 next rest escape => simp [quoted, escape] at covers
  | case5 symbol next rest escape last ih =>
    simp only [List.cons_append, List.length_cons, quoted, escape, last, if_false] at ih covers ⊢
    have further := ih (by omega)
    omega

theorem lineBreak_no_sign (text more : Text) (covers : text.length ≤ lineBreak (text ++ more)) :
    ∀ mark ∈ ['#', '/'], .char mark ∉ text := by
  have front : text <+: (text ++ more).take (lineBreak (text ++ more)) :=
    List.prefix_of_prefix_length_le (List.prefix_append text more) (List.take_prefix _ _) (by
      rw [List.length_take, List.length_append]
      omega)
  intro mark listed member
  exact Text.not_mem_ofChars ['#', '/'] ['\r', '\n'] (by decide) mark listed
    (mem_of_mem_lineBreak _ _ (front.subset member))

end Extent

namespace Heredoc

theorem OpeningLine.no_sign (line : OpeningLine) : ∀ mark ∈ ['#', '/'], .char mark ∉ line.text := by
  have apart : ∀ mark ∈ ['#', '/'], isIndent (.char mark) = false ∧ Sym.isWord (.char mark) = false := by decide
  have quoted : ∀ mark ∈ ['#', '/'], .char mark ∉ line.quote := by
    rcases line.quoted with quote | quote | quote <;> rw [quote] <;> decide
  have breaks : ∀ mark ∈ ['#', '/'], .char mark ∉ line.ending := by
    rcases line.breaks with ending | ending <;> rw [ending] <;> decide
  intro mark listed member
  obtain ⟨indent, label⟩ := apart mark listed
  simp only [text, List.mem_append] at member
  rcases member with inside | inside | inside | inside | inside
  · exact Bool.false_ne_true (indent.symm.trans (line.indented _ inside))
  · exact quoted mark listed inside
  · exact Bool.false_ne_true (label.symm.trans (line.wordy _ inside))
  · exact quoted mark listed inside
  · exact breaks mark listed inside

theorem body_covers (label : Text) (labelled : label ≠ []) (wordy : ∀ symbol ∈ label, symbol.isWord = true)
    (atLineStart : Bool) (text more : Text) (covers : text.length ≤ body label atLineStart (text ++ more)) :
    text.length ≤ body label atLineStart text := by
  induction text generalizing atLineStart with
  | nil => exact Nat.zero_le _
  | cons symbol text ih =>
    rw [List.cons_append, body] at covers
    rw [body]
    cases there : (if atLineStart then closing? label (symbol :: text) else none) with
    | some size =>
      split at there
      · next starts =>
        obtain ⟨indent, rest, same, indented, ends, rfl⟩ := (closing?_eq_some_iff label _ _ labelled wordy).mp there
        cases rest with
        | nil =>
          rw [same]
          simp
        | cons next rest =>
          -- The label is closed by what stands behind it, so the heredoc ends there with more text, too.
          have still : closing? label (symbol :: (text ++ more)) = some (indent.length + label.length) :=
            (closing?_eq_some_iff label _ _ labelled wordy).mpr ⟨indent, next :: rest ++ more, by
              rw [← List.cons_append, same]
              simp, indented, ends, rfl⟩
          rw [if_pos starts, still] at covers
          exact covers
      · contradiction
    | none =>
      rw [List.length_cons, Nat.add_comm]
      apply Nat.add_le_add_left
      cases here : (if atLineStart then closing? label (symbol :: (text ++ more)) else none) with
      | none =>
        rw [here, List.length_cons, Nat.add_comm] at covers
        exact ih _ (Nat.le_of_add_le_add_left covers)
      | some size =>
        rw [here] at covers
        split at here
        · -- All of the text is part of a closing line, which it does not leave.
          obtain ⟨indent, rest, same, indented, ends, rfl⟩ := (closing?_eq_some_iff label _ _ labelled wordy).mp here
          rw [← List.append_assoc] at same
          obtain ⟨remaining, whole⟩ := Text.prefix_of_short (symbol :: text) more (indent ++ label) rest same.symm (by
            rw [List.length_append]
            exact covers)
          have plain : ∀ other ∈ symbol :: text, other ≠ .char '\n' := by
            rintro other member rfl
            have inside : .char '\n' ∈ indent ++ label := by
              rw [whole]
              exact List.mem_append_left _ member
            rcases List.mem_append.mp inside with blank | word
            · exact absurd (indented _ blank) (by decide)
            · exact (apart_of_isWord _ (wordy _ word)).2.2 rfl
          have far := body_plain label text [] (fun member => plain _ (List.mem_cons_of_mem _ member) rfl)
          rw [List.append_nil] at far
          rw [beq_false_of_ne (plain symbol List.mem_cons_self), far]
          exact Nat.le_add_right _ _
        · contradiction

/-- A heredoc that takes all of a text is one without what follows the text, too, or the text is a part of its opening
line. -/
theorem extent?_covers (text more : Text) (size : Nat) (found : extent? (text ++ more) = some size)
    (covers : text.length ≤ size) : (∃ size, extent? text = some size ∧ text.length ≤ size) ∨
      ∀ mark ∈ ['#', '/'], .char mark ∉ text := by
  obtain ⟨opening, opened, rfl⟩ := Option.map_eq_some_iff.mp found
  by_cases inside : opening.size ≤ text.length
  · left
    have alone := opening?_truncated text more opening opened inside
    obtain ⟨_, labelled, wordy⟩ := label_of_opening? text opening alone
    rw [List.drop_append_of_le_length inside] at covers
    have far := body_covers opening.label labelled wordy true (text.drop opening.size) more (by
      rw [List.length_drop]
      omega)
    rw [List.length_drop] at far
    refine ⟨opening.size + body opening.label true (text.drop opening.size), ?_, by omega⟩
    rw [extent?, alone]
    rfl
  · right
    obtain ⟨line, rest, same, rfl⟩ := (opening?_eq_some_iff _ _).mp opened
    have front : text <+: line.text :=
      List.prefix_of_prefix_length_le ⟨more, same⟩ (List.prefix_append _ _) (Nat.le_of_not_le inside)
    exact fun mark listed member => line.no_sign mark listed (front.subset member)

end Heredoc

/-- What is left of white space without comments is white space. -/
theorem isBlank_of_mem_bare (context : Context) (text : Text) (each : ∀ symbol ∈ text, symbol.isBlank = true) :
    ∀ symbol ∈ bare (pieces context text), symbol.isBlank = true := by
  intro symbol member
  obtain ⟨piece, kept, inside⟩ := List.mem_flatMap.mp member
  apply each
  rw [← flatMap_pieces context text]
  exact List.mem_flatMap.mpr ⟨piece, (List.mem_filter.mp kept).1, inside⟩

theorem bare_of_no_sign (context : Context) (text : Text) (noSign : ∀ mark ∈ ['#', '/'], .char mark ∉ text) :
    bare (pieces context text) = text := by
  induction context, text using pieces_induction with
  | nil context => rw [pieces_nil, bare_nil]
  | cons context first rest ih =>
    have code := Cut.isComment_ofText context first rest (by
      rintro mark listed rfl
      exact noSign mark listed List.mem_cons_self)
    rw [pieces_cons, bare_cons _ _ code, ih, List.take_append_drop]
    exact fun mark listed member => noSign mark listed (List.mem_of_mem_drop member)

theorem bare_of_covers (context : Context) (first : Sym) (rest : Text)
    (covers : rest.length < (Cut.ofText context first rest).size) :
    bare (pieces context (first :: rest)) =
      if (Cut.ofText context first rest).kind.isComment then [] else first :: rest := by
  have taken : (first :: rest).take (Cut.ofText context first rest).size = first :: rest := List.take_of_length_le covers
  have exhausted : (first :: rest).drop (Cut.ofText context first rest).size = [] := List.drop_of_length_le covers
  rw [pieces_cons, taken, exhausted, pieces_nil]
  cases comment : (Cut.ofText context first rest).kind.isComment with
  | true => rw [bare_comment _ _ comment, bare_nil, if_pos rfl]
  | false => rw [bare_cons _ _ comment, bare_nil, List.append_nil, if_neg Bool.false_ne_true]

namespace Cut

theorem openingTag_no_sign (text more : Text) (opens : Text.startsWith ['<', '?'] (text ++ more) = true)
    (covers : text.length ≤ (openingTag (text ++ more)).size) : ∀ mark ∈ ['#', '/'], .char mark ∉ text := by
  have front : text <+: (text ++ more).take (openingTag (text ++ more)).size :=
    List.prefix_of_prefix_length_le (List.prefix_append text more) (List.take_prefix _ _) (by
      rw [List.length_take, List.length_append]
      omega)
  have others : ∀ mark ∈ ['#', '/'], mark ∉ ['<', '?', '='] ∧
      ∀ character ∈ ['<', '?', 'p', 'h', 'p'], lowered? (.char mark) ≠ some character := by decide
  intro mark listed member
  exact not_mem_openingTag _ opens mark (others mark listed) (front.subset member)

theorem closeTag_no_sign (text more : Text) (closes : Text.startsWith ['?', '>'] text = true)
    (covers : text.length ≤ 2 + Extent.lineBreak ((text ++ more).drop 2)) : ∀ mark ∈ ['#', '/'], .char mark ∉ text := by
  obtain ⟨rest, rfl⟩ := (Text.startsWith_iff _ _).mp closes
  rw [List.append_assoc, List.length_append] at covers
  have plain := Extent.lineBreak_no_sign rest more (Nat.le_of_add_le_add_left covers)
  intro mark listed member
  rcases List.mem_append.mp member with tag | later
  · exact Text.not_mem_ofChars ['#', '/'] ['?', '>'] (by decide) mark listed tag
  · exact plain mark listed later

include blank

theorem operator_blanks (first : Sym) (text : Text) : operator first (text ++ blanks) = operator first text := by
  have inks : ∀ row ∈ operators, ∀ character ∈ row.2.1, Text.isBlank character = false := by decide
  have rows : (operators.find? fun row => first == .char row.1 && Text.startsWith row.2.1 (text ++ blanks)) =
      operators.find? fun row => first == .char row.1 && Text.startsWith row.2.1 text := by
    apply List.find?_congr
    intro row listed
    rw [Text.startsWith_blanks blanks blank row.2.1 (inks row listed)]
  rw [operator, rows, operator]

theorem heredoc_lost (first : Sym) (text : Text)
    (absent : (if Text.startsWith ['<', '<', '<'] (first :: (text ++ blanks)) then
      Heredoc.extent? ((text ++ blanks).drop 2) else none) = none) :
    (if Text.startsWith ['<', '<', '<'] (first :: text) then Heredoc.extent? (text.drop 2) else none) = none := by
  rw [← List.cons_append, Text.startsWith_blanks blanks blank _ (by decide)] at absent
  split
  · next signs =>
    obtain ⟨rest, whole⟩ := (Text.startsWith_iff _ _).mp signs
    obtain ⟨rfl, rfl⟩ : first = .char '<' ∧ text = .char '<' :: .char '<' :: rest := List.cons.inj whole
    rw [if_pos signs] at absent
    exact Heredoc.extent?_lost rest blanks absent
  · rfl

/-- What a cut that takes all of a text and perhaps some of the blanks behind it says about the text alone: either
it is a single cut, and a comment again if it was one, or no comment can begin in it. -/
theorem ofCode_covers (afterAccess : Bool) (first : Sym) (text : Text)
    (covers : text.length < (ofCode afterAccess first (text ++ blanks)).size) :
    (text.length < (ofCode afterAccess first text).size ∧ (ofCode afterAccess first text).kind.isComment =
        (ofCode afterAccess first (text ++ blanks)).kind.isComment) ∨
      (∀ mark ∈ ['#', '/'], .char mark ∉ first :: text) ∧
        (ofCode afterAccess first (text ++ blanks)).kind.isComment = false := by
  have starts : ∀ characters : List Char, (∀ character ∈ characters, Text.isBlank character = false) →
      Text.startsWith characters (first :: (text ++ blanks)) = Text.startsWith characters (first :: text) :=
    fun characters ink => Text.startsWith_blanks blanks blank characters ink (first :: text)
  -- The first symbol is in a class that has no sign of a comment in it.
  have apart : ∀ among : Sym → Bool, among first = true → (∀ mark ∈ ['#', '/'], among (.char mark) = false) →
      ∀ mark ∈ ['#', '/'], first ≠ .char mark := by
    rintro among accepted rejected mark listed rfl
    exact Bool.false_ne_true ((rejected mark listed).symm.trans accepted)
  revert covers
  fun_cases ofCode afterAccess first (text ++ blanks) with
  | case1 space =>
    exact fun covers => .inr ⟨Text.not_mem_of_countWhile _ first text blanks _ (by decide)
      (apart _ space (by decide)) covers, rfl⟩
  | case2 space opens =>
    intro covers
    refine .inr ⟨openingTag_no_sign (first :: text) blanks opens covers, ?_⟩
    rcases openingTag_kind (first :: (text ++ blanks)) with kind | kind
    · rw [kind]
      rfl
    · rw [kind]
      rfl
  | case3 space opens closes =>
    rw [starts _ (by decide)] at closes
    exact fun covers => .inr ⟨closeTag_no_sign (first :: text) blanks closes covers, rfl⟩
  | case4 space opens closes line =>
    intro covers
    rw [starts _ (by decide)] at opens closes line
    have far := Extent.lineComment_covers blanks blank text (by simp only at covers; omega)
    have same : ofCode afterAccess first text = ⟨.lineComment, 1 + Extent.lineComment text, by omega⟩ := by
      simp [ofCode, space, opens, closes, line]
    rw [same]
    exact .inl ⟨by simp only; omega, rfl⟩
  | case5 space opens closes line block =>
    intro covers
    rw [starts _ (by decide)] at opens closes line block
    obtain ⟨rest, same⟩ := (Text.startsWith_iff _ _).mp block
    obtain ⟨rfl, rfl⟩ : first = .char '/' ∧ text = .char '*' :: rest := List.cons.inj same
    have far := Extent.blockComment_covers blanks blank rest (by
      simp only [List.length_cons, List.cons_append, List.drop_succ_cons, List.drop_zero] at covers
      omega)
    have cut : ofCode afterAccess (.char '/') (.char '*' :: rest) =
        ⟨.blockComment, 2 + Extent.blockComment rest, by omega⟩ := rfl
    rw [cut, List.length_cons]
    exact .inl ⟨by simp only; omega, rfl⟩
  | case6 space opens closes line block variable_ =>
    obtain ⟨sign, _⟩ := Bool.and_eq_true_iff.mp variable_
    obtain rfl := of_decide_eq_true sign
    exact fun covers => .inr ⟨Text.not_mem_of_countWhile _ (.char '$') text blanks _ (by decide) (by decide) covers, rfl⟩
  | case7 space opens closes line block variable_ quote =>
    intro covers
    rw [starts _ (by decide)] at opens closes line block
    have far := Extent.quoted_covers first text blanks (by simp only at covers; omega)
    have noVariable : first ≠ .char '$' := by
      rintro rfl
      contradiction
    have same : ofCode afterAccess first text = ⟨.stringLiteral, 1 + Extent.quoted first text, by omega⟩ := by
      simp [ofCode, space, opens, closes, line, block, noVariable, quote]
    rw [same]
    exact .inl ⟨by simp only; omega, rfl⟩
  | case8 space opens closes line block variable_ quote size found =>
    intro covers
    rw [starts _ (by decide)] at found
    split at found
    · next signs =>
      obtain ⟨rest, same⟩ := (Text.startsWith_iff _ _).mp signs
      obtain ⟨rfl, rfl⟩ : first = .char '<' ∧ text = .char '<' :: .char '<' :: rest := List.cons.inj same
      have far : rest.length ≤ size := by
        simp only [List.length_cons] at covers
        omega
      rcases Heredoc.extent?_covers rest blanks size found far with ⟨shorter, extent, body⟩ | plain
      · have cut : ofCode afterAccess (.char '<') (.char '<' :: .char '<' :: rest) =
            ⟨.heredoc, 3 + shorter, by omega⟩ := by
          simp [ofCode, extent, Text.startsWith, Text.ofChars, Sym.satisfies, Text.isCodeBlank, Extent.isQuote]
        rw [cut]
        exact .inl ⟨by simp only [List.length_cons]; omega, rfl⟩
      · refine .inr ⟨fun mark listed member => ?_, rfl⟩
        rcases List.mem_append.mp (show _ ∈ Text.ofChars ['<', '<', '<'] ++ rest from member) with signs | later
        · exact Text.not_mem_ofChars ['#', '/'] ['<', '<', '<'] (by decide) mark listed signs
        · exact plain mark listed later
    · contradiction
  | case9 space opens closes line block variable_ quote absent name size =>
    intro covers
    refine .inr ⟨Text.not_mem_of_countWhile _ first text blanks _ (by decide) (apart _ name (by decide)) covers, ?_⟩
    rcases nameKind_cases afterAccess (first :: (text ++ blanks).take size) with kind | ⟨word, kind⟩
    · rw [kind]
      rfl
    · rw [kind]
      rfl
  | case10 space opens closes line block variable_ quote absent name number =>
    have numeral : (first.satisfies Char.isDigit || decide (first = .char '.')) = true := by
      rw [Bool.or_eq_true, Bool.and_eq_true] at number
      rw [Bool.or_eq_true]
      exact number.imp_right And.left
    exact fun covers => .inr ⟨Text.not_mem_of_countWhile _ first text blanks _ (by decide)
      (apart (fun symbol => symbol.satisfies Char.isDigit || decide (symbol = .char '.')) numeral (by decide)) covers, rfl⟩
  | case11 space opens closes line block variable_ quote absent name number slash =>
    intro covers
    obtain rfl : text = [] := List.eq_nil_of_length_eq_zero (by simp only at covers; omega)
    subst slash
    exact .inr ⟨by decide, rfl⟩
  | case12 space opens closes line block variable_ quote absent name number slash =>
    intro covers
    rw [starts _ (by decide)] at opens closes line block
    have alone := heredoc_lost blanks blank first text absent
    have noVariable : ¬ (first = .char '$' && text.head?.any Extent.isNameStart) = true := by
      rw [Bool.and_eq_true] at variable_ ⊢
      exact fun held => variable_ (And.imp_right (Text.head?_any_append _ text blanks) held)
    have noNumber : ¬ (first.satisfies Char.isDigit ||
        first = .char '.' && text.head?.any (·.satisfies Text.isDigit)) = true := by
      rw [Bool.or_eq_true, Bool.and_eq_true] at number ⊢
      exact fun held => number (Or.imp_right (And.imp_right (Text.head?_any_append _ text blanks)) held)
    rw [operator_blanks blanks blank first text] at covers ⊢
    have cut : ofCode afterAccess first text = operator first text := by
      simp only [ofCode, space, opens, closes, line, block, noVariable, quote, alone, name, noNumber, slash, if_false,
        Bool.false_eq_true]
    rw [cut]
    exact .inl ⟨covers, rfl⟩

include blank in
/-- A cut that ends inside of the text is not changed by white space behind the text: what it looks for behind itself is
a sign, and no sign reaches into white space. -/
theorem ofText_before_blanks (context : Context) (first : Sym) (text : Text)
    (inside : (ofText context first (text ++ blanks)).size ≤ text.length) :
    ofText context first (text ++ blanks) = ofText context first text := by
  refine ofText_truncated context first text blanks inside ?_
  intro tag behind starts
  rw [← List.cons_append, List.drop_append_of_le_length (Nat.le_succ_of_le inside)] at starts
  have sign := tag_of_tagBehind? _ tag behind
  have ink : ∀ character ∈ tag, Text.isBlank character = false := by
    rcases sign with rfl | rfl
    · decide
    · decide
  have two : tag.length = 2 := by
    rcases sign with rfl | rfl
    · rfl
    · rfl
  rw [Text.startsWith_blanks blanks blank tag ink] at starts
  have room := (List.isPrefixOf_iff_prefix.mp starts).length_le
  rw [List.length_drop, Text.ofChars, List.length_map, two, List.length_cons] at room
  omega

end Cut

include blank

theorem bare_covered (context : Context) (first : Sym) (text : Text)
    (covers : text.length < (Cut.ofText context first (text ++ blanks)).size) :
    bare (pieces context (first :: text)) =
      if (Cut.ofText context first (text ++ blanks)).kind.isComment then [] else first :: text := by
  have starts := Text.startsWith_blanks blanks blank ['<', '?'] (by decide) (first :: text)
  rw [List.cons_append] at starts
  by_cases html : (context.inHtml && !Text.startsWith ['<', '?'] (first :: text)) = true
  · have alone : Cut.ofText context first text = ⟨.inlineHtml, 1 + Extent.html text, by omega⟩ := if_pos html
    have longer : Cut.ofText context first (text ++ blanks) =
        ⟨.inlineHtml, 1 + Extent.html (text ++ blanks), by omega⟩ := by
      rw [Cut.ofText, starts, if_pos html]
    rw [longer] at covers ⊢
    have far := Extent.html_covers blanks blank text (by simp only at covers; omega)
    rw [bare_of_covers, alone]
    rw [alone]
    simp only
    omega
  · have alone : Cut.ofText context first text = Cut.ofCode context.afterAccess first text := if_neg html
    have longer : Cut.ofText context first (text ++ blanks) = Cut.ofCode context.afterAccess first (text ++ blanks) := by
      rw [Cut.ofText, starts, if_neg html]
    rw [longer] at covers ⊢
    rcases Cut.ofCode_covers blanks blank context.afterAccess first text covers with ⟨far, comment⟩ | ⟨noSign, code⟩
    · rw [bare_of_covers context first text (by rw [alone]; exact far), alone, comment]
    · rw [bare_of_no_sign context _ noSign, code, if_neg Bool.false_ne_true]

/-- White space behind a text leaves only white space behind what is left of it. -/
theorem bare_before_blanks (context : Context) (text : Text) : ∃ rest : Text,
    (∀ symbol ∈ rest, symbol.isBlank = true) ∧
      bare (pieces context (text ++ blanks)) = bare (pieces context text) ++ rest := by
  generalize count : text.length = length
  induction length using Nat.strong_induction_on generalizing context text with
  | _ length ih =>
    cases text with
    | nil =>
      refine ⟨_, isBlank_of_mem_bare context blanks blank, ?_⟩
      rw [pieces_nil, bare_nil, List.nil_append, List.nil_append]
    | cons first text =>
      have positive := (Cut.ofText context first (text ++ blanks)).size_pos
      by_cases inside : (Cut.ofText context first (text ++ blanks)).size ≤ text.length
      · have fits : (Cut.ofText context first (text ++ blanks)).size ≤ (first :: text).length := Nat.le_succ_of_le inside
        have same := Cut.ofText_before_blanks blanks blank context first text inside
        have shorter : ((first :: text).drop (Cut.ofText context first text).size).length < length := by
          rw [← same, ← count, List.length_drop, List.length_cons]
          omega
        obtain ⟨rest, each, kept⟩ := ih _ shorter (context.after (Cut.ofText context first text).kind) _ rfl
        refine ⟨rest, each, ?_⟩
        rw [List.cons_append, pieces_cons, pieces_cons, same, ← List.cons_append]
        rw [same] at fits
        rw [List.take_append_of_le_length fits, List.drop_append_of_le_length fits]
        cases comment : (Cut.ofText context first text).kind.isComment with
        | true => rw [bare_comment _ _ comment, bare_comment _ _ comment, kept]
        | false => rw [bare_cons _ _ comment, bare_cons _ _ comment, kept, List.append_assoc]
      · have covers : (first :: text).length ≤ (Cut.ofText context first (text ++ blanks)).size := Nat.lt_of_not_le inside
        have further := isBlank_of_mem_bare (context.after (Cut.ofText context first (text ++ blanks)).kind)
          (blanks.drop ((Cut.ofText context first (text ++ blanks)).size - (first :: text).length))
          (fun symbol member => blank symbol (List.mem_of_mem_drop member))
        rw [bare_covered blanks blank context first text covers, List.cons_append, pieces_cons, ← List.cons_append,
          List.take_append, List.take_of_length_le covers, List.drop_append, List.drop_of_length_le covers]
        cases comment : (Cut.ofText context first (text ++ blanks)).kind.isComment with
        | true => exact ⟨_, further, bare_comment _ _ comment⟩
        | false =>
          refine ⟨_, ?_, (bare_cons _ _ comment).trans (List.append_assoc ..)⟩
          intro symbol member
          rcases List.mem_append.mp member with taken | later
          · exact blank symbol (List.mem_of_mem_take taken)
          · exact further symbol later

end Blanks

namespace Text

theorem trim_parts (test : Sym → Bool) (text : Text) : ∃ front back : Text,
    (∀ symbol ∈ front, test symbol = true) ∧ (∀ symbol ∈ back, test symbol = true) ∧
      text = front ++ (trim test text ++ back) := by
  refine ⟨text.takeWhile test, ((text.dropWhile test).reverse.takeWhile test).reverse,
    fun symbol member => List.mem_takeWhile_imp member,
    fun symbol member => List.mem_takeWhile_imp (List.mem_reverse.mp member), ?_⟩
  rw [trim, ← List.reverse_append, List.takeWhile_append_dropWhile, List.reverse_reverse,
    List.takeWhile_append_dropWhile]

theorem trim_margins (test : Sym → Bool) (front text back : Text) (before : ∀ symbol ∈ front, test symbol = true)
    (behind : ∀ symbol ∈ back, test symbol = true) : trim test (front ++ (text ++ back)) = trim test text := by
  rw [trim, List.dropWhile_append_of_pos before, List.dropWhile_append, trim]
  split
  · next empty =>
    rw [List.isEmpty_iff.mp empty, List.dropWhile_eq_nil_iff.mpr behind]
  · rw [List.reverse_append, List.dropWhile_append_of_pos]
    exact fun symbol member => behind symbol (List.mem_reverse.mp member)

end Text

/-- An expression is trimmed before it is lexed, but it makes no difference to what is left of it without comments. -/
theorem withoutComments_eq (text : Text) :
    Chain.withoutComments tokenize text = Text.trim Sym.isBlank (bare (pieces Context.start text)) := by
  have comments : ∀ part : Text, Token.textWithoutComments (tokenize part) = bare (pieces Context.start part) :=
    fun part => textWithoutComments_eq_bare (tokenize part)
  obtain ⟨front, back, before, behind, whole⟩ := Text.trim_parts Sym.isBlank text
  rw [Chain.withoutComments, comments]
  generalize Text.trim Sym.isBlank text = middle at whole
  obtain ⟨rest, blank, kept⟩ := bare_before_blanks back behind Context.start middle
  rw [whole, bare_behind_blanks front _ before, kept, Text.trim_margins Sym.isBlank front _ rest before blank]

end AccessChain
