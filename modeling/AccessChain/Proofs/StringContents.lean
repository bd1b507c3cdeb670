import AccessChain.Proofs.LeftContext
import AccessChain.Proofs.Margins
import AccessChain.Proofs.Offsets
import AccessChain.Proofs.OpenGroups
import AccessChain.Proofs.StrayBytes
import AccessChain.Proofs.Truncation
import AccessChain.Proofs.WrittenScan

/-! What a string among the arguments of a call contains. The scan reads its brackets, and so does the emptying of the
call arguments. As long as brackets are nested there, neither can tell one text of the string from another. -/
namespace AccessChain

namespace Expression

/-- What a byte does to the number of closing brackets of a kind that wait for their opening ones. -/
def wait (bracket : Bracket) (waiting : Nat) (byte : UInt8) : Option Nat :=
  if Bracket.closing? byte = some bracket then some (waiting + 1)
  else if Bracket.opening? byte = some bracket then if waiting = 0 then none else some (waiting - 1)
  else some waiting

theorem wait_of_advance (boundary : KindSet) (bracket : Bracket) (progress next : Progress) (cell : Cell)
    (code : isCode cell = true) (advanced : advance boundary false progress cell = some next) :
    wait bracket (progress.depth.count bracket) cell.byte = some (next.depth.count bracket) := by
  have visible : cell.isHidden false = false := by simpa [isCode] using code
  obtain ⟨visited, _⟩ := Option.filter_eq_some_iff.mp advanced
  cases cell.role false with
  | hidden hidden =>
    rw [visible] at hidden
    contradiction
  | closing visible other closing =>
    have noOpening := opening?_of_closing? _ other closing
    rw [visit_closing _ _ _ cell other visible closing] at visited
    split at visited
    · contradiction
    · obtain rfl := Option.some.inj visited
      by_cases same : bracket = other
      · simp [wait, closing, same, count_update]
      · simp [wait, closing, noOpening, same, Ne.symm same, count_update]
  | opening visible other opening =>
    have noClosing := closing?_of_opening? _ other opening
    rw [visit_opening _ _ _ cell other visible opening] at visited
    split at visited
    · contradiction
    · next waiting =>
      obtain rfl := Option.some.inj visited
      by_cases same : bracket = other
      · subst same
        simp [wait, noClosing, opening, waiting, count_update]
      · simp [wait, noClosing, opening, same, Ne.symm same, count_update]
  | plain visible noOpening noClosing =>
    have kept : next.depth = progress.depth := by
      rw [visit_plain _ _ _ cell visible noOpening noClosing] at visited
      split at visited
      · obtain rfl := Option.some.inj visited
        rfl
      · split at visited
        · contradiction
        · obtain rfl := Option.some.inj visited
          rfl
    simp [wait, noClosing, noOpening, kept]

theorem wait_of_run (boundary : KindSet) (bracket : Bracket) (progress next : Progress) (cells : List Cell)
    (ran : run boundary false progress cells = some next) :
    ((cells.filter isCode).map Cell.byte).foldlM (wait bracket) (progress.depth.count bracket) =
      some (next.depth.count bracket) := by
  induction cells generalizing progress with
  | nil =>
    obtain rfl := Option.some.inj ran
    rfl
  | cons cell cells ih =>
    rw [run_cons] at ran
    obtain ⟨middle, advanced, rest⟩ := Option.bind_eq_some_iff.mp ran
    cases code : isCode cell with
    | false =>
      have hidden : cell.isHidden false = true := by simpa [isCode] using code
      have kept : middle = progress := by
        obtain ⟨visited, _⟩ := Option.filter_eq_some_iff.mp advanced
        rw [visit_hidden _ _ _ cell hidden] at visited
        exact (Option.some.inj visited).symm
      rw [List.filter_cons_of_neg (by simp [code]), ← kept]
      exact ih middle rest
    | true =>
      rw [List.filter_cons_of_pos code, List.map_cons, List.foldlM_cons,
        wait_of_advance boundary bracket progress middle cell code advanced]
      exact ih middle rest

theorem wait_plain (bracket : Bracket) (waiting : Nat) (bytes : List UInt8)
    (plain : ∀ byte ∈ bytes, Bracket.closing? byte ≠ some bracket ∧ Bracket.opening? byte ≠ some bracket) :
    bytes.foldlM (wait bracket) waiting = some waiting := by
  induction bytes with
  | nil => rfl
  | cons byte bytes ih =>
    obtain ⟨noClosing, noOpening⟩ := plain byte List.mem_cons_self
    have step : wait bracket waiting byte = some waiting := by simp [wait, noClosing, noOpening]
    rw [List.foldlM_cons, step]
    exact ih fun other member => plain other (List.mem_cons_of_mem byte member)

theorem wait_symbol (bracket : Bracket) (waiting left : Nat) (symbol : Sym)
    (walked : symbol.bytes.reverse.foldlM (wait bracket) waiting = some left) :
    (symbol = bracket.opener ∧ waiting = left + 1) ∨ (symbol = bracket.closer ∧ left = waiting + 1) ∨
      (symbol ≠ bracket.opener ∧ symbol ≠ bracket.closer ∧ left = waiting) := by
  by_cases opens : symbol = bracket.opener
  · subst opens
    obtain ⟨byte, bytes, opening⟩ := bracket.bytes_of_opener
    have noClosing := closing?_of_opening? byte bracket opening
    obtain ⟨waits, fewer⟩ : waiting ≠ 0 ∧ waiting - 1 = left := by simpa [bytes, wait, noClosing, opening] using walked
    exact .inl ⟨rfl, by omega⟩
  by_cases closes : symbol = bracket.closer
  · subst closes
    obtain ⟨byte, bytes, closing⟩ := bracket.bytes_of_closer
    have more : waiting + 1 = left := by simpa [bytes, wait, closing] using walked
    exact .inr (.inl ⟨rfl, more.symm⟩)
  · have plain := wait_plain bracket waiting symbol.bytes.reverse (by
      intro byte member
      have owned := List.mem_reverse.mp member
      exact ⟨fun closing => closes (Bracket.closer_of_mem_bytes symbol byte owned bracket closing),
        fun opening => opens (Bracket.opener_of_mem_bytes symbol byte owned bracket opening)⟩)
    exact .inr (.inr ⟨opens, closes, Option.some.inj (walked.symm.trans plain)⟩)

theorem openAfter_of_wait (bracket : Bracket) (waiting left : Nat) (text : Text)
    (walked : (Text.encode text).reverse.foldlM (wait bracket) waiting = some left) (depth : Nat) (few : depth ≤ left) :
    Chain.Pair.openAfter bracket depth text ≤ waiting := by
  induction text generalizing left depth with
  | nil =>
    obtain rfl := Option.some.inj walked
    exact few
  | cons symbol text ih =>
    rw [Text.encode_cons, List.reverse_append, List.foldlM_append] at walked
    obtain ⟨middle, rest, here⟩ := Option.bind_eq_some_iff.mp walked
    rcases wait_symbol bracket middle left symbol here with ⟨rfl, more⟩ | ⟨rfl, fewer⟩ | ⟨noOpener, noCloser, same⟩
    · rw [Chain.Pair.openAfter_opener]
      exact ih middle rest _ (by omega)
    · rw [Chain.Pair.openAfter_closer]
      exact ih middle rest _ (by omega)
    · rw [Chain.Pair.openAfter_plain bracket depth symbol text noOpener noCloser]
      exact ih middle rest _ (by omega)

/-- A scan stops at an opening bracket that is not closed behind it, so none is left open in an expression. -/
theorem openAfter_of_run (boundary : KindSet) (bracket : Bracket) (before : Option TokenKind)
    (pieces : List (TokenKind × Text)) (next : Progress)
    (ran : run boundary false Progress.start (cells before pieces) = some next) :
    Chain.Pair.openAfter bracket 0 (bare pieces) = 0 := by
  have waited := wait_of_run boundary bracket Progress.start next _ ran
  rw [code_of_cells] at waited
  have zero : Progress.start.depth.count bracket = 0 := by cases bracket <;> rfl
  rw [zero] at waited
  exact Nat.le_zero.mp (openAfter_of_wait bracket 0 _ (bare pieces) waited 0 (Nat.zero_le _))

end Expression

/-- A call with a string among its arguments, as the tokens of a source. What the string contains is left open. -/
structure QuotedCall where
  /-- What stands before the expression that the call is in. -/
  outside : List (TokenKind × Text)
  callee : List (TokenKind × Text)
  /-- The arguments before the string. -/
  first : List (TokenKind × Text)
  last : List (TokenKind × Text)
  behind : List (TokenKind × Text)
  quote : Sym
  quoted : Extent.isQuote quote = true

namespace QuotedCall

section Parts
variable (call : QuotedCall) (body : Text)

def string : Text := call.quote :: (body ++ [call.quote])

def arguments : List (TokenKind × Text) := call.first ++ (.stringLiteral, call.string body) :: call.last

def expression : List (TokenKind × Text) := call.callee ++ (Written.bracketed (call.arguments body) ++ call.behind)

def expressionText : Text := (call.expression body).flatMap Prod.snd

def source : Text := (call.outside ++ call.expression body).flatMap Prod.snd

/-- The tokens before the string. -/
def front : List (TokenKind × Text) := call.outside ++ (call.callee ++ (.character, [.char '(']) :: call.first)

/-- The tokens behind the string. -/
def back : List (TokenKind × Text) := call.last ++ (.character, [.char ')']) :: call.behind

/-- The string as a token of the source. -/
def token : Token := ⟨.stringLiteral, call.string body, Text.byteLength (call.front.flatMap Prod.snd)⟩

theorem parted : call.outside ++ call.expression body =
    call.front ++ (.stringLiteral, call.string body) :: call.back := by
  simp [expression, front, back, arguments, Written.bracketed]

theorem source_eq : call.source body =
    call.front.flatMap Prod.snd ++ call.quote :: (body ++ call.quote :: call.back.flatMap Prod.snd) := by
  simp [source, parted, string]

theorem endsInString_eq : endsInString (call.outside ++ call.expression body) = endsInString call.back := by
  rw [parted, List.append_cons, back, endsInString_append, ← List.append_assoc, endsInString_append]

theorem bare_expression : bare (call.expression body) =
    bare call.callee ++ (Chain.enclosed (bare (call.arguments body)) ++ bare call.behind) := by
  rw [expression, bare_append, bare_append, Written.bare_bracketed]
  rfl

theorem bare_arguments : bare (call.arguments body) =
    bare call.first ++ call.quote :: (body ++ call.quote :: bare call.last) := by
  rw [arguments, bare_append, bare_cons _ _ rfl]
  simp [string]

end Parts

variable {call : QuotedCall}

/-- The tokens of the source with another text in the string, if that is still one string there. -/
theorem pieces_replaced (body other : Text)
    (cut : pieces Context.start (call.source body) = call.outside ++ call.expression body)
    (kept : call.token other ∈ tokenize (call.source other)) :
    pieces Context.start (call.source other) = call.outside ++ call.expression other := by
  have untagged : call.quote ∉ Text.ofChars ['?', '<'] := by
    intro member
    have quotes : ∀ symbol ∈ Text.ofChars ['?', '<'], Extent.isQuote symbol = false := by decide
    exact Bool.false_ne_true ((quotes _ member).symm.trans call.quoted)
  have source := call.source_eq other
  obtain ⟨before, after, replaced, edge⟩ := pieces_split_at (call.front.flatMap Prod.snd)
    (call.quote :: (other ++ call.quote :: call.back.flatMap Prod.snd)) (call.token other) (source ▸ kept) rfl
  rw [← source] at replaced
  rw [parted] at cut ⊢
  have whole := cut
  have again := replaced
  rw [source_eq] at whole
  rw [source_eq, ← edge] at again
  have front := pieces_before_mark call.quote untagged _ _ _ _ _ _ _ whole again edge.symm
  rw [← front] at replaced
  -- A string leaves the same context behind it, whatever it contains.
  have tail : ∀ (text : Text) (back : List (TokenKind × Text)),
      pieces Context.start (call.source text) = call.front ++ (.stringLiteral, call.string text) :: back →
      pieces ((Context.start.through call.front).after .stringLiteral) (call.back.flatMap Prod.snd) = back := by
    intro text back cut
    have behind := pieces_behind Context.start (call.front.flatMap Prod.snd ++ call.string text)
      (call.back.flatMap Prod.snd) (call.front ++ [(.stringLiteral, call.string text)]) back (by
        rw [← List.append_cons, ← cut, source_eq]
        simp [string]) (by simp)
    rwa [Context.through_append] at behind
  rw [replaced, ← tail body _ cut, ← tail other _ replaced]
  rfl

/-- Another text in the string is read by itself, for it stands between two quotes. -/
theorem decode_source (body other : Text) (decoded : Text.Decoded (call.source body)) :
    Text.decode (Text.encode (call.source other)) = call.source (Text.decode (Text.encode other)) := by
  obtain ⟨value, _, quote⟩ := Extent.exists_of_isQuote call.quote call.quoted
  rw [source_eq, quote] at decoded
  have before := Text.decode_encode_of_decoded _ decoded.of_append_right
  have later : Text.Decoded (call.back.flatMap Prod.snd) := by
    rw [← List.cons_append, List.append_cons, ← List.append_assoc] at decoded
    exact decoded.of_append
  have behind := Text.decode_encode_of_decoded _ later
  have bytes : Text.encode (call.source other) = Text.encode (call.front.flatMap Prod.snd) ++ (Sym.char value).bytes ++
      (Text.encode other ++ (Sym.char value).bytes ++ Text.encode (call.back.flatMap Prod.snd)) := by
    simp [source_eq, quote]
  rw [bytes, Text.decode_append_char, Text.decode_append_char, before, behind, source_eq, quote]

section Scanned
variable (body other : Text) (nested : Nested Bracket.all (bare (call.arguments body)))
  (otherNested : Nested Bracket.all (bare (call.arguments other)))
include nested otherNested

open Expression in
theorem run_expression (boundary : KindSet) (before : Option TokenKind) (next : Progress)
    (ran : run boundary false Progress.start (cells before (call.expression body)) = some next) :
    run boundary false Progress.start (cells before (call.expression other)) = some next := by
  have last : ∀ kind text, lastKind kind (Written.bracketed (call.arguments text)) = some .character := by
    intro kind text
    simp [lastKind, Written.bracketed, List.getLast?_cons, List.getLast?_append]
  simp only [expression, cells_append, last, run_append, Option.bind_eq_some_iff] at ran ⊢
  obtain ⟨inside, ⟨⟨depth, inStaticName⟩, tail, group⟩, rest⟩ := ran
  refine ⟨inside, ⟨⟨depth, inStaticName⟩, tail, ?_⟩, rest⟩
  cases inStaticName with
  | true =>
    rw [run_bracketed_of_static] at group
    contradiction
  | false => rwa [run_bracketed _ _ _ depth otherNested, ← run_bracketed boundary _ _ depth nested]

end Scanned

open Expression in
theorem startBefore_eq_scan (boundary : KindSet) (call : QuotedCall) (text : Text)
    (decoded : Text.Decoded (call.source text))
    (cut : pieces Context.start (call.source text) = call.outside ++ call.expression text)
    (ended : endsInString call.back = false) :
    Scanner.startBefore { boundary } (Text.encode (call.source text)) =
      scan boundary false Progress.start
        (cells (lastKind none call.outside) (call.expression text) ++ cells none call.outside) := by
  rw [AccessChain.startBefore_eq_scan, Text.decode_encode_of_decoded _ decoded, cut, endsInString_eq, ended,
    cells_append]

/-- The call is in the expression that ends behind its source, with the cursor in no string. -/
structure Stands (call : QuotedCall) (boundary : KindSet) (body : Text) : Prop where
  decoded : Text.Decoded (call.source body)
  cut : (tokenize (call.source body)).map Token.piece = call.outside ++ call.expression body
  ended : endsInString call.back = false
  started : Scanner.expressionStart { boundary } (call.source body) none =
    .ok (Text.byteLength (call.outside.flatMap Prod.snd))
  inCode : ∀ piece, call.callee.head? = some piece → piece.1 ≠ .inlineHtml
  named : ∃ symbol ∈ bare call.callee, symbol.isBlank = false

namespace Stands
variable {boundary : KindSet} {body : Text} (stands : call.Stands boundary body)
include stands

theorem startBefore_eq : Scanner.startBefore { boundary } (Text.encode (call.source body)) =
    Text.byteLength (call.outside.flatMap Prod.snd) :=
  Except.ok.inj ((expressionStart_at_end _ _).symm.trans stands.started)

open Expression in
theorem exists_run : ∃ next, run boundary false Progress.start
    (cells (lastKind none call.outside) (call.expression body)) = some next := by
  apply run_of_scan_le boundary false Progress.start _ (cells none call.outside)
  rw [← startBefore_eq_scan boundary call body stands.decoded stands.cut stands.ended, stands.startBefore_eq,
    length_cells]

theorem closed (nested : Nested Bracket.all (bare (call.arguments body))) (bracket : Bracket) :
    Chain.Pair.openAfter bracket 0 (bare call.callee ++ bare call.behind) = 0 := by
  obtain ⟨next, ran⟩ := stands.exists_run
  have balance := Expression.openAfter_of_run boundary bracket _ _ next ran
  rwa [bare_expression, Chain.Pair.openAfter_around bracket 0 _ _ _ (Chain.nested_enclosed bracket _ nested)] at balance

/-- The expression as it is emptied: without comments, and without blanks around it. -/
theorem withoutComments_eq (text : Text)
    (cut : pieces Context.start (call.source text) = call.outside ++ call.expression text) :
    Chain.withoutComments tokenize (call.expressionText text) =
      Text.trim Sym.isBlank
        (bare call.callee ++ (Chain.enclosed (bare (call.arguments text)) ++ bare call.behind)) := by
  rw [source, List.flatMap_append] at cut
  have behind := pieces_behind Context.start _ _ call.outside _ cut rfl
  have alone := bare_in_code _ _ (by
    intro piece found
    obtain ⟨symbol, member, _⟩ := stands.named
    have held : call.callee ≠ [] := by
      rintro vacant
      simp [vacant] at member
    obtain ⟨first, rest, callee⟩ := List.exists_cons_of_ne_nil held
    rw [behind, expression, callee] at found
    exact stands.inCode piece (by rw [callee]; exact found))
  rw [expressionText, AccessChain.withoutComments_eq, alone, behind, bare_expression]

/-- The parts that the expression has when it is emptied, whatever the text of the string. -/
theorem exists_shown (nested : Nested Bracket.all (bare (call.arguments body))) : ∃ left right : Text, left ≠ [] ∧
    (∀ bracket, Chain.Pair.openAfter bracket 0 (left ++ right) = 0) ∧
      ∀ text, pieces Context.start (call.source text) = call.outside ++ call.expression text →
        Chain.withoutComments tokenize (call.expressionText text) =
          left ++ (Chain.enclosed (bare (call.arguments text)) ++ right) := by
  obtain ⟨right, balance, trimmed⟩ := Chain.trim_around (bare call.callee) (bare call.behind)
  refine ⟨(bare call.callee).dropWhile Sym.isBlank, right, ?_, fun bracket => ?_, fun text cut => ?_⟩
  · obtain ⟨symbol, member, shown⟩ := stands.named
    intro vacant
    exact Bool.false_ne_true (shown.symm.trans (List.dropWhile_eq_nil_iff.mp vacant symbol member))
  · exact (balance bracket).trans (stands.closed nested bracket)
  · rw [stands.withoutComments_eq text cut, trimmed]

section Replaced
variable (other : Text) (nested : Nested Bracket.all (bare (call.arguments body)))
  (otherNested : Nested Bracket.all (bare (call.arguments other))) (kept : call.token other ∈ tokenize (call.source other))
include nested otherNested kept

open Expression in
theorem startBefore_replaced (otherDecoded : Text.Decoded (call.source other)) :
    Scanner.startBefore { boundary } (Text.encode (call.source other)) =
      Text.byteLength (call.outside.flatMap Prod.snd) := by
  obtain ⟨next, ran⟩ := stands.exists_run
  have otherCut := pieces_replaced body other stands.cut kept
  have again := run_expression body other nested otherNested boundary _ next ran
  have whole := startBefore_eq_scan boundary call body stands.decoded stands.cut stands.ended
  have replaced := startBefore_eq_scan boundary call other otherDecoded otherCut stands.ended
  rw [scan_append_of_run _ _ _ next _ _ ran, stands.startBefore_eq] at whole
  rw [replaced, scan_append_of_run _ _ _ next _ _ again, whole]

/-- The expression holds a signature before and after if the texts of the string both do, or neither. -/
theorem isSigned_replaced (signature : Chain.holdsSignature false body = Chain.holdsSignature false other) :
    Chain.isSigned (Chain.withoutComments tokenize (call.expressionText body)) =
      Chain.isSigned (Chain.withoutComments tokenize (call.expressionText other)) := by
  obtain ⟨left, right, held, _, shown⟩ := stands.exists_shown nested
  obtain ⟨front, behind, _, unwrapped⟩ := Chain.unwrap_around left right held
  have ends := Chain.endsSignature_of_isQuote call.quote call.quoted
  have parts : ∀ text, Nested Bracket.all (bare (call.arguments text)) →
      Chain.isSigned (left ++ (Chain.enclosed (bare (call.arguments text)) ++ right)) =
        (Chain.holdsSignature false (front ++ .char '(' :: bare call.first) || (Chain.holdsSignature false text ||
          Chain.holdsSignature false (bare call.last ++ .char ')' :: behind))) := by
    intro text nested
    have group := unwrapped _ (Chain.nested_enclosed .round _ nested)
    rw [← Chain.holdsSignature_before ends, ← Chain.holdsSignature_before ends, Chain.isSigned, Chain.enclosed, group,
      bare_arguments]
    simp
  rw [shown body stands.cut, shown other (pieces_replaced body other stands.cut kept), parts body nested,
    parts other otherNested, signature]

theorem segments_replaced
    (signed : Chain.isSigned (Chain.withoutComments tokenize (call.expressionText body)) =
      Chain.isSigned (Chain.withoutComments tokenize (call.expressionText other)))
    (bodies : Chain.StaysClosed (Chain.withoutComments tokenize (call.expressionText body))) :
    Chain.segments tokenize (call.expressionText body) = Chain.segments tokenize (call.expressionText other) := by
  obtain ⟨left, right, held, closed, shown⟩ := stands.exists_shown nested
  have whole := shown body stands.cut
  have replaced := shown other (pieces_replaced body other stands.cut kept)
  rw [whole, replaced] at signed
  rw [whole] at bodies
  have same := Chain.emptied_around left right _ _ nested otherNested held closed signed bodies
  simp only [Chain.segments, whole, replaced, same]

end Replaced
end Stands

end QuotedCall

/-- What a string among the arguments of a call contains makes no difference to the chain, as long as the brackets
between those of the call are nested, the ones in the string included, and the expression holds the signature of a
closure with the one text of the string if it does with the other. In an expression with such a signature, the round
brackets have to be closed again once the curly ones are emptied. The other text counts as it is read: bytes in it that
form a character only together are that character. -/
theorem chain_ignores_string (boundary : KindSet) (call : QuotedCall) (body other read : Text)
    (stands : call.Stands boundary body) (reread : Text.decode (Text.encode other) = read)
    (kept : call.token read ∈ tokenize (call.source read))
    (nested : Nested Bracket.all (bare (call.arguments body)))
    (otherNested : Nested Bracket.all (bare (call.arguments read)))
    (signed : Chain.isSigned (Chain.withoutComments tokenize (call.expressionText body)) =
      Chain.isSigned (Chain.withoutComments tokenize (call.expressionText read)))
    (bodies : Chain.StaysClosed (Chain.withoutComments tokenize (call.expressionText body))) :
    ∃ chain, Scanner.chain { boundary } (call.source body) none = .ok chain ∧
      Scanner.chain { boundary } (call.source other) none = .ok chain ∧
      Scanner.expressionStart { boundary } (call.source other) none =
        .ok (Text.byteLength (call.outside.flatMap Prod.snd)) := by
  have decoded : Text.decode (Text.encode (call.source other)) = call.source read := by
    rw [QuotedCall.decode_source body other stands.decoded, reread]
  have bytes : Text.encode (call.source other) = Text.encode (call.source read) := by
    rw [← decoded, Text.encode_decode]
  have start := stands.startBefore_eq
  have otherStart := stands.startBefore_replaced read nested otherNested kept ⟨_, decoded⟩
  have expression : ∀ text, Text.Decoded (call.source text) →
      Text.decode ((Text.encode (call.source text)).drop (Text.byteLength (call.outside.flatMap Prod.snd))) =
        call.expressionText text := by
    intro text decoded
    rw [QuotedCall.source, List.flatMap_append] at decoded ⊢
    rw [Text.drop_byteLength, Text.decode_encode_of_decoded _ decoded.of_append, QuotedCall.expressionText]
  refine ⟨Chain.segments tokenize (call.expressionText body), ?_, ?_, ?_⟩
  · rw [chain_at_end, start, expression body stands.decoded]
  · rw [chain_at_end, bytes, otherStart, expression read ⟨_, decoded⟩,
      stands.segments_replaced read nested otherNested kept signed bodies]
  · rw [expressionStart_at_end, bytes, otherStart]

/-- A call with a closure as its last argument. -/
def QuotedCall.beforeClosure : QuotedCall where
  outside := [(.identifier, Text.ofString "f"), (.character, Text.ofString "(")]
  callee := [(.varName, Text.ofString "$a"), (.objectOperator, Text.ofString "->"), (.identifier, Text.ofString "g")]
  first := []
  last := [(.character, Text.ofString ","), (.keyword .functionKw, Text.ofString "function"),
    (.character, Text.ofString "("), (.varName, Text.ofString "$y"), (.character, Text.ofString ")"),
    (.character, Text.ofString "\x7b"), (.character, Text.ofString "\x7d")]
  behind := [(.objectOperator, Text.ofString "->"), (.identifier, Text.ofString "b")]
  quote := .char '"'
  quoted := rfl

/-- The text that comes into the string has a full stop and a pair of brackets in it. -/
theorem chain_ignores_string_before_closure :
    QuotedCall.beforeClosure.Stands KindSet.boundary (Text.ofString "x") ∧
      QuotedCall.beforeClosure.token (Text.ofString "(y.z)") ∈
        tokenize (QuotedCall.beforeClosure.source (Text.ofString "(y.z)")) ∧
      ∃ chain, Scanner.chain {} (QuotedCall.beforeClosure.source (Text.ofString "x")) none = .ok chain ∧
        Scanner.chain {} (QuotedCall.beforeClosure.source (Text.ofString "(y.z)")) none = .ok chain ∧
        chain = [Text.ofString "$a", Text.ofString "g()", Text.ofString "b"] := by
  have source : QuotedCall.beforeClosure.source (Text.ofString "x") =
      Text.ofString "f($a->g(\"x\",function($y)\x7b\x7d)->b" := by decide +kernel
  have stands : QuotedCall.beforeClosure.Stands KindSet.boundary (Text.ofString "x") :=
    ⟨⟨Text.encode (Text.ofString "f($a->g(\"x\",function($y)\x7b\x7d)->b"), by rw [source]; decide +kernel⟩,
      by decide +kernel, by decide, by decide +kernel, by decide, ⟨.char '$', by decide, by decide +kernel⟩⟩
  have reread : Text.decode (Text.encode (Text.ofString "(y.z)")) = Text.ofString "(y.z)" := by decide +kernel
  have kept : QuotedCall.beforeClosure.token (Text.ofString "(y.z)") ∈
      tokenize (QuotedCall.beforeClosure.source (Text.ofString "(y.z)")) := by decide +kernel
  have plain : ∀ string ∈ ["\"", "x", "y.z", "\",function", "$y"], Nested Bracket.all (Text.ofString string) := by
    intro string listed
    apply Nested.of_not_mem
    revert string
    decide
  have closure : Nested Bracket.all (Text.ofString "\",function($y)\x7b\x7d") :=
    (plain "\",function" (by decide)).append _ _ _
      (.group .round (Text.ofString "$y") _ (by decide) (plain "$y" (by decide))
        (.enclose _ .curly [] (by decide) .nil))
  have nested : Nested Bracket.all (bare (QuotedCall.beforeClosure.arguments (Text.ofString "x"))) :=
    ((plain "\"" (by decide)).append _ _ _ (plain "x" (by decide))).append _ _ _ closure
  have otherNested : Nested Bracket.all (bare (QuotedCall.beforeClosure.arguments (Text.ofString "(y.z)"))) :=
    ((plain "\"" (by decide)).append _ _ _
      (.enclose _ .round (Text.ofString "y.z") (by decide) (plain "y.z" (by decide)))).append _ _ _ closure
  obtain ⟨chain, whole, replaced, _⟩ := chain_ignores_string KindSet.boundary QuotedCall.beforeClosure
    (Text.ofString "x") (Text.ofString "(y.z)") _ stands reread kept nested otherNested
    (stands.isSigned_replaced _ nested otherNested kept (by decide +kernel)) (by decide +kernel)
  have shown : Scanner.chain {} (QuotedCall.beforeClosure.source (Text.ofString "x")) none =
      .ok [Text.ofString "$a", Text.ofString "g()", Text.ofString "b"] := by decide +kernel
  exact ⟨stands, kept, chain, whole, replaced, Except.ok.inj (whole.symm.trans shown)⟩

/-- A bracket in a string makes a difference: the expression starts behind it. -/
theorem quoted_bracket_ends_expression :
    ¬ ∀ (call : QuotedCall) (body other : Text), call.Stands KindSet.boundary body → Text.Decoded (call.source other) →
      call.token other ∈ tokenize (call.source other) →
      Scanner.chain {} (call.source other) none = Scanner.chain {} (call.source body) none := by
  intro unread
  let call : QuotedCall :=
    ⟨[], [(.varName, Text.ofString "$a"), (.objectOperator, Text.ofString "->"), (.identifier, Text.ofString "f")], [],
      [], [(.objectOperator, Text.ofString "->"), (.identifier, Text.ofString "b")], .char '"', rfl⟩
  have stands : call.Stands KindSet.boundary (Text.ofString "x") :=
    ⟨⟨Text.encode (Text.ofString "$a->f(\"x\")->b"), by decide +kernel⟩, by decide +kernel, by decide,
      by decide +kernel, by decide, ⟨.char '$', by decide, by decide +kernel⟩⟩
  have same := unread call (Text.ofString "x") (Text.ofString "(") stands
    ⟨Text.encode (Text.ofString "$a->f(\"(\")->b"), by decide +kernel⟩ (by decide +kernel)
  exact absurd same (by decide +kernel)

/-- A signature in a string makes a difference to curly brackets that stand elsewhere. -/
example : Scanner.chain {} (Text.ofString "$a->f(\"x\")->\x7b$b\x7d") none ≠
    Scanner.chain {} (Text.ofString "$a->f(\"function ()\")->\x7b$b\x7d") none := by decide +kernel

/-- Where emptying a body takes a closing bracket away, the arguments behind it stay in the chain. -/
example : Scanner.chain {} (Text.ofString "$a->f(\x7b)$v\x7d->g(\"x\",function()\x7b\x7d)->b") none ≠
    Scanner.chain {} (Text.ofString "$a->f(\x7b)$v\x7d->g(\"y\",function()\x7b\x7d)->b") none := by decide +kernel

/-- Where an expression starts in a string, what stands between that string and the next is read as one. -/
example : Scanner.chain {} (Text.ofString "\"a,b\"->f(\"x\")->c") none ≠
    Scanner.chain {} (Text.ofString "\"a,b\"->f(\"#\")->c") none := by decide +kernel

end AccessChain
