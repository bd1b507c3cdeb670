import AccessChain.Proofs.LastStop
import AccessChain.Proofs.LeftContext
import AccessChain.Proofs.Margins
import AccessChain.Proofs.Rejoining
import AccessChain.Proofs.StrayBytes
import Mathlib.Data.List.Forall2

/-! Block comments inside an expression. A comment between two tokens is one more token and changes no other; the
scan passes over it unless it stands in a static class name, and then the chain is the same. -/
namespace AccessChain

/-- A block comment with a text in it. -/
def blockCommentOf (inner : Text) : Text := Text.ofChars ['/', '*'] ++ (inner ++ Text.ofChars ['*', '/'])

/-- Whether a block comment with the text in it goes on to its own end. -/
def IsUnclosed (inner : Text) : Prop := ¬ Text.ofChars ['*', '/'] <:+: inner

theorem Extent.blockComment_of_unclosed (inner back : Text) (unclosed : IsUnclosed inner) :
    blockComment (inner ++ (Text.ofChars ['*', '/'] ++ back)) = inner.length + 2 := by
  induction inner with
  | nil => rfl
  | cons symbol inner ih =>
    have further : IsUnclosed inner := fun ⟨left, right, same⟩ => unclosed ⟨symbol :: left, right, by
      rw [← same]
      rfl⟩
    have goesOn : ¬ Text.startsWith ['*', '/'] (symbol :: (inner ++ (Text.ofChars ['*', '/'] ++ back))) = true := by
      intro starts
      obtain ⟨rest, same⟩ := (Text.startsWith_iff _ _).mp starts
      obtain ⟨rfl, behind⟩ : symbol = .char '*' ∧ inner ++ (Text.ofChars ['*', '/'] ++ back) = .char '/' :: rest :=
        List.cons.inj same
      cases inner with
      | nil =>
        obtain ⟨other, _⟩ := List.cons.inj behind
        contradiction
      | cons next inner =>
        obtain ⟨rfl, _⟩ := List.cons.inj behind
        exact unclosed ⟨[], inner, rfl⟩
    rw [List.cons_append, blockComment, if_neg goesOn, ih further, List.length_cons]
    omega

namespace Context

theorem after_comment (context : Context) (inCode : context.inHtml = false) : context.after .blockComment = context := by
  obtain ⟨inHtml, afterAccess⟩ := context
  subst inCode
  rfl

theorem inHtml_through (context : Context) (pieces : List (TokenKind × Text)) (last : TokenKind × Text)
    (inCode : last.1 ≠ .closeTag) : (context.through (pieces ++ [last])).inHtml = false := by
  rw [through_append, through_cons, through_nil]
  exact beq_false_of_ne inCode

end Context

theorem pieces_comment (context : Context) (inner back : Text) (inCode : context.inHtml = false)
    (unclosed : IsUnclosed inner) :
    pieces context (blockCommentOf inner ++ back) = (.blockComment, blockCommentOf inner) :: pieces context back := by
  have text : blockCommentOf inner ++ back =
      .char '/' :: .char '*' :: (inner ++ (Text.ofChars ['*', '/'] ++ back)) := by
    simp [blockCommentOf, Text.ofChars]
  have cut : Cut.ofText context (.char '/') (.char '*' :: (inner ++ (Text.ofChars ['*', '/'] ++ back))) =
      ⟨.blockComment, 2 + Extent.blockComment (inner ++ (Text.ofChars ['*', '/'] ++ back)), by omega⟩ := by
    rw [Cut.ofText, inCode]
    rfl
  have size : 2 + Extent.blockComment (inner ++ (Text.ofChars ['*', '/'] ++ back)) = (blockCommentOf inner).length := by
    rw [Extent.blockComment_of_unclosed inner back unclosed]
    simp [blockCommentOf, Text.ofChars]
    omega
  rw [text, pieces_cons, cut, ← text]
  simp only [size, List.take_left, List.drop_left, context.after_comment inCode]

theorem Cut.ofCode_slash (afterAccess : Bool) (rest : Text)
    (taken : (.char '/' :: rest).take (ofCode afterAccess (.char '/') rest).size = [.char '/']) :
    (ofCode afterAccess (.char '/') rest).kind = .character := by
  cases rest with
  | nil => rfl
  | cons next more =>
    have short : (ofCode afterAccess (.char '/') (next :: more)).size < 2 := by
      have length := congrArg List.length taken
      simp only [List.length_take, List.length_cons, List.length_nil] at length
      omega
    by_cases line : next = .char '/'
    · subst line
      have size : (ofCode afterAccess (.char '/') (.char '/' :: more)).size = 1 + (1 + Extent.lineComment more) := rfl
      omega
    by_cases block : next = .char '*'
    · subst block
      have size : (ofCode afterAccess (.char '/') (.char '*' :: more)).size = 2 + Extent.blockComment more := rfl
      omega
    by_cases sign : next = .char '='
    · subst sign
      have size : (ofCode afterAccess (.char '/') (.char '=' :: more)).size = 2 := rfl
      omega
    · have others : ∀ mark ∈ ['/', '*', '='], (Sym.char mark == next) = false := by
        intro mark listed
        apply beq_false_of_ne
        rintro rfl
        simp only [List.mem_cons, List.not_mem_nil, or_false] at listed
        rcases listed with rfl | rfl | rfl <;> contradiction
      have comments : ∀ mark ∈ ['/', '*'], Text.startsWith ['/', mark] (.char '/' :: next :: more) = false := by
        intro mark listed
        simp [Text.startsWith, Text.ofChars, List.isPrefixOf, others mark (by simp at listed ⊢; tauto)]
      have equals : Text.startsWith ['='] (next :: more) = false := by
        simp [Text.startsWith, Text.ofChars, List.isPrefixOf, others '=' (by decide)]
      have cut : ofCode afterAccess (.char '/') (next :: more) = operator (.char '/') (next :: more) := by
        simp only [ofCode, comments '/' (by decide), comments '*' (by decide)]
        rfl
      have character : operator (.char '/') (next :: more) = ⟨.character, 1, Nat.one_pos⟩ := by
        simp [operator, operators, equals]
      rw [cut, character]

theorem kind_of_slash (context : Context) (text : Text) (piece : TokenKind × Text) (member : piece ∈ pieces context text)
    (slash : piece.2 = [.char '/']) : piece.1 = .inlineHtml ∨ piece.1 = .character := by
  induction context, text using pieces_induction with
  | nil context => simp at member
  | cons context first rest ih =>
    rw [pieces_cons] at member
    rcases List.mem_cons.mp member with rfl | later
    · simp only at slash ⊢
      obtain rfl : first = .char '/' := by
        obtain ⟨size, more⟩ := Nat.exists_eq_add_one.mpr (Cut.ofText context first rest).size_pos
        rw [more, List.take_succ_cons] at slash
        exact (List.cons.inj slash).1
      by_cases html : (context.inHtml && !Text.startsWith ['<', '?'] (.char '/' :: rest)) = true
      · rw [Cut.ofText, if_pos html]
        exact .inl rfl
      · rw [Cut.ofText, if_neg html] at slash ⊢
        exact .inr (Cut.ofCode_slash context.afterAccess rest slash)
    · exact ih later

/-- A place where two pieces of a text meet and a comment can be put between them. -/
theorem pieces_with_comment (context : Context) (front rest : List (TokenKind × Text)) (last : TokenKind × Text)
    (back inner : Text) (held : back ≠ [])
    (cut : pieces context ((front ++ [last]).flatMap Prod.snd ++ back) = front ++ last :: rest)
    (ended : Cut.tagBehind? last.1 = none) (inCode : last.1 ≠ .closeTag) (noSlash : last.2 ≠ [.char '/'])
    (unclosed : IsUnclosed inner) :
    pieces context ((front ++ [last]).flatMap Prod.snd ++ (blockCommentOf inner ++ back)) =
      front ++ stoppedPiece last :: (.blockComment, blockCommentOf inner) :: rest := by
  have outside := context.inHtml_through front last inCode
  have behind : pieces (context.through (front ++ [last])) back = rest := by
    apply pieces_behind context ((front ++ [last]).flatMap Prod.snd) back (front ++ [last]) rest _ rfl
    rw [cut, List.append_assoc]
    rfl
  have rejoined := pieces_rejoined (isStop '/' (by decide)) context back
    (.char '*' :: (inner ++ (Text.ofChars ['*', '/'] ++ back))) front rest last held cut ended noSlash
  have text : blockCommentOf inner ++ back =
      .char '/' :: .char '*' :: (inner ++ (Text.ofChars ['*', '/'] ++ back)) := by
    simp [blockCommentOf, Text.ofChars]
  rw [← text, pieces_comment _ inner back outside unclosed, behind] at rejoined
  exact rejoined

/-- Two tokens of a text that meet behind its front, where a comment leaves both as they are. -/
structure Seam (front back : Text) (left right : Token) : Prop where
  meets : ∃ before after, tokenize (front ++ back) = before ++ left :: right :: after ∧
    (before ++ [left]).flatMap Token.text = front
  inCode : left.kind ≠ .inlineHtml ∧ right.kind ≠ .inlineHtml
  noComment : left.kind ≠ .lineComment
  noTag : left.kind ≠ .closeTag
  noSlash : ¬ (left.kind = .character ∧ left.text = [.char '/'])

namespace Seam
variable {front back : Text} {left right : Token} (seam : Seam front back left right)
include seam

theorem exists_pieces : ∃ before after : List (TokenKind × Text),
    pieces Context.start (front ++ back) = before ++ left.piece :: right.piece :: after ∧
      (before ++ [left.piece]).flatMap Prod.snd = front ∧
      ∀ inner, IsUnclosed inner → pieces Context.start (front ++ (blockCommentOf inner ++ back)) =
        before ++ stoppedPiece left.piece :: (.blockComment, blockCommentOf inner) :: right.piece :: after := by
  obtain ⟨before, after, cut, texts⟩ := seam.meets
  have parted : pieces Context.start (front ++ back) =
      before.map Token.piece ++ left.piece :: right.piece :: after.map Token.piece := by
    rw [pieces, ← tokenize, cut, List.map_append, List.map_cons, List.map_cons]
  have edge : (before.map Token.piece ++ [left.piece]).flatMap Prod.snd = front := by
    rw [← List.map_singleton, ← List.map_append, List.flatMap_map]
    exact texts
  refine ⟨before.map Token.piece, after.map Token.piece, parted, edge, ?_⟩
  intro inner unclosed
  have held : back ≠ [] := by
    rintro rfl
    have whole := flatMap_pieces Context.start (front ++ [])
    rw [parted, List.append_nil, ← edge, List.append_cons, List.flatMap_append, List.append_right_eq_self] at whole
    have owned := ne_nil_of_mem_pieces Context.start (front ++ []) right.piece (by rw [parted]; simp)
    rw [List.flatMap_cons, List.append_eq_nil_iff] at whole
    exact owned whole.1
  have ended : Cut.tagBehind? left.piece.1 = none := by
    have html := seam.inCode.1
    have comment := seam.noComment
    change Cut.tagBehind? left.kind = none
    cases kind : left.kind <;> simp_all [Cut.tagBehind?]
  have noSlash : left.piece.2 ≠ [.char '/'] := by
    intro slash
    rcases kind_of_slash Context.start _ left.piece (by rw [parted]; simp) slash with html | character
    · exact seam.inCode.1 html
    · exact seam.noSlash ⟨character, slash⟩
  rw [← edge] at parted ⊢
  exact pieces_with_comment Context.start _ _ left.piece back inner held parted ended seam.noTag noSlash unclosed

/-- What a comment adds to a text is taken off again before the text falls into segments. -/
theorem segments_with_comment (inner : Text) (unclosed : IsUnclosed inner) :
    Chain.segments tokenize (front ++ (blockCommentOf inner ++ back)) = Chain.segments tokenize (front ++ back) := by
  obtain ⟨before, after, cut, _, longer⟩ := seam.exists_pieces
  have same : bare (stoppedPiece left.piece :: (.blockComment, blockCommentOf inner) :: right.piece :: after) =
      bare (left.piece :: right.piece :: after) := by
    unfold stoppedPiece
    split
    · next point =>
      rw [point, bare_cons _ _ rfl, bare_comment _ _ rfl, bare_cons (.number, [.char '.']) _ rfl]
    · cases comment : left.piece.1.isComment with
      | true => rw [bare_comment _ _ comment, bare_comment _ _ rfl, bare_comment _ _ comment]
      | false => rw [bare_cons _ _ comment, bare_comment _ _ rfl, bare_cons _ _ comment]
  simp only [Chain.segments, withoutComments_eq, cut, longer inner unclosed, bare_append, same]

end Seam

theorem map_text_tokenize (source : Text) :
    (tokenize source).map Token.text = (pieces Context.start source).map Prod.snd := by
  rw [pieces, List.map_map]
  rfl

/-- A block comment between two tokens changes the text of no token, in front of it or behind it, and no segment. -/
theorem segments_ignore_comment (front back inner : Text) (left right : Token) (seam : Seam front back left right)
    (unclosed : IsUnclosed inner) :
    (∃ earlier later : List Text, (tokenize (front ++ back)).map Token.text = earlier ++ later ∧
      earlier.flatten = front ∧ later.flatten = back ∧
      (tokenize (front ++ (blockCommentOf inner ++ back))).map Token.text = earlier ++ blockCommentOf inner :: later) ∧
    Chain.segments tokenize (front ++ (blockCommentOf inner ++ back)) = Chain.segments tokenize (front ++ back) := by
  refine ⟨?_, seam.segments_with_comment inner unclosed⟩
  obtain ⟨before, after, cut, edge, longer⟩ := seam.exists_pieces
  have stopped : (stoppedPiece left.piece).2 = left.piece.2 := by
    unfold stoppedPiece
    split
    · next point => rw [point]
    · rfl
  have texts : (tokenize (front ++ back)).map Token.text =
      (before ++ [left.piece]).map Prod.snd ++ (right.piece :: after).map Prod.snd := by
    rw [map_text_tokenize, cut, List.append_cons, List.map_append]
  have edges : ((before ++ [left.piece]).map Prod.snd).flatten = front := by
    rw [← List.flatMap_def]
    exact edge
  refine ⟨_, _, texts, edges, ?_, ?_⟩
  · have whole := flatMap_text_tokenize (front ++ back)
    rw [List.flatMap_def, texts, List.flatten_append, edges] at whole
    exact List.append_cancel_left whole
  · rw [map_text_tokenize, longer inner unclosed]
    simp [stopped]

/-- The comment stands between a full stop that is a number and the digit behind it, and holds what would else be read
as segments. -/
theorem segments_ignore_comment_behind_point :
    Seam (Text.ofString "$a->b(.") (Text.ofString "٣)->c") ⟨.number, Text.ofString ".", 6⟩ ⟨.identifier, Text.ofString "٣", 7⟩ ∧
      (tokenize (Text.ofString "$a->b(." ++ (blockCommentOf (Text.ofString ")->d(") ++ Text.ofString "٣)->c"))).map
        Token.kind = [.varName, .objectOperator, .identifier, .character, .character, .blockComment, .identifier,
          .character, .objectOperator, .identifier] ∧
      Chain.segments tokenize (Text.ofString "$a->b(." ++ (blockCommentOf (Text.ofString ")->d(") ++ Text.ofString "٣)->c")) =
        [Text.ofString "$a", Text.ofString "b()", Text.ofString "c"] := by
  have seam : Seam (Text.ofString "$a->b(.") (Text.ofString "٣)->c") ⟨.number, Text.ofString ".", 6⟩
      ⟨.identifier, Text.ofString "٣", 7⟩ :=
    ⟨⟨[⟨.varName, Text.ofString "$a", 0⟩, ⟨.objectOperator, Text.ofString "->", 2⟩, ⟨.identifier, Text.ofString "b", 4⟩,
        ⟨.character, Text.ofString "(", 5⟩],
      [⟨.character, Text.ofString ")", 9⟩, ⟨.objectOperator, Text.ofString "->", 10⟩, ⟨.identifier, Text.ofString "c", 12⟩],
      by decide +kernel, by decide +kernel⟩, by decide, by decide, by decide, by decide⟩
  have unclosed : IsUnclosed (Text.ofString ")->d(") := by
    unfold IsUnclosed
    decide +kernel
  have same := (segments_ignore_comment _ _ (Text.ofString ")->d(") _ _ seam unclosed).2
  exact ⟨seam, by decide +kernel, same.trans (by decide +kernel)⟩

namespace Sight
open Expression

/-- A visible closing curly bracket outside round ones, which ends a block unless a variable stands before it. -/
def ClosesBlock (sight : Sight) (place : Nat) : Prop :=
  sight.IsVisible place ∧ sight.code[place]? = some 0x7D ∧ sight.opened .round place = sight.closed .round place

section Running
variable (sight : Sight) (colons : sight.PlainColons) (place count : Nat)
  (bound : place + count ≤ sight.code.length) (progress : Progress) (described : sight.Describes progress (place + count))
include colons bound described

theorem describes_of_run (next : Progress) (ran : run sight.boundary sight.inString progress
    ((List.range' place count).reverse.map sight.cellAt) = some next) : sight.Describes next place := by
  induction count generalizing progress with
  | zero =>
    obtain rfl := Option.some.inj ran
    exact described
  | succ count ih =>
    rw [List.range'_1_concat, List.reverse_concat, List.map_cons, run_cons] at ran
    obtain ⟨middle, advanced, rest⟩ := Option.bind_eq_some_iff.mp ran
    exact ih (Nat.le_of_succ_le bound) middle
      (describes_of_advance sight progress (place + count) bound described colons middle advanced) rest

/-- Another kind in front of some places makes no difference to a scan over them if no block is closed there. -/
theorem run_behind_other (other : Option TokenKind)
    (free : ∀ index < count, ¬ sight.ClosesBlock (place + index)) : run sight.boundary sight.inString progress
      ((List.range' place count).reverse.map fun index => { sight.cellAt index with before := other }) =
    run sight.boundary sight.inString progress ((List.range' place count).reverse.map sight.cellAt) := by
  induction count generalizing progress with
  | zero => rfl
  | succ count ih =>
    rw [List.range'_1_concat, List.reverse_concat, List.map_cons, List.map_cons, run_cons, run_cons]
    have inside : place + count < sight.code.length := bound
    have same : advance sight.boundary sight.inString progress { sight.cellAt (place + count) with before := other } =
        advance sight.boundary sight.inString progress (sight.cellAt (place + count)) := by
      apply advance_before
      by_cases hidden : (sight.cellAt (place + count)).isHidden sight.inString = true
      · exact .inr (.inr (.inl hidden))
      by_cases curly : (sight.cellAt (place + count)).byte = 0x7D
      · refine .inr (.inr (.inr fun outside => free count (Nat.lt_succ_self count) ⟨?_, ?_, ?_⟩))
        · exact (sight.isShown_cellAt _).mp (eq_false_of_ne_true hidden)
        · rw [sight.byte_at _ inside, curly]
        · have counted := waiting_other sight progress _ inside described .round (by rw [curly]; decide)
            (by rw [curly]; decide)
          change progress.depth.round + _ = _ at counted
          omega
      · exact .inr (.inl curly)
    rw [same]
    cases advanced : advance sight.boundary sight.inString progress (sight.cellAt (place + count)) with
    | none => rfl
    | some middle =>
      exact ih (Nat.le_of_succ_le bound) middle
        (describes_of_advance sight progress (place + count) bound described colons middle advanced)
        fun index before => free index (Nat.lt_succ_of_lt before)

end Running

/-- The cells behind a place, from right to left, when two parts of a text meet there. -/
theorem cells_of_parts (boundary : KindSet) (code : List UInt8) (later earlier : List Cell) (place : Nat)
    (cut : cells none (pieces Context.start (Text.decode code)) = later ++ earlier) (size : earlier.length = place) :
    place + later.length = code.length ∧
      later = (List.range' place later.length).reverse.map (ofCode boundary code).cellAt ∧
      earlier = (List.range place).reverse.map (ofCode boundary code).cellAt := by
  have whole := cells_eq_cellAt boundary code
  have length : place + later.length = code.length := by
    have sizes := congrArg List.length (cut.symm.trans whole)
    simp only [List.length_append, List.length_map, List.length_reverse, List.length_range] at sizes
    omega
  have parted : List.range code.length = List.range place ++ List.range' place later.length := by
    rw [← length, List.range_eq_range', List.range_eq_range', ← List.range'_append_1, Nat.zero_add]
  rw [cut, parted, List.reverse_append, List.map_append] at whole
  exact ⟨length, List.append_inj whole (by simp)⟩

/-- The cells of a token and of all that stands behind it, as places of the text. -/
theorem cells_at_token (boundary : KindSet) (code : List UInt8) (before after : List (TokenKind × Text))
    (left right : TokenKind × Text) (place : Nat)
    (cut : pieces Context.start (Text.decode code) = before ++ left :: right :: after)
    (edge : Text.byteLength ((before ++ [left]).flatMap Prod.snd) = place) :
    place + Text.byteLength right.2 + (cells (some right.1) after).length = code.length ∧
      cells (some right.1) after = (List.range' (place + Text.byteLength right.2)
        (cells (some right.1) after).length).reverse.map (ofCode boundary code).cellAt ∧
      pieceCells (some left.1) right =
        (List.range' place (Text.byteLength right.2)).reverse.map (ofCode boundary code).cellAt := by
  have size : (pieceCells (lastKind none before) left ++ cells none before).length = place := by
    rw [← edge]
    simp [Nat.add_comm]
  have width : (pieceCells (some left.1) right).length = Text.byteLength right.2 := length_pieceCells _ _
  have parted : cells none (pieces Context.start (Text.decode code)) =
      cells (some right.1) after ++ (pieceCells (some left.1) right ++
        (pieceCells (lastKind none before) left ++ cells none before)) := by
    rw [cut, cells_append, cells_cons, cells_cons, List.append_assoc, List.append_assoc]
  obtain ⟨total, tail, _⟩ := cells_of_parts boundary _ _ _ (place + Text.byteLength right.2) parted (by
    rw [List.length_append, size, width, Nat.add_comm])
  rw [← List.append_assoc] at parted
  obtain ⟨_, both, _⟩ := cells_of_parts boundary _ _ _ place parted size
  rw [List.length_append, width, Nat.add_comm, ← List.range'_append_1, List.reverse_append, List.map_append] at both
  exact ⟨total, tail, (List.append_inj both (by simp)).2⟩

end Sight

namespace Expression

section Running
variable (boundary : KindSet) (inString : Bool)

theorem run_comment (progress : Progress) (outside : progress.inStaticName = false) (before : Option TokenKind)
    (piece : TokenKind × Text) (comment : piece.1.isComment = true) :
    run boundary inString progress (pieceCells before piece) = some progress := by
  unfold pieceCells
  induction (Text.encode piece.2).reverse with
  | nil => rfl
  | cons byte bytes ih =>
    have hidden : Cell.isHidden inString ⟨byte, some piece.1, before⟩ = true := by simp [Cell.isHidden, comment]
    have kept : advance boundary inString progress ⟨byte, some piece.1, before⟩ = some progress := by
      rw [advance, visit_hidden _ _ _ _ hidden]
      simp [outside]
    rw [List.map_cons, run_cons, kept]
    exact ih

/-- A full stop ends an expression outside all brackets, whether it is a number or not. -/
theorem scan_stoppedPiece (progress : Progress) (outside : progress.inStaticName = false) (before : Option TokenKind)
    (piece : TokenKind × Text) (cells : List Cell) :
    scan boundary inString progress (pieceCells before (stoppedPiece piece) ++ cells) =
      scan boundary inString progress (pieceCells before piece ++ cells) := by
  unfold stoppedPiece
  split
  · next point =>
    subst point
    have stop : ∀ kind, kind = .number ∨ kind = .character →
        advance boundary inString progress ⟨0x2E, some kind, before⟩ =
          if progress.depth ≠ Depth.zero then some progress else none := by
      intro kind plain
      have shown : Cell.isHidden inString ⟨0x2E, some kind, before⟩ = false := by
        rcases plain with rfl | rfl <;> cases inString <;> rfl
      rw [advance, visit_plain _ _ _ _ shown rfl rfl]
      split
      · simp [outside]
      · have ends : Cell.isBoundary boundary ⟨0x2E, some kind, before⟩ = true := rfl
        rw [if_pos ends]
        rfl
    have single : ∀ kind : TokenKind, pieceCells before (kind, [.char '.']) = [⟨0x2E, some kind, before⟩] := fun _ => rfl
    rw [single, single, List.singleton_append, List.singleton_append, scan, scan, stop _ (.inr rfl), stop _ (.inl rfl)]
  · rfl

end Running
end Expression

section Inserted
variable (boundary : KindSet) {front back : Text} {left right : Token} (seam : Seam front back left right)
  (decoded : Text.Decoded (front ++ back))
  (inside : Scanner.startBefore { boundary } (Text.encode (front ++ back)) ≤ Text.byteLength front)
  (noStatic : ∀ place, Text.byteLength front ≤ place → place < Text.byteLength (front ++ back) →
    ¬ (Sight.ofCode boundary (Text.encode (front ++ back))).IsStaticColon place)
  (noBlock : left.kind = .varName → ∀ index < right.byteLength,
    ¬ (Sight.ofCode boundary (Text.encode (front ++ back))).ClosesBlock (Text.byteLength front + index))
include noStatic in
open Expression Sight in
/-- A scan that comes to the place where two tokens meet has passed all that stands behind it, without a static class
name to its right. -/
theorem exists_run_to_seam (before after : List (TokenKind × Text))
    (cut : pieces Context.start (Text.decode (Text.encode (front ++ back))) =
      before ++ left.piece :: right.piece :: after)
    (edge : (before ++ [left.piece]).flatMap Prod.snd = front)
    (inside : scan boundary (ofCode boundary (Text.encode (front ++ back))).inString Progress.start
      (cells none (before ++ left.piece :: right.piece :: after)) ≤ Text.byteLength front) :
    ∃ middle progress : Progress,
      run boundary (ofCode boundary (Text.encode (front ++ back))).inString Progress.start
        (cells (some right.piece.1) after) = some middle ∧
      run boundary (ofCode boundary (Text.encode (front ++ back))).inString middle
        (pieceCells (some left.piece.1) right.piece) = some progress ∧
      (ofCode boundary (Text.encode (front ++ back))).Describes middle (Text.byteLength front + right.byteLength) ∧
      progress.inStaticName = false := by
  let sight := ofCode boundary (Text.encode (front ++ back))
  have colons : sight.PlainColons := plainColons_ofCode boundary _
  obtain ⟨total, tail, here⟩ := cells_at_token boundary _ before after left.piece right.piece _ cut
    (congrArg Text.byteLength edge)
  have size : (pieceCells (lastKind none before) left.piece ++ cells none before).length = Text.byteLength front := by
    rw [← edge]
    simp [Nat.add_comm]
  simp only [cells_append, cells_cons, List.append_assoc] at inside
  rw [← List.append_assoc, ← size] at inside
  obtain ⟨progress, ran⟩ := run_of_scan_le _ _ _ _ _ inside
  rw [run_append] at ran
  obtain ⟨middle, ranTail, ranHere⟩ := Option.bind_eq_some_iff.mp ran
  have described : sight.Describes middle (Text.byteLength front + right.byteLength) := by
    apply describes_of_run sight colons _ _ (Nat.le_of_eq total) Progress.start
    · have start : sight.Describes Progress.start (Text.encode (front ++ back)).length := sight.describes_start
      rwa [← total] at start
    · rw [← tail]
      exact ranTail
  refine ⟨middle, progress, ranTail, ranHere, described, eq_false_of_ne_true fun passed => ?_⟩
  have reached := describes_of_run sight colons _ _ (Nat.le_of_add_right_le (Nat.le_of_eq total)) middle described
    progress (by rw [← here]; exact ranHere)
  obtain ⟨place, behind, before, colon⟩ := reached.passed.mp passed
  exact noStatic place behind before colon

include seam decoded inside noStatic noBlock

open Expression Sight in
/-- A scan that comes to a place where two tokens meet passes over a comment there and goes on as it would have. -/
theorem startBefore_with_comment (inner : Text) (unclosed : IsUnclosed inner)
    (longer : Text.Decoded (front ++ (blockCommentOf inner ++ back))) :
    Scanner.startBefore { boundary } (Text.encode (front ++ (blockCommentOf inner ++ back))) =
      Scanner.startBefore { boundary } (Text.encode (front ++ back)) := by
  obtain ⟨before, after, cut, edge, inserted⟩ := seam.exists_pieces
  have inserted := inserted inner unclosed
  have read : Text.decode (Text.encode (front ++ back)) = front ++ back := Text.decode_encode_of_decoded _ decoded
  rw [← read] at cut
  let sight := ofCode boundary (Text.encode (front ++ back))
  have string : sight.inString = endsInString (before ++ left.piece :: right.piece :: after) := by
    rw [← cut, endsInString_pieces]
    rfl
  have stringLonger : endsInString (before ++ stoppedPiece left.piece :: (.blockComment, blockCommentOf inner) ::
      right.piece :: after) = sight.inString := by
    rw [string, List.append_cons, List.append_cons, endsInString_append, List.append_cons before, endsInString_append]
  have started : Scanner.startBefore { boundary } (Text.encode (front ++ back)) =
      scan boundary sight.inString Progress.start (cells none (before ++ left.piece :: right.piece :: after)) := by
    rw [startBefore_eq_scan, cut, string]
  have startedLonger : Scanner.startBefore { boundary } (Text.encode (front ++ (blockCommentOf inner ++ back))) =
      scan boundary sight.inString Progress.start (cells none (before ++ stoppedPiece left.piece ::
        (.blockComment, blockCommentOf inner) :: right.piece :: after)) := by
    rw [startBefore_eq_scan, Text.decode_encode_of_decoded _ longer, inserted, stringLonger]
  rw [started] at inside
  obtain ⟨middle, progress, ranTail, ranHere, described, outside⟩ :=
    exists_run_to_seam boundary noStatic before after cut edge inside
  obtain ⟨total, _, here⟩ := cells_at_token boundary _ before after left.piece right.piece _ cut
    (congrArg Text.byteLength edge)
  have again : run boundary sight.inString middle (pieceCells (some .blockComment) right.piece) = some progress := by
    rw [← ranHere]
    by_cases variable_ : left.kind = .varName
    · have behind := run_behind_other sight (plainColons_ofCode boundary _) _ _
        (Nat.le_of_add_right_le (Nat.le_of_eq total)) middle described (some .blockComment) (noBlock variable_)
      have other : pieceCells (some .blockComment) right.piece =
          (pieceCells (some left.piece.1) right.piece).map fun cell => { cell with before := some .blockComment } := by
        rw [pieceCells, pieceCells, List.map_map]
        rfl
      rw [other, here, List.map_map]
      exact behind
    · exact (run_pieceCells boundary sight.inString middle _ _ right.piece
        (.inl (iff_of_false (by decide) fun same => variable_ (Option.some.inj same)))).1
  rw [startedLonger, started]
  simp only [cells_append, cells_cons, List.append_assoc]
  rw [scan_append_of_run _ _ _ middle _ _ ranTail, scan_append_of_run _ _ _ middle _ _ ranTail,
    scan_append_of_run _ _ _ progress _ _ again, scan_append_of_run _ _ _ progress _ _ ranHere,
    scan_append_of_run _ _ _ progress _ _ (run_comment _ _ progress outside _ _ rfl),
    scan_stoppedPiece _ _ progress outside]

end Inserted

/-! Where the comment is lexed again: in the source as it is read, and in the expression by itself. -/

theorem IsUnclosed.reread {inner : Text} (unclosed : IsUnclosed inner) : IsUnclosed (Text.decode (Text.encode inner)) := by
  rintro ⟨front, back, same⟩
  have bytes := Text.encode_decode (Text.encode inner)
  rw [← same, List.append_assoc, Text.encode_append] at bytes
  obtain ⟨left, rest, rfl, _, behind⟩ := Text.split_of_encode '*' (by decide) inner _ (Text.encode (.char '/' :: back))
    (by rw [← bytes, List.append_assoc]; rfl)
  obtain ⟨nothing, right, rfl, encoded, _⟩ :=
    Text.split_of_encode '/' (by decide) rest [] (Text.encode back) (by rw [behind]; rfl)
  cases nothing with
  | nil => exact unclosed ⟨left, right, by simp [Text.ofChars]⟩
  | cons symbol nothing =>
    have wide := symbol.width_pos
    rw [Text.encode_cons, List.append_eq_nil_iff] at encoded
    rw [Sym.width, encoded.1] at wide
    contradiction

theorem decode_with_comment (front back inner : Text) (decoded : Text.Decoded (front ++ back)) :
    Text.decode (Text.encode (front ++ (blockCommentOf inner ++ back))) =
      front ++ (blockCommentOf (Text.decode (Text.encode inner)) ++ back) := by
  have before := Text.decode_encode_of_decoded _ decoded.of_append_right
  have behind := Text.decode_encode_of_decoded _ decoded.of_append
  have nothing : Text.decode [] = [] := by rw [Text.decode]
  have bytes : Text.encode (front ++ (blockCommentOf inner ++ back)) =
      Text.encode front ++ (Sym.char '/').bytes ++ ([] ++ (Sym.char '*').bytes ++ (Text.encode inner ++
        (Sym.char '*').bytes ++ ([] ++ (Sym.char '/').bytes ++ Text.encode back))) := by
    simp [blockCommentOf, Text.ofChars]
  rw [bytes, Text.decode_append_char, Text.decode_append_char, Text.decode_append_char, Text.decode_append_char, before,
    behind, nothing]
  simp [blockCommentOf, Text.ofChars]

namespace Token

/-- Two tokens with the same text that are alike as to whether a comment may stand next to them. -/
def Alike (token other : Token) : Prop :=
  token.text = other.text ∧ ∀ kind ∈ [TokenKind.inlineHtml, .lineComment, .closeTag, .character],
    token.kind = kind → other.kind = kind

theorem alike_lookedUp (tokens : List Token) : List.Forall₂ Alike (lookedUp tokens) tokens := by
  have same : ∀ token : Token, Alike token token := fun token => ⟨rfl, fun _ _ kind => kind⟩
  fun_induction lookedUp tokens with
  | case1 => exact .nil
  | case2 token rest trivia ih => exact .cons (same token) ih
  | case3 token rest noTrivia name =>
    refine .cons ⟨rfl, fun kind listed found => ?_⟩ (List.forall₂_same.mpr fun token _ => same token)
    rcases Cut.nameKind_cases false token.text with word | ⟨keyword, word⟩
    · simp only [word] at found
      rw [name, found]
    · simp only [word] at found
      subst found
      simp at listed
  | case4 token rest noTrivia other => exact List.forall₂_same.mpr fun token _ => same token

end Token

theorem alike_tokensFrom (afterAccess : Bool) (offset : Nat) (text : Text) :
    List.Forall₂ Token.Alike (tokenize text) (tokensFrom ⟨false, afterAccess⟩ offset text) := by
  rw [← Nat.add_zero offset, ← map_movedBy_tokensFrom, List.forall₂_map_right_iff]
  cases afterAccess with
  | false => exact List.forall₂_same.mpr fun token _ => ⟨rfl, fun _ _ kind => kind⟩
  | true =>
    rw [tokenize, Context.start, tokensFrom_after_access]
    exact Token.alike_lookedUp _

theorem Seam.of_alike {front back : Text} {left right : Token} {before after : List Token}
    (alike : List.Forall₂ Token.Alike (tokenize (front ++ back)) (before ++ left :: right :: after))
    (edge : (before ++ [left]).flatMap Token.text = front)
    (inCode : left.kind ≠ .inlineHtml ∧ right.kind ≠ .inlineHtml) (noComment : left.kind ≠ .lineComment)
    (noTag : left.kind ≠ .closeTag) (noSlash : ¬ (left.kind = .character ∧ left.text = [.char '/'])) :
    ∃ first second, Seam front back first second := by
  have texts : ∀ {some others : List Token}, List.Forall₂ Token.Alike some others →
      some.flatMap Token.text = others.flatMap Token.text := by
    intro nonempty others pairs
    induction pairs with
    | nil => rfl
    | cons pair pairs ih => rw [List.flatMap_cons, List.flatMap_cons, pair.1, ih]
  have earlier := texts (List.forall₂_take_append _ before _ alike)
  obtain ⟨first, rest, one, later, split⟩ := List.forall₂_cons_right_iff.mp (List.forall₂_drop_append _ before _ alike)
  obtain ⟨second, others, other, _, rfl⟩ := List.forall₂_cons_right_iff.mp later
  refine ⟨first, second, ⟨(tokenize (front ++ back)).take before.length, others, ?_, ?_⟩, ⟨?_, ?_⟩, ?_, ?_, ?_⟩
  · rw [← split, List.take_append_drop]
  · rw [List.flatMap_append, earlier, List.flatMap_singleton, one.1, ← edge, List.flatMap_append, List.flatMap_singleton]
  · exact fun kind => inCode.1 (one.2 _ (by decide) kind)
  · exact fun kind => inCode.2 (other.2 _ (by decide) kind)
  · exact fun kind => noComment (one.2 _ (by decide) kind)
  · exact fun kind => noTag (one.2 _ (by decide) kind)
  · exact fun both => noSlash ⟨one.2 _ (by decide) both.1, one.1 ▸ both.2⟩

/-- A token of a text, other than one outside code, begins behind its front. -/
def StartsInCode (front back : Text) : Prop :=
  ∃ token ∈ tokenize (front ++ back), token.offset = Text.byteLength front ∧ token.kind ≠ .inlineHtml

/-- Where a token begins, a text has the same seams as behind what stands before it. -/
theorem Seam.alone {outside middle back : Text} {left right : Token} (seam : Seam (outside ++ middle) back left right)
    (starts : StartsInCode outside (middle ++ back)) (inside : Text.byteLength outside ≤ left.offset) :
    ∃ first second, Seam middle back first second := by
  obtain ⟨token, member, place, code⟩ := starts
  obtain ⟨earlier, later, split, same⟩ := tokenize_split_at outside (middle ++ back) token member place
  obtain ⟨before, after, cut, edge⟩ := seam.meets
  rw [List.append_assoc] at cut
  have laid := tokensFrom_eq_laidOut Context.start 0 (outside ++ (middle ++ back))
  have placedLeft := Token.offset_of_laidOut 0 _ before (right :: after) left (laid.symm.trans cut)
  rw [Nat.zero_add] at placedLeft
  obtain ⟨rest, parted, tail⟩ := tokensFrom_split Context.start 0 _ earlier _ split
  rw [same, List.append_cancel_left_eq] at parted
  subst parted
  obtain ⟨between, rfl, along⟩ : ∃ between, before = earlier ++ between ∧
      token :: later = between ++ left :: right :: after := by
    rcases List.append_eq_append_iff.mp (split.symm.trans cut) with ⟨between, front, along⟩ | ⟨between, front, along⟩
    · exact ⟨between, front, along⟩
    · cases between with
      | nil => exact ⟨[], by rw [front, List.append_nil, List.append_nil], along.symm⟩
      | cons other between =>
        obtain ⟨rfl, _⟩ := List.cons.inj along
        have owned : left.text ≠ [] := by
          apply ne_nil_of_mem_pieces Context.start (outside ++ (middle ++ back)) left.piece
          exact List.mem_map_of_mem (f := Token.piece) (by rw [← tokenize, cut]; simp)
        obtain ⟨symbol, more, text⟩ := List.exists_cons_of_ne_nil owned
        have wide := symbol.width_pos
        have sizes := congrArg Text.byteLength same
        rw [front, List.flatMap_append, List.flatMap_cons, text, Text.byteLength_append, Text.byteLength_append,
          Text.byteLength_cons] at sizes
        omega
  have inCode := tokensFrom_in_code _ _ _ (by
    intro first found
    rw [← tail] at found
    obtain rfl := Option.some.inj found
    exact code)
  rw [← tail, along] at inCode
  have alike : List.Forall₂ Token.Alike (tokenize (middle ++ back)) (between ++ left :: right :: after) := by
    rw [inCode]
    exact alike_tokensFrom _ _ _
  refine Seam.of_alike alike ?_ seam.inCode seam.noComment seam.noTag seam.noSlash
  rw [List.append_assoc, List.flatMap_append, same] at edge
  exact List.append_cancel_left edge

/-- A block comment between two tokens of an expression leaves its chain as it is, unless it would stand in front of
a double colon outside all brackets or would part a variable from the bracket that closes a block behind it. An
expression that begins inside a token is lexed again from there, and the comment has to stand between two tokens then,
too. -/
theorem chain_with_comment (boundary : KindSet) (outside middle back inner : Text) (left right : Token)
    (decoded : Text.Decoded (outside ++ middle ++ back)) (seam : Seam (outside ++ middle) back left right)
    (started : Scanner.expressionStart { boundary } (outside ++ middle ++ back) none = .ok (Text.byteLength outside))
    (inside : Text.byteLength outside ≤ left.offset)
    (alone : StartsInCode outside (middle ++ back) ∨ ∃ first second, Seam middle back first second)
    (unclosed : IsUnclosed inner)
    (noStatic : ∀ place, right.offset ≤ place → place < Text.byteLength (outside ++ middle ++ back) →
      ¬ (Sight.ofCode boundary (Text.encode (outside ++ middle ++ back))).IsStaticColon place)
    (noBlock : left.kind = .varName → ∀ place : Nat, right.covers place = true →
      ¬ (Sight.ofCode boundary (Text.encode (outside ++ middle ++ back))).ClosesBlock place) :
    ∃ chain, Scanner.chain { boundary } (outside ++ middle ++ back) none = .ok chain ∧
      Scanner.chain { boundary } (outside ++ middle ++ (blockCommentOf inner ++ back)) none = .ok chain ∧
      Scanner.expressionStart { boundary } (outside ++ middle ++ (blockCommentOf inner ++ back)) none =
        .ok (Text.byteLength outside) := by
  obtain ⟨first, second, own⟩ : ∃ first second, Seam middle back first second :=
    alone.elim (fun starts => seam.alone starts inside) id
  have place : right.offset = Text.byteLength (outside ++ middle) := by
    obtain ⟨before, after, cut, edge⟩ := seam.meets
    have laid := tokensFrom_eq_laidOut Context.start 0 (outside ++ middle ++ back)
    rw [tokenize, laid, List.append_cons] at cut
    rw [Token.offset_of_laidOut 0 _ _ after right cut, edge, Nat.zero_add]
  -- Bytes of the comment that form a character only together are read as that character.
  have reread := decode_with_comment (outside ++ middle) back inner decoded
  have bytes : Text.encode (outside ++ middle ++ (blockCommentOf inner ++ back)) =
      Text.encode (outside ++ middle ++ (blockCommentOf (Text.decode (Text.encode inner)) ++ back)) := by
    rw [← reread, Text.encode_decode]
  have longer : Text.Decoded (outside ++ middle ++ (blockCommentOf (Text.decode (Text.encode inner)) ++ back)) :=
    ⟨_, reread⟩
  have start : Scanner.startBefore { boundary } (Text.encode (outside ++ middle ++ back)) = Text.byteLength outside :=
    Except.ok.inj ((expressionStart_at_end _ _).symm.trans started)
  have startLonger := startBefore_with_comment boundary seam decoded
    (by
      rw [start, Text.byteLength_append outside]
      exact Nat.le_add_right _ _)
    (by rwa [← place])
    (by
      intro variable_ index within
      rw [← place]
      exact noBlock variable_ _ ((Token.covers_iff _ _).mpr ⟨Nat.le_add_right _ _, Nat.add_lt_add_left within _⟩))
    (Text.decode (Text.encode inner)) unclosed.reread longer
  rw [start] at startLonger
  refine ⟨Chain.segments tokenize (middle ++ back), ?_, ?_, ?_⟩
  · rw [List.append_assoc] at decoded
    rw [chain_at_end, start, List.append_assoc, Text.drop_byteLength, Text.decode_encode_of_decoded _ decoded.of_append]
  · rw [List.append_assoc] at longer
    rw [chain_at_end, bytes, startLonger, List.append_assoc, Text.drop_byteLength,
      Text.decode_encode_of_decoded _ longer.of_append, own.segments_with_comment _ unclosed.reread]
  · rw [expressionStart_at_end, bytes, startLonger]

/-- The comment stands behind a variable and holds what would else be the start of the expression. -/
theorem chain_with_comment_behind_variable :
    Seam (Text.ofString "f(" ++ Text.ofString "$a") (Text.ofString "->b") ⟨.varName, Text.ofString "$a", 2⟩
        ⟨.objectOperator, Text.ofString "->", 4⟩ ∧
      ∃ chain, Scanner.chain {} (Text.ofString "f(" ++ Text.ofString "$a" ++ Text.ofString "->b") none = .ok chain ∧
        Scanner.chain {} (Text.ofString "f(" ++ Text.ofString "$a" ++
          (blockCommentOf (Text.ofString ";\x7d(") ++ Text.ofString "->b")) none = .ok chain ∧
        chain = [Text.ofString "$a", Text.ofString "b"] := by
  have decoded : Text.Decoded (Text.ofString "f(" ++ Text.ofString "$a" ++ Text.ofString "->b") :=
    ⟨Text.encode (Text.ofString "f($a->b"), by decide +kernel⟩
  have seam : Seam (Text.ofString "f(" ++ Text.ofString "$a") (Text.ofString "->b") ⟨.varName, Text.ofString "$a", 2⟩
      ⟨.objectOperator, Text.ofString "->", 4⟩ :=
    ⟨⟨[⟨.identifier, Text.ofString "f", 0⟩, ⟨.character, Text.ofString "(", 1⟩],
      [⟨.identifier, Text.ofString "b", 6⟩], by decide +kernel, by decide +kernel⟩, by decide, by decide, by decide,
      by decide⟩
  have starts : StartsInCode (Text.ofString "f(") (Text.ofString "$a" ++ Text.ofString "->b") :=
    ⟨⟨.varName, Text.ofString "$a", 2⟩, by decide +kernel, by decide +kernel, by decide⟩
  have unclosed : IsUnclosed (Text.ofString ";\x7d(") := by
    unfold IsUnclosed
    decide +kernel
  have noColon : ∀ place < 7, (Sight.ofCode KindSet.boundary (Text.encode (Text.ofString "f($a->b"))).kind? place ≠
      some .doubleColon := by decide +kernel
  have noCurly : ∀ place < 7, (Text.encode (Text.ofString "f($a->b"))[place]? ≠ some 0x7D := by decide +kernel
  obtain ⟨chain, whole, longer, _⟩ := chain_with_comment KindSet.boundary (Text.ofString "f(") (Text.ofString "$a")
    (Text.ofString "->b") (Text.ofString ";\x7d(") _ _ decoded seam (by decide +kernel) (by decide +kernel) (.inl starts)
    unclosed (fun place _ below colon => noColon place below colon.2.1) (by
      intro _ place covered closes
      have below : place < 6 := ((Token.covers_iff _ place).mp covered).2
      exact noCurly place (Nat.lt_succ_of_lt below) closes.2.1)
  have shown : Scanner.chain {} (Text.ofString "f(" ++ Text.ofString "$a" ++ Text.ofString "->b") none =
      .ok [Text.ofString "$a", Text.ofString "b"] := by decide +kernel
  exact ⟨seam, chain, whole, longer, Except.ok.inj (whole.symm.trans shown)⟩

/-- In front of a double colon a comment makes a difference: the class name before it is left out of the chain. -/
theorem comment_ends_static_name :
    ¬ ∀ (outside middle back inner : Text) (left right : Token), Text.Decoded (outside ++ middle ++ back) →
      Seam (outside ++ middle) back left right →
      Scanner.expressionStart {} (outside ++ middle ++ back) none = .ok (Text.byteLength outside) →
      Text.byteLength outside ≤ left.offset → IsUnclosed inner →
      Scanner.chain {} (outside ++ middle ++ (blockCommentOf inner ++ back)) none =
        Scanner.chain {} (outside ++ middle ++ back) none := by
  intro transparent
  have decoded : Text.Decoded ([] ++ Text.ofString "Foo" ++ Text.ofString "::bar") :=
    ⟨Text.encode (Text.ofString "Foo::bar"), by decide +kernel⟩
  have seam : Seam ([] ++ Text.ofString "Foo") (Text.ofString "::bar") ⟨.identifier, Text.ofString "Foo", 0⟩
      ⟨.doubleColon, Text.ofString "::", 3⟩ :=
    ⟨⟨[], [⟨.identifier, Text.ofString "bar", 5⟩], by decide +kernel, by decide +kernel⟩, by decide, by decide,
      by decide, by decide⟩
  have same := transparent [] (Text.ofString "Foo") (Text.ofString "::bar") [] _ _ decoded seam (by decide +kernel)
    (Nat.zero_le _) (by unfold IsUnclosed; decide +kernel)
  exact absurd same (by decide +kernel)

end AccessChain
