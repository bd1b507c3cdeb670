import AccessChain.Proofs.Decoding
import AccessChain.Proofs.TokenStream
import AccessChain.Chain.Segments

/-! The cells that a scan visits, read off the pieces of the text, and the scan over a part of them. A scan
either runs through a part and goes on from the progress made, or it stops in it for good. -/
namespace AccessChain.Expression

/-- The kind of the last of some pieces, or what stands before them if there are none. -/
def lastKind (before : Option TokenKind) (pieces : List (TokenKind × Text)) : Option TokenKind :=
  (pieces.getLast?.map Prod.fst).or before

def pieceCells (before : Option TokenKind) (piece : TokenKind × Text) : List Cell :=
  (Text.encode piece.2).reverse.map fun byte => ⟨byte, some piece.1, before⟩

/-- The cells of some pieces from right to left. -/
def cells (before : Option TokenKind) : List (TokenKind × Text) → List Cell
  | [] => []
  | piece :: rest => cells (some piece.1) rest ++ pieceCells before piece

@[simp] theorem cells_nil (before : Option TokenKind) : cells before [] = [] := rfl

@[simp] theorem cells_cons (before : Option TokenKind) (piece : TokenKind × Text)
    (rest : List (TokenKind × Text)) :
    cells before (piece :: rest) = cells (some piece.1) rest ++ pieceCells before piece := rfl

@[simp] theorem length_pieceCells (before : Option TokenKind) (piece : TokenKind × Text) :
    (pieceCells before piece).length = Text.byteLength piece.2 := by
  simp [pieceCells, Text.byteLength]

@[simp] theorem length_cells (before : Option TokenKind) (pieces : List (TokenKind × Text)) :
    (cells before pieces).length = Text.byteLength (pieces.flatMap Prod.snd) := by
  induction pieces generalizing before with
  | nil => rfl
  | cons piece rest ih => simp [ih, Nat.add_comm]

theorem lastKind_map_piece (tokens : List Token) :
    lastKind none (tokens.map Token.piece) = tokens.getLast?.map Token.kind := by
  simp only [lastKind, List.getLast?_map, Option.map_map, Option.or_none]
  rfl

theorem lastKind_cons (before : Option TokenKind) (piece : TokenKind × Text)
    (rest : List (TokenKind × Text)) :
    lastKind before (piece :: rest) = lastKind (some piece.1) rest := by
  cases rest with
  | nil => rfl
  | cons next rest => simp [lastKind, List.getLast?_cons]

theorem cells_append (before : Option TokenKind) (left right : List (TokenKind × Text)) :
    cells before (left ++ right) = cells (lastKind before left) right ++ cells before left := by
  induction left generalizing before with
  | nil => simp [lastKind]
  | cons piece left ih => rw [List.cons_append, cells_cons, ih, cells_cons, lastKind_cons, List.append_assoc]

theorem piece_of_mem_cells (before : Option TokenKind) (pieces : List (TokenKind × Text)) (cell : Cell)
    (member : cell ∈ cells before pieces) :
    ∃ piece ∈ pieces, cell.kind = some piece.1 ∧ cell.byte ∈ Text.encode piece.2 := by
  induction pieces generalizing before with
  | nil => contradiction
  | cons piece rest ih =>
    rw [cells_cons] at member
    rcases List.mem_append.mp member with later | here
    · obtain ⟨found, inside, facts⟩ := ih (some piece.1) later
      exact ⟨found, List.mem_cons_of_mem piece inside, facts⟩
    · obtain ⟨byte, owned, rfl⟩ := List.mem_map.mp here
      exact ⟨piece, List.mem_cons_self, rfl, List.mem_reverse.mp owned⟩

theorem layout_eq_cells (tokens : List Token) (owning : ∀ token ∈ tokens, token.text ≠ []) :
    layout tokens (Text.encode (tokens.reverse.flatMap Token.text)).reverse =
      cells none (tokens.reverse.map Token.piece) := by
  generalize source : (Text.encode (tokens.reverse.flatMap Token.text)).reverse = bytes
  -- No token is empty, so what the layout gives to each is its own bytes and never one of another.
  fun_induction layout tokens bytes with
  | case1 bytes =>
    subst source
    rfl
  | case2 token bytes =>
    subst source
    simp [pieceCells, Token.piece]
  | case3 token previous tokens bytes size ih =>
    have positive : 0 < token.byteLength := by
      obtain ⟨symbol, rest, text⟩ := List.exists_cons_of_ne_nil (owning token (by simp))
      rw [Token.byteLength, text, Text.byteLength_cons]
      exact Nat.add_pos_left symbol.width_pos _
    have exact : size = (Text.encode token.text).reverse.length := by
      rw [List.length_reverse]
      exact Nat.max_eq_right positive
    have parted : bytes = (Text.encode token.text).reverse ++
        (Text.encode ((previous :: tokens).reverse.flatMap Token.text)).reverse := by
      rw [← source]
      simp
    have kept := ih (fun token member => owning token (by simp [member]))
    rw [parted, exact, List.take_left, List.drop_left]
    rw [parted, exact, List.drop_left] at kept
    have reversed : (token :: previous :: tokens).reverse = (previous :: tokens).reverse ++ [token] :=
      List.reverse_cons
    have last : lastKind none ((previous :: tokens).reverse.map Token.piece) = some previous.kind := by
      rw [lastKind_map_piece, List.reverse_cons, List.getLast?_concat]
      rfl
    rw [kept rfl, reversed, List.map_append, cells_append, last]
    rfl

theorem layout_tokenize (source : Text) :
    layout (tokenize source).reverse (Text.encode source).reverse = cells none (pieces Context.start source) := by
  have whole := flatMap_text_tokenize source
  have owning : ∀ token ∈ (tokenize source).reverse, token.text ≠ [] :=
    fun token member => text_ne_nil_of_mem_tokenize source token (List.mem_reverse.mp member)
  have laid := layout_eq_cells (tokenize source).reverse owning
  rw [List.reverse_reverse, whole] at laid
  exact laid

theorem opening?_of_closing? (byte : UInt8) (bracket : Bracket) (closing : Bracket.closing? byte = some bracket) :
    Bracket.opening? byte = none := by
  unfold Bracket.closing? at closing
  split at closing
  · next same =>
    subst same
    rfl
  · split at closing
    · next same =>
      subst same
      rfl
    · split at closing
      · next same =>
        subst same
        rfl
      · contradiction

theorem closing?_of_opening? (byte : UInt8) (bracket : Bracket) (opening : Bracket.opening? byte = some bracket) :
    Bracket.closing? byte = none := by
  cases closing : Bracket.closing? byte with
  | none => rfl
  | some other =>
    rw [opening?_of_closing? byte other closing] at opening
    contradiction

theorem closing?_eq_curly (byte : UInt8) : Bracket.closing? byte = some .curly ↔ byte = 0x7D := by
  constructor
  · intro closing
    unfold Bracket.closing? at closing
    split at closing
    · contradiction
    · split at closing
      · contradiction
      · split at closing
        · assumption
        · contradiction
  · rintro rfl
    rfl

/-- What a cell is to a visit. -/
inductive Cell.Role (inString : Bool) (cell : Cell) : Prop
  | hidden (hidden : cell.isHidden inString = true)
  | closing (visible : cell.isHidden inString = false) (bracket : Bracket)
      (closing : Bracket.closing? cell.byte = some bracket)
  | opening (visible : cell.isHidden inString = false) (bracket : Bracket)
      (opening : Bracket.opening? cell.byte = some bracket)
  | plain (visible : cell.isHidden inString = false) (noOpening : Bracket.opening? cell.byte = none)
      (noClosing : Bracket.closing? cell.byte = none)

theorem Cell.role (inString : Bool) (cell : Cell) : cell.Role inString := by
  cases hidden : cell.isHidden inString with
  | true => exact .hidden hidden
  | false =>
    cases closing : Bracket.closing? cell.byte with
    | some bracket => exact .closing hidden bracket closing
    | none =>
      cases opening : Bracket.opening? cell.byte with
      | some bracket => exact .opening hidden bracket opening
      | none => exact .plain hidden opening closing

/-- Neither a bracket nor a character that can end an expression. -/
structure IsPlain (byte : UInt8) : Prop where
  noClosing : Bracket.closing? byte = none
  noOpening : Bracket.opening? byte = none
  noDelimiter : delimiters.contains byte = false
  noColon : byte ≠ 0x3A

theorem IsPlain.isBoundary {byte : UInt8} (plain : IsPlain byte) (boundary : KindSet)
    (kind before : Option TokenKind) :
    Cell.isBoundary boundary ⟨byte, kind, before⟩ = kind.any boundary.contains := by
  rw [Cell.isBoundary, plain.noDelimiter, beq_false_of_ne plain.noColon, Bool.false_or, Bool.false_and, Bool.or_false]

theorem count_update (depth : Depth) (changed bracket : Bracket) (change : Nat → Nat) :
    (depth.update changed change).count bracket =
      if bracket = changed then change (depth.count bracket) else depth.count bracket := by
  cases changed <;> cases bracket <;> simp [Depth.update, Depth.count]

theorem eq_zero_iff (depth : Depth) : depth = Depth.zero ↔ ∀ bracket, depth.count bracket = 0 := by
  constructor
  · rintro rfl bracket
    cases bracket <;> rfl
  · intro zeros
    obtain ⟨round, square, curly⟩ := depth
    have noRound : round = 0 := zeros .round
    have noSquare : square = 0 := zeros .square
    have noCurly : curly = 0 := zeros .curly
    rw [noRound, noSquare, noCurly]
    rfl

section Running
variable (boundary : KindSet) (inString : Bool)

theorem visit_hidden (progress : Progress) (cell : Cell) (hidden : cell.isHidden inString = true) :
    visit boundary inString progress cell = some progress := by
  simp [visit, hidden]

theorem visit_closing (progress : Progress) (cell : Cell) (bracket : Bracket)
    (visible : cell.isHidden inString = false) (closing : Bracket.closing? cell.byte = some bracket) :
    visit boundary inString progress cell =
      if bracket = .curly ∧ progress.depth.round = 0 ∧ cell.before ≠ some .varName then none
      else some { progress with depth := progress.depth.update bracket (· + 1) } := by
  simp [visit, visible, closing, and_assoc]

theorem visit_opening (progress : Progress) (cell : Cell) (bracket : Bracket)
    (visible : cell.isHidden inString = false) (opening : Bracket.opening? cell.byte = some bracket) :
    visit boundary inString progress cell =
      if progress.depth.count bracket = 0 then none
      else some { progress with depth := progress.depth.update bracket (· - 1) } := by
  have noClosing : Bracket.closing? cell.byte = none := closing?_of_opening? _ bracket opening
  simp [visit, visible, opening, noClosing]

theorem visit_plain (progress : Progress) (cell : Cell) (visible : cell.isHidden inString = false)
    (noOpening : Bracket.opening? cell.byte = none) (noClosing : Bracket.closing? cell.byte = none) :
    visit boundary inString progress cell =
      if progress.depth ≠ Depth.zero then some progress
      else if cell.isBoundary boundary then none
      else some { progress with
        inStaticName := progress.inStaticName || cell.kind == some .doubleColon } := by
  simp [visit, visible, noOpening, noClosing]

theorem visit_unmatched (progress : Progress) (cell : Cell) (bracket : Bracket)
    (visible : cell.isHidden inString = false) (opening : Bracket.opening? cell.byte = some bracket)
    (unmatched : progress.depth.count bracket = 0) : visit boundary inString progress cell = none := by
  rw [visit_opening boundary inString progress cell bracket visible opening, if_pos unmatched]

section Outside
variable (progress : Progress) (cell : Cell) (visible : cell.isHidden inString = false)
  (noOpening : Bracket.opening? cell.byte = none) (noClosing : Bracket.closing? cell.byte = none)
  (outside : progress.depth = Depth.zero)
include visible noOpening noClosing outside

theorem visit_boundary (ends : cell.isBoundary boundary = true) : visit boundary inString progress cell = none := by
  rw [visit_plain boundary inString progress cell visible noOpening noClosing, if_neg (not_not_intro outside),
    if_pos ends]

theorem visit_past (goesOn : cell.isBoundary boundary = false) :
    visit boundary inString progress cell = some { progress with
      inStaticName := progress.inStaticName || cell.kind == some .doubleColon } := by
  rw [visit_plain boundary inString progress cell visible noOpening noClosing, if_neg (not_not_intro outside),
    if_neg (by simp [goesOn])]

end Outside

/-- The progress after some cells, nothing if the expression starts behind one of them. -/
def run (progress : Progress) (cells : List Cell) : Option Progress :=
  cells.foldlM (advance boundary inString) progress

theorem run_cons (progress : Progress) (cell : Cell) (cells : List Cell) :
    run boundary inString progress (cell :: cells) =
      (advance boundary inString progress cell).bind fun next => run boundary inString next cells := rfl

theorem run_append (progress : Progress) (left right : List Cell) :
    run boundary inString progress (left ++ right) =
      (run boundary inString progress left).bind fun next => run boundary inString next right :=
  List.foldlM_append ..

theorem scan_append_of_run (progress next : Progress) (left right : List Cell)
    (ran : run boundary inString progress left = some next) :
    scan boundary inString progress (left ++ right) = scan boundary inString next right := by
  induction left generalizing progress with
  | nil =>
    obtain rfl := Option.some.inj ran
    rfl
  | cons cell left ih =>
    rw [run_cons] at ran
    obtain ⟨middle, advanced, rest⟩ := Option.bind_eq_some_iff.mp ran
    simp only [List.cons_append, scan, advanced]
    exact ih middle rest

theorem scan_append_of_stop (progress : Progress) (left right : List Cell)
    (stopped : run boundary inString progress left = none) :
    scan boundary inString progress (left ++ right) = scan boundary inString progress left + right.length := by
  induction left generalizing progress with
  | nil => contradiction
  | cons cell left ih =>
    rw [run_cons] at stopped
    simp only [List.cons_append, scan]
    cases advanced : advance boundary inString progress cell with
    | none => simp only [List.length_append]; omega
    | some next =>
      rw [advanced] at stopped
      exact ih next stopped

theorem scan_pos_of_stop (progress : Progress) (cells : List Cell)
    (stopped : run boundary inString progress cells = none) :
    0 < scan boundary inString progress cells := by
  induction cells generalizing progress with
  | nil => contradiction
  | cons cell cells ih =>
    rw [run_cons] at stopped
    rw [scan]
    cases advanced : advance boundary inString progress cell with
    | none => exact Nat.succ_pos _
    | some next =>
      rw [advanced] at stopped
      exact ih next stopped

/-- A scan that stops in front of some cells runs through them. -/
theorem run_of_scan_le (progress : Progress) (left right : List Cell)
    (short : scan boundary inString progress (left ++ right) ≤ right.length) :
    ∃ next, run boundary inString progress left = some next := by
  cases ran : run boundary inString progress left with
  | some next => exact ⟨next, rfl⟩
  | none =>
    rw [scan_append_of_stop _ _ _ _ _ ran] at short
    have stop := scan_pos_of_stop boundary inString progress left ran
    omega

theorem scan_of_run (progress next : Progress) (cells : List Cell)
    (ran : run boundary inString progress cells = some next) : scan boundary inString progress cells = 0 := by
  have appended := scan_append_of_run boundary inString progress next cells [] ran
  rwa [List.append_nil] at appended

end Running

def Progress.start : Progress := ⟨Depth.zero, false⟩

end AccessChain.Expression

namespace AccessChain

/-- Whether the cursor is in a string, for the pieces before it. -/
def endsInString (pieces : List (TokenKind × Text)) : Bool :=
  pieces.getLast?.any fun piece => piece.1 == .stringLiteral

/-- The cursor is in a string or not, whatever stands in front of the last pieces. -/
theorem endsInString_append (before rest : List (TokenKind × Text)) (piece : TokenKind × Text) :
    endsInString (before ++ piece :: rest) = endsInString (piece :: rest) := by
  simp [endsInString, List.getLast?_append, List.getLast?_cons]

theorem endsInString_map_piece (tokens : List Token) : endsInString (tokens.map Token.piece) =
    tokens.getLast?.any fun token => token.kind == .stringLiteral := by
  simp only [endsInString, List.getLast?_map, Option.any_map]
  rfl

theorem endsInString_pieces (source : Text) : endsInString (pieces Context.start source) =
    (tokenize source).getLast?.any fun token => token.kind == .stringLiteral :=
  endsInString_map_piece (tokenize source)

open Expression in
theorem startBefore_eq_scan (boundary : KindSet) (code : List UInt8) :
    Scanner.startBefore { boundary } code =
      scan boundary (endsInString (pieces Context.start (Text.decode code))) Progress.start
        (cells none (pieces Context.start (Text.decode code))) := by
  have laid := layout_tokenize (Text.decode code)
  rw [Text.encode_decode] at laid
  unfold Scanner.startBefore
  split
  · next empty =>
    rw [List.isEmpty_iff.mp empty]
    simp [Text.decode, scan]
  · rw [startIn, laid, endsInString_pieces]
    rfl

theorem cursorIn_eq (source : Text) (cursor : Option Int) (stop : Nat)
    (placed : cursor.getD (Text.byteLength source) = stop) (inside : stop ≤ Text.byteLength source) :
    Scanner.cursorIn source cursor = .ok stop := by
  unfold Scanner.cursorIn Offset.checked
  simp only [placed]
  rw [if_pos ⟨Int.natCast_nonneg stop, Int.ofNat_le.mpr inside⟩]
  rfl

theorem expressionStart_eq (scanner : Scanner) (source : Text) (cursor : Option Int) (stop : Nat)
    (placed : cursor.getD (Text.byteLength source) = stop) (inside : stop ≤ Text.byteLength source) :
    scanner.expressionStart source cursor = .ok (scanner.startBefore ((Text.encode source).take stop)) := by
  unfold Scanner.expressionStart
  rw [cursorIn_eq source cursor stop placed inside]
  rfl

theorem expressionStart_at_end (scanner : Scanner) (source : Text) :
    scanner.expressionStart source none = .ok (scanner.startBefore (Text.encode source)) := by
  rw [expressionStart_eq scanner source none _ rfl (Nat.le_refl _), Text.byteLength, List.take_length]

theorem chain_at_end (scanner : Scanner) (source : Text) :
    scanner.chain source none = .ok (Chain.segments scanner.tokenizer
      (Text.decode ((Text.encode source).drop (scanner.startBefore (Text.encode source))))) := by
  unfold Scanner.chain
  rw [cursorIn_eq source none _ rfl (Nat.le_refl _), expressionStart_at_end]
  change Except.ok (scanner.chainBetween source _ _) = _
  rw [Scanner.chainBetween, Text.byteLength, List.take_length]

end AccessChain
