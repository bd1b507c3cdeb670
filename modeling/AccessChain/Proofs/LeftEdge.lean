import AccessChain.Proofs.WrittenScan

/-! The tokens behind which an expression starts afresh: opening brackets, delimiters, ends of blocks and the
kinds that never occur in an expression. Whatever their text, a scan that reaches one stops at its last byte. -/
namespace AccessChain

namespace Heredoc

theorem closing?_ends (label text : Text) (size : Nat) (found : closing? label text = some size) :
    ∃ front, text.take size = front ++ label := by
  dsimp only [closing?] at found
  split at found
  · next closed =>
    obtain rfl := Option.some.inj found
    obtain ⟨rest, same⟩ := List.isPrefixOf_iff_prefix.mp (Bool.and_eq_true_iff.mp closed).1
    refine ⟨text.take (Text.countWhile isIndent text), ?_⟩
    rw [List.take_add, ← same, List.take_left]
  · contradiction

/-- A heredoc that ends before the text does ends with its label. -/
theorem body_ends (label : Text) (atLineStart : Bool) (text : Text)
    (shorter : body label atLineStart text < text.length) :
    ∃ front, text.take (body label atLineStart text) = front ++ label := by
  induction text generalizing atLineStart with
  | nil => contradiction
  | cons symbol text ih =>
    rw [body] at shorter ⊢
    cases found : (if atLineStart then closing? label (symbol :: text) else none) with
    | some size =>
      split at found
      · exact closing?_ends label _ size found
      · contradiction
    | none =>
      rw [found] at shorter
      simp only [List.length_cons] at shorter
      obtain ⟨front, same⟩ := ih (symbol == .char '\n') (by omega)
      refine ⟨symbol :: front, ?_⟩
      simp only [Nat.add_comm 1, List.take_succ_cons, same, List.cons_append]

theorem extent?_ends (text : Text) (size : Nat) (found : extent? text = some size) (shorter : size < text.length) :
    ∃ symbol, (text.take size).getLast? = some symbol ∧ symbol.isWord = true := by
  obtain ⟨opening, opened, rfl⟩ := Option.map_eq_some_iff.mp found
  obtain ⟨inside, labelled, wordy⟩ := label_of_opening? text opening opened
  obtain ⟨front, same⟩ := body_ends opening.label true (text.drop opening.size) (by rw [List.length_drop]; omega)
  refine ⟨opening.label.getLast labelled, ?_, wordy _ (List.getLast_mem labelled)⟩
  rw [List.take_add, same, ← List.append_assoc, List.getLast?_append, List.getLast?_eq_some_getLast labelled]
  rfl

end Heredoc

namespace Cut

theorem closer_not_mem_ofChars (characters : List Char)
    (plain : characters.all (fun character => !Bracket.characters.contains character) = true) (bracket : Bracket) :
    bracket.closer ∉ Text.ofChars characters :=
  bracket.closer_not_mem _ (Text.not_mem_ofChars _ characters plain)

theorem closer_not_mem_openingTag (first : Sym) (rest : Text)
    (opens : Text.startsWith ['<', '?'] (first :: rest) = true) (bracket : Bracket) :
    bracket.closer ∉ (first :: rest).take (openingTag (first :: rest)).size := by
  cases bracket with
  | round => exact not_mem_openingTag _ opens ')' (by decide)
  | square => exact not_mem_openingTag _ opens ']' (by decide)
  | curly => exact not_mem_openingTag _ opens '}' (by decide)

theorem closer_not_mem_name (first : Sym) (rest : Text) (starts : Extent.isNameStart first = true) (bracket : Bracket) :
    bracket.closer ∉ (first :: rest).take (1 + Extent.name rest) := by
  have other : Extent.isNameChar bracket.closer = false := by cases bracket <;> decide
  have word : ∀ symbol ∈ (first :: rest).take (1 + Extent.name rest), Extent.isNameChar symbol = true := by
    intro symbol member
    rw [Nat.add_comm, List.take_succ_cons] at member
    rcases List.mem_cons.mp member with rfl | later
    · rw [Extent.isNameChar, starts, Bool.true_or]
    · rw [Extent.name, Text.take_countWhile] at later
      exact List.mem_takeWhile_imp later
  intro member
  rw [word _ member] at other
  contradiction

theorem closer_not_mem_operator (first : Sym) (rest : Text) (bracket : Bracket)
    (listed : KindSet.isBoundary (operator first rest).kind = true) :
    bracket.closer ∉ (first :: rest).take (operator first rest).size := by
  have plain : ∀ row ∈ operators,
      (row.1 :: row.2.1).all (fun character => !Bracket.characters.contains character) = true := by decide
  rcases take_operator first rest with ⟨row, among, _, taken⟩ | ⟨kind, _⟩
  · rw [taken]
    exact closer_not_mem_ofChars _ (plain row among) bracket
  · rw [kind] at listed
    contradiction

/-- No token of a kind that ends expressions ends with a closing bracket, if it does not run to the end of the text. -/
theorem last_of_boundary (context : Context) (first : Sym) (rest : Text)
    (listed : KindSet.isBoundary (ofText context first rest).kind = true)
    (code : (ofText context first rest).kind ≠ .closeTag)
    (shorter : (ofText context first rest).size < rest.length + 1) (bracket : Bracket) :
    ((first :: rest).take (ofText context first rest).size).getLast? ≠ some bracket.closer := by
  revert listed code shorter
  unfold ofText
  split
  · intro listed
    contradiction
  -- Opening tags, heredocs, names and operators are the only cuts of a kind that ends expressions.
  fun_cases ofCode context.afterAccess first rest with
  | case2 blank opens =>
    intro _ _ _ last
    exact closer_not_mem_openingTag first rest opens bracket (List.mem_of_getLast? last)
  | case8 _ _ _ _ _ _ _ size found =>
    intro _ _ shorter last
    split at found
    · have inside : size < (rest.drop 2).length := by
        simp only at shorter
        rw [List.length_drop]
        omega
      obtain ⟨symbol, final, wordy⟩ := Heredoc.extent?_ends (rest.drop 2) size found inside
      have parted : (first :: rest).take (3 + size) = (first :: rest.take 2) ++ (rest.drop 2).take size := by
        rw [show 3 + size = 2 + size + 1 by omega, List.take_succ_cons, List.take_add]
        rfl
      have other : Sym.isWord bracket.closer = false := by cases bracket <;> decide +kernel
      rw [parted, List.getLast?_append, final, Option.some_or] at last
      rw [Option.some.inj last, other] at wordy
      contradiction
    · contradiction
  | case9 _ _ _ _ _ _ _ _ starts size =>
    intro _ _ _ last
    exact closer_not_mem_name first rest starts bracket (List.mem_of_getLast? last)
  | case12 =>
    intro listed _ _ last
    exact closer_not_mem_operator first rest bracket listed (List.mem_of_getLast? last)
  | _ =>
    intro listed code
    contradiction

end Cut

theorem last_of_boundary_piece (context : Context) (text : Text) (before after : List (TokenKind × Text))
    (edge : TokenKind × Text) (cut : pieces context text = before ++ edge :: after) (later : after ≠ [])
    (listed : KindSet.isBoundary edge.1 = true) (code : edge.1 ≠ .closeTag) (bracket : Bracket) :
    edge.2.getLast? ≠ some bracket.closer := by
  obtain ⟨rest, _, same⟩ := pieces_split context text before (edge :: after) cut
  cases rest with
  | nil => simp at same
  | cons first rest =>
    rw [pieces_cons] at same
    obtain ⟨rfl, rfl⟩ := List.cons.inj same
    apply Cut.last_of_boundary _ first rest listed code
    apply Nat.lt_of_not_le
    intro whole
    rw [List.drop_eq_nil_of_le whole, pieces_nil] at later
    contradiction

/-- The tokens that end what stands before an expression, given the kind of the token before them. -/
inductive Edge (before : Option TokenKind) : TokenKind × Text → Prop where
  | opener (bracket : Bracket) : Edge before (.character, [bracket.opener])
  | delimiter (kind : TokenKind) (text : Text) (mark : Char) (listed : mark ∈ ['.', ',', '?', ';', ':'])
      (code : kind ∈ [.character, .number, .operator .coalesce]) (last : text.getLast? = some (.char mark)) :
      Edge before (kind, text)
  | block (apart : before ≠ some .varName) : Edge before (.character, [.char '}'])
  | boundary (kind : TokenKind) (text : Text) (listed : kind ∈ KindSet.boundary) (code : kind ≠ .closeTag) :
      Edge before (kind, text)

namespace Edge

theorem ne_closeTag {before : Option TokenKind} {edge : TokenKind × Text} (isEdge : Edge before edge) :
    edge.1 ≠ .closeTag := by
  cases isEdge with
  | opener bracket => exact TokenKind.noConfusion
  | delimiter kind text mark listed code last =>
    rintro rfl
    exact absurd code (by decide)
  | block apart => exact TokenKind.noConfusion
  | boundary kind text listed code => exact code

theorem after_edge (before : Option TokenKind) (edge : TokenKind × Text) (isEdge : Edge before edge)
    (context : Context) : context.after edge.1 = Context.start := by
  cases isEdge with
  | opener bracket => rfl
  | delimiter kind text mark listed code last =>
    simp only [List.mem_cons, List.not_mem_nil, or_false] at code
    rcases code with rfl | rfl | rfl <;> rfl
  | block apart => rfl
  | boundary kind text listed code =>
    have ends := (List.mem_filter.mp listed).2
    cases kind with
    | closeTag => contradiction
    | openTag => rfl
    | openTagWithEcho => rfl
    | heredoc => rfl
    | keyword word => rfl
    | operator sign => rfl
    | _ => contradiction

open Expression

/-- The last byte of an edge ends any scan outside brackets. -/
theorem visit_edge (before : Option TokenKind) (edge : TokenKind × Text) (isEdge : Edge before edge)
    (noCloser : edge.1 ∈ KindSet.boundary → ∀ bracket : Bracket, edge.2.getLast? ≠ some bracket.closer)
    (symbol : Sym) (last : edge.2.getLast? = some symbol) (byte : UInt8) (owned : byte ∈ symbol.bytes)
    (inStaticName : Bool) :
    visit KindSet.boundary false ⟨Depth.zero, inStaticName⟩ ⟨byte, some edge.1, before⟩ = none := by
  cases isEdge with
  | opener bracket =>
    obtain rfl : symbol = bracket.opener := (Option.some.inj last).symm
    obtain ⟨code, bytes, opening⟩ := bracket.bytes_of_opener
    rw [bytes] at owned
    obtain rfl := List.mem_singleton.mp owned
    have waiting : Depth.zero.count bracket = 0 := by cases bracket <;> rfl
    exact visit_unmatched _ _ _ _ bracket rfl opening waiting
  | delimiter kind text mark listed code final =>
    obtain rfl := Option.some.inj (final.symm.trans last)
    have visible : Cell.isHidden false ⟨byte, some kind, before⟩ = false := by
      simp only [List.mem_cons, List.not_mem_nil, or_false] at code
      rcases code with rfl | rfl | rfl <;> rfl
    have noColons : kind ≠ .doubleColon := by
      rintro rfl
      exact absurd code (by decide)
    have low : ∀ mark ∈ ['.', ',', '?', ';', ':'], mark.toNat < 0x80 ∧
        Bracket.closing? (UInt8.ofNat mark.toNat) = none ∧ Bracket.opening? (UInt8.ofNat mark.toNat) = none ∧
        (delimiters.contains (UInt8.ofNat mark.toNat) = true ∨ UInt8.ofNat mark.toNat = 0x3A) :=
      List.all_iff_forall_prop.mp (by decide)
    obtain ⟨small, noClosing, noOpening, ends⟩ := low mark listed
    rw [Text.bytes_of_low mark small] at owned
    obtain rfl := List.mem_singleton.mp owned
    have boundary : Cell.isBoundary KindSet.boundary ⟨UInt8.ofNat mark.toNat, some kind, before⟩ = true := by
      unfold Cell.isBoundary
      rcases ends with delimiter | colon
      · simp only [delimiter, Bool.true_or]
      · simp [colon, noColons]
    exact visit_boundary _ _ _ _ visible noOpening noClosing rfl boundary
  | block apart =>
    obtain rfl : symbol = .char '}' := (Option.some.inj last).symm
    obtain rfl : byte = 0x7D := List.mem_singleton.mp owned
    rw [visit_closing _ _ _ ⟨0x7D, some .character, before⟩ .curly rfl rfl, if_pos ⟨rfl, rfl, apart⟩]
  | boundary kind text listed code =>
    have visible : Cell.isHidden false ⟨byte, some kind, before⟩ = false := by
      have ends := (List.mem_filter.mp listed).2
      cases kind with
      | lineComment => contradiction
      | blockComment => contradiction
      | _ => rfl
    cases Cell.role false ⟨byte, some kind, before⟩ with
    | hidden hidden =>
      rw [visible] at hidden
      contradiction
    | closing _ bracket closing =>
      rw [Bracket.closer_of_mem_bytes symbol byte owned bracket closing] at last
      exact absurd last (noCloser listed bracket)
    | opening visible bracket opening =>
      have waiting : Depth.zero.count bracket = 0 := by cases bracket <;> rfl
      exact visit_unmatched _ _ _ _ bracket visible opening waiting
    | plain visible noOpening noClosing =>
      have boundary : Cell.isBoundary KindSet.boundary ⟨byte, some kind, before⟩ = true := by
        simp [Cell.isBoundary, listed]
      exact visit_boundary _ _ _ _ visible noOpening noClosing rfl boundary

end Edge

open Expression

theorem scan_stopped (progress : Progress) (before : Option TokenKind) (piece : TokenKind × Text) (symbol : Sym)
    (last : piece.2.getLast? = some symbol)
    (stops : ∀ byte ∈ symbol.bytes, advance KindSet.boundary false progress ⟨byte, some piece.1, before⟩ = none)
    (further : List Cell) :
    scan KindSet.boundary false progress (pieceCells before piece ++ further) =
      Text.byteLength piece.2 + further.length := by
  obtain ⟨front, text⟩ := List.getLast?_eq_some_iff.mp last
  have bytes : symbol.bytes ≠ [] := List.ne_nil_of_length_pos symbol.width_pos
  have final : (Text.encode piece.2).reverse =
      symbol.bytes.getLast bytes :: (symbol.bytes.dropLast.reverse ++ (Text.encode front).reverse) := by
    have parted := congrArg List.reverse (List.dropLast_concat_getLast bytes)
    rw [List.reverse_append] at parted
    rw [text, Text.encode_append, List.reverse_append, Text.encode_cons, Text.encode_nil, List.append_nil, ← parted]
    rfl
  have stopped := stops _ (List.getLast_mem bytes)
  have length := length_pieceCells before piece
  rw [pieceCells, final, List.map_cons] at length ⊢
  simp only [List.cons_append, scan, stopped, ← length, List.length_append, List.length_cons]
  omega

theorem scan_edge (before : Option TokenKind) (edge : TokenKind × Text) (isEdge : Edge before edge)
    (noCloser : edge.1 ∈ KindSet.boundary → ∀ bracket : Bracket, edge.2.getLast? ≠ some bracket.closer)
    (held : edge.2 ≠ []) (inStaticName : Bool) (further : List Cell) :
    scan KindSet.boundary false ⟨Depth.zero, inStaticName⟩ (pieceCells before edge ++ further) =
      Text.byteLength edge.2 + further.length := by
  have last := List.getLast?_eq_some_getLast held
  apply scan_stopped _ before edge _ last
  intro byte owned
  rw [advance, Edge.visit_edge before edge isEdge noCloser _ last byte owned inStaticName, Option.filter_none]

/-- What stands before a text is nothing, or it ends with a token behind which an expression starts afresh. -/
inductive StartsAfresh (left right : Text) : Prop where
  | nothing (empty : left = [])
  | edge (before after : List Token) (token : Token) (cut : tokenize (left ++ right) = before ++ token :: after)
      (ends : (before ++ [token]).flatMap Token.text = left)
      (isEdge : Edge (before.getLast?.map Token.kind) token.piece)

/-- Such a text is cut into the pieces of a text of its own, and a scan that comes out of it ends there. -/
theorem pieces_afresh (left right : Text) (held : right ≠ []) (afresh : StartsAfresh left right) :
    ∃ before, pieces Context.start (left ++ right) = before ++ pieces Context.start right ∧
      before.flatMap Prod.snd = left ∧
      ∀ inStaticName, scan KindSet.boundary false ⟨Depth.zero, inStaticName⟩ (cells none before) =
        (cells none before).length := by
  cases afresh with
  | nothing empty =>
    subst empty
    exact ⟨[], rfl, rfl, fun _ => rfl⟩
  | edge before after token cut ends isEdge =>
    have mapped : pieces Context.start (left ++ right) = (before ++ token :: after).map Token.piece :=
      congrArg (List.map Token.piece) cut
    rw [List.map_append, List.map_cons] at mapped
    have parted := mapped
    rw [← List.singleton_append, ← List.append_assoc] at parted
    have texts : (before.map Token.piece ++ [token.piece]).flatMap Prod.snd = left := by
      rw [← ends, List.flatMap_append, List.flatMap_append, List.flatMap_map]
      rfl
    have tail := pieces_behind Context.start left right _ _ parted texts
    have fresh : Context.start.through (before.map Token.piece ++ [token.piece]) = Context.start := by
      rw [Context.through_append, Context.through_cons, Context.through_nil]
      exact isEdge.after_edge _ _ _
    rw [fresh] at tail
    have later : after.map Token.piece ≠ [] := by
      intro empty
      have whole := flatMap_pieces Context.start right
      rw [tail, empty] at whole
      exact held whole.symm
    have noCloser : token.piece.1 ∈ KindSet.boundary → ∀ bracket : Bracket,
        token.piece.2.getLast? ≠ some bracket.closer := by
      intro listed
      exact last_of_boundary_piece _ _ _ _ _ mapped later (List.mem_filter.mp listed).2 isEdge.ne_closeTag
    have owned : token.piece.2 ≠ [] := by
      apply ne_nil_of_mem_pieces Context.start (left ++ right)
      rw [mapped]
      simp
    refine ⟨before.map Token.piece ++ [token.piece], ?_, texts, ?_⟩
    · rw [parted, tail]
    · intro inStaticName
      have cellsOf : cells none (before.map Token.piece ++ [token.piece]) =
          pieceCells (before.getLast?.map Token.kind) token.piece ++ cells none (before.map Token.piece) := by
        rw [cells_append, lastKind_map_piece, cells_cons, cells_nil, List.nil_append]
      rw [cellsOf, scan_edge _ _ isEdge noCloser owned, List.length_append, length_pieceCells]

end AccessChain
