import AccessChain.Token.Stream
import Mathlib.Logic.ExistsUnique

/-! The stream of tokens leaves no gap. Its tokens are pieces of the text laid end to end, each piece is
cut off the front, and the loop that changes between code and text outside code comes to its end. -/
namespace AccessChain

namespace Token

def piece (token : Token) : TokenKind × Text := (token.kind, token.text)

theorem covers_iff (token : Token) (place : Nat) :
    token.covers place = true ↔ token.offset ≤ place ∧ place < token.offset + token.byteLength := by
  rw [covers, Bool.and_eq_true, decide_eq_true_eq, decide_eq_true_eq, Int.ofNat_le, ← Int.natCast_add, Int.ofNat_lt]

theorem map_piece_laidOut (offset : Nat) (pieces : List (TokenKind × Text)) :
    (laidOut offset pieces).map piece = pieces := by
  induction pieces generalizing offset with
  | nil => rfl
  | cons head rest ih => simp [laidOut, piece, ih]

theorem flatMap_text_laidOut (offset : Nat) (pieces : List (TokenKind × Text)) :
    (laidOut offset pieces).flatMap text = pieces.flatMap Prod.snd := by
  induction pieces generalizing offset with
  | nil => rfl
  | cons head rest ih => simp [laidOut, ih]

theorem offset_of_laidOut (offset : Nat) (pieces : List (TokenKind × Text)) (before after : List Token)
    (token : Token) (split : laidOut offset pieces = before ++ token :: after) :
    token.offset = offset + Text.byteLength (before.flatMap text) := by
  induction before generalizing offset pieces with
  | nil =>
    cases pieces with
    | nil => simp [laidOut] at split
    | cons head rest =>
      obtain ⟨same, _⟩ := List.cons.inj split
      rw [← same]
      simp
  | cons first before ih =>
    cases pieces with
    | nil => simp [laidOut] at split
    | cons head rest =>
      obtain ⟨same, tail⟩ := List.cons.inj split
      rw [ih _ rest tail, ← same]
      simp [Nat.add_assoc]

theorem offset_le_of_mem_laidOut (offset : Nat) (pieces : List (TokenKind × Text)) (token : Token)
    (member : token ∈ laidOut offset pieces) : offset ≤ token.offset := by
  obtain ⟨before, after, split⟩ := List.append_of_mem member
  rw [offset_of_laidOut offset pieces before after token split]
  exact Nat.le_add_right _ _

/-- Every byte of a layout belongs to exactly one of its tokens. -/
theorem owner_of_laidOut (offset : Nat) (pieces : List (TokenKind × Text)) (place : Nat)
    (least : offset ≤ place) (most : place < offset + Text.byteLength (pieces.flatMap Prod.snd)) :
    ∃! index : Nat, ∃ token : Token, (laidOut offset pieces)[index]? = some token ∧ token.covers place := by
  induction pieces generalizing offset with
  | nil =>
    simp at most
    omega
  | cons head rest ih =>
    simp only [List.flatMap_cons, Text.byteLength_append] at most
    by_cases inHead : place < offset + Text.byteLength head.2
    · refine ⟨0, ⟨_, rfl, (covers_iff _ place).mpr ⟨least, inHead⟩⟩, ?_⟩
      rintro index ⟨token, found, covered⟩
      cases index with
      | zero => rfl
      | succ index =>
        have behind : offset + Text.byteLength head.2 ≤ token.offset :=
          offset_le_of_mem_laidOut _ rest token (List.mem_of_getElem? found)
        have before : token.offset ≤ place := ((covers_iff token place).mp covered).1
        exact absurd inHead (Nat.not_lt_of_le (Nat.le_trans behind before))
    · rw [← Nat.add_assoc] at most
      obtain ⟨index, ⟨token, found, covered⟩, unique⟩ :=
        ih (offset + Text.byteLength head.2) (Nat.le_of_not_lt inHead) most
      refine ⟨index + 1, ⟨token, found, covered⟩, ?_⟩
      rintro other ⟨candidate, otherFound, otherCovered⟩
      cases other with
      | zero =>
        obtain rfl := Option.some.inj otherFound
        exact absurd ((covers_iff _ place).mp otherCovered).2 inHead
      | succ other => rw [unique other ⟨candidate, otherFound, otherCovered⟩]

end Token

@[simp] theorem tokensFrom_nil (context : Context) (offset : Nat) : tokensFrom context offset [] = [] := by
  rw [tokensFrom]

theorem tokensFrom_cons (context : Context) (offset : Nat) (first : Sym) (rest : Text) :
    tokensFrom context offset (first :: rest) =
      let cut := Cut.ofText context first rest
      let piece := (first :: rest).take cut.size
      ⟨cut.kind, piece, offset⟩ ::
        tokensFrom (context.after cut.kind) (offset + Text.byteLength piece) ((first :: rest).drop cut.size) := by
  rw [tokensFrom]

/-- The kinds and texts of the tokens of a text, which do not depend on where the text stands. -/
def pieces (context : Context) (text : Text) : List (TokenKind × Text) :=
  (tokensFrom context 0 text).map Token.piece

theorem map_piece_tokensFrom (context : Context) (offset : Nat) (text : Text) :
    (tokensFrom context offset text).map Token.piece = pieces context text := by
  suffices same : ∀ other, (tokensFrom context offset text).map Token.piece =
      (tokensFrom context other text).map Token.piece from same 0
  fun_induction tokensFrom context offset text with
  | case1 context offset =>
    intro other
    simp
  | case2 context offset first rest cut piece ih =>
    intro other
    rw [tokensFrom_cons context other]
    simp only [List.map_cons]
    rw [ih (other + Text.byteLength piece)]
    rfl

@[simp] theorem pieces_nil (context : Context) : pieces context [] = [] := by
  simp [pieces]

theorem pieces_cons (context : Context) (first : Sym) (rest : Text) :
    pieces context (first :: rest) =
      ((Cut.ofText context first rest).kind, (first :: rest).take (Cut.ofText context first rest).size) ::
        pieces (context.after (Cut.ofText context first rest).kind)
          ((first :: rest).drop (Cut.ofText context first rest).size) := by
  rw [pieces, tokensFrom_cons]
  simp only [List.map_cons]
  rw [map_piece_tokensFrom]
  rfl

theorem tokensFrom_eq_laidOut (context : Context) (offset : Nat) (text : Text) :
    tokensFrom context offset text = Token.laidOut offset (pieces context text) := by
  fun_induction tokensFrom context offset text with
  | case1 context offset => simp [Token.laidOut]
  | case2 context offset first rest cut piece ih =>
    rw [pieces_cons, Token.laidOut, ih]

/-- Induction along the pieces of a text, with the context that each of them leaves. -/
theorem pieces_induction {motive : Context → Text → Prop} (nil : ∀ context, motive context [])
    (cons : ∀ context first rest,
      motive (context.after (Cut.ofText context first rest).kind)
        ((first :: rest).drop (Cut.ofText context first rest).size) → motive context (first :: rest))
    (context : Context) (text : Text) : motive context text :=
  tokensFrom.induct (fun context _ text => motive context text) (fun context _ => nil context)
    (fun context _ first rest ih => cons context first rest ih) context 0 text

theorem flatMap_pieces (context : Context) (text : Text) :
    (pieces context text).flatMap Prod.snd = text := by
  induction context, text using pieces_induction with
  | nil context => simp
  | cons context first rest ih =>
    rw [pieces_cons, List.flatMap_cons, ih, List.take_append_drop]

theorem flatMap_text_tokenize (source : Text) : (tokenize source).flatMap Token.text = source := by
  rw [tokenize, tokensFrom_eq_laidOut, Token.flatMap_text_laidOut, flatMap_pieces]

theorem ne_nil_of_mem_pieces (context : Context) (text : Text) (piece : TokenKind × Text)
    (member : piece ∈ pieces context text) : piece.2 ≠ [] := by
  induction context, text using pieces_induction with
  | nil context => simp at member
  | cons context first rest ih =>
    rw [pieces_cons] at member
    rcases List.mem_cons.mp member with rfl | later
    · obtain ⟨size, positive⟩ : ∃ size, (Cut.ofText context first rest).size = size + 1 :=
        Nat.exists_eq_add_one.mpr (Cut.ofText context first rest).size_pos
      simp [positive]
    · exact ih later

theorem tokenize_eq_laidOut (text : Text) : tokenize text = Token.laidOut 0 (pieces Context.start text) :=
  tokensFrom_eq_laidOut Context.start 0 text

theorem text_ne_nil_of_mem_tokenize (text : Text) (token : Token) (member : token ∈ tokenize text) : token.text ≠ [] :=
  ne_nil_of_mem_pieces Context.start text token.piece (List.mem_map_of_mem member)

theorem offset_of_tokenize (text : Text) (before after : List Token) (token : Token)
    (split : tokenize text = before ++ token :: after) : token.offset = Text.byteLength (before.flatMap Token.text) := by
  rw [tokenize_eq_laidOut] at split
  rw [Token.offset_of_laidOut 0 _ before after token split, Nat.zero_add]

theorem tokenize_covers (text : Text) (place : Nat) :
    (place < Text.byteLength text → ∃! index : Nat, ∃ token : Token, (tokenize text)[index]? = some token ∧
      token.covers place) ∧
    (Text.byteLength text ≤ place → ∀ token ∈ tokenize text, token.covers place = false) := by
  constructor
  · intro inside
    rw [tokenize_eq_laidOut]
    apply Token.owner_of_laidOut 0 _ place (Nat.zero_le place)
    rwa [flatMap_pieces, Nat.zero_add]
  · intro behind token member
    obtain ⟨before, after, split⟩ := List.append_of_mem member
    have starts := offset_of_tokenize text before after token split
    have size := congrArg Text.byteLength (flatMap_text_tokenize text)
    rw [split, List.flatMap_append, List.flatMap_cons, Text.byteLength_append, Text.byteLength_append] at size
    apply eq_false_of_ne_true
    intro covered
    obtain ⟨_, most⟩ := (Token.covers_iff token place).mp covered
    rw [Token.byteLength] at most
    omega

/-- The text of some pieces without those that are comments. -/
def bare (pieces : List (TokenKind × Text)) : Text :=
  (pieces.filter fun piece => !piece.1.isComment).flatMap Prod.snd

@[simp] theorem bare_nil : bare [] = [] := rfl

theorem bare_append (left right : List (TokenKind × Text)) : bare (left ++ right) = bare left ++ bare right := by
  simp [bare]

theorem bare_cons (piece : TokenKind × Text) (pieces : List (TokenKind × Text)) (code : piece.1.isComment = false) :
    bare (piece :: pieces) = piece.2 ++ bare pieces := by
  simp [bare, code]

theorem bare_comment (piece : TokenKind × Text) (pieces : List (TokenKind × Text)) (comment : piece.1.isComment = true) :
    bare (piece :: pieces) = bare pieces := by
  simp [bare, comment]

theorem textWithoutComments_eq_bare (tokens : List Token) :
    Token.textWithoutComments tokens = bare (tokens.map Token.piece) := by
  simp only [bare, Token.textWithoutComments, List.filter_map, List.flatMap_map]
  rfl

namespace Context

/-- What some tokens decide about the one behind them. -/
def through (context : Context) (pieces : List (TokenKind × Text)) : Context :=
  pieces.foldl (fun context piece => context.after piece.1) context

@[simp] theorem through_nil (context : Context) : context.through [] = context := rfl

@[simp] theorem through_cons (context : Context) (piece : TokenKind × Text)
    (pieces : List (TokenKind × Text)) :
    context.through (piece :: pieces) = (context.after piece.1).through pieces := rfl

theorem through_append (context : Context) (left right : List (TokenKind × Text)) :
    context.through (left ++ right) = (context.through left).through right :=
  List.foldl_append ..

end Context

/-- Wherever the pieces of a text are parted, the second part is the pieces of the rest of the text. -/
theorem pieces_split (context : Context) (text : Text) (before after : List (TokenKind × Text))
    (split : pieces context text = before ++ after) :
    ∃ rest, text = before.flatMap Prod.snd ++ rest ∧ after = pieces (context.through before) rest := by
  induction before generalizing context text with
  | nil => exact ⟨text, rfl, split.symm⟩
  | cons head before ih =>
    cases text with
    | nil => simp at split
    | cons first rest =>
      rw [pieces_cons] at split
      obtain ⟨rfl, tail⟩ := List.cons.inj split
      obtain ⟨remaining, parted, same⟩ := ih _ _ tail
      refine ⟨remaining, ?_, same⟩
      rw [List.flatMap_cons, List.append_assoc, ← parted, List.take_append_drop]

theorem pieces_behind (context : Context) (left right : Text) (before after : List (TokenKind × Text))
    (cut : pieces context (left ++ right) = before ++ after) (texts : before.flatMap Prod.snd = left) :
    pieces (context.through before) right = after := by
  obtain ⟨rest, same, tail⟩ := pieces_split context (left ++ right) before after cut
  rw [texts] at same
  rw [tail, List.append_cancel_left same]

/-! The loop. A turn in text outside code may find none and then only goes back to code. -/

structure Lexer where
  context : Context
  offset : Nat
  rest : Text
  emitted : List Token

namespace Lexer

def start (source : Text) : Lexer := ⟨Context.start, 0, source, []⟩

def emit (lexer : Lexer) (kind : TokenKind) (size : Nat) : Lexer where
  context := lexer.context.after kind
  offset := lexer.offset + Text.byteLength (lexer.rest.take size)
  rest := lexer.rest.drop size
  emitted := lexer.emitted ++ [⟨kind, lexer.rest.take size, lexer.offset⟩]

/-- One turn, nothing if the text is used up. -/
def turn? (lexer : Lexer) : Option Lexer :=
  match lexer.rest with
  | [] => none
  | first :: rest =>
    if lexer.context.inHtml then
      match Extent.html (first :: rest) with
      | 0 => some { lexer with context := { lexer.context with inHtml := false } }
      | size + 1 => some (lexer.emit .inlineHtml (size + 1))
    else
      let cut := Cut.ofCode lexer.context.afterAccess first rest
      some (lexer.emit cut.kind cut.size)

/-- How the loop goes on, with the number of its turns. -/
inductive Reaches : Nat → Lexer → Lexer → Prop where
  | stay (lexer : Lexer) : Reaches 0 lexer lexer
  | turn (turns : Nat) (lexer next final : Lexer) (turned : lexer.turn? = some next)
      (more : Reaches turns next final) : Reaches (turns + 1) lexer final

theorem reaches_cut (lexer : Lexer) (first : Sym) (rest : Text) (more : lexer.rest = first :: rest)
    (turns : Nat) (final : Lexer)
    (after : Reaches turns (lexer.emit (Cut.ofText lexer.context first rest).kind
      (Cut.ofText lexer.context first rest).size) final) :
    ∃ needed, needed ≤ turns + 2 ∧ Reaches needed lexer final := by
  obtain ⟨⟨inHtml, afterAccess⟩, offset, _, emitted⟩ := lexer
  subst more
  cases inHtml with
  | false =>
    exact ⟨turns + 1, by omega, .turn turns _ _ final rfl after⟩
  | true =>
    -- In front of a tag a turn finds no text outside code, and the token is left to the turn after it.
    by_cases tagged : Text.startsWith ['<', '?'] (first :: rest)
    · have nothing : Extent.html (first :: rest) = 0 := by simp [Extent.html, tagged]
      refine ⟨turns + 2, by omega, .turn (turns + 1) _ ⟨⟨false, afterAccess⟩, offset, first :: rest, emitted⟩ _ ?_ ?_⟩
      · simp [turn?, nothing]
      · refine .turn turns _ _ final rfl ?_
        simpa [Cut.ofText, tagged, emit, Context.after] using after
    · have size : Extent.html (first :: rest) = Extent.html rest + 1 := by
        simp only [Extent.html, tagged, Bool.false_eq_true, if_false, Nat.add_comm]
      have cut : Cut.ofText ⟨true, afterAccess⟩ first rest = ⟨.inlineHtml, Extent.html rest + 1, by omega⟩ := by
        simp [Cut.ofText, tagged, Nat.add_comm]
      rw [cut] at after
      refine ⟨turns + 1, by omega, .turn turns _ _ final ?_ after⟩
      simp only [turn?, if_true, size]

/-- The loop uses up the text, after at most two turns for each symbol. -/
theorem reaches_end (lexer : Lexer) : ∃ turns final, turns ≤ 2 * lexer.rest.length ∧
    Reaches turns lexer final ∧ final.rest = [] ∧
    final.emitted = lexer.emitted ++ tokensFrom lexer.context lexer.offset lexer.rest := by
  obtain ⟨context, offset, text, emitted⟩ := lexer
  fun_induction tokensFrom context offset text generalizing emitted with
  | case1 context offset => exact ⟨0, _, by simp, .stay _, rfl, by simp⟩
  | case2 context offset first rest cut piece ih =>
    obtain ⟨turns, final, bound, reached, done, made⟩ := ih (emitted ++ [⟨cut.kind, piece, offset⟩])
    obtain ⟨needed, few, run⟩ :=
      reaches_cut ⟨context, offset, first :: rest, emitted⟩ first rest rfl turns final reached
    refine ⟨needed, final, ?_, run, done, ?_⟩
    · have shorter := cut.size_pos
      simp only [List.length_drop, List.length_cons] at bound ⊢
      omega
    · rw [made, tokensFrom_cons, List.append_assoc]
      rfl

end Lexer

/-- Lexing comes to its end, and its tokens are the non-empty pieces of the source without a gap: each
starts where the texts before it end, and every byte of the source belongs to exactly one of them. -/
theorem tokenize_gap_free (source : Text) :
    (∃ turns final, turns ≤ 2 * source.length ∧ Lexer.Reaches turns (Lexer.start source) final ∧
      final.turn? = none ∧ final.emitted = tokenize source) ∧
    (∀ token ∈ tokenize source, token.text ≠ []) ∧
    (tokenize source).flatMap Token.text = source ∧
    (∀ before token after, tokenize source = before ++ token :: after →
      token.offset = Text.byteLength (before.flatMap Token.text)) ∧
    ∀ place < Text.byteLength source,
      ∃! index : Nat, ∃ token : Token, (tokenize source)[index]? = some token ∧ token.covers place := by
  have layout : tokenize source = Token.laidOut 0 (pieces Context.start source) :=
    tokensFrom_eq_laidOut Context.start 0 source
  refine ⟨?_, ?_, ?_, ?_, ?_⟩
  · obtain ⟨turns, final, bound, reached, done, made⟩ := Lexer.reaches_end (Lexer.start source)
    refine ⟨turns, final, bound, reached, ?_, ?_⟩
    · simp [Lexer.turn?, done]
    · simpa [Lexer.start, tokenize] using made
  · intro token member
    apply ne_nil_of_mem_pieces Context.start source token.piece
    rw [← Token.map_piece_laidOut 0 (pieces Context.start source), ← layout]
    exact List.mem_map_of_mem member
  · rw [layout, Token.flatMap_text_laidOut, flatMap_pieces]
  · intro before token after split
    rw [layout] at split
    simpa using Token.offset_of_laidOut 0 _ before after token split
  · intro place inside
    rw [layout]
    apply Token.owner_of_laidOut 0 _ place (Nat.zero_le place)
    rw [flatMap_pieces, Nat.zero_add]
    exact inside

end AccessChain
