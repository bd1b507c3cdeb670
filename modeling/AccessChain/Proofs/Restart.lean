import AccessChain.Proofs.Cutting
import Mathlib.Data.List.Induction

/-! Lexing again from the middle of a text. What the tokens so far decide about the rest is whether it begins
outside code and whether its first name stands behind an access operator. The tokens of a rest that begins in
code are therefore its tokens in the whole text, but for the kind of that one name. -/
namespace AccessChain

namespace Token

/-- The token as it stands in a text with so many more bytes in front. -/
def movedBy (distance : Nat) (token : Token) : Token := { token with offset := distance + token.offset }

/-- Whether the last token that is no trivia is an access operator. -/
def endInAccess (tokens : List Token) : Bool :=
  (tokens.filter fun token => !token.kind.isTrivia).getLast?.any fun last => last.kind.isAccess

/-- The tokens with a keyword look-up for the first one that is no trivia, if that is a name. -/
def lookedUp : List Token → List Token
  | [] => []
  | token :: rest =>
    if token.kind.isTrivia then token :: lookedUp rest
    else if token.kind = .identifier then { token with kind := Cut.nameKind false token.text } :: rest
    else token :: rest

end Token

namespace Context

theorem afterAccess_through_eq (context : Context) (pieces : List (TokenKind × Text)) :
    (context.through pieces).afterAccess =
      ((pieces.filter fun piece => !piece.1.isTrivia).getLast?.map fun last => last.1.isAccess).getD
        context.afterAccess := by
  induction pieces using List.reverseRecOn with
  | nil => rfl
  | append_singleton pieces piece ih =>
    rw [through_append, through_cons, through_nil]
    by_cases trivia : piece.1.isTrivia = true
    · simp [after, trivia, ih, List.filter_append]
    · simp [after, trivia, List.filter_append]

theorem endInAccess_eq (tokens : List Token) :
    (Context.start.through (tokens.map Token.piece)).afterAccess = Token.endInAccess tokens := by
  rw [afterAccess_through_eq, List.filter_map, List.getLast?_map, Token.endInAccess]
  change (((tokens.filter fun token => !token.kind.isTrivia).getLast?.map Token.piece).map
    fun last => last.1.isAccess).getD false = _
  cases (tokens.filter fun token => !token.kind.isTrivia).getLast? with
  | none => rfl
  | some last => rfl

end Context

namespace Cut

theorem operator_kind_ne_identifier (first : Sym) (rest : Text) : (operator first rest).kind ≠ .identifier := by
  have rows : ∀ row ∈ operators, row.2.2 ≠ .identifier := by decide
  rcases take_operator first rest with ⟨row, listed, kind, _⟩ | ⟨kind, _⟩
  · exact kind ▸ rows row listed
  · exact kind ▸ by decide

/-- The kind of a name is all that an access operator in front of a text decides. -/
theorem ofCode_after_access (first : Sym) (rest : Text) :
    (ofCode false first rest).size = (ofCode true first rest).size ∧
      (ofCode false first rest).kind =
        if (ofCode true first rest).kind = .identifier then
          nameKind false ((first :: rest).take (ofCode true first rest).size)
        else (ofCode true first rest).kind := by
  fun_cases ofCode true first rest with
  | case2 blank tag =>
    have kind : (openingTag (first :: rest)).kind ≠ .identifier := by
      rcases openingTag_kind (first :: rest) with other | other <;> simp [other]
    simp [ofCode, *]
  | case9 _ _ _ _ _ _ _ _ name size =>
    have taken : (first :: rest).take (1 + size) = first :: rest.take size := by rw [Nat.add_comm, List.take_succ_cons]
    simp only [ofCode, *, if_true, if_false, Bool.false_eq_true]
    exact ⟨rfl, rfl⟩
  | case11 _ _ _ _ _ _ _ _ _ _ slash =>
    subst slash
    exact ⟨rfl, rfl⟩
  | case12 =>
    have kind := operator_kind_ne_identifier first rest
    simp [ofCode, *]
  | _ => simp [ofCode, *]

end Cut

theorem tokensFrom_split (context : Context) (offset : Nat) (text : Text) (before after : List Token)
    (split : tokensFrom context offset text = before ++ after) :
    ∃ rest, text = before.flatMap Token.text ++ rest ∧
      after = tokensFrom (context.through (before.map Token.piece))
        (offset + Text.byteLength (before.flatMap Token.text)) rest := by
  induction before generalizing context offset text with
  | nil => exact ⟨text, rfl, split.symm⟩
  | cons head before ih =>
    cases text with
    | nil => simp at split
    | cons first rest =>
      rw [tokensFrom_cons] at split
      obtain ⟨rfl, tail⟩ := List.cons.inj split
      obtain ⟨remaining, parted, same⟩ := ih _ _ _ tail
      refine ⟨remaining, ?_, ?_⟩
      · rw [List.flatMap_cons, List.append_assoc, ← parted, List.take_append_drop]
      · rw [same, List.flatMap_cons, Text.byteLength_append, Nat.add_assoc]
        rfl

theorem Text.prefix_of_byteLength (front other : Text) (rest more : Text) (same : front ++ rest = other ++ more)
    (short : byteLength front ≤ byteLength other) : ∃ between, other = front ++ between := by
  rcases List.append_eq_append_iff.mp same with ⟨between, parted, _⟩ | ⟨between, parted, _⟩
  · exact ⟨between, parted⟩
  · cases between with
    | nil => exact ⟨[], by rw [parted, List.append_nil, List.append_nil]⟩
    | cons symbol between =>
      rw [parted, byteLength_append, byteLength_cons] at short
      have wide := symbol.width_pos
      omega

/-- A token that begins where the front of a text ends parts the tokens there. -/
theorem tokenize_split_at (front back : Text) (token : Token) (member : token ∈ tokenize (front ++ back))
    (place : token.offset = Text.byteLength front) :
    ∃ before after, tokenize (front ++ back) = before ++ token :: after ∧ before.flatMap Token.text = front := by
  obtain ⟨before, after, split⟩ := List.append_of_mem member
  refine ⟨before, after, split, ?_⟩
  have laid := tokensFrom_eq_laidOut Context.start 0 (front ++ back)
  have placed := Token.offset_of_laidOut 0 _ before after token (laid.symm.trans split)
  rw [Nat.zero_add] at placed
  obtain ⟨rest, parted, _⟩ := tokensFrom_split Context.start 0 _ before _ split
  obtain ⟨between, whole⟩ := Text.prefix_of_byteLength front _ back rest parted (Nat.le_of_eq (place.symm.trans placed))
  rw [place, whole, Text.byteLength_append] at placed
  cases between with
  | nil => rw [whole, List.append_nil]
  | cons symbol between =>
    rw [Text.byteLength_cons] at placed
    have wide := symbol.width_pos
    omega

theorem pieces_split_at (front back : Text) (token : Token) (member : token ∈ tokenize (front ++ back))
    (place : token.offset = Text.byteLength front) :
    ∃ before after, pieces Context.start (front ++ back) = before ++ token.piece :: after ∧
      before.flatMap Prod.snd = front := by
  obtain ⟨before, after, split, same⟩ := tokenize_split_at front back token member place
  refine ⟨before.map Token.piece, after.map Token.piece, ?_, ?_⟩
  · rw [pieces, ← tokenize, split, List.map_append, List.map_cons]
  · rw [List.flatMap_map]
    exact same

theorem map_movedBy_tokensFrom (distance : Nat) (context : Context) (offset : Nat) (text : Text) :
    (tokensFrom context offset text).map (Token.movedBy distance) = tokensFrom context (distance + offset) text := by
  fun_induction tokensFrom context offset text with
  | case1 context offset => simp
  | case2 context offset first rest cut piece ih =>
    rw [List.map_cons, ih, ← Nat.add_assoc, tokensFrom_cons]
    rfl

/-- A text that begins with a token of code has the tokens that it has in code. -/
theorem tokensFrom_in_code (context : Context) (offset : Nat) (text : Text)
    (inCode : ∀ token, (tokensFrom context offset text).head? = some token → token.kind ≠ .inlineHtml) :
    tokensFrom context offset text = tokensFrom ⟨false, context.afterAccess⟩ offset text := by
  cases text with
  | nil => simp
  | cons first rest =>
    rw [tokensFrom_cons] at inCode
    have kind := inCode _ rfl
    have cut : Cut.ofText context first rest = Cut.ofText ⟨false, context.afterAccess⟩ first rest := by
      obtain ⟨inHtml, afterAccess⟩ := context
      cases inHtml with
      | false => rfl
      | true =>
        by_cases tagged : Text.startsWith ['<', '?'] (first :: rest) = true
        · simp [Cut.ofText, tagged]
        · simp [Cut.ofText, tagged] at kind
    rw [tokensFrom_cons, tokensFrom_cons, cut]
    rfl

namespace Context

theorem after_of_trivia (afterAccess : Bool) (kind : TokenKind) (trivia : kind.isTrivia = true) :
    (⟨false, afterAccess⟩ : Context).after kind = ⟨false, afterAccess⟩ := by
  cases kind <;> simp_all [TokenKind.isTrivia, after]

theorem after_of_no_trivia (context other : Context) (kind : TokenKind) (noTrivia : kind.isTrivia = false) :
    context.after kind = other.after kind := by
  simp [after, noTrivia]

theorem after_name (context : Context) (afterAccess : Bool) (word : Text) :
    context.after (Cut.nameKind afterAccess word) = context.after .identifier := by
  rcases Cut.nameKind_cases afterAccess word with kind | ⟨keyword, kind⟩
  · rw [kind]
  · rw [kind]
    rfl

end Context

theorem tokensFrom_after_access (offset : Nat) (text : Text) :
    tokensFrom ⟨false, false⟩ offset text = Token.lookedUp (tokensFrom ⟨false, true⟩ offset text) := by
  generalize behind : (⟨false, true⟩ : Context) = context
  -- By induction on the tokens: the look-up goes on behind trivia and ends with the first other token.
  fun_induction tokensFrom context offset text with
  | case1 context offset => simp [Token.lookedUp]
  | case2 context offset first rest cut piece ih =>
    subst behind
    obtain ⟨size, kind⟩ := Cut.ofCode_after_access first rest
    change (Cut.ofText ⟨false, false⟩ first rest).size = cut.size at size
    change (Cut.ofText ⟨false, false⟩ first rest).kind =
      if cut.kind = .identifier then Cut.nameKind false piece else cut.kind at kind
    rw [tokensFrom_cons, Token.lookedUp]
    simp only [size, kind]
    by_cases trivia : cut.kind.isTrivia = true
    · have noName : cut.kind ≠ .identifier := by
        intro same
        rw [same] at trivia
        contradiction
      rw [Context.after_of_trivia true _ trivia] at ih
      rw [if_neg noName, if_pos trivia, Context.after_of_trivia false _ trivia, Context.after_of_trivia true _ trivia,
        ih rfl]
    · rw [if_neg trivia]
      by_cases name : cut.kind = .identifier
      · rw [if_pos name, if_pos name, Context.after_name, name]
        rfl
      · rw [if_neg name, if_neg name, Context.after_of_no_trivia ⟨false, false⟩ ⟨false, true⟩ _ (by simpa using trivia)]

/-- Lexing can start again at every token of code. The tokens of the rest of the text, placed where the rest
begins, are those of the whole text from there on, but behind an access operator the first one that is no
trivia is looked up among the keywords if it is a name. -/
theorem tokenize_restarts (source : Text) (before after : List Token) (token : Token)
    (cut : tokenize source = before ++ token :: after) (inCode : token.kind ≠ .inlineHtml) :
    (tokenize (source.drop (before.flatMap Token.text).length)).map (Token.movedBy token.offset) =
      if Token.endInAccess before then Token.lookedUp (token :: after) else token :: after := by
  obtain ⟨rest, parted, tail⟩ := tokensFrom_split Context.start 0 source before (token :: after) cut
  have place : token.offset = 0 + Text.byteLength (before.flatMap Token.text) := by
    cases rest with
    | nil => simp at tail
    | cons first rest =>
      rw [tokensFrom_cons] at tail
      exact congrArg Token.offset (List.cons.inj tail).1
  have code := tokensFrom_in_code _ _ rest (by
    intro other found
    rw [← tail] at found
    obtain rfl := Option.some.inj found
    exact inCode)
  rw [← tail, Context.endInAccess_eq, ← place] at code
  have dropped : source.drop (before.flatMap Token.text).length = rest := by
    rw [parted, List.drop_left]
  rw [dropped, tokenize, map_movedBy_tokensFrom, Nat.add_zero, code]
  cases Token.endInAccess before with
  | false => rfl
  | true => exact tokensFrom_after_access token.offset rest

/-- A member that is called like a keyword, and a comment in front of it to start at. -/
theorem tokenize_restarts_at_comment :
    tokenize (Text.ofString "$a->/*b*/class") =
      [⟨.varName, Text.ofString "$a", 0⟩, ⟨.objectOperator, Text.ofString "->", 2⟩] ++
        ⟨.blockComment, Text.ofString "/*b*/", 4⟩ :: [⟨.identifier, Text.ofString "class", 9⟩] ∧
      TokenKind.blockComment ≠ .inlineHtml ∧
      (tokenize (Text.ofString "/*b*/class")).map (Token.movedBy 4) =
        [⟨.blockComment, Text.ofString "/*b*/", 4⟩, ⟨.keyword .classKw, Text.ofString "class", 9⟩] := by
  have cut : tokenize (Text.ofString "$a->/*b*/class") =
      [⟨.varName, Text.ofString "$a", 0⟩, ⟨.objectOperator, Text.ofString "->", 2⟩] ++
        ⟨.blockComment, Text.ofString "/*b*/", 4⟩ :: [⟨.identifier, Text.ofString "class", 9⟩] := by decide +kernel
  exact ⟨cut, by decide, tokenize_restarts (Text.ofString "$a->/*b*/class") _ _ _ cut (by decide)⟩

end AccessChain
