import AccessChain.Proofs.Cells
import AccessChain.Proofs.Restart

/-! Scanning a text alone and behind other code. The two scans visit the same cells as long as both are in
the text, but for the kind that stands before its first piece. -/
namespace AccessChain

namespace Context

theorem afterAccess_through (context : Context) (pieces : List (TokenKind × Text))
    (outside : context.afterAccess = false)
    (noAccess : ∀ last, (pieces.filter fun piece => !piece.1.isTrivia).getLast? = some last →
      last.1.isAccess = false) :
    (context.through pieces).afterAccess = false := by
  rw [afterAccess_through_eq]
  cases found : (pieces.filter fun piece => !piece.1.isTrivia).getLast? with
  | none => exact outside
  | some last => exact noAccess last found

end Context

/-- Where a text outside code does not begin, the pieces are those of a text of its own, unless an access
operator stands before them. -/
theorem pieces_of_code (context : Context) (text : Text) (outside : context.afterAccess = false)
    (inCode : ∀ piece, (pieces context text).head? = some piece → piece.1 ≠ .inlineHtml) :
    pieces context text = pieces Context.start text := by
  have code := tokensFrom_in_code context 0 text (by
    intro token found
    apply inCode token.piece
    rw [pieces, List.head?_map, found]
    rfl)
  rw [pieces, code, outside]
  rfl

namespace Expression

/-- No closing curly bracket of a piece is taken for the end of a block. -/
def HoldsNoBlockEnd (inString : Bool) (piece : TokenKind × Text) : Prop :=
  piece.1.isComment = true ∨ (inString = true ∧ piece.1 = .stringLiteral) ∨ .char '}' ∉ piece.2

theorem advance_before (boundary : KindSet) (inString : Bool) (progress : Progress) (byte : UInt8)
    (kind before other : Option TokenKind)
    (same : (before = some .varName ↔ other = some .varName) ∨ byte ≠ 0x7D ∨
      Cell.isHidden inString ⟨byte, kind, before⟩ = true ∨ progress.depth.round ≠ 0) :
    advance boundary inString progress ⟨byte, kind, before⟩ = advance boundary inString progress ⟨byte, kind, other⟩ := by
  have visits : visit boundary inString progress ⟨byte, kind, before⟩ =
      visit boundary inString progress ⟨byte, kind, other⟩ := by
    cases Cell.role inString ⟨byte, kind, before⟩ with
    | hidden hidden =>
      rw [visit_hidden _ _ _ ⟨byte, kind, before⟩ hidden]
      exact (visit_hidden _ _ _ ⟨byte, kind, other⟩ hidden).symm
    | closing visible bracket closing =>
      rw [visit_closing _ _ _ ⟨byte, kind, before⟩ bracket visible closing,
        visit_closing _ _ _ ⟨byte, kind, other⟩ bracket visible closing]
      rcases same with kinds | noCurly | hidden | inside
      · simp only [ne_eq, kinds]
      · have otherBracket : bracket ≠ .curly := by
          rintro rfl
          exact noCurly ((closing?_eq_curly byte).mp closing)
        simp [otherBracket]
      · rw [visible] at hidden
        contradiction
      · simp [inside]
    | opening visible bracket opening =>
      rw [visit_opening _ _ _ ⟨byte, kind, before⟩ bracket visible opening,
        visit_opening _ _ _ ⟨byte, kind, other⟩ bracket visible opening]
    | plain visible noOpening noClosing =>
      rw [visit_plain _ _ _ ⟨byte, kind, before⟩ visible noOpening noClosing,
        visit_plain _ _ _ ⟨byte, kind, other⟩ visible noOpening noClosing]
      rfl
  unfold advance
  rw [visits]

/-- What stands before a piece matters only for the closing curly brackets in it. -/
theorem run_pieceCells (boundary : KindSet) (inString : Bool) (progress : Progress)
    (before other : Option TokenKind) (piece : TokenKind × Text)
    (same : (before = some .varName ↔ other = some .varName) ∨ HoldsNoBlockEnd inString piece) :
    run boundary inString progress (pieceCells before piece) = run boundary inString progress (pieceCells other piece) ∧
      scan boundary inString progress (pieceCells before piece) =
        scan boundary inString progress (pieceCells other piece) := by
  have cellwise : ∀ byte ∈ (Text.encode piece.2).reverse, (before = some .varName ↔ other = some .varName) ∨
      byte ≠ 0x7D ∨ Cell.isHidden inString ⟨byte, some piece.1, before⟩ = true := by
    intro byte member
    rcases same with kinds | comment | ⟨string, kind⟩ | noCurly
    · exact Or.inl kinds
    · exact Or.inr (Or.inr (by simp [Cell.isHidden, comment]))
    · exact Or.inr (Or.inr (by simp [Cell.isHidden, string, kind]))
    · refine Or.inr (Or.inl ?_)
      rintro rfl
      obtain ⟨symbol, inside, owned⟩ := List.mem_flatMap.mp (List.mem_reverse.mp member)
      rw [Text.eq_char_of_mem_bytes symbol '}' (by decide) owned] at inside
      exact noCurly inside
  unfold pieceCells
  -- By induction on the bytes of the piece: both scans make the same progress over each of them.
  generalize (Text.encode piece.2).reverse = bytes at cellwise
  induction bytes generalizing progress with
  | nil => exact ⟨rfl, rfl⟩
  | cons byte bytes ih =>
    have first := advance_before boundary inString progress byte (some piece.1) before other
      ((cellwise byte List.mem_cons_self).imp_right (Or.imp_right Or.inl))
    have rest := fun next => ih next (fun byte member => cellwise byte (List.mem_cons_of_mem _ member))
    simp only [List.map_cons, run_cons, scan, first]
    cases advance boundary inString progress ⟨byte, some piece.1, other⟩ with
    | none => simp
    | some next => exact rest next

theorem run_cells (boundary : KindSet) (inString : Bool) (progress : Progress)
    (before other : Option TokenKind) (piece : TokenKind × Text) (rest : List (TokenKind × Text))
    (same : (before = some .varName ↔ other = some .varName) ∨ HoldsNoBlockEnd inString piece) :
    run boundary inString progress (cells before (piece :: rest)) =
        run boundary inString progress (cells other (piece :: rest)) ∧
      scan boundary inString progress (cells before (piece :: rest)) =
        scan boundary inString progress (cells other (piece :: rest)) := by
  rw [cells_cons, cells_cons, run_append, run_append]
  cases ran : run boundary inString progress (cells (some piece.1) rest) with
  | none =>
    rw [scan_append_of_stop _ _ _ _ _ ran, scan_append_of_stop _ _ _ _ _ ran]
    simp
  | some next =>
    rw [scan_append_of_run _ _ _ next _ _ ran, scan_append_of_run _ _ _ next _ _ ran]
    exact run_pieceCells boundary inString next before other piece same

end Expression
open Expression in
/-- The start of an expression behind other code: inside the text it is where it is in the text alone, and
otherwise it is somewhere in the code before. -/
theorem startBefore_append (boundary : KindSet) (left right : Text) (before rest : List (TokenKind × Text))
    (piece : TokenKind × Text) (decoded : Text.Decoded (left ++ right))
    (cut : pieces Context.start (left ++ right) = before ++ piece :: rest)
    (edge : before.flatMap Prod.snd = left) (alone : pieces Context.start right = piece :: rest)
    (noBlock : lastKind none before = some .varName → HoldsNoBlockEnd (endsInString (piece :: rest)) piece) :
    Scanner.startBefore { boundary } (Text.encode right) =
      Scanner.startBefore { boundary } (Text.encode (left ++ right)) - Text.byteLength left := by
  have string := endsInString_append before rest piece
  have same : (lastKind none before = some .varName ↔ none = some TokenKind.varName) ∨
      HoldsNoBlockEnd (endsInString (piece :: rest)) piece := by
    by_cases variable_ : lastKind none before = some .varName
    · exact Or.inr (noBlock variable_)
    · exact Or.inl (by simp [variable_])
  obtain ⟨runs, scans⟩ := run_cells boundary (endsInString (piece :: rest)) Progress.start _ _ piece rest same
  rw [startBefore_eq_scan, startBefore_eq_scan, Text.decode_encode_of_decoded _ decoded,
    Text.decode_encode_of_decoded _ decoded.of_append, cut, alone, string, cells_append]
  cases ran : run boundary (endsInString (piece :: rest)) Progress.start (cells (lastKind none before) (piece :: rest)) with
  | none =>
    rw [scan_append_of_stop _ _ _ _ _ ran, scans, length_cells, edge]
    omega
  | some next =>
    have bound := scan_le_length boundary (endsInString (piece :: rest)) next (cells none before)
    rw [length_cells, edge] at bound
    rw [scan_append_of_run _ _ _ next _ _ ran, scan_of_run _ _ _ next _ (runs.symm.trans ran)]
    omega

open Expression in
/-- What stands before a text does not change where in the text an expression starts, nor its chain. -/
theorem chain_ignores_left_context (boundary : KindSet) (left right : Text)
    (decoded : Text.Decoded (left ++ right)) (before after : List Token) (token : Token)
    (cut : tokenize (left ++ right) = before ++ token :: after) (edge : before.flatMap Token.text = left)
    (inCode : token.kind ≠ .inlineHtml)
    (noAccess : ∀ last, (before.filter fun token => !token.kind.isTrivia).getLast? = some last →
      last.kind.isAccess = false)
    (noBlock : before.getLast?.map Token.kind = some .varName →
      HoldsNoBlockEnd ((token :: after).getLast?.any fun last => last.kind == .stringLiteral) token.piece) :
    ∃ whole part chain, Scanner.expressionStart { boundary } (left ++ right) none = .ok whole ∧
      Scanner.expressionStart { boundary } right none = .ok part ∧
      part = whole - Text.byteLength left ∧
      Scanner.chain { boundary } right none = .ok chain ∧
      (Text.byteLength left ≤ whole → Scanner.chain { boundary } (left ++ right) none = .ok chain) ∧
      (whole = Text.byteLength left → part = 0) := by
  have parted : pieces Context.start (left ++ right) = before.map Token.piece ++ token.piece :: after.map Token.piece := by
    rw [pieces, ← tokenize, cut, List.map_append, List.map_cons]
  have edges : (before.map Token.piece).flatMap Prod.snd = left := by
    rw [List.flatMap_map]
    exact edge
  have tail := pieces_behind Context.start left right _ _ parted edges
  have outside : (Context.start.through (before.map Token.piece)).afterAccess = false := by
    apply Context.afterAccess_through Context.start _ rfl
    intro last found
    rw [List.filter_map, List.getLast?_map, Option.map_eq_some_iff] at found
    obtain ⟨token, found, rfl⟩ := found
    exact noAccess token found
  have alone : pieces Context.start right = token.piece :: after.map Token.piece := by
    rw [← pieces_of_code _ right outside, tail]
    intro piece found
    rw [tail] at found
    obtain rfl := Option.some.inj found
    exact inCode
  have start := startBefore_append boundary left right _ _ token.piece decoded parted edges alone (by
    rw [lastKind_map_piece, ← List.map_cons, endsInString_map_piece]
    exact noBlock)
  refine ⟨_, _, _, expressionStart_at_end _ _, expressionStart_at_end _ _, start, chain_at_end _ _, ?_, ?_⟩
  · intro inside
    have bytes : (Text.encode (left ++ right)).drop (Scanner.startBefore { boundary } (Text.encode (left ++ right))) =
        (Text.encode right).drop (Scanner.startBefore { boundary } (Text.encode right)) := by
      rw [start]
      generalize Scanner.startBefore { boundary } (Text.encode (left ++ right)) = whole at inside
      rw [Text.encode_append, List.drop_append, List.drop_eq_nil_of_le inside, List.nil_append]
      rfl
    rw [chain_at_end, bytes]
  · intro here
    rw [start, here, Nat.sub_self]

/-- A comment right behind a variable, with a closing curly bracket in it. -/
theorem chain_ignores_left_context_of_comment :
    Text.Decoded (Text.ofString "f($x" ++ Text.ofString "/*\x7d*/->c") ∧
      tokenize (Text.ofString "f($x" ++ Text.ofString "/*\x7d*/->c") =
        [⟨.identifier, Text.ofString "f", 0⟩, ⟨.character, Text.ofString "(", 1⟩, ⟨.varName, Text.ofString "$x", 2⟩] ++
          ⟨.blockComment, Text.ofString "/*\x7d*/", 4⟩ ::
            [⟨.objectOperator, Text.ofString "->", 9⟩, ⟨.identifier, Text.ofString "c", 11⟩] ∧
      ∃ whole part chain,
        Scanner.expressionStart { boundary := KindSet.boundary } (Text.ofString "f($x" ++ Text.ofString "/*\x7d*/->c")
          none = .ok whole ∧
        Scanner.expressionStart { boundary := KindSet.boundary } (Text.ofString "/*\x7d*/->c") none = .ok part ∧
        part = whole - Text.byteLength (Text.ofString "f($x") ∧
        Scanner.chain { boundary := KindSet.boundary } (Text.ofString "/*\x7d*/->c") none = .ok chain ∧
        (Text.byteLength (Text.ofString "f($x") ≤ whole →
          Scanner.chain { boundary := KindSet.boundary } (Text.ofString "f($x" ++ Text.ofString "/*\x7d*/->c") none =
            .ok chain) ∧
        (whole = Text.byteLength (Text.ofString "f($x") → part = 0) := by
  have decoded : Text.Decoded (Text.ofString "f($x" ++ Text.ofString "/*\x7d*/->c") :=
    ⟨Text.encode (Text.ofString "f($x/*\x7d*/->c"), by decide +kernel⟩
  have cut : tokenize (Text.ofString "f($x" ++ Text.ofString "/*\x7d*/->c") =
      [⟨.identifier, Text.ofString "f", 0⟩, ⟨.character, Text.ofString "(", 1⟩, ⟨.varName, Text.ofString "$x", 2⟩] ++
        ⟨.blockComment, Text.ofString "/*\x7d*/", 4⟩ ::
          [⟨.objectOperator, Text.ofString "->", 9⟩, ⟨.identifier, Text.ofString "c", 11⟩] := by decide +kernel
  exact ⟨decoded, cut, chain_ignores_left_context KindSet.boundary _ _ decoded _ _ _ cut (by decide +kernel)
    (by decide) (by decide) (fun _ => Or.inl rfl)⟩

/-- A quoted closing curly bracket right behind a variable makes a difference, although it is no bracket of
the code. -/
theorem quoted_brace_depends_on_left_context :
    ¬ ∀ (boundary : KindSet) (left right : Text), Text.Decoded (left ++ right) →
      ∀ (before after : List Token) (token : Token), tokenize (left ++ right) = before ++ token :: after →
        before.flatMap Token.text = left → token.kind ≠ .inlineHtml →
        ¬ (token.kind = .character ∧ token.text = [.char '}']) →
        (∀ last, (before.filter fun token => !token.kind.isTrivia).getLast? = some last →
          last.kind.isAccess = false) →
        ∀ whole part, Scanner.expressionStart { boundary } (left ++ right) none = .ok whole →
          Scanner.expressionStart { boundary } right none = .ok part → part = whole - Text.byteLength left := by
  intro independent
  have decoded : Text.Decoded (Text.ofString "$x" ++ Text.ofString "'a\x7db'->c") :=
    ⟨Text.encode (Text.ofString "$x'a\x7db'->c"), by decide +kernel⟩
  have same := independent KindSet.boundary (Text.ofString "$x") (Text.ofString "'a\x7db'->c") decoded
    [⟨.varName, Text.ofString "$x", 0⟩]
    [⟨.objectOperator, Text.ofString "->", 7⟩, ⟨.identifier, Text.ofString "c", 9⟩]
    ⟨.stringLiteral, Text.ofString "'a\x7db'", 2⟩ (by decide +kernel) (by decide +kernel) (by decide) (by decide)
    (by decide +kernel) _ _ (expressionStart_at_end _ _) (expressionStart_at_end _ _)
  exact absurd same (by decide +kernel)

end AccessChain
