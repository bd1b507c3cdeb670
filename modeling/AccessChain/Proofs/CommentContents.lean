import AccessChain.Proofs.Delimiters

/-! What a block comment contains. The tokens on either side do not depend on it, and a scan that comes to the comment
stops right behind it or passes over all of it, so it is never in the comment that an expression starts. -/
namespace AccessChain

section Lexing
variable (context : Context) (inner back : Text) (rest : List (TokenKind × Text))

theorem inCode_of_comment (cut : pieces context (blockCommentOf inner ++ back) = (.blockComment, blockCommentOf inner) :: rest) :
    context.inHtml = false := by
  have text : blockCommentOf inner ++ back = .char '/' :: (.char '*' :: (inner ++ Text.ofChars ['*', '/']) ++ back) := rfl
  obtain ⟨inHtml, afterAccess⟩ := context
  cases inHtml with
  | false => rfl
  | true =>
    rw [text, pieces_cons] at cut
    obtain ⟨kind, _⟩ := Prod.mk.inj (List.cons.inj cut).1
    contradiction

/-- A token in front of a comment does not end only because of what stands behind it. -/
theorem tagBehind?_before_comment (last : TokenKind × Text)
    (cut : pieces context (last.2 ++ (blockCommentOf inner ++ back)) = last :: rest) : Cut.tagBehind? last.1 = none := by
  have formed := ofKind_first context last _ rest cut
  obtain ⟨kind, text⟩ := last
  cases kind with
  | lineComment =>
    rcases Delimited.LineComment.ends formed with ended | ⟨mark, listed, more, same⟩
    · contradiction
    · simp only [List.mem_cons, List.not_mem_nil, or_false] at listed
      rcases listed with rfl | rfl | rfl <;> exact absurd (List.cons.inj same).1 (by decide)
  | inlineHtml =>
    rcases Delimited.OutsideCode.ends formed with ended | ⟨more, same⟩
    · contradiction
    · exact absurd (List.cons.inj same).1 (by decide)
  | _ => rfl

/-- Behind a slash the comment would be a line comment. -/
theorem ne_slash_before_comment (last : TokenKind × Text)
    (cut : pieces context (last.2 ++ (blockCommentOf inner ++ back)) = last :: rest) : last.2 ≠ [.char '/'] := by
  intro slash
  have ended := tagBehind?_before_comment context inner back rest last cut
  have text : [.char '/'] ++ (blockCommentOf inner ++ back) =
      .char '/' :: .char '/' :: (.char '*' :: (inner ++ Text.ofChars ['*', '/']) ++ back) := rfl
  rw [slash, text, pieces_cons] at cut
  rw [← (List.cons.inj cut).1] at ended
  obtain ⟨inHtml, afterAccess⟩ := context
  cases inHtml with
  | false => contradiction
  | true => contradiction

end Lexing

/-- Another text in a comment changes no token but the comment itself. -/
theorem pieces_of_comment (context : Context) (front rest : List (TokenKind × Text)) (inner other back : Text)
    (unclosed : IsUnclosed inner) (unclosedOther : IsUnclosed other)
    (cut : pieces context (front.flatMap Prod.snd ++ (blockCommentOf inner ++ back)) =
      front ++ (.blockComment, blockCommentOf inner) :: rest) :
    pieces context (front.flatMap Prod.snd ++ (blockCommentOf other ++ back)) =
      front ++ (.blockComment, blockCommentOf other) :: rest := by
  have here := pieces_behind context _ _ front _ cut rfl
  have inCode := inCode_of_comment _ inner back rest here
  rw [pieces_comment _ inner back inCode unclosed] at here
  have behind := (List.cons.inj here).2
  have again := pieces_comment _ other back inCode unclosedOther
  rw [behind] at again
  rcases List.eq_nil_or_concat front with rfl | ⟨before, last, rfl⟩
  · exact again
  · rw [List.concat_eq_append] at cut again ⊢
    rw [List.append_assoc, List.singleton_append] at cut
    have lastly : pieces (context.through before) (last.2 ++ (blockCommentOf inner ++ back)) =
        last :: (.blockComment, blockCommentOf inner) :: rest := by
      apply pieces_behind context (before.flatMap Prod.snd) _ before _ _ rfl
      rw [← cut, List.flatMap_append, List.flatMap_singleton, List.append_assoc]
    -- The token in front of the comment has only the slash to look at, and no full stop there is a number.
    have rejoined := fun tail => pieces_rejoined (isStop '/' (by decide)) context (blockCommentOf inner ++ back) tail before _
      last (List.cons_ne_nil _ _) cut (tagBehind?_before_comment _ inner back _ last lastly)
      (ne_slash_before_comment _ inner back _ last lastly)
    have same : stoppedPiece last = last := by
      have whole := (rejoined (.char '*' :: (inner ++ Text.ofChars ['*', '/']) ++ back)).symm.trans cut
      exact (List.cons.inj (List.append_cancel_left whole)).1
    have whole := rejoined (.char '*' :: (other ++ Text.ofChars ['*', '/']) ++ back)
    rw [same] at whole
    rw [List.append_assoc, List.singleton_append]
    exact whole.trans (congrArg (before ++ last :: ·) again)

namespace Expression

section Running
variable (boundary : KindSet) (inString : Bool)

/-- A comment is no part of a static class name, so an expression that starts with one starts behind the comment. -/
theorem scan_comment_of_static (progress : Progress) (passed : progress.inStaticName = true) (before : Option TokenKind)
    (text : Text) (held : 0 < Text.byteLength text) (earlier : List Cell) :
    scan boundary inString progress (pieceCells before (.blockComment, text) ++ earlier) =
      Text.byteLength text + earlier.length := by
  have size : (pieceCells before (.blockComment, text)).length = Text.byteLength text := length_pieceCells _ _
  obtain ⟨cell, others, first⟩ := List.exists_cons_of_length_pos (size ▸ held)
  have kind : cell.kind = some .blockComment := by
    have member : cell ∈ pieceCells before (.blockComment, text) := by
      rw [first]
      exact List.mem_cons_self
    obtain ⟨byte, _, rfl⟩ := List.mem_map.mp member
    rfl
  have hidden : cell.isHidden inString = true := by
    rw [Cell.isHidden, kind]
    rfl
  have stopped : advance boundary inString progress cell = none := by
    rw [advance, visit_hidden boundary inString progress cell hidden, kind]
    simp [passed, staticNameKinds]
  rw [← size, first]
  simp only [List.cons_append, scan, stopped, List.length_append, List.length_cons]
  omega

/-- Whether a scan gets past a comment is decided by what stands behind the comment, and where it stops then by what
stands before it. -/
theorem scan_around_comment (progress : Progress) (later earlier : List Cell) :
    (∃ ahead, ∀ before text, 0 < Text.byteLength text →
      scan boundary inString progress (later ++ (pieceCells before (.blockComment, text) ++ earlier)) =
        earlier.length + Text.byteLength text + ahead) ∨
    ∃ place ≤ earlier.length, ∀ before text,
      scan boundary inString progress (later ++ (pieceCells before (.blockComment, text) ++ earlier)) = place := by
  cases ran : run boundary inString progress later with
  | none =>
    refine .inl ⟨scan boundary inString progress later, fun before text _ => ?_⟩
    have size : (pieceCells before (.blockComment, text)).length = Text.byteLength text := length_pieceCells _ _
    rw [scan_append_of_stop boundary inString progress later _ ran, List.length_append, size]
    omega
  | some next =>
    cases passed : next.inStaticName with
    | true =>
      refine .inl ⟨0, fun before text held => ?_⟩
      rw [scan_append_of_run boundary inString progress next later _ ran,
        scan_comment_of_static boundary inString next passed before text held]
      omega
    | false =>
      refine .inr ⟨scan boundary inString next earlier, scan_le_length boundary inString next earlier, fun before text => ?_⟩
      rw [scan_append_of_run boundary inString progress next later _ ran,
        scan_append_of_run boundary inString next next _ _ (run_comment boundary inString next passed before _ rfl)]

end Running
end Expression

theorem byteLength_blockCommentOf_pos (inner : Text) : 0 < Text.byteLength (blockCommentOf inner) := by
  rw [blockCommentOf, Text.byteLength_append]
  exact Nat.add_pos_left (by decide) _

section Contents
variable (boundary : KindSet) (front back : Text)

open Expression in
theorem startBefore_of_comment (inner : Text) (before after : List (TokenKind × Text))
    (decoded : Text.Decoded (front ++ (blockCommentOf inner ++ back)))
    (cut : pieces Context.start (front ++ (blockCommentOf inner ++ back)) =
      before ++ (.blockComment, blockCommentOf inner) :: after) :
    Scanner.startBefore { boundary } (Text.encode (front ++ (blockCommentOf inner ++ back))) =
      scan boundary (endsInString ((.blockComment, []) :: after)) Progress.start
        (cells (some .blockComment) after ++
          (pieceCells (lastKind none before) (.blockComment, blockCommentOf inner) ++ cells none before)) := by
  have string : endsInString (before ++ (.blockComment, blockCommentOf inner) :: after) =
      endsInString ((.blockComment, []) :: after) := by
    rw [endsInString_append]
    cases after with
    | nil => rfl
    | cons next after => rfl
  rw [startBefore_eq_scan, Text.decode_encode_of_decoded _ decoded, cut, string, cells_append, cells_cons,
    List.append_assoc]

open Expression in
/-- An expression starts at a fixed distance behind the comment, or at a fixed place before it. -/
theorem startBefore_around_comment (inner : Text) (unclosed : IsUnclosed inner)
    (lexed : ⟨.blockComment, blockCommentOf inner, Text.byteLength front⟩ ∈
      tokenize (front ++ (blockCommentOf inner ++ back))) :
    (∃ ahead, ∀ other, IsUnclosed other → Text.Decoded (front ++ (blockCommentOf other ++ back)) →
      Scanner.startBefore { boundary } (Text.encode (front ++ (blockCommentOf other ++ back))) =
        Text.byteLength front + Text.byteLength (blockCommentOf other) + ahead) ∨
    ∃ place ≤ Text.byteLength front, ∀ other, IsUnclosed other →
      Text.Decoded (front ++ (blockCommentOf other ++ back)) →
      Scanner.startBefore { boundary } (Text.encode (front ++ (blockCommentOf other ++ back))) = place := by
  obtain ⟨before, after, cut, rfl⟩ := pieces_split_at front _ _ lexed rfl
  have size : (cells none before).length = Text.byteLength (before.flatMap Prod.snd) := length_cells none before
  have scanned := fun other free decoded => startBefore_of_comment boundary _ back other before after decoded
    (pieces_of_comment Context.start before after inner other back unclosed free cut)
  rcases scan_around_comment boundary (endsInString ((.blockComment, []) :: after)) Progress.start
    (cells (some .blockComment) after) (cells none before) with ⟨ahead, behind⟩ | ⟨place, within, passed⟩
  · refine .inl ⟨ahead, fun other free decoded => ?_⟩
    rw [scanned other free decoded, behind _ _ (byteLength_blockCommentOf_pos other), size]
  · refine .inr ⟨place, size ▸ within, fun other free decoded => ?_⟩
    rw [scanned other free decoded, passed]

/-- An expression never starts inside a block comment. Where it starts before the comment, it does so whatever the
comment contains, and where it starts behind it, it is moved by as many bytes as the comment grows. -/
theorem expressionStart_of_comment (inner other : Text)
    (decoded : Text.Decoded (front ++ (blockCommentOf inner ++ back)))
    (decodedOther : Text.Decoded (front ++ (blockCommentOf other ++ back)))
    (lexed : ⟨.blockComment, blockCommentOf inner, Text.byteLength front⟩ ∈
      tokenize (front ++ (blockCommentOf inner ++ back)))
    (unclosed : IsUnclosed inner) (unclosedOther : IsUnclosed other) :
    ∃ start moved,
      Scanner.expressionStart { boundary } (front ++ (blockCommentOf inner ++ back)) none = .ok start ∧
      Scanner.expressionStart { boundary } (front ++ (blockCommentOf other ++ back)) none = .ok moved ∧
      ¬ (Text.byteLength front < start ∧ start < Text.byteLength front + Text.byteLength (blockCommentOf inner)) ∧
      (start ≤ Text.byteLength front → moved = start) ∧
      (Text.byteLength front < start →
        moved + Text.byteLength (blockCommentOf inner) = start + Text.byteLength (blockCommentOf other)) := by
  refine ⟨_, _, expressionStart_at_end _ _, expressionStart_at_end _ _, ?_⟩
  have wide := byteLength_blockCommentOf_pos inner
  rcases startBefore_around_comment boundary front back inner unclosed lexed with
    ⟨ahead, behind⟩ | ⟨place, within, before⟩
  · rw [behind inner unclosed decoded, behind other unclosedOther decodedOther]
    omega
  · rw [before inner unclosed decoded, before other unclosedOther decodedOther]
    omega

end Contents

/-- The static class name ends at the comment, whether a bracket stands in it or a double colon and a wide character. -/
theorem expressionStart_of_comment_in_static_name :
    Text.Decoded (Text.ofString "f(Foo" ++ (blockCommentOf (Text.ofString "(") ++ Text.ofString "::bar")) ∧
      ∃ start moved,
        Scanner.expressionStart {} (Text.ofString "f(Foo" ++ (blockCommentOf (Text.ofString "(") ++ Text.ofString "::bar"))
          none = .ok start ∧
        Scanner.expressionStart {} (Text.ofString "f(Foo" ++ (blockCommentOf (Text.ofString "::é\x7b") ++
          Text.ofString "::bar")) none = .ok moved ∧ start = 10 ∧ moved = 14 := by
  have decoded : Text.Decoded (Text.ofString "f(Foo" ++ (blockCommentOf (Text.ofString "(") ++ Text.ofString "::bar")) :=
    ⟨Text.encode (Text.ofString "f(Foo/*(*/::bar"), by decide +kernel⟩
  have decodedOther : Text.Decoded (Text.ofString "f(Foo" ++ (blockCommentOf (Text.ofString "::é\x7b") ++
      Text.ofString "::bar")) := ⟨Text.encode (Text.ofString "f(Foo/*::é\x7b*/::bar"), by decide +kernel⟩
  have unclosed : IsUnclosed (Text.ofString "(") := by
    unfold IsUnclosed
    decide +kernel
  have unclosedOther : IsUnclosed (Text.ofString "::é\x7b") := by
    unfold IsUnclosed
    decide +kernel
  obtain ⟨start, moved, one, other, _, _, further⟩ := expressionStart_of_comment KindSet.boundary (Text.ofString "f(Foo")
    (Text.ofString "::bar") _ _ decoded decodedOther (by decide +kernel) unclosed unclosedOther
  have shown : Scanner.expressionStart {} (Text.ofString "f(Foo" ++ (blockCommentOf (Text.ofString "(") ++
      Text.ofString "::bar")) none = .ok 10 := by decide +kernel
  obtain rfl := Except.ok.inj (one.symm.trans shown)
  have grown := further (by decide +kernel)
  rw [show Text.byteLength (blockCommentOf (Text.ofString "(")) = 5 by decide +kernel,
    show Text.byteLength (blockCommentOf (Text.ofString "::é\x7b")) = 9 by decide +kernel] at grown
  exact ⟨decoded, 10, moved, one, other, rfl, by omega⟩

end AccessChain
