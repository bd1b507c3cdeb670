import AccessChain.Proofs.StrayBytes
import AccessChain.Proofs.WrittenScan

/-! Where a scan may stop. The bytes of a character of several bytes look alike to a scan: they are in one token
and no bracket or delimiter is among them. So it stops at the last of them or passes all, and an expression
starts between two symbols. -/
namespace AccessChain.Expression

section Scanning
variable (boundary : KindSet) (inString : Bool)

theorem visit_of_plain (progress : Progress) (first second : UInt8) (kind before : Option TokenKind)
    (one : IsPlain first) (other : IsPlain second) :
    visit boundary inString progress ⟨first, kind, before⟩ = visit boundary inString progress ⟨second, kind, before⟩ := by
  cases hidden : Cell.isHidden inString ⟨first, kind, before⟩ with
  | true =>
    rw [visit_hidden _ _ _ ⟨first, kind, before⟩ hidden]
    exact (visit_hidden _ _ _ ⟨second, kind, before⟩ hidden).symm
  | false =>
    rw [visit_plain _ _ _ ⟨first, kind, before⟩ hidden one.noOpening one.noClosing,
      visit_plain _ _ _ ⟨second, kind, before⟩ hidden other.noOpening other.noClosing,
      one.isBoundary boundary kind before, other.isBoundary boundary kind before]

theorem advance_again (progress next : Progress) (cell : Cell) (noOpening : Bracket.opening? cell.byte = none)
    (noClosing : Bracket.closing? cell.byte = none) (advanced : advance boundary inString progress cell = some next) :
    advance boundary inString next cell = some next := by
  obtain ⟨visited, kept⟩ := Option.filter_eq_some_iff.mp advanced
  refine Option.filter_eq_some_iff.mpr ⟨?_, kept⟩
  cases hidden : cell.isHidden inString with
  | true => exact visit_hidden boundary inString next cell hidden
  | false =>
    rw [visit_plain boundary inString _ cell hidden noOpening noClosing] at visited ⊢
    split at visited
    · next inside =>
      obtain rfl := Option.some.inj visited
      rw [if_pos inside]
    · next outside =>
      split at visited
      · contradiction
      · next goesOn =>
        obtain rfl := Option.some.inj visited
        rw [if_neg outside, if_neg goesOn, Bool.or_assoc, Bool.or_self]

theorem scan_unmoved (progress : Progress) (cells : List Cell)
    (unmoved : ∀ cell ∈ cells, advance boundary inString progress cell = some progress) :
    scan boundary inString progress cells = 0 := by
  induction cells with
  | nil => rfl
  | cons cell cells ih =>
    rw [scan, unmoved cell List.mem_cons_self]
    exact ih fun other member => unmoved other (List.mem_cons_of_mem cell member)

theorem scan_plain (progress : Progress) (bytes : List UInt8) (kind before : Option TokenKind)
    (plain : ∀ byte ∈ bytes, IsPlain byte) :
    scan boundary inString progress (bytes.map fun byte => ⟨byte, kind, before⟩) = 0 ∨
      scan boundary inString progress (bytes.map fun byte => ⟨byte, kind, before⟩) = bytes.length := by
  cases bytes with
  | nil => exact Or.inl rfl
  | cons first bytes =>
    have alike := plain first List.mem_cons_self
    rw [List.map_cons, scan]
    cases advanced : advance boundary inString progress ⟨first, kind, before⟩ with
    | none => exact Or.inr (by rw [List.length_map, List.length_cons])
    | some next =>
      refine Or.inl (scan_unmoved boundary inString next _ ?_)
      intro cell member
      obtain ⟨byte, inside, rfl⟩ := List.mem_map.mp member
      have again := advance_again boundary inString progress next _ alike.noOpening alike.noClosing advanced
      rw [advance, visit_of_plain boundary inString next byte first kind before
        (plain byte (List.mem_cons_of_mem first inside)) alike]
      exact again

/-- The cells are those of a text, and from whatever progress a scan of them stops between two of its symbols. -/
structure StopsBetween (cells : List Cell) (text : Text) : Prop where
  size : cells.length = Text.byteLength text
  edge : ∀ progress, ∃ left, left <+: text ∧ Text.byteLength left = scan boundary inString progress cells

variable {boundary inString}

theorem StopsBetween.nil : StopsBetween boundary inString [] [] :=
  ⟨rfl, fun _ => ⟨[], List.nil_prefix, rfl⟩⟩

theorem StopsBetween.append {later earlier : List Cell} {left right : Text}
    (ends : StopsBetween boundary inString later right) (starts : StopsBetween boundary inString earlier left) :
    StopsBetween boundary inString (later ++ earlier) (left ++ right) where
  size := by rw [List.length_append, ends.size, starts.size, Text.byteLength_append, Nat.add_comm]
  edge := by
    intro progress
    cases ran : run boundary inString progress later with
    | none =>
      obtain ⟨part, front, same⟩ := ends.edge progress
      refine ⟨left ++ part, (List.prefix_append_right_inj left).mpr front, ?_⟩
      rw [scan_append_of_stop boundary inString progress later earlier ran, Text.byteLength_append, same, starts.size,
        Nat.add_comm]
    | some next =>
      obtain ⟨part, front, same⟩ := starts.edge next
      refine ⟨part, front.trans (List.prefix_append left right), ?_⟩
      rw [scan_append_of_run boundary inString progress next later earlier ran, same]

theorem plain_of_mem_bytes (symbol : Sym) (several : symbol.width ≠ 1) (byte : UInt8) (member : byte ∈ symbol.bytes) :
    IsPlain byte := by
  have narrow : ∀ mark ∈ marks, (Sym.char mark).width = 1 := List.all_iff_forall_prop.mp (by decide)
  apply plain_of_not_mem [symbol]
  · intro mark listed same
    obtain rfl := List.mem_singleton.mp same
    exact several (narrow mark listed)
  · exact List.mem_flatMap.mpr ⟨symbol, List.mem_singleton_self symbol, member⟩

theorem stopsBetween_symbol (symbol : Sym) (kind before : Option TokenKind) :
    StopsBetween boundary inString (symbol.bytes.reverse.map fun byte => ⟨byte, kind, before⟩) [symbol] := by
  have wide : symbol.bytes.reverse.length = Text.byteLength [symbol] := by
    rw [List.length_reverse, Text.byteLength_cons, Text.byteLength_nil]
    rfl
  refine ⟨by rw [List.length_map, wide], ?_⟩
  intro progress
  have whole : scan boundary inString progress (symbol.bytes.reverse.map fun byte => ⟨byte, kind, before⟩) = 0 ∨
      scan boundary inString progress (symbol.bytes.reverse.map fun byte => ⟨byte, kind, before⟩) =
        symbol.bytes.reverse.length := by
    by_cases single : symbol.width = 1
    · have bound := scan_le_length boundary inString progress (symbol.bytes.reverse.map fun byte => ⟨byte, kind, before⟩)
      rw [List.length_map] at bound
      have one : symbol.bytes.reverse.length = 1 := List.length_reverse.trans single
      omega
    · exact scan_plain boundary inString progress symbol.bytes.reverse kind before fun byte member =>
        plain_of_mem_bytes symbol single byte (List.mem_reverse.mp member)
  rcases whole with passed | stopped
  · exact ⟨[], List.nil_prefix, passed.symm⟩
  · exact ⟨[symbol], List.prefix_refl _, (stopped.trans wide).symm⟩

theorem stopsBetween_text (text : Text) (kind before : Option TokenKind) :
    StopsBetween boundary inString ((Text.encode text).reverse.map fun byte => ⟨byte, kind, before⟩) text := by
  induction text with
  | nil => exact .nil
  | cons symbol text ih =>
    rw [Text.encode_cons, List.reverse_append, List.map_append]
    exact ih.append (stopsBetween_symbol symbol kind before)

theorem stopsBetween_cells (before : Option TokenKind) (pieces : List (TokenKind × Text)) :
    StopsBetween boundary inString (cells before pieces) (pieces.flatMap Prod.snd) := by
  induction pieces generalizing before with
  | nil => exact .nil
  | cons piece rest ih =>
    rw [cells_cons, List.flatMap_cons]
    exact (ih (some piece.1)).append (stopsBetween_text piece.2 (some piece.1) before)

end Scanning
end AccessChain.Expression

namespace AccessChain

theorem startBefore_between (boundary : KindSet) (text : Text) (decoded : Text.Decoded text) :
    ∃ left, left <+: text ∧ Text.byteLength left = Scanner.startBefore { boundary } (Text.encode text) := by
  rw [startBefore_eq_scan, Text.decode_encode_of_decoded text decoded]
  have stops : Expression.StopsBetween boundary (endsInString (pieces Context.start text))
      (Expression.cells none (pieces Context.start text)) ((pieces Context.start text).flatMap Prod.snd) :=
    Expression.stopsBetween_cells none _
  rw [flatMap_pieces] at stops
  exact stops.edge Expression.Progress.start

/-- An expression that ends between two characters starts between two characters, whatever kinds end it. -/
theorem expressionStart_between_characters (boundary : KindSet) (source : Text) (decoded : Text.Decoded source)
    (count cursor : Nat) (placed : Offset.byteOfChar count source = .ok cursor) :
    ∃ start first, Scanner.expressionStart { boundary } source (some cursor) = .ok start ∧
      Offset.charOfByte start source = .ok first ∧ Offset.byteOfChar first source = .ok start ∧
      Text.decode (((Text.encode source).take cursor).drop start) = (source.take count).drop first := by
  obtain ⟨within, rfl⟩ := (Offset.byteOfChar_eq_ok_iff count source cursor).mp placed
  obtain ⟨front, rest, rfl, rfl⟩ : ∃ front rest, source = front ++ rest ∧ count = front.length :=
    ⟨source.take count, source.drop count, (List.take_append_drop count source).symm,
      (List.length_take_of_le within).symm⟩
  have decodedFront := decoded.of_append_right
  obtain ⟨left, ⟨middle, rfl⟩, same⟩ := startBefore_between boundary front decodedFront
  have decodedMiddle : Text.Decoded middle := decodedFront.of_append
  have stop : Text.byteLength (left ++ middle) ≤ Text.byteLength (left ++ middle ++ rest) := by
    rw [Text.byteLength_append _ rest]
    exact Nat.le_add_right _ _
  rw [List.take_left]
  refine ⟨Text.byteLength left, left.length, ?_, ?_, ?_, ?_⟩
  · rw [expressionStart_eq _ _ _ _ rfl stop, Text.take_byteLength, same]
  · rw [List.append_assoc, Offset.charOfByte_byteLength]
  · rw [List.append_assoc, Offset.byteOfChar_length]
  · rw [Text.take_byteLength, Text.drop_byteLength, List.drop_left,
      Text.decode_encode_of_decoded middle decodedMiddle]

/-- Names end the expression here, and the one before the variable is a character of two bytes. -/
theorem expressionStart_behind_wide_character :
    Scanner.expressionStart { boundary := [.identifier] } (Text.ofString "é$ö;") (some 5) = .ok 2 ∧
    ∃ start first, Scanner.expressionStart { boundary := [.identifier] } (Text.ofString "é$ö;") (some (5 : Nat)) = .ok start ∧
      Offset.charOfByte start (Text.ofString "é$ö;") = .ok first ∧
      Offset.byteOfChar first (Text.ofString "é$ö;") = .ok start ∧
      Text.decode (((Text.encode (Text.ofString "é$ö;")).take 5).drop start) =
        ((Text.ofString "é$ö;").take 3).drop first :=
  ⟨by decide +kernel, expressionStart_between_characters [.identifier] (Text.ofString "é$ö;")
    ⟨Text.encode (Text.ofString "é$ö;"), by decide +kernel⟩ 3 5 (by decide +kernel)⟩

end AccessChain
