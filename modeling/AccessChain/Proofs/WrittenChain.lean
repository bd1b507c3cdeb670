import AccessChain.Proofs.LeftEdge
import AccessChain.Proofs.WrittenSegments

/-! The chain that is found at the end of a source is the one that is written there, whatever stands before it. -/
namespace AccessChain

open Expression

namespace Written

def Gap.pieces (gap : Gap) : List (TokenKind × Text) :=
  if gap.text = [] then [] else [(.whitespace, gap.text)]

theorem pieces_behind_gap (gap : Gap) (written : Written) :
    AccessChain.pieces Context.start (gap.text ++ written.text) = gap.pieces ++ written.pieces := by
  unfold Gap.pieces
  split
  · next empty => rw [empty, List.nil_append, List.nil_append, pieces_text]
  · next apart =>
    obtain ⟨symbol, found, unblank⟩ := written.isTrimmed.first
    have ends : written.text.head?.any (·.satisfies Text.isCodeBlank) = false := by
      rw [found]
      exact not_isCodeBlank symbol unblank
    have spaced := cuts_gap false gap apart written.text ends
    rw [← pieces_text]
    exact spaced

/-- White space is passed, but not in a static name. -/
theorem scan_gap (gap : Gap) (before : Option TokenKind) (inStaticName : Bool) (further : List Cell)
    (stopped : scan KindSet.boundary false ⟨Depth.zero, inStaticName⟩ further = further.length) :
    scan KindSet.boundary false ⟨Depth.zero, inStaticName⟩ (cells before gap.pieces ++ further) =
      (if inStaticName then Text.byteLength gap.text else 0) + further.length := by
  have other : ∀ mark ∈ marks, Text.isCodeBlank mark = false :=
    List.all_iff_forall_prop.mp (by decide)
  have absent : ∀ mark ∈ marks, Sym.char mark ∉ gap.text := fun mark listed => gap.not_mem_text mark (other mark listed)
  unfold Gap.pieces
  by_cases empty : gap.text = []
  · rw [if_pos empty, cells_nil, List.nil_append, stopped, empty]
    simp
  · rw [if_neg empty]
    cases inStaticName with
    | false =>
      have passes := passes_word .whitespace gap.text false rfl rfl TokenKind.noConfusion absent (by decide)
      rw [scan_append_of_run _ _ _ _ _ _ (passes before), stopped]
      simp
    | true =>
      have last := List.getLast?_eq_some_getLast empty
      rw [cells_cons, cells_nil, List.nil_append]
      apply scan_stopped _ before (.whitespace, gap.text) _ last
      intro byte owned
      have member : byte ∈ Text.encode gap.text := List.mem_flatMap.mpr ⟨_, List.getLast_mem empty, owned⟩
      have plain := plain_of_not_mem gap.text absent byte member
      have visible : Cell.isHidden false ⟨byte, some .whitespace, before⟩ = false := rfl
      have goesOn := plain.isBoundary KindSet.boundary (some .whitespace) before
      rw [advance, visit_past _ _ _ ⟨byte, some .whitespace, before⟩ visible plain.noOpening plain.noClosing rfl goesOn]
      rfl

open Expression in
theorem startBefore_written (written : Written) (gap : Gap) (left : Text)
    (decoded : Text.Decoded (left ++ (gap.text ++ written.text)))
    (afresh : StartsAfresh left (gap.text ++ written.text)) :
    Scanner.startBefore {} (Text.encode (left ++ (gap.text ++ written.text))) =
      Text.byteLength left + if written.base.isScoped then Text.byteLength gap.text else 0 := by
  have held : gap.text ++ written.text ≠ [] := by
    obtain ⟨symbol, found, _⟩ := written.isTrimmed.first
    intro empty
    rw [(List.append_eq_nil_iff.mp empty).2] at found
    contradiction
  obtain ⟨before, cut, texts, ends⟩ := pieces_afresh left _ held afresh
  rw [pieces_behind_gap, ← List.append_assoc before] at cut
  have string : endsInString (before ++ gap.pieces ++ written.pieces) = false := endsInString_written written _
  have passed : run KindSet.boundary false Progress.start
      (cells (lastKind none (before ++ gap.pieces)) written.pieces) = some ⟨Depth.zero, written.base.isScoped⟩ :=
    written.passes_pieces _
  have scanned := startBefore_eq_scan KindSet.boundary (Text.encode (left ++ (gap.text ++ written.text)))
  rw [Text.decode_encode_of_decoded _ decoded, cut, string, cells_append, cells_append,
    scan_append_of_run _ _ _ _ _ _ passed, scan_gap gap _ _ _ (ends _), length_cells, texts,
    Nat.add_comm] at scanned
  exact scanned

/-- Behind nothing, or behind a token that ends what stands before it, the chain of a source that ends with a
well-formed chain has exactly the segments that are written there. White space in front of the chain belongs to
the expression that is found unless the chain is a static access. -/
theorem chain_of_written (written : Written) (gap : Gap) (left : Text)
    (decoded : Text.Decoded (left ++ (gap.text ++ written.text)))
    (afresh : StartsAfresh left (gap.text ++ written.text)) :
    Scanner.expressionStart {} (left ++ (gap.text ++ written.text)) none =
        .ok (Text.byteLength left + if written.base.isScoped then Text.byteLength gap.text else 0) ∧
      Scanner.chain {} (left ++ (gap.text ++ written.text)) none = .ok written.segments := by
  have start := startBefore_written written gap left decoded afresh
  have blanks : ∀ symbol ∈ gap.text, symbol.isBlank = true :=
    fun symbol member => isBlank_of_isCodeBlank symbol (gap.blank symbol member)
  have inner := decoded.of_append
  rw [expressionStart_at_end, chain_at_end, start]
  refine ⟨rfl, ?_⟩
  cases written.base.isScoped with
  | false =>
    have bytes : (Text.encode (left ++ (gap.text ++ written.text))).drop (Text.byteLength left + 0) =
        Text.encode (gap.text ++ written.text) := by
      rw [Text.encode_append]
      exact List.drop_left
    simp only [Bool.false_eq_true, if_false]
    rw [bytes, Text.decode_encode_of_decoded _ inner, segments_text written gap.text blanks]
  | true =>
    have bytes : (Text.encode (left ++ (gap.text ++ written.text))).drop
        (Text.byteLength left + Text.byteLength gap.text) = Text.encode written.text := by
      rw [← List.append_assoc, ← Text.byteLength_append, Text.encode_append]
      exact List.drop_left
    simp only [if_true]
    have segments := segments_text written [] (by simp)
    rw [bytes, Text.decode_encode_of_decoded _ inner.of_append]
    exact congrArg Except.ok segments

/-- A static call with a comment and a list between its brackets, and a member access behind it. -/
def sample : Written where
  base := .scope
    (.qualified false ⟨⟨.char 'F', Text.ofString "oo", by decide, by decide⟩, by decide⟩ [] (by decide +kernel)) []
    { name := ⟨⟨.char 'b', Text.ofString "ar", by decide, by decide⟩, by decide⟩
      call := some
        { inside := Text.ofString "/*)*/ [1]"
          closed := by decide +kernel
          nested := by
            have bare : Token.textWithoutComments (tokensInside (Text.ofString "/*)*/ [1]")) = Text.ofString " [1]" := by
              decide +kernel
            rw [bare]
            exact .plain _ _ (by decide) (.group .square [.char '1'] [] (by decide) (.plain _ _ (by decide) .nil) .nil) } }
  members := [{ name := ⟨⟨.char 'b', Text.ofString "az", by decide, by decide⟩, by decide⟩, call := none }]

theorem chain_of_sample :
    Text.ofString "$a[ Foo::bar(/*)*/ [1])->baz" = Text.ofString "$a[" ++ (Text.ofString " " ++ sample.text) ∧
      Text.Decoded (Text.ofString "$a[ Foo::bar(/*)*/ [1])->baz") ∧
      StartsAfresh (Text.ofString "$a[") (Text.ofString " " ++ sample.text) ∧
      Scanner.expressionStart {} (Text.ofString "$a[ Foo::bar(/*)*/ [1])->baz") none = .ok 4 ∧
      Scanner.chain {} (Text.ofString "$a[ Foo::bar(/*)*/ [1])->baz") none =
        .ok [Text.ofString "Foo", Text.ofString "bar()", Text.ofString "baz"] := by
  have source : Text.ofString "$a[ Foo::bar(/*)*/ [1])->baz" =
      Text.ofString "$a[" ++ (Text.ofString " " ++ sample.text) := by decide +kernel
  have decoded : Text.Decoded (Text.ofString "$a[ Foo::bar(/*)*/ [1])->baz") :=
    ⟨Text.encode (Text.ofString "$a[ Foo::bar(/*)*/ [1])->baz"), by decide +kernel⟩
  have afresh : StartsAfresh (Text.ofString "$a[") (Text.ofString " " ++ sample.text) :=
    .edge [⟨.varName, Text.ofString "$a", 0⟩]
      ((tokenize (Text.ofString "$a[ Foo::bar(/*)*/ [1])->baz")).drop 2) ⟨.character, Text.ofString "[", 2⟩
      (by decide +kernel) (by decide +kernel) (.opener .square)
  rw [source] at decoded ⊢
  obtain ⟨start, chain⟩ := chain_of_written sample ⟨Text.ofString " ", by decide⟩ (Text.ofString "$a[") decoded afresh
  exact ⟨rfl, decoded, afresh, start.trans (congrArg Except.ok (by decide +kernel)),
    chain.trans (congrArg Except.ok (by decide +kernel))⟩

end Written
end AccessChain
