import AccessChain.Proofs.BeforeCursor
import AccessChain.Proofs.Lines
import AccessChain.Proofs.OperatorCuts

/-! The segments of a chain, printed one to a line. A segment that goes over several lines of the source is printed on
as many, so the lines that are printed are the segments only if every line feed was cut off. -/
namespace AccessChain

/-- The lines of some texts that are joined by line feeds are the lines of each of them in turn. -/
theorem Text.splitOn_joined (texts : List Text) (nonempty : texts ≠ []) :
    (List.intercalate [.char '\n'] texts).splitOn (.char '\n') = texts.flatMap (·.splitOn (.char '\n')) := by
  induction texts with
  | nil => contradiction
  | cons text texts ih =>
    cases texts with
    | nil => rw [List.intercalate_singleton, List.flatMap_singleton]
    | cons next texts =>
      rw [List.intercalate_cons_cons, List.append_assoc, List.singleton_append, splitOn_feed, ih (List.cons_ne_nil _ _)]
      rfl

theorem Text.splitOn_joined_eq_iff (texts : List Text) (nonempty : texts ≠ []) :
    (List.intercalate [.char '\n'] texts).splitOn (.char '\n') = texts ↔ ∀ text ∈ texts, .char '\n' ∉ text := by
  constructor
  · intro same text member
    rw [← same] at member
    exact not_mem_of_mem_splitOn _ text member
  · intro absent
    exact List.splitOn_intercalate _ absent nonempty

namespace Chain

/-- Whether each line feed of a text has nothing but white space on one of its sides. -/
def FeedsInMargins (text : Text) : Prop :=
  ∀ front behind, text = front ++ .char '\n' :: behind →
    (∀ symbol ∈ front, symbol.isBlank = true) ∨ ∀ symbol ∈ behind, symbol.isBlank = true

theorem feedsInMargins_of_trim (text : Text) (absent : .char '\n' ∉ Text.trim Sym.isBlank text) : FeedsInMargins text := by
  obtain ⟨front, back, before, behind, whole⟩ := Text.trim_parts Sym.isBlank text
  intro left right parted
  rw [whole] at parted
  rcases List.append_eq_append_iff.mp parted with ⟨later, rfl, rest⟩ | ⟨later, rfl, _⟩
  · rcases List.append_eq_append_iff.mp rest with ⟨last, _, same⟩ | ⟨last, same, ended⟩
    · exact .inr fun symbol member => behind symbol (same ▸ List.mem_append_right last (List.mem_cons_of_mem _ member))
    · cases last with
      | nil =>
        rw [List.nil_append] at ended
        exact .inr fun symbol member => behind symbol (ended ▸ List.mem_cons_of_mem _ member)
      | cons symbol last =>
        obtain ⟨rfl, _⟩ := List.cons.inj ended
        exact absurd (same ▸ List.mem_append_right later List.mem_cons_self) absent
  · exact .inl fun symbol member => before symbol (List.mem_append_left later member)

theorem feed_not_mem_trim (text : Text) (margins : FeedsInMargins text) : .char '\n' ∉ Text.trim Sym.isBlank text := by
  intro member
  have feed : Sym.isBlank (.char '\n') = true := by decide
  obtain ⟨front, back, before, behind, whole⟩ := Text.trim_parts Sym.isBlank text
  obtain ⟨left, right, parted⟩ := List.append_of_mem member
  rw [parted] at whole
  -- Trimming would take off the feed with the white space beside it, and be shorter than it is.
  have shorter : (Text.trim Sym.isBlank text).length ≤ right.length ∨ (Text.trim Sym.isBlank text).length ≤ left.length := by
    rcases margins (front ++ left) (right ++ back) (by rw [whole]; simp) with blank | blank
    · have trimmed := Text.trim_margins Sym.isBlank (front ++ left ++ [.char '\n']) right back (by
        intro symbol member
        rcases List.mem_append.mp member with taken | last
        · exact blank symbol taken
        · rwa [List.mem_singleton.mp last]) behind
      have same : text = front ++ left ++ [.char '\n'] ++ (right ++ back) := by rw [whole]; simp
      rw [same, trimmed]
      exact .inl (Text.trim_infix Sym.isBlank right).length_le
    · have trimmed := Text.trim_margins Sym.isBlank front left (.char '\n' :: (right ++ back)) before
        (List.forall_mem_cons.mpr ⟨feed, blank⟩)
      have same : text = front ++ (left ++ .char '\n' :: (right ++ back)) := by rw [whole]; simp
      rw [same, trimmed]
      exact .inr (Text.trim_infix Sym.isBlank left).length_le
  rw [parted, List.length_append, List.length_cons] at shorter
  omega

theorem feed_not_mem_trim_iff (text : Text) : .char '\n' ∉ Text.trim Sym.isBlank text ↔ FeedsInMargins text :=
  ⟨feedsInMargins_of_trim text, feed_not_mem_trim text⟩

theorem segments_single_iff (tokenizer : Tokenizer) (text : Text) :
    (∀ segment ∈ segments tokenizer text, .char '\n' ∉ segment) ↔
      segments tokenizer text = [] ∨ ∀ piece ∈ (cuts (emptied (withoutComments tokenizer text))).pieces, FeedsInMargins piece := by
  rcases (segments_of_cuts tokenizer text).2 with empty | ⟨pass, _⟩
  · rw [empty]
    exact iff_of_true nofun (.inl rfl)
  · have nonempty : segments tokenizer text ≠ [] := by
      rw [pass]
      exact List.cons_ne_nil _ _
    rw [or_iff_right nonempty, pass, List.forall_mem_map]
    simp only [feed_not_mem_trim_iff]

end Chain

namespace Analysis

/-- What is printed are the lines of the segments in turn. They are the segments themselves if and only if in the
expression, without its comments, its call arguments and bodies of closures, each line feed stands in the white space at
an access operator or at one of the ends. -/
theorem lines_of_plainText (boundary : KindSet) (source : Text) (cursor : Cursor) (found : Analysis) (tokens : List Token)
    (ran : run ⟨boundary, tokenize⟩ source cursor = .ok (found, tokens)) (nonempty : found.chain ≠ []) :
    ∃ stop : Nat, stop ≤ Text.byteLength source ∧ cursor.resolve source = .ok stop ∧
      let expression := Text.decode (((Text.encode source).take stop).drop found.start)
      let shown := Chain.emptied (Chain.withoutComments tokenize expression)
      (found.render .text).splitOn (.char '\n') = found.chain.flatMap (·.splitOn (.char '\n')) ∧
      ((found.render .text).splitOn (.char '\n') = found.chain ↔
        ∀ piece ∈ (Chain.cuts shown).pieces, Chain.FeedsInMargins piece) := by
  rcases run_cases ⟨boundary, tokenize⟩ source cursor with ⟨_, stop, inside, resolved, seen⟩ | ⟨_, error, missing⟩
  · obtain ⟨rfl, _⟩ := Prod.mk.inj (Except.ok.inj (seen.symm.trans ran))
    let code := (Text.encode source).take stop
    have segments := Chain.segments_single_iff tokenize (Text.decode (code.drop (Scanner.startBefore ⟨boundary, tokenize⟩ code)))
    have decided := segments.trans (or_iff_right nonempty)
    refine ⟨stop, inside, resolved, Text.splitOn_joined _ nonempty, ?_⟩
    exact (Text.splitOn_joined_eq_iff _ nonempty).trans decided
  · exact nomatch missing.symm.trans ran

/-- Line feeds in a comment, at operators and in arguments. -/
theorem lines_of_broken_call :
    ∃ found tokens, run {} (Text.ofString "return $a // x\n  ->f(\n1\n)\n->b") ⟨none, false⟩ = .ok (found, tokens) ∧
      found.chain = ["$a", "f()", "b"].map Text.ofString ∧
      (found.render .text).splitOn (.char '\n') = found.chain := by
  have ran := run_of_sees {} (Text.ofString "return $a // x\n  ->f(\n1\n)\n->b") none _ (Scanner.sees_at_end _)
  have chain : (ofBytes {} (Text.encode (Text.ofString "return $a // x\n  ->f(\n1\n)\n->b"))).chain =
      ["$a", "f()", "b"].map Text.ofString := by decide +kernel
  have nonempty : (ofBytes {} (Text.encode (Text.ofString "return $a // x\n  ->f(\n1\n)\n->b"))).chain ≠ [] := by
    rw [chain]
    exact List.cons_ne_nil _ _
  obtain ⟨_, _, _, lines, _⟩ := lines_of_plainText KindSet.boundary _ _ _ _ ran nonempty
  rw [chain] at lines
  refine ⟨_, _, ran, chain, ?_⟩
  rw [lines, chain]
  decide

/-- A line feed in an index. -/
theorem lines_of_broken_index :
    ∃ found tokens, run {} (Text.ofString "$a[\n0]->b") ⟨none, false⟩ = .ok (found, tokens) ∧ found.chain ≠ [] ∧
      (found.render .text).splitOn (.char '\n') ≠ found.chain := by
  have ran := run_of_sees {} (Text.ofString "$a[\n0]->b") none _ (Scanner.sees_at_end _)
  have chain : (ofBytes {} (Text.encode (Text.ofString "$a[\n0]->b"))).chain = ["$a[\n0]", "b"].map Text.ofString := by
    decide +kernel
  refine ⟨_, _, ran, ?_, ?_⟩
  · rw [chain]
    exact List.cons_ne_nil _ _
  · rw [render, plainText, chain]
    decide

end Analysis
end AccessChain
