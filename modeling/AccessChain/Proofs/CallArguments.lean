import AccessChain.Proofs.Links

/-! The arguments of one call in a chain, replaced by others. -/
namespace AccessChain
namespace Written
open Text Chain.Pair

/-- The segments with two arguments for one call are the same exactly where the one and the other make up a function
signature or neither does, or where the emptied bodies of closures make no difference to the rest of the chain. They are
the same with any two arguments where no curly bracket is in the rest of the chain. -/
theorem segments_of_arguments_iff (root : Root) (before after : List Link) (call other : Call) :
    (Chain.segments tokenize (Linked.mk root (before ++ .call call :: after)).text =
        Chain.segments tokenize (Linked.mk root (before ++ .call other :: after)).text ↔
      (Linked.mk root (before ++ .call call :: after)).isSigned =
          (Linked.mk root (before ++ .call other :: after)).isSigned ∨
        (Chain.pieces (strip .curly (Linked.mk root (before ++ .call call :: after)).shown)).map (trim Sym.isBlank) =
          (Chain.pieces (Linked.mk root (before ++ .call call :: after)).shown).map (trim Sym.isBlank)) ∧
    ((∀ link ∈ before ++ after, .char '{' ∉ link.shown) →
      Chain.segments tokenize (Linked.mk root (before ++ .call call :: after)).text =
        Chain.segments tokenize (Linked.mk root (before ++ .call other :: after)).text) := by
  have alike : (Linked.mk root (before ++ .call call :: after)).shown =
      (Linked.mk root (before ++ .call other :: after)).shown := by
    simp [Linked.shown, Link.shown]
  simp only [Linked.segments_text, Linked.visible, ← alike]
  generalize (Linked.mk root (before ++ .call call :: after)).isSigned = signed
  generalize (Linked.mk root (before ++ .call other :: after)).isSigned = otherSigned
  constructor
  · cases signed <;> cases otherSigned <;> simp [eq_comm]
  · intro free
    have absent : Bracket.curly.opener ∉ (Linked.mk root (before ++ .call call :: after)).shown := by
      have rooted := Bracket.curly.opener_not_mem root.text root.no_bracket
      have called : Bracket.curly.opener ∉ enclosedBy .round [] := by decide
      simp only [Linked.shown, List.mem_append, List.mem_flatMap, List.mem_cons, not_or, not_exists, not_and]
      refine ⟨rooted, fun link member => ?_⟩
      rcases member with front | rfl | behind
      · exact free link (List.mem_append_left after front)
      · exact called
      · exact free link (List.mem_append_right before behind)
    rw [strip_plain .curly _ absent]
    simp

def noArguments : Call where
  inside := []
  closed := by decide +kernel
  nested := by
    have bare : Token.textWithoutComments (tokensInside []) = [] := by decide +kernel
    rw [bare]
    exact .nil

def closureArgument : Call where
  inside := ofString "function () \x7b\x7d"
  closed := by decide +kernel
  nested := by
    have bare : Token.textWithoutComments (tokensInside (ofString "function () \x7b\x7d")) =
        ofString "function " ++ ofString "() \x7b\x7d" := by decide +kernel
    rw [bare]
    apply Nested.append
    · exact Nested.of_not_mem _ _ (by decide)
    · exact .group .round [] _ (by decide) .nil (.plain _ _ (by decide) (.group .curly [] [] (by decide) .nil .nil))

/-- With a closure among the arguments the computed name behind the call is emptied as if it were a body. -/
theorem closure_argument_empties_name :
    ∃ (root : Root) (before after : List Link),
      (Linked.mk root (before ++ .call closureArgument :: after)).text = ofString "$a->f(function () \x7b\x7d)->\x7b$b\x7d" ∧
      (Linked.mk root (before ++ .call noArguments :: after)).text = ofString "$a->f()->\x7b$b\x7d" ∧
      Chain.segments tokenize (ofString "$a->f(function () \x7b\x7d)->\x7b$b\x7d") =
        [ofString "$a", ofString "f()", ofString "\x7b\x7d"] ∧
      Chain.segments tokenize (ofString "$a->f()->\x7b$b\x7d") = [ofString "$a", ofString "f()", ofString "\x7b$b\x7d"] :=
  ⟨.var ⟨⟨.char 'a', [], by decide, by decide⟩, by decide⟩,
    [.member .arrow false ⟨⟨.char 'f', [], by decide, by decide⟩, by decide⟩],
    [.dynamic .arrow ⟨ofString "$b", by decide +kernel⟩ (by decide +kernel)],
    by decide +kernel, by decide +kernel, by decide +kernel, by decide +kernel⟩

end Written
end AccessChain
