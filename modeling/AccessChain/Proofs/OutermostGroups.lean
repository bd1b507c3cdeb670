import AccessChain.Proofs.Nesting

/-! Emptying several kinds of brackets, one kind after the other. In nested text it does not matter in which order this
is done: what is left is the text with each outermost group of these kinds emptied. -/
namespace AccessChain

/-- A nested text, and what is left of it when its outermost groups are emptied. -/
inductive Outermost (kinds : List Bracket) : Text → Text → Prop where
  | nil : Outermost kinds [] []
  | plain (symbol : Sym) (rest shown : Text)
      (apart : ∀ bracket ∈ kinds, symbol ≠ bracket.opener ∧ symbol ≠ bracket.closer)
      (tail : Outermost kinds rest shown) : Outermost kinds (symbol :: rest) (symbol :: shown)
  | group (bracket : Bracket) (inner rest shown : Text) (counted : bracket ∈ kinds)
      (inside : Nested kinds inner) (tail : Outermost kinds rest shown) :
      Outermost kinds (bracket.opener :: (inner ++ bracket.closer :: rest)) (bracket.opener :: bracket.closer :: shown)

namespace Chain.Pair

/-- Empties the groups of some kinds of brackets, the last kind first. -/
def stripAll (order : List Bracket) (text : Text) : Text := order.foldr strip text

@[simp] theorem stripAll_nil (text : Text) : stripAll [] text = text := rfl

@[simp] theorem stripAll_cons (bracket : Bracket) (order : List Bracket) (text : Text) :
    stripAll (bracket :: order) text = strip bracket (stripAll order text) := rfl

theorem stripAll_empty (order : List Bracket) : stripAll order [] = [] := by
  induction order with
  | nil => rfl
  | cons bracket order ih =>
    rw [stripAll_cons, ih]
    rfl

section Order
variable (kinds order : List Bracket) (listed : ∀ bracket ∈ order, bracket ∈ kinds)
include listed

theorem nested_stripAll (text : Text) (nested : Nested kinds text) : Nested kinds (stripAll order text) := by
  induction order with
  | nil => exact nested
  | cons bracket order ih =>
    have rest := ih fun other member => listed other (List.mem_cons_of_mem bracket member)
    exact nested_strip bracket kinds (listed bracket List.mem_cons_self) _ rest

theorem stripAll_plain (symbol : Sym) (rest : Text)
    (apart : ∀ bracket ∈ kinds, symbol ≠ bracket.opener ∧ symbol ≠ bracket.closer) :
    stripAll order (symbol :: rest) = symbol :: stripAll order rest := by
  induction order with
  | nil => rfl
  | cons bracket order ih =>
    have counted := listed bracket List.mem_cons_self
    rw [stripAll_cons, stripAll_cons, ih fun other member => listed other (List.mem_cons_of_mem bracket member),
      strip_cons_plain bracket symbol _ (apart bracket counted).1]

/-- A group is emptied if its kind is among those that are; else only what is in it changes. -/
theorem stripAll_group (bracket : Bracket) (inner rest : Text) (inside : Nested kinds inner) :
    stripAll order (bracket.opener :: (inner ++ bracket.closer :: rest)) =
      bracket.opener ::
        ((if bracket ∈ order then [] else stripAll order inner) ++ bracket.closer :: stripAll order rest) := by
  induction order with
  | nil => rfl
  | cons other order ih =>
    have others : ∀ bracket ∈ order, bracket ∈ kinds := fun bracket member => listed bracket (List.mem_cons_of_mem other member)
    have counted := listed other List.mem_cons_self
    have kept : Nested kinds (if bracket ∈ order then [] else stripAll order inner) := by
      split
      · exact .nil
      · exact nested_stripAll kinds order others inner inside
    rw [stripAll_cons, ih others]
    by_cases same : bracket = other
    · subst same
      rw [strip_group _ _ _ (kept.only kinds _ counted), if_pos List.mem_cons_self]
      rfl
    · rw [strip_other_group other bracket _ _ same (kept.only kinds _ counted)]
      simp only [List.mem_cons, same, false_or]
      split
      · rfl
      · rfl

theorem outermost_stripAll (all : ∀ bracket ∈ kinds, bracket ∈ order) (text : Text) (nested : Nested kinds text) :
    Outermost kinds text (stripAll order text) := by
  induction nested with
  | nil =>
    rw [stripAll_empty]
    exact .nil
  | plain symbol rest apart tail ih =>
    rw [stripAll_plain kinds order listed symbol rest apart]
    exact .plain symbol rest _ apart ih
  | group bracket inner rest counted inside tail innerIh restIh =>
    rw [stripAll_group kinds order listed bracket inner rest inside, if_pos (all bracket counted)]
    exact .group bracket inner rest _ counted inside restIh

end Order

/-- What is left depends on which kinds are emptied, not on the order or on how often. -/
theorem stripAll_order (kinds first second : List Bracket) (listed : ∀ bracket ∈ first, bracket ∈ kinds)
    (same : ∀ bracket, bracket ∈ first ↔ bracket ∈ second) (text : Text) (nested : Nested kinds text) :
    stripAll first text = stripAll second text := by
  have alsoListed : ∀ bracket ∈ second, bracket ∈ kinds := fun bracket member => listed bracket ((same bracket).mpr member)
  induction nested with
  | nil => rw [stripAll_empty, stripAll_empty]
  | plain symbol rest apart tail ih =>
    rw [stripAll_plain kinds first listed symbol rest apart, stripAll_plain kinds second alsoListed symbol rest apart, ih]
  | group bracket inner rest counted inside tail innerIh restIh =>
    rw [stripAll_group kinds first listed bracket inner rest inside,
      stripAll_group kinds second alsoListed bracket inner rest inside, innerIh, restIh]
    simp only [same]

/-- Where round and curly brackets are nested in each other, they can be emptied in either order. The text is nested again
after each of the two steps, and after both its outermost groups are empty and all else outside them is as it was. -/
theorem strip_order (text : Text) (nested : Nested [.round, .curly] text) :
    strip .round (strip .curly text) = strip .curly (strip .round text) ∧
      Nested [.round, .curly] (strip .curly text) ∧ Nested [.round, .curly] (strip .round text) ∧
      Outermost [.round, .curly] text (strip .round (strip .curly text)) := by
  have listed : ∀ bracket ∈ [Bracket.round, .curly], bracket ∈ [Bracket.round, .curly] := fun _ member => member
  have swapped : ∀ bracket, bracket ∈ [Bracket.round, .curly] ↔ bracket ∈ [Bracket.curly, .round] :=
    fun bracket => by simp only [List.mem_cons, List.not_mem_nil, or_false]; exact Or.comm
  refine ⟨?_, ?_, ?_, ?_⟩
  · exact stripAll_order [.round, .curly] _ _ listed swapped text nested
  · exact nested_strip .curly _ (by decide) text nested
  · exact nested_strip .round _ (by decide) text nested
  · exact outermost_stripAll _ [.round, .curly] listed listed text nested

/-- Round brackets inside a curly group and a curly group inside round brackets. -/
theorem strip_order_of_closure :
    Nested [.round, .curly] (Text.ofString "{a(b)}(c{d})") ∧
      strip .round (strip .curly (Text.ofString "{a(b)}(c{d})")) = strip .curly (strip .round (Text.ofString "{a(b)}(c{d})")) ∧
      strip .curly (Text.ofString "{a(b)}(c{d})") = Text.ofString "{}(c{})" ∧
      strip .round (Text.ofString "{a(b)}(c{d})") = Text.ofString "{a()}()" := by
  have plain : ∀ letter ∈ ['a', 'b', 'c', 'd'], ∀ bracket ∈ [Bracket.round, .curly],
      Sym.char letter ≠ bracket.opener ∧ Sym.char letter ≠ bracket.closer := by decide
  have nested : Nested [.round, .curly] (Text.ofString "{a(b)}(c{d})") :=
    .group .curly (Text.ofString "a(b)") (Text.ofString "(c{d})") (by decide)
      (.plain (.char 'a') _ (plain 'a' (by decide))
        (.group .round (Text.ofString "b") [] (by decide) (.plain (.char 'b') [] (plain 'b' (by decide)) .nil) .nil))
      (.group .round (Text.ofString "c{d}") [] (by decide)
        (.plain (.char 'c') _ (plain 'c' (by decide))
          (.group .curly (Text.ofString "d") [] (by decide) (.plain (.char 'd') [] (plain 'd' (by decide)) .nil) .nil))
        .nil)
  exact ⟨nested, (strip_order _ nested).1, by decide, by decide⟩

/-- In text that is not nested the order matters. -/
example : strip .round (strip .curly (Text.ofString "({)}")) ≠ strip .curly (strip .round (Text.ofString "({)}")) := by
  decide

end Chain.Pair
end AccessChain
