import AccessChain.Expression.Start
import AccessChain.Proofs.TopLevelGroups

/-! Texts whose brackets are properly nested, and what emptying a pair of brackets does to them. Which kinds
of brackets count is a parameter: all others are plain symbols. -/
namespace AccessChain

theorem Text.not_mem_ofChars (marks characters : List Char)
    (plain : characters.all (fun character => !marks.contains character) = true) :
    ∀ mark ∈ marks, Sym.char mark ∉ ofChars characters := by
  intro mark listed member
  obtain ⟨character, inside, same⟩ := List.mem_map.mp member
  have apart := List.all_eq_true.mp plain character inside
  rw [Sym.char.inj same, List.contains_iff_mem.mpr listed] at apart
  contradiction

namespace Bracket

def opener : Bracket → Sym
  | .round => .char '('
  | .square => .char '['
  | .curly => .char '{'

def closer : Bracket → Sym
  | .round => .char ')'
  | .square => .char ']'
  | .curly => .char '}'

def all : List Bracket := [.round, .square, .curly]

def characters : List Char := ['(', ')', '[', ']', '{', '}']

theorem mem_all (bracket : Bracket) : bracket ∈ all := by
  cases bracket <;> decide

theorem opener_inj (first second : Bracket) : first.opener = second.opener ↔ first = second := by
  cases first <;> cases second <;> decide

theorem closer_inj (first second : Bracket) : first.closer = second.closer ↔ first = second := by
  cases first <;> cases second <;> decide

theorem opener_ne_closer (first second : Bracket) : first.opener ≠ second.closer := by
  cases first <;> cases second <;> decide

theorem opener_not_mem (bracket : Bracket) (text : Text) (absent : ∀ mark ∈ characters, Sym.char mark ∉ text) :
    bracket.opener ∉ text := by
  cases bracket with
  | round => exact absent '(' (by decide)
  | square => exact absent '[' (by decide)
  | curly => exact absent '{' (by decide)

theorem closer_not_mem (bracket : Bracket) (text : Text) (absent : ∀ mark ∈ characters, Sym.char mark ∉ text) :
    bracket.closer ∉ text := by
  cases bracket with
  | round => exact absent ')' (by decide)
  | square => exact absent ']' (by decide)
  | curly => exact absent '}' (by decide)

end Bracket

/-- The texts in which every bracket of some kinds is closed by its own closing bracket. -/
inductive Nested (kinds : List Bracket) : Text → Prop where
  | nil : Nested kinds []
  | plain (symbol : Sym) (rest : Text)
      (apart : ∀ bracket ∈ kinds, symbol ≠ bracket.opener ∧ symbol ≠ bracket.closer)
      (tail : Nested kinds rest) : Nested kinds (symbol :: rest)
  | group (bracket : Bracket) (inner rest : Text) (counted : bracket ∈ kinds)
      (inside : Nested kinds inner) (tail : Nested kinds rest) :
      Nested kinds (bracket.opener :: (inner ++ bracket.closer :: rest))

namespace Nested

theorem append (kinds : List Bracket) (left right : Text) (first : Nested kinds left)
    (second : Nested kinds right) : Nested kinds (left ++ right) := by
  induction first with
  | nil => exact second
  | plain symbol rest apart tail ih => exact .plain symbol _ apart ih
  | group bracket inner rest counted inside tail innerIh restIh =>
    rw [List.cons_append, List.append_assoc, List.cons_append]
    exact .group bracket inner _ counted inside restIh

theorem of_plain (kinds : List Bracket) (text : Text)
    (apart : ∀ symbol ∈ text, ∀ bracket ∈ kinds, symbol ≠ bracket.opener ∧ symbol ≠ bracket.closer) :
    Nested kinds text := by
  induction text with
  | nil => exact .nil
  | cons symbol rest ih =>
    refine .plain symbol rest (apart symbol List.mem_cons_self) (ih ?_)
    intro other member
    exact apart other (List.mem_cons_of_mem symbol member)

theorem of_not_mem (kinds : List Bracket) (text : Text)
    (absent : ∀ mark ∈ Bracket.characters, Sym.char mark ∉ text) : Nested kinds text := by
  apply of_plain
  intro symbol member bracket _
  constructor
  · rintro rfl
    exact bracket.opener_not_mem text absent member
  · rintro rfl
    exact bracket.closer_not_mem text absent member

theorem flatMap {Part : Type} (kinds : List Bracket) (text : Part → Text) (parts : List Part)
    (each : ∀ part ∈ parts, Nested kinds (text part)) : Nested kinds (parts.flatMap text) := by
  induction parts with
  | nil => exact .nil
  | cons part parts ih =>
    rw [List.flatMap_cons]
    exact append kinds _ _ (each part List.mem_cons_self) (ih fun other member => each other (List.mem_cons_of_mem _ member))

theorem enclose (kinds : List Bracket) (bracket : Bracket) (inner : Text) (counted : bracket ∈ kinds)
    (inside : Nested kinds inner) : Nested kinds (bracket.opener :: (inner ++ [bracket.closer])) :=
  .group bracket inner [] counted inside .nil

theorem only (kinds : List Bracket) (bracket : Bracket) (counted : bracket ∈ kinds) (text : Text)
    (nested : Nested kinds text) : Nested [bracket] text := by
  induction nested with
  | nil => exact .nil
  | plain symbol rest apart tail ih =>
    refine .plain symbol rest ?_ ih
    intro other member
    rw [List.mem_singleton.mp member]
    exact apart bracket counted
  | group other inner rest otherCounted inside tail innerIh restIh =>
    by_cases same : other = bracket
    · rw [same]
      exact .group bracket inner rest List.mem_cons_self innerIh restIh
    · refine .plain _ _ ?_ (append _ _ _ innerIh (.plain _ _ ?_ restIh))
      · intro kind member
        rw [List.mem_singleton.mp member]
        exact ⟨fun equal => same ((Bracket.opener_inj _ _).mp equal), Bracket.opener_ne_closer _ _⟩
      · intro kind member
        rw [List.mem_singleton.mp member]
        exact ⟨fun equal => Bracket.opener_ne_closer _ _ equal.symm,
          fun equal => same ((Bracket.closer_inj _ _).mp equal)⟩

end Nested

namespace Chain.Pair

section Single
variable (bracket : Bracket)

/-- Empties the groups of one kind of bracket. -/
abbrev strip (text : Text) : Text := stripContent [bracket.opener] [bracket.closer] text

theorem strip_cons_plain (symbol : Sym) (rest : Text) (apart : symbol ≠ bracket.opener) :
    strip bracket (symbol :: rest) = symbol :: strip bracket rest :=
  stripContent_plain bracket.opener bracket.closer symbol rest apart

theorem distance_nested (depth : Nat) (positive : 0 < depth) (text rest : Text) (nested : Nested [bracket] text) :
    distance [bracket.opener] [bracket.closer] depth (text ++ rest) =
      (distance [bracket.opener] [bracket.closer] depth rest).map (· + text.length) := by
  induction nested generalizing depth rest with
  | nil => simp
  | plain symbol tail apart nested ih =>
    obtain ⟨noOpener, noCloser⟩ := apart bracket List.mem_cons_self
    rw [List.cons_append, distance]
    simp only [List.cons.injEq, and_true, noOpener, noCloser, if_false]
    rw [ih depth positive, Option.map_map]
    rfl
  | group other inner tail counted inside nested innerIh tailIh =>
    obtain rfl := List.mem_singleton.mp counted
    rw [List.cons_append, List.append_assoc, List.cons_append, distance, if_pos rfl,
      innerIh (depth + 1) (Nat.succ_pos depth), distance]
    simp only [List.cons.injEq, and_true, (Bracket.opener_ne_closer _ _).symm, if_false, if_true]
    rw [if_neg (by omega), Nat.add_sub_cancel, tailIh depth positive, Option.map_map, Option.map_map, Option.map_map]
    congr 1
    funext found
    simp only [Function.comp, List.length_cons, List.length_append]
    omega

/-- A walk inside a group passes over nested text without coming out of the group. -/
theorem collapse_nested (depth : Nat) (held text rest : Text) (nested : Nested [bracket] text) :
    collapse [bracket.opener] [bracket.closer] (depth + 1) held (text ++ rest) =
      collapse [bracket.opener] [bracket.closer] (depth + 1) (text.reverse ++ held) rest := by
  rw [collapse_inside, collapse_inside, distance_nested bracket _ (Nat.succ_pos depth) text rest nested]
  cases distance [bracket.opener] [bracket.closer] (depth + 1) rest with
  | none => simp
  | some size =>
    have behind : (text ++ rest).drop (size + text.length + 1) = rest.drop (size + 1) := by
      rw [Nat.add_right_comm, Nat.add_comm, List.drop_length_add_append]
    exact congrArg (bracket.closer :: strip bracket ·) behind

theorem matching?_group (inner rest : Text) (nested : Nested [bracket] inner) :
    matching? [bracket.opener] [bracket.closer] (bracket.opener :: (inner ++ bracket.closer :: rest)) 0 =
      some (inner.length + 1) := by
  have found := distance_nested bracket 1 Nat.one_pos inner (bracket.closer :: rest) nested
  rw [distance] at found
  simp only [List.cons.injEq, and_true, (Bracket.opener_ne_closer _ _).symm, if_false, if_true, Nat.le_refl] at found
  simp [matching?, found]

theorem strip_group (inner rest : Text) (nested : Nested [bracket] inner) :
    strip bracket (bracket.opener :: (inner ++ bracket.closer :: rest)) =
      bracket.opener :: bracket.closer :: strip bracket rest :=
  stripContent_group bracket.opener bracket.closer [] inner rest List.not_mem_nil (matching?_group bracket inner rest nested)

theorem strip_append (text rest : Text) (nested : Nested [bracket] text) :
    strip bracket (text ++ rest) = strip bracket text ++ strip bracket rest := by
  induction nested with
  | nil => simp [strip, stripContent, collapse]
  | plain symbol tail apart nested ih =>
    have noOpener := (apart bracket List.mem_cons_self).1
    rw [List.cons_append, strip_cons_plain bracket symbol _ noOpener, strip_cons_plain bracket symbol _ noOpener,
      ih, List.cons_append]
  | group other inner tail counted inside nested innerIh tailIh =>
    obtain rfl := List.mem_singleton.mp counted
    rw [List.cons_append, List.append_assoc, List.cons_append, strip_group _ _ _ inside, strip_group _ _ _ inside,
      tailIh, List.cons_append, List.cons_append]

/-- Emptying one kind of bracket goes into the groups of another kind. -/
theorem strip_other_group (other : Bracket) (inner rest : Text) (apart : other ≠ bracket) (inside : Nested [bracket] inner) :
    strip bracket (other.opener :: (inner ++ other.closer :: rest)) =
      other.opener :: (strip bracket inner ++ other.closer :: strip bracket rest) := by
  have opener : other.opener ≠ bracket.opener := fun equal => apart ((Bracket.opener_inj _ _).mp equal)
  have closer : other.closer ≠ bracket.opener := (Bracket.opener_ne_closer _ _).symm
  rw [strip_cons_plain bracket _ _ opener, strip_append bracket inner _ inside, strip_cons_plain bracket _ _ closer]

theorem strip_plain (text : Text) (apart : bracket.opener ∉ text) : strip bracket text = text :=
  stripContent_unopened bracket.opener bracket.closer text apart

theorem nested_strip (kinds : List Bracket) (counted : bracket ∈ kinds) (text : Text)
    (nested : Nested kinds text) : Nested kinds (strip bracket text) := by
  induction nested with
  | nil => exact .nil
  | plain symbol rest apart tail ih =>
    rw [strip_cons_plain bracket symbol rest (apart bracket counted).1]
    exact .plain symbol _ apart ih
  | group other inner rest otherCounted inside tail innerIh restIh =>
    by_cases same : other = bracket
    · subst same
      rw [strip_group _ inner rest (inside.only kinds _ counted)]
      exact .group _ [] _ counted .nil restIh
    · rw [strip_other_group bracket other inner rest same (inside.only kinds _ counted)]
      exact .group other _ _ otherCounted innerIh restIh

/-- Emptying one kind of bracket turns a nested text into another, whatever stands behind it. -/
structure Strips (text result : Text) : Prop where
  nested : Nested [bracket] text
  stripped : strip bracket text = result

theorem Strips.append {left right first second : Text} (front : Strips bracket left first)
    (back : Strips bracket right second) : Strips bracket (left ++ right) (first ++ second) where
  nested := Nested.append _ _ _ front.nested back.nested
  stripped := by rw [strip_append bracket left right front.nested, front.stripped, back.stripped]

theorem Strips.flatMap {Part : Type} (text result : Part → Text) (parts : List Part)
    (each : ∀ part, Strips bracket (text part) (result part)) :
    Strips bracket (parts.flatMap text) (parts.flatMap result) := by
  induction parts with
  | nil => exact ⟨.nil, rfl⟩
  | cons part parts ih =>
    rw [List.flatMap_cons, List.flatMap_cons]
    exact (each part).append bracket ih

end Single
end Chain.Pair
end AccessChain
