import AccessChain.Proofs.Links
import AccessChain.Proofs.Segmentation

/-! Chains of names with indices behind them. Each name and its indices are one segment as long as no operator in the
indices is visible. -/
namespace AccessChain
namespace Written
open Text Chain.Pair

structure Part where
  access : Access
  sigil : Bool
  name : Name
  indices : List Index

structure Indexed where
  root : Root
  indices : List Index
  parts : List Part

/-- The kinds of bracket that are emptied, with a function signature in the chain or without. -/
def hiddenBrackets (signed : Bool) : List Bracket := if signed then [.curly, .round] else [.round]

def hide (signed : Bool) (text : Text) : Text :=
  if signed then strip .curly (strip .round text) else strip .round text

/-- A name with its indices as they are shown. -/
def indexedText (signed : Bool) (name : Text) (indices : List Index) : Text :=
  name ++ indices.flatMap fun index => enclosedBy .square (hide signed index.group.bare)

def Part.links (part : Part) : List Link := .member part.access part.sigil part.name :: part.indices.map .index

def Part.shown (signed : Bool) (part : Part) : Text := indexedText signed (memberName part.sigil part.name) part.indices

namespace Indexed

def linked (chain : Indexed) : Linked := ⟨chain.root, chain.indices.map .index ++ chain.parts.flatMap Part.links⟩

def text (chain : Indexed) : Text := chain.linked.text

def isSigned (chain : Indexed) : Bool := chain.linked.isSigned

/-- The parts as they are shown. -/
def shown (chain : Indexed) : List Text :=
  indexedText chain.isSigned chain.root.text chain.indices :: chain.parts.map (Part.shown chain.isSigned)

end Indexed

theorem hides (signed : Bool) : Chain.Hides (hiddenBrackets signed) (hide signed) := by
  have round := Chain.Hides.strip .round [] id .none
  cases signed with
  | false => exact round
  | true => exact Chain.Hides.strip .curly [.round] _ round

/-! The visible text of a chain is that of its parts, with the operators between them. -/

theorem strips_indices (indices : List Index) :
    Strips .curly (indices.flatMap fun index => enclosedBy .square (hide false index.group.bare))
      (indices.flatMap fun index => enclosedBy .square (hide true index.group.bare)) := by
  apply Strips.flatMap
  intro index
  have opening : Strips .curly [Bracket.square.opener] [Bracket.square.opener] := ⟨.plain _ _ (by decide) .nil, rfl⟩
  have closing : Strips .curly [Bracket.square.closer] [Bracket.square.closer] := ⟨.plain _ _ (by decide) .nil, rfl⟩
  have kept := (hides false).nested index.group.bare index.nested
  have inner : Strips .curly (hide false index.group.bare) (hide true index.group.bare) :=
    ⟨kept.only _ _ (Bracket.mem_all _), rfl⟩
  exact opening.append .curly (inner.append .curly closing)

theorem strips_indexedText (name : Text) (plain : ∀ mark ∈ Bracket.characters, .char mark ∉ name) (indices : List Index) :
    Strips .curly (indexedText false name indices) (indexedText true name indices) :=
  (strips_plain .curly name plain).append .curly (strips_indices indices)

theorem visible_indexed (chain : Indexed) : chain.linked.visible =
    indexedText chain.isSigned chain.root.text chain.indices ++
      chain.parts.flatMap fun part => part.access.text ++ part.shown chain.isSigned := by
  have links : chain.linked.shown = indexedText false chain.root.text chain.indices ++
      chain.parts.flatMap fun part => part.access.text ++ part.shown false := by
    simp [Indexed.linked, Linked.shown, Part.links, indexedText, Part.shown, Link.shown, List.flatMap_map,
      List.flatMap_assoc, hide]
  have parts : Strips .curly (chain.parts.flatMap fun part => part.access.text ++ part.shown false)
      (chain.parts.flatMap fun part => part.access.text ++ part.shown true) := by
    apply Strips.flatMap
    intro part
    exact (strips_plain .curly _ part.access.no_bracket).append .curly
      (strips_indexedText _ (memberName_no_bracket _ _) part.indices)
  have whole := (strips_indexedText _ chain.root.no_bracket chain.indices).append .curly parts
  rw [Linked.visible, links, Indexed.isSigned]
  cases chain.linked.isSigned with
  | true => exact whole.stripped
  | false => rfl

/-! Parts with no colon at their end are cut by themselves. -/

theorem getLast?_indexedText (signed : Bool) (name : Text) (absent : .char ':' ∉ name) (indices : List Index) :
    (indexedText signed name indices).getLast? ≠ some (.char ':') := by
  intro colon
  rcases List.eq_nil_or_concat indices with rfl | ⟨front, index, rfl⟩
  · rw [indexedText, List.flatMap_nil, List.append_nil] at colon
    exact absent (List.mem_of_getLast? colon)
  · have closed : (enclosedBy .square (hide signed index.group.bare)).getLast? = some (.char ']') := by
      rw [enclosedBy, ← List.cons_append, List.getLast?_append]
      rfl
    rw [indexedText, List.concat_eq_append, List.flatMap_append, List.flatMap_cons, List.flatMap_nil, List.append_nil,
      ← List.append_assoc, List.getLast?_append, closed] at colon
    simp at colon

theorem not_isNameChar_of_operator (mark : Char) (listed : mark ∈ ['-', ':']) : Extent.isNameChar (.char mark) = false :=
  (by decide : ∀ mark ∈ ['-', ':'], Extent.isNameChar (.char mark) = false) mark listed

theorem Root.not_mem_text (root : Root) (mark : Char) (listed : mark ∈ ['-', ':']) : .char mark ∉ root.text := by
  have apart : ∀ mark ∈ ['-', ':'], mark ≠ '\\' ∧ Sym.char mark ≠ .char '$' := by decide
  have other := not_isNameChar_of_operator mark listed
  cases root with
  | var name =>
    intro member
    rcases List.mem_cons.mp member with sign | later
    · exact (apart mark listed).2 sign
    · exact name.not_mem_text mark other later
  | named name => exact name.not_mem_text mark other (apart mark listed).1

theorem not_mem_memberName (sigil : Bool) (name : Name) (mark : Char) (listed : mark ∈ ['-', ':']) :
    .char mark ∉ memberName sigil name := by
  cases sigil with
  | false => exact name.not_mem_text mark (not_isNameChar_of_operator mark listed)
  | true => exact (Root.var name).not_mem_text mark listed

theorem pieces_access (left right : Text) (access : Access) (apart : left.getLast? ≠ some (.char ':')) :
    Chain.pieces (left ++ (access.text ++ right)) = Chain.pieces left ++ Chain.pieces right := by
  cases access with
  | arrow => exact Chain.pieces_arrow left right
  | colons => exact Chain.pieces_colons left right apart

theorem pieces_parts (signed : Bool) (left : Text) (apart : left.getLast? ≠ some (.char ':')) (parts : List Part) :
    Chain.pieces (left ++ parts.flatMap fun part => part.access.text ++ part.shown signed) =
      (left :: parts.map (Part.shown signed)).flatMap Chain.pieces := by
  induction parts generalizing left with
  | nil => simp
  | cons part parts ih =>
    have ends := getLast?_indexedText signed _ (not_mem_memberName part.sigil part.name ':' (by decide)) part.indices
    have later := ih (part.shown signed) ends
    rw [List.flatMap_cons, List.append_assoc, pieces_access _ _ _ apart, later]
    rfl

/-- The segments of a chain are those of its parts. -/
theorem Indexed.segments_text (chain : Indexed) : Chain.segments tokenize chain.text =
    (chain.shown.flatMap Chain.pieces).map (trim Sym.isBlank) := by
  have ends := getLast?_indexedText chain.isSigned _ (chain.root.not_mem_text ':' (by decide)) chain.indices
  rw [Indexed.text, Linked.segments_text, visible_indexed, pieces_parts _ _ ends]
  rfl

/-! A part is one segment if no operator in its indices is visible. -/

theorem operator_cases (operator : List Char) (among : operator ∈ Chain.operators) :
    ∃ first second, ofChars operator = [first, second] ∧ (∃ mark ∈ ['-', ':'], first = .char mark) ∧
      ∀ symbol ∈ [first, second], ∀ bracket : Bracket, symbol ≠ bracket.opener ∧ symbol ≠ bracket.closer := by
  have plain : ∀ mark ∈ ['-', '>', ':'], ∀ bracket : Bracket,
      Sym.char mark ≠ bracket.opener ∧ Sym.char mark ≠ bracket.closer := by
    intro mark listed bracket
    cases bracket <;> revert mark <;> decide
  simp only [Chain.operators, List.mem_cons, List.not_mem_nil, or_false] at among
  rcases among with rfl | rfl
  · refine ⟨.char '-', .char '>', rfl, ⟨'-', by decide, rfl⟩, ?_⟩
    simp only [List.forall_mem_cons]
    exact ⟨plain '-' (by decide), plain '>' (by decide), by simp⟩
  · refine ⟨.char ':', .char ':', rfl, ⟨':', by decide, rfl⟩, ?_⟩
    simp only [List.forall_mem_cons]
    exact ⟨plain ':' (by decide), plain ':' (by decide), by simp⟩

section Signed
variable (signed : Bool)

theorem infix_indexedText (first second : Sym)
    (apart : ∀ symbol ∈ [first, second], ∀ bracket : Bracket, symbol ≠ bracket.opener ∧ symbol ≠ bracket.closer)
    (name : Text) (indices : List Index) :
    [first, second] <:+: indexedText signed name indices ↔ [first, second] <:+: name ∨
      ∃ index ∈ indices, [first, second] <:+: hide signed index.group.bare := by
  induction indices generalizing name with
  | nil => simp [indexedText]
  | cons index indices ih =>
    have opener : Bracket.square.opener ∉ [first, second] := fun member => (apart _ member .square).1 rfl
    have closer : Bracket.square.closer ∉ [first, second] := fun member => (apart _ member .square).2 rfl
    have rest := ih []
    rw [indexedText, List.nil_append] at rest
    have whole : indexedText signed name (index :: indices) = name ++ Bracket.square.opener ::
        (hide signed index.group.bare ++ Bracket.square.closer ::
          indices.flatMap fun index => enclosedBy .square (hide signed index.group.bare)) := by
      simp [indexedText, enclosedBy]
    rw [whole, Chain.infix_around first second _ _ _ opener, Chain.infix_around first second _ _ _ closer, rest]
    simp

section Named
variable (name : Text) (plain : ∀ mark ∈ ['-', ':'], .char mark ∉ name) (indices : List Index)
include plain

/-- The operators in a part are those that its indices leave visible. -/
theorem operator_infix_iff (operator : List Char) (among : operator ∈ Chain.operators) :
    ofChars operator <:+: indexedText signed name indices ↔
      ∃ index ∈ indices, Chain.Exposes (hiddenBrackets signed) (ofChars operator) index.group.bare := by
  obtain ⟨first, second, same, ⟨mark, sign, rfl⟩, apart⟩ := operator_cases operator among
  have notInName : ¬ [.char mark, second] <:+: name := fun inside => plain mark sign (inside.subset List.mem_cons_self)
  rw [same, infix_indexedText signed _ second apart, or_iff_right notInName]
  exact exists_congr fun index => and_congr_right fun _ =>
    (Chain.exposes_iff _ _ _ apart _ (hides signed) _ index.nested).symm

theorem length_pieces_indexedText :
    (Chain.pieces (indexedText signed name indices)).length = 1 ↔ ∀ index ∈ indices, ∀ operator ∈ Chain.operators,
      ¬ Chain.Exposes (hiddenBrackets signed) (ofChars operator) index.group.bare := by
  have held := operator_infix_iff signed name plain indices
  rw [Chain.length_pieces_eq_one_iff]
  constructor
  · intro absent index listed operator among exposed
    exact absent operator among ((held operator among).mpr ⟨index, listed, exposed⟩)
  · intro absent operator among inside
    obtain ⟨index, listed, exposed⟩ := (held operator among).mp inside
    exact absent index listed operator among exposed

end Named

theorem isTrimmed_indexedText (name : Text) (trimmed : IsTrimmed name) (indices : List Index) :
    IsTrimmed (indexedText signed name indices) := by
  induction indices generalizing name with
  | nil => rwa [indexedText, List.flatMap_nil, List.append_nil]
  | cons index indices ih =>
    have next := trimmed.append (isTrimmed_closer .square) (Bracket.square.opener :: hide signed index.group.bare)
    have whole := ih _ next
    simpa [indexedText, enclosedBy] using whole

end Signed

theorem Indexed.isTrimmed_shown (chain : Indexed) : ∀ part ∈ chain.shown, IsTrimmed part := by
  rw [Indexed.shown, List.forall_mem_cons, List.forall_mem_map]
  exact ⟨isTrimmed_indexedText _ _ chain.root.isTrimmed _,
    fun part _ => isTrimmed_indexedText _ _ (isTrimmed_memberName part.sigil part.name) part.indices⟩

/-- A chain has one segment for each of its parts exactly where each operator in an index stands in round brackets, or
in curly brackets of a chain that holds a function signature. -/
theorem segment_per_part_iff (chain : Indexed) :
    ((Chain.segments tokenize chain.text).length = chain.parts.length + 1 ↔
      ∀ index ∈ chain.indices ++ chain.parts.flatMap Part.indices, ∀ operator ∈ Chain.operators,
        ¬ Chain.Exposes (hiddenBrackets chain.isSigned) (ofChars operator) index.group.bare) ∧
    ((Chain.segments tokenize chain.text).length = chain.parts.length + 1 →
      Chain.segments tokenize chain.text = chain.shown) := by
  have count : chain.shown.length = chain.parts.length + 1 := by simp [Indexed.shown]
  have single := Chain.length_flatMap_eq_iff Chain.pieces Chain.pieces_ne_nil chain.shown
  rw [chain.segments_text, List.length_map, ← count]
  constructor
  · have parts : ∀ part ∈ chain.parts, (Chain.pieces (part.shown chain.isSigned)).length = 1 ↔ _ :=
      fun part _ => length_pieces_indexedText chain.isSigned _ (not_mem_memberName part.sigil part.name) part.indices
    rw [single, Indexed.shown, List.forall_mem_cons, List.forall_mem_map, List.forall_mem_append,
      length_pieces_indexedText _ _ (chain.root.not_mem_text), List.forall_mem_flatMap]
    exact and_congr_right fun _ => forall₂_congr parts
  · intro same
    have whole : chain.shown.flatMap Chain.pieces = chain.shown.flatMap fun part => [part] :=
      List.flatMap_congr fun part member => Chain.pieces_of_length part (single.mp same part member)
    have kept : chain.shown.map (trim Sym.isBlank) = chain.shown.map id :=
      List.map_congr_left fun part member => trim_of_isTrimmed [] part (by simp) (chain.isTrimmed_shown part member)
    rw [whole, List.flatMap_singleton', kept, List.map_id]

def constantIndex : Index where
  group := ⟨ofString "Foo::BAR", by decide +kernel⟩
  nested := by
    have bare : Token.textWithoutComments (tokensBetween .square (ofString "Foo::BAR")) = ofString "Foo::BAR" := by
      decide +kernel
    rw [Group.bare, bare]
    exact Nested.of_not_mem _ _ (by decide)

/-- A class constant as an index is cut at its operator. -/
theorem constant_index_is_cut :
    ∃ chain : Indexed, chain.text = ofString "$a[Foo::BAR]->b" ∧ chain.parts.length + 1 = 2 ∧
      Chain.segments tokenize (ofString "$a[Foo::BAR]->b") = [ofString "$a[Foo", ofString "BAR]", ofString "b"] :=
  ⟨⟨.var ⟨⟨.char 'a', [], by decide, by decide⟩, by decide⟩, [constantIndex],
      [⟨.arrow, false, ⟨⟨.char 'b', [], by decide, by decide⟩, by decide⟩, []⟩]⟩,
    by decide +kernel, rfl, by decide +kernel⟩

end Written
end AccessChain
