import AccessChain.Proofs.WrittenTokens

/-! The segments of a well-formed chain. Without its comments and brackets around an instantiation the chain is
emptied call by call, and then it falls apart at its access operators. -/
namespace AccessChain

namespace Chain

theorem split_plain (first second : Sym) (text : Text) (absent : first ∉ text) :
    split first second text = [text] := by
  induction text with
  | nil => rfl
  | cons symbol text ih =>
    have other : symbol ≠ first := fun same => absent (same ▸ List.mem_cons_self)
    cases text with
    | nil => rfl
    | cons next text =>
      rw [split, ih fun member => absent (List.mem_cons_of_mem symbol member)]
      simp [other]

theorem split_append (first second : Sym) (text rest : Text) (absent : first ∉ text) :
    split first second (text ++ first :: second :: rest) = text :: split first second rest := by
  induction text with
  | nil => simp [split]
  | cons symbol text ih =>
    have other : symbol ≠ first := fun same => absent (same ▸ List.mem_cons_self)
    have later := ih fun member => absent (List.mem_cons_of_mem symbol member)
    cases text with
    | nil =>
      simp only [List.nil_append, List.cons_append] at later ⊢
      rw [split, later]
      simp [other]
    | cons next text =>
      simp only [List.cons_append] at later ⊢
      rw [split, later]
      simp [other]

theorem split_parts (first second : Sym) (head : Text) (parts : List Text) (absent : first ∉ head)
    (each : ∀ part ∈ parts, first ∉ part) :
    split first second (head ++ parts.flatMap fun part => first :: second :: part) = head :: parts := by
  induction parts generalizing head with
  | nil => simpa using split_plain first second head absent
  | cons part parts ih =>
    rw [List.flatMap_cons, List.cons_append, List.cons_append, split_append first second head _ absent,
      ih part (each part List.mem_cons_self) fun other member => each other (List.mem_cons_of_mem part member)]

theorem not_mem_parts (separator symbol : Sym) (head : Text) (parts : List Text) (other : symbol ≠ separator)
    (absent : ∀ part ∈ head :: parts, symbol ∉ part) :
    symbol ∉ head ++ parts.flatMap fun part => separator :: separator :: part := by
  intro member
  rcases List.mem_append.mp member with first | later
  · exact absent head List.mem_cons_self first
  · obtain ⟨part, inside, found⟩ := List.mem_flatMap.mp later
    simp only [List.mem_cons, other, false_or] at found
    exact absent part (List.mem_cons_of_mem head inside) found

end Chain

namespace Text

theorem dropWhile_of_head (test : Sym → Bool) (text : Text) (symbol : Sym) (found : text.head? = some symbol)
    (rejected : test symbol = false) : text.dropWhile test = text := by
  cases text with
  | nil => contradiction
  | cons first text =>
    obtain rfl := Option.some.inj found
    exact List.dropWhile_cons_of_neg (by simp [rejected])

theorem trim_of_isTrimmed (blank text : Text) (blanks : ∀ symbol ∈ blank, symbol.isBlank = true)
    (trimmed : IsTrimmed text) : trim Sym.isBlank (blank ++ text) = text := by
  obtain ⟨first, head, firstUnblank⟩ := trimmed.first
  obtain ⟨last, final, lastUnblank⟩ := trimmed.last
  rw [← List.head?_reverse] at final
  rw [trim, List.dropWhile_append_of_pos blanks, dropWhile_of_head _ text first head firstUnblank,
    dropWhile_of_head _ text.reverse last final lastUnblank, List.reverse_reverse]

end Text

namespace Written

open Text Chain.Pair

/-! Comments are dropped and the brackets of an instantiation are taken off. -/

theorem withoutComments_written (written : Written) (blank : Text)
    (blanks : ∀ symbol ∈ blank, symbol.isBlank = true) :
    Chain.withoutComments tokenize (blank ++ written.text) =
      written.base.text Call.bare ++ membersText Call.bare written.members := by
  have cut : (tokenize written.text).map Token.piece = written.pieces := written.pieces_text
  have result := isTrimmed_members Call.bare _ (written.base.isTrimmed Call.bare) written.members
  have trimmed := trim_of_isTrimmed [] _ (by simp) result
  rw [Chain.withoutComments, trim_of_isTrimmed blank written.text blanks written.isTrimmed, textWithoutComments_eq_bare, cut,
    bare_pieces]
  exact trimmed

theorem unwrapInstantiation_plain (text more : Text) (held : text ≠ []) (absent : .char '(' ∉ text) :
    Chain.unwrapInstantiation (text ++ more) = text ++ more := by
  obtain ⟨first, others, rfl⟩ := List.exists_cons_of_ne_nil held
  have other : first ≠ .char '(' := fun same => absent (same ▸ List.mem_cons_self)
  have starts := startsWith_cons_ne '(' ['n', 'e', 'w'] first (others ++ more) other
  rw [Chain.unwrapInstantiation, List.cons_append, starts]
  rfl

theorem ClassName.ne_nil (root : ClassName) : root.text ≠ [] := by
  obtain ⟨symbol, found, _⟩ := root.isTrimmed.first
  intro empty
  rw [empty] at found
  contradiction

theorem unwrapInstantiation_base (inside : Call → Text) (nested : ∀ call, Nested Bracket.all (inside call))
    (base : Base) (rest : Text) :
    Chain.unwrapInstantiation (base.text inside ++ rest) = base.unwrapped inside ++ rest := by
  cases base with
  | var name =>
    have absent : .char '(' ∉ [Sym.char '$'] := by decide
    exact unwrapInstantiation_plain [.char '$'] (name.text ++ rest) (List.cons_ne_nil _ _) absent
  | path root call =>
    have absent : .char '(' ∉ root.text := root.not_mem_text '(' (by decide) (by decide)
    have plain := unwrapInstantiation_plain root.text (callText inside call ++ rest) root.ne_nil absent
    simp only [Base.text, Base.unwrapped, List.append_assoc]
    exact plain
  | scope root constants last =>
    have absent : .char '(' ∉ root.text := root.not_mem_text '(' (by decide) (by decide)
    simp only [Base.text, Base.unwrapped, List.append_assoc]
    exact unwrapInstantiation_plain root.text _ root.ne_nil absent
  | creation gap apart root call =>
    have whole := nested_unwrapped inside nested (.creation gap apart root call)
    have found := matching?_group .round _ rest (whole.only _ _ (Bracket.mem_all _))
    obtain ⟨first, others, text⟩ := List.exists_cons_of_ne_nil apart
    have blank : first.isBlank = true :=
      isBlank_of_isCodeBlank first (gap.blank first (by rw [text]; exact List.mem_cons_self))
    have parted : (Base.creation gap apart root call).unwrapped inside =
        ofChars ['n', 'e', 'w'] ++ first :: (others ++ root.text ++ callText inside call) := by
      simp [Base.unwrapped, text]
    rw [Base.text]
    generalize (Base.creation gap apart root call).unwrapped inside = inner at found parted
    have source : .char '(' :: (inner ++ [.char ')']) ++ rest = .char '(' :: (inner ++ .char ')' :: rest) := by simp
    have starts : startsWith ['(', 'n', 'e', 'w'] (.char '(' :: (inner ++ .char ')' :: rest)) = true := by
      rw [parted]
      rfl
    have spaced : ((Sym.char '(' :: (inner ++ .char ')' :: rest)).drop 4).head?.any Sym.isBlank = true := by
      rw [parted]
      exact blank
    have closes : matching? [.char '('] [.char ')'] (.char '(' :: (inner ++ .char ')' :: rest)) 0 =
        some (inner.length + 1) := found
    rw [source, Chain.unwrapInstantiation, starts, spaced, closes]
    simp [List.take_succ_cons, List.drop_append]

/-! Emptying a kind of bracket changes the chain only between the brackets of its calls. -/

theorem strips_plain (bracket : Bracket) (text : Text)
    (absent : ∀ mark ∈ Bracket.characters, Sym.char mark ∉ text) : Strips bracket text text where
  nested := Nested.of_not_mem _ text absent
  stripped := strip_plain bracket text (bracket.opener_not_mem text absent)

section Stripping
variable (bracket : Bracket) (inside outside : Call → Text)
  (each : ∀ call, Strips bracket (callText inside (some call)) (callText outside (some call)))

theorem strips_name (name : Name) : Strips bracket name.text name.text := strips_plain bracket _ name.no_bracket

theorem strips_class (root : ClassName) : Strips bracket root.text root.text := strips_plain bracket _ root.no_bracket

include each

theorem strips_call (call : Option Call) : Strips bracket (callText inside call) (callText outside call) := by
  cases call with
  | none => exact ⟨.nil, rfl⟩
  | some call => exact each call

theorem strips_member (member : Member) : Strips bracket (member.text inside) (member.text outside) :=
  (strips_name bracket member.name).append bracket (strips_call bracket inside outside each member.call)

theorem strips_members (members : List Member) :
    Strips bracket (membersText inside members) (membersText outside members) := by
  have arrow : Strips bracket (ofChars ['-', '>']) (ofChars ['-', '>']) := strips_plain bracket _ (not_mem_ofChars _ _ rfl)
  apply Strips.flatMap
  intro member
  exact arrow.append bracket (strips_member bracket inside outside each member)

theorem strips_unwrapped (base : Base) : Strips bracket (base.unwrapped inside) (base.unwrapped outside) := by
  have called := strips_call bracket inside outside each
  cases base with
  | var name =>
    have sign : Strips bracket [.char '$'] [.char '$'] := strips_plain bracket _ (not_mem_ofChars _ ['$'] rfl)
    exact sign.append bracket (strips_name bracket name)
  | path root call => exact (strips_class bracket root).append bracket (called call)
  | scope root constants last =>
    have colons : Strips bracket (ofChars [':', ':']) (ofChars [':', ':']) := strips_plain bracket _ (not_mem_ofChars _ _ rfl)
    have scopes := Strips.flatMap bracket _ _ constants fun name => colons.append bracket (strips_name bracket name)
    have final := colons.append bracket (strips_member bracket inside outside each last)
    exact ((strips_class bracket root).append bracket scopes).append bracket final
  | creation gap apart root call =>
    have word : Strips bracket (ofChars ['n', 'e', 'w']) (ofChars ['n', 'e', 'w']) :=
      strips_plain bracket _ (not_mem_ofChars _ _ rfl)
    have space : Strips bracket gap.text gap.text := strips_plain bracket _ gap.no_bracket
    exact ((word.append bracket space).append bracket (strips_class bracket root)).append bracket (called call)

end Stripping

theorem stripContent_round (inside : Call → Text) (nested : ∀ call, Nested Bracket.all (inside call)) (base : Base)
    (members : List Member) :
    stripContent [.char '('] [.char ')'] (base.unwrapped inside ++ membersText inside members) =
      base.unwrapped Call.emptied ++ membersText Call.emptied members := by
  have each : ∀ call, Strips .round (callText inside (some call)) (callText Call.emptied (some call)) := by
    intro call
    have inner := (nested call).only _ .round (Bracket.mem_all _)
    exact ⟨Nested.enclose _ .round _ List.mem_cons_self inner, strip_group .round _ [] inner⟩
  exact ((strips_unwrapped .round _ _ each base).append .round (strips_members .round _ _ each members)).stripped

theorem emptied_written (written : Written) :
    Chain.emptied (written.base.text Call.bare ++ membersText Call.bare written.members) =
      written.base.unwrapped Call.emptied ++ membersText Call.emptied written.members := by
  have each : ∀ call, Strips .curly (callText Call.bare (some call))
      (callText (fun call => strip .curly call.bare) (some call)) := by
    intro call
    have opening : Strips .curly [.char '('] [.char '('] := ⟨.plain _ _ (by decide) .nil, rfl⟩
    have closing : Strips .curly [.char ')'] [.char ')'] := ⟨.plain _ _ (by decide) .nil, rfl⟩
    have inner : Strips .curly call.bare (strip .curly call.bare) := ⟨call.nested.only _ _ (Bracket.mem_all _), rfl⟩
    exact opening.append .curly (inner.append .curly closing)
  have bodies := (strips_unwrapped .curly _ _ each written.base).append .curly
    (strips_members .curly _ _ each written.members)
  -- Curly brackets stand in calls only, so it makes no difference whether they are emptied first.
  rw [Chain.emptied, unwrapInstantiation_base Call.bare Call.nested]
  by_cases signature : Chain.holdsSignature false
      (written.base.unwrapped Call.bare ++ membersText Call.bare written.members) = true
  · have bodiless := bodies.stripped
    rw [strip] at bodiless
    simp only [signature, if_true]
    change stripContent _ _ (stripContent [Bracket.curly.opener] [Bracket.curly.closer] _) = _
    rw [bodiless]
    apply stripContent_round
    intro call
    exact nested_strip .curly Bracket.all (Bracket.mem_all _) call.bare call.nested
  · simp only [signature, Bool.false_eq_true, if_false]
    exact stripContent_round Call.bare Call.nested written.base written.members

/-! The emptied chain falls apart at its access operators. -/

theorem not_mem_emptied (mark : Char) (other : mark ∉ ['(', ')']) (front : Text) (absent : Sym.char mark ∉ front)
    (call : Option Call) : Sym.char mark ∉ front ++ callText Call.emptied call := by
  intro member
  rcases List.mem_append.mp member with first | later
  · exact absent first
  · cases call with
    | none => contradiction
    | some call =>
      have listed : Sym.char mark ∈ ofChars ['(', ')'] := later
      obtain ⟨character, found, same⟩ := List.mem_map.mp listed
      rw [Sym.char.inj same] at found
      exact other found

theorem Member.not_mem_emptied (member : Member) (mark : Char) (plain : Extent.isNameChar (.char mark) = false)
    (other : mark ∉ ['(', ')']) : Sym.char mark ∉ member.text Call.emptied :=
  Written.not_mem_emptied mark other _ (member.name.not_mem_text mark plain) member.call

theorem Base.unwrapped_eq_segments (base : Base) : ∃ head parts, base.segments = head :: parts ∧
    base.unwrapped Call.emptied = head ++ parts.flatMap fun part => .char ':' :: .char ':' :: part := by
  cases base with
  | var name => exact ⟨_, [], rfl, (List.append_nil _).symm⟩
  | path root call => exact ⟨_, [], rfl, (List.append_nil _).symm⟩
  | scope root constants last =>
    refine ⟨_, _, rfl, ?_⟩
    rw [List.flatMap_append, List.flatMap_map, ← List.append_assoc]
    simp [Base.unwrapped, ofChars]
  | creation gap apart root call => exact ⟨_, [], rfl, (List.append_nil _).symm⟩

theorem Base.not_mem_segments (base : Base) (mark : Char) (listed : mark ∈ ['-', ':']) :
    ∀ segment ∈ base.segments, Sym.char mark ∉ segment := by
  have facts : ∀ mark ∈ ['-', ':'], Extent.isNameChar (.char mark) = false ∧ mark ≠ '\\' ∧ mark ∉ ['(', ')'] ∧
      isCodeBlank mark = false ∧ Sym.char mark ∉ ofChars ['$', 'n', 'e', 'w'] :=
    List.all_iff_forall_prop.mp (by decide)
  obtain ⟨plain, apart, other, ink, word⟩ := facts mark listed
  have rooted := fun root : ClassName => root.not_mem_text mark plain apart
  intro segment member
  cases base with
  | var name =>
    obtain rfl := List.mem_singleton.mp member
    intro inside
    rcases List.mem_cons.mp inside with sign | later
    · exact word (sign ▸ List.mem_cons_self)
    · exact name.not_mem_text mark plain later
  | path root call =>
    obtain rfl := List.mem_singleton.mp member
    exact not_mem_emptied mark other _ (rooted root) call
  | scope root constants last =>
    rcases List.mem_cons.mp member with rfl | later
    · exact rooted root
    · rcases List.mem_append.mp later with constant | final
      · obtain ⟨name, _, rfl⟩ := List.mem_map.mp constant
        exact name.not_mem_text mark plain
      · obtain rfl := List.mem_singleton.mp final
        exact last.not_mem_emptied mark plain other
  | creation gap space root call =>
    obtain rfl := List.mem_singleton.mp member
    apply not_mem_emptied mark other
    intro inside
    rcases List.mem_append.mp inside with front | later
    · rcases List.mem_append.mp front with first | blank
      · exact word (List.mem_cons_of_mem _ first)
      · exact gap.not_mem_text mark ink blank
    · exact rooted root later

theorem pieces_emptied (written : Written) :
    Chain.pieces (written.base.unwrapped Call.emptied ++ membersText Call.emptied written.members) =
      written.segments := by
  obtain ⟨head, parts, segments, whole⟩ := written.base.unwrapped_eq_segments
  have absent := written.base.not_mem_segments
  rw [segments] at absent
  have noArrow : Sym.char '-' ∉ written.base.unwrapped Call.emptied := by
    rw [whole]
    exact Chain.not_mem_parts (.char ':') (.char '-') head parts (by decide) (absent '-' (by decide))
  have colons := absent ':' (by decide)
  have scopes : Chain.split (.char ':') (.char ':') (written.base.unwrapped Call.emptied) = written.base.segments := by
    rw [whole, segments]
    exact Chain.split_parts _ _ head parts (colons head List.mem_cons_self)
      fun part inside => colons part (List.mem_cons_of_mem head inside)
  have members : membersText Call.emptied written.members =
      (written.members.map (Member.text Call.emptied)).flatMap fun part => .char '-' :: .char '>' :: part := by
    rw [List.flatMap_map]
    rfl
  have accesses := Chain.split_parts (.char '-') (.char '>') _ (written.members.map (Member.text Call.emptied)) noArrow
    (by
      intro part inside
      obtain ⟨member, _, rfl⟩ := List.mem_map.mp inside
      exact member.not_mem_emptied '-' (by decide) (by decide))
  have single : (written.members.map (Member.text Call.emptied)).flatMap (Chain.split (.char ':') (.char ':')) =
      written.members.map (Member.text Call.emptied) := by
    have each : ∀ member : Member, Chain.split (.char ':') (.char ':') (member.text Call.emptied) =
        [member.text Call.emptied] :=
      fun member => Chain.split_plain _ _ _ (member.not_mem_emptied ':' (by decide) (by decide))
    rw [List.flatMap_map, List.map_eq_flatMap]
    simp only [each]
  rw [Chain.pieces, members, accesses, List.flatMap_cons, scopes, single]
  rfl

theorem isTrimmed_segments (written : Written) : ∀ segment ∈ written.segments, IsTrimmed segment := by
  intro segment member
  rcases List.mem_append.mp member with base | access
  · have whole := written.base.isTrimmed_unwrapped Call.emptied
    cases same : written.base with
    | scope root constants last =>
      rw [same] at base
      rcases List.mem_cons.mp base with rfl | later
      · exact root.isTrimmed
      · rcases List.mem_append.mp later with constant | final
        · obtain ⟨name, _, rfl⟩ := List.mem_map.mp constant
          exact name.isTrimmed
        · obtain rfl := List.mem_singleton.mp final
          exact last.isTrimmed Call.emptied
    | var name =>
      rw [same] at base whole
      rw [List.mem_singleton.mp base]
      exact whole
    | path root call =>
      rw [same] at base whole
      rw [List.mem_singleton.mp base]
      exact whole
    | creation gap apart root call =>
      rw [same] at base whole
      rw [List.mem_singleton.mp base]
      exact whole
  · obtain ⟨accessed, _, rfl⟩ := List.mem_map.mp access
    exact accessed.isTrimmed Call.emptied

/-- The segments of a well-formed chain, whatever white space stands in front of it. -/
theorem segments_text (written : Written) (blank : Text) (blanks : ∀ symbol ∈ blank, symbol.isBlank = true) :
    Chain.segments tokenize (blank ++ written.text) = written.segments := by
  have whole := isTrimmed_members Call.emptied _ (written.base.isTrimmed_unwrapped Call.emptied) written.members
  have held : (written.base.unwrapped Call.emptied ++ membersText Call.emptied written.members).isEmpty = false := by
    obtain ⟨symbol, found, _⟩ := whole.first
    apply eq_false_of_ne_true
    intro empty
    rw [List.isEmpty_iff.mp empty] at found
    contradiction
  have kept : written.segments.map (trim Sym.isBlank) = written.segments.map id := by
    apply List.map_congr_left
    intro segment member
    exact trim_of_isTrimmed [] segment (by simp) (written.isTrimmed_segments segment member)
  rw [Chain.segments, withoutComments_written written blank blanks, emptied_written, pieces_emptied]
  simp only [held, Bool.false_eq_true, if_false]
  rw [kept, List.map_id]

end Written
end AccessChain
