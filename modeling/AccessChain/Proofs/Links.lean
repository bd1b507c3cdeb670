import AccessChain.Proofs.Margins
import AccessChain.Proofs.OpenGroups
import AccessChain.Proofs.WrittenSegments

/-! Chains as a root with links behind it: members, calls, members with a computed name and indices. What is shown of
such a chain depends on the arguments of its calls by no more than whether there is a function signature in it. -/
namespace AccessChain

open Chain.Pair

/-- A text in which round brackets stand around nested text only, and what is left of it with them emptied. -/
inductive Emptied : Text → Text → Prop where
  | nil : Emptied [] []
  | plain (symbol : Sym) (text shown : Text) (apart : symbol ≠ .char '(' ∧ symbol ≠ .char ')')
      (tail : Emptied text shown) : Emptied (symbol :: text) (symbol :: shown)
  | group (inner text shown : Text) (nested : Nested Bracket.all inner) (tail : Emptied text shown) :
      Emptied (.char '(' :: (inner ++ .char ')' :: text)) (.char '(' :: .char ')' :: shown)

namespace Emptied

theorem append {left right shown more : Text} (front : Emptied left shown) (back : Emptied right more) :
    Emptied (left ++ right) (shown ++ more) := by
  induction front with
  | nil => exact back
  | plain symbol text shown apart tail ih => exact .plain symbol _ _ apart ih
  | group inner text shown nested tail ih =>
    rw [List.cons_append, List.append_assoc]
    exact .group inner _ _ nested ih

theorem of_free (text : Text) (free : ∀ mark ∈ ['(', ')'], .char mark ∉ text) : Emptied text text := by
  induction text with
  | nil => exact .nil
  | cons symbol text ih =>
    refine .plain symbol text text ⟨?_, ?_⟩ (ih fun mark listed member => free mark listed (List.mem_cons_of_mem _ member))
    · rintro rfl
      exact free '(' (by decide) List.mem_cons_self
    · rintro rfl
      exact free ')' (by decide) List.mem_cons_self

theorem of_nested (text : Text) (nested : Nested Bracket.all text) : Emptied text (strip .round text) := by
  induction nested with
  | nil => exact .nil
  | plain symbol rest apart tail ih =>
    have round := apart .round (Bracket.mem_all _)
    rw [strip_cons_plain .round symbol rest round.1]
    exact .plain symbol _ _ round ih
  | group bracket inner rest counted inside tail innerIh restIh =>
    by_cases round : bracket = .round
    · subst round
      rw [strip_group .round inner rest (inside.only _ .round counted)]
      exact .group inner _ _ inside restIh
    · have apart : ∀ bracket : Bracket, bracket ≠ .round → (bracket.opener ≠ .char '(' ∧ bracket.opener ≠ .char ')') ∧
          bracket.closer ≠ .char '(' ∧ bracket.closer ≠ .char ')' := by
        intro bracket other
        cases bracket <;> first | contradiction | decide
      obtain ⟨opener, closer⟩ := apart bracket round
      rw [strip_cons_plain .round _ _ opener.1, strip_append .round inner _ (inside.only _ .round (Bracket.mem_all _)),
        strip_cons_plain .round _ _ closer.1]
      exact .plain _ _ _ opener (innerIh.append (.plain _ _ _ closer restIh))

theorem strip_eq {text shown : Text} (emptied : Emptied text shown) : strip .round text = shown := by
  induction emptied with
  | nil => rfl
  | plain symbol text shown apart tail ih => rw [strip_cons_plain .round symbol text apart.1, ih]
  | group inner text shown nested tail ih =>
    have whole := strip_group .round inner text (nested.only _ .round (Bracket.mem_all _))
    rw [ih] at whole
    exact whole

theorem single (symbol : Sym) (apart : symbol ≠ .char '(' ∧ symbol ≠ .char ')') : Emptied [symbol] [symbol] :=
  .plain symbol [] [] apart .nil

/-- Emptying the curly brackets does the same to a text as to what is left of it: what stands in round brackets opens
and closes none outside of them. -/
theorem collapse_curly {text shown : Text} (emptied : Emptied text shown) (depth : Nat) (held other : Text)
    (read : Emptied held.reverse other.reverse) :
    Emptied (collapse [Bracket.curly.opener] [Bracket.curly.closer] depth held text)
      (collapse [Bracket.curly.opener] [Bracket.curly.closer] depth other shown) := by
  induction emptied generalizing depth held other with
  | nil =>
    cases depth <;> exact read
  | plain symbol text shown apart tail ih =>
    have further : Emptied (symbol :: held).reverse (symbol :: other).reverse := by
      rw [List.reverse_cons, List.reverse_cons]
      exact read.append (single symbol apart)
    cases depth with
    | zero =>
      by_cases opens : symbol = Bracket.curly.opener
      · simp only [collapse, opens, if_true]
        exact .plain _ _ _ (by decide) (ih 1 [] [] .nil)
      · simp only [collapse, List.cons.injEq, and_true, opens, if_false]
        exact .plain symbol _ _ apart (ih 0 [] [] .nil)
    | succ depth =>
      by_cases opens : symbol = Bracket.curly.opener
      · simp only [collapse, List.cons.injEq, and_true, opens, if_true]
        exact ih (depth + 2) _ _ (opens ▸ further)
      by_cases closes : symbol = Bracket.curly.closer
      · subst closes
        simp only [collapse, List.cons.injEq, and_true, opens, if_false, if_true]
        split
        · exact .plain _ _ _ apart (ih 0 [] [] .nil)
        · exact ih depth _ _ further
      · simp only [collapse, List.cons.injEq, and_true, opens, closes, if_false]
        exact ih (depth + 1) _ _ further
  | group inner text shown nested tail ih =>
    have curly := nested.only _ .curly (Bracket.mem_all _)
    have kept := nested_strip .curly _ (Bracket.mem_all _) inner nested
    cases depth with
    | zero =>
      have opener : ∀ held rest, collapse [Bracket.curly.opener] [Bracket.curly.closer] 0 held (.char '(' :: rest) =
          .char '(' :: strip .curly rest := fun _ _ => rfl
      have closer : ∀ rest, strip .curly (.char ')' :: rest) = .char ')' :: strip .curly rest :=
        fun rest => strip_cons_plain .curly _ rest (by decide)
      rw [opener, opener, strip_append .curly inner _ curly, closer, closer]
      exact .group _ _ _ kept (ih 0 [] [] .nil)
    | succ depth =>
      have opener : ∀ held rest, collapse [Bracket.curly.opener] [Bracket.curly.closer] (depth + 1) held (.char '(' :: rest) =
          collapse [Bracket.curly.opener] [Bracket.curly.closer] (depth + 1) (.char '(' :: held) rest := fun _ _ => rfl
      have closer : ∀ held rest, collapse [Bracket.curly.opener] [Bracket.curly.closer] (depth + 1) held (.char ')' :: rest) =
          collapse [Bracket.curly.opener] [Bracket.curly.closer] (depth + 1) (.char ')' :: held) rest := fun _ _ => rfl
      rw [opener, opener, collapse_nested .curly depth _ inner _ curly, closer, closer]
      apply ih
      have group := Emptied.group inner [] [] nested .nil
      have read := read.append group
      simpa using read

theorem strip_curly {text shown : Text} (emptied : Emptied text shown) :
    Emptied (strip .curly text) (strip .curly shown) :=
  emptied.collapse_curly 0 [] [] .nil

end Emptied

namespace Written
open Text

/-- Code between brackets of one kind that is lexed to complete tokens. -/
structure Group (bracket : Bracket) where
  inside : Text
  closed : (tokenize (bracket.opener :: (inside ++ [bracket.closer]))).getLast?.map Token.piece =
    some (.character, [bracket.closer])

/-- What is left between the brackets without comments. -/
def Group.bare {bracket : Bracket} (group : Group bracket) : Text :=
  Token.textWithoutComments (tokensBetween bracket group.inside)

structure Index where
  group : Group .square
  nested : Nested Bracket.all group.bare

inductive Root where
  | var (name : Name)
  | named (name : ClassName)

inductive Access where
  | arrow
  | colons

inductive Link where
  | member (access : Access) (sigil : Bool) (name : Name)
  | call (call : Call)
  | dynamic (access : Access) (group : Group .curly) (free : ∀ mark ∈ ['(', ')'], .char mark ∉ group.bare)
  | index (index : Index)

def Root.text : Root → Text
  | .var name => .char '$' :: name.text
  | .named name => name.text

def Access.text : Access → Text
  | .arrow => ofChars ['-', '>']
  | .colons => ofChars [':', ':']

def memberName (sigil : Bool) (name : Name) : Text := if sigil then .char '$' :: name.text else name.text

def enclosedBy (bracket : Bracket) (inside : Text) : Text := bracket.opener :: (inside ++ [bracket.closer])

namespace Link

def text : Link → Text
  | .member access sigil name => access.text ++ memberName sigil name
  | .call called => enclosedBy .round called.inside
  | .dynamic access group _ => access.text ++ enclosedBy .curly group.inside
  | .index place => enclosedBy .square place.group.inside

/-- The text without comments. -/
def bare : Link → Text
  | .member access sigil name => access.text ++ memberName sigil name
  | .call called => enclosedBy .round called.bare
  | .dynamic access group _ => access.text ++ enclosedBy .curly group.bare
  | .index place => enclosedBy .square place.group.bare

/-- The text without comments and with its round brackets emptied. -/
def shown : Link → Text
  | .member access sigil name => access.text ++ memberName sigil name
  | .call _ => enclosedBy .round []
  | .dynamic access group _ => access.text ++ enclosedBy .curly group.bare
  | .index place => enclosedBy .square (strip .round place.group.bare)

end Link

structure Linked where
  root : Root
  links : List Link

namespace Linked

def text (linked : Linked) : Text := linked.root.text ++ linked.links.flatMap Link.text

def bare (linked : Linked) : Text := linked.root.text ++ linked.links.flatMap Link.bare

def shown (linked : Linked) : Text := linked.root.text ++ linked.links.flatMap Link.shown

end Linked

/-! Lexing. -/

def groupPieces (bracket : Bracket) (inside : Text) : List (TokenKind × Text) :=
  (.character, [bracket.opener]) :: ((tokensBetween bracket inside).map Token.piece ++ [(.character, [bracket.closer])])

def Root.pieces : Root → List (TokenKind × Text)
  | .var name => [(.varName, .char '$' :: name.text)]
  | .named name => name.pieces

def Access.piece : Access → TokenKind × Text
  | .arrow => (.objectOperator, ofChars ['-', '>'])
  | .colons => (.doubleColon, ofChars [':', ':'])

def Link.pieces : Link → List (TokenKind × Text)
  | .member access sigil name =>
    [access.piece, (if sigil then .varName else .identifier, memberName sigil name)]
  | .call called => groupPieces .round called.inside
  | .dynamic access group _ => access.piece :: groupPieces .curly group.inside
  | .index place => groupPieces .square place.group.inside

theorem cuts_root (root : Root) (rest : Text) (ends : EndsName rest) :
    Cuts Context.start root.text root.pieces Context.start rest := by
  cases root with
  | var name => exact cuts_var false name rest ends
  | named name => exact cuts_class name rest ends

theorem cuts_access (access : Access) (rest : Text) :
    Cuts Context.start access.text [access.piece] ⟨false, true⟩ rest := by
  cases access with
  | arrow => exact cuts_arrow false rest
  | colons => exact cuts_colons false rest

theorem cuts_memberName (sigil : Bool) (name : Name) (rest : Text) (ends : EndsName rest) :
    Cuts ⟨false, true⟩ (memberName sigil name) [(if sigil then .varName else .identifier, memberName sigil name)]
      Context.start rest := by
  cases sigil with
  | false => exact cuts_name true name rest ends
  | true => exact cuts_var true name rest ends

theorem cuts_link (link : Link) (rest : Text) (ends : EndsName rest) :
    Cuts Context.start link.text link.pieces Context.start rest := by
  cases link with
  | member access sigil name => exact (cuts_access access _).append (cuts_memberName sigil name rest ends)
  | call called => exact cuts_between .round called.inside called.closed false rest
  | dynamic access group free =>
    exact (cuts_access access _).append (cuts_between .curly group.inside group.closed true rest)
  | index place => exact cuts_between .square place.group.inside place.group.closed false rest

theorem endsName_link (link : Link) (rest : Text) : EndsName (link.text ++ rest) := by
  cases link with
  | member access sigil name => cases access <;> rfl
  | call called => rfl
  | dynamic access group free => cases access <;> rfl
  | index place => rfl

theorem pieces_linked (linked : Linked) :
    AccessChain.pieces Context.start linked.text = linked.root.pieces ++ linked.links.flatMap Link.pieces := by
  obtain ⟨links, follows⟩ := cuts_flatMap Link.text Link.pieces linked.links (fun link _ => cuts_link link)
    (fun link _ => endsName_link link) [] rfl
  have whole := (cuts_root linked.root _ follows).append links
  unfold Cuts at whole
  rw [List.append_nil, pieces_nil, List.append_nil] at whole
  exact whole

theorem bare_group (bracket : Bracket) (inside : Text) : AccessChain.bare (groupPieces bracket inside) =
    enclosedBy bracket (Token.textWithoutComments (tokensBetween bracket inside)) := by
  rw [groupPieces, bare_cons _ _ rfl, bare_append, textWithoutComments_eq_bare]
  rfl

theorem bare_root (root : Root) : AccessChain.bare root.pieces = root.text := by
  cases root with
  | var name => exact (bare_cons _ [] rfl).trans (List.append_nil _)
  | named name => exact bare_class name

theorem Access.isComment_piece (access : Access) : access.piece.1.isComment = false := by
  cases access <;> rfl

theorem Access.piece_text (access : Access) : access.piece.2 = access.text := by
  cases access <;> rfl

theorem bare_link (link : Link) : AccessChain.bare link.pieces = link.bare := by
  cases link with
  | member access sigil name =>
    rw [Link.pieces, bare_cons _ _ access.isComment_piece, access.piece_text, Link.bare]
    cases sigil <;> simp [AccessChain.bare, TokenKind.isComment]
  | call called => exact bare_group .round called.inside
  | dynamic access group free =>
    rw [Link.pieces, bare_cons _ _ access.isComment_piece, access.piece_text, bare_group]
    rfl
  | index place => exact bare_group .square place.group.inside

theorem bare_linked (linked : Linked) : AccessChain.bare (AccessChain.pieces Context.start linked.text) = linked.bare := by
  rw [pieces_linked, bare_append, bare_root, bare_flatMap, Linked.bare]
  simp only [bare_link]

/-! Emptying. -/

theorem Root.isTrimmed (root : Root) : IsTrimmed root.text := by
  cases root with
  | var name =>
    have sign : IsTrimmed [.char '$'] := isTrimmed_of_unblank _ (List.cons_ne_nil _ _) (by decide)
    exact sign.append name.isTrimmed []
  | named name => exact name.isTrimmed

theorem isTrimmed_memberName (sigil : Bool) (name : Name) : IsTrimmed (memberName sigil name) := by
  cases sigil with
  | false => exact name.isTrimmed
  | true => exact (Root.var name).isTrimmed

theorem isTrimmed_closer (bracket : Bracket) : IsTrimmed [bracket.closer] := by
  apply isTrimmed_of_unblank _ (List.cons_ne_nil _ _)
  cases bracket <;> decide

theorem isTrimmed_behind (front : Text) (trimmed : IsTrimmed front) (link : Link) : IsTrimmed (front ++ link.bare) := by
  have closed : ∀ middle bracket inside, IsTrimmed (front ++ (middle ++ enclosedBy bracket inside)) := by
    intro middle bracket inside
    have whole := trimmed.append (isTrimmed_closer bracket) (middle ++ (bracket.opener :: inside))
    simpa [enclosedBy] using whole
  cases link with
  | member access sigil name =>
    rw [Link.bare, ← List.append_assoc]
    exact trimmed.append (isTrimmed_memberName sigil name) access.text
  | call called => exact closed [] .round called.bare
  | dynamic access group free => exact closed access.text .curly group.bare
  | index place => exact closed [] .square place.group.bare

theorem isTrimmed_links (front : Text) (trimmed : IsTrimmed front) (links : List Link) :
    IsTrimmed (front ++ links.flatMap Link.bare) := by
  induction links generalizing front with
  | nil => rwa [List.flatMap_nil, List.append_nil]
  | cons link links ih =>
    rw [List.flatMap_cons, ← List.append_assoc]
    exact ih _ (isTrimmed_behind front trimmed link)

theorem withoutComments_linked (linked : Linked) : Chain.withoutComments tokenize linked.text = linked.bare := by
  have trimmed := trim_of_isTrimmed [] linked.bare (by simp) (isTrimmed_links _ linked.root.isTrimmed linked.links)
  rw [withoutComments_eq, bare_linked]
  exact trimmed

theorem Root.no_bracket (root : Root) : ∀ mark ∈ Bracket.characters, .char mark ∉ root.text := by
  cases root with
  | var name =>
    intro mark listed member
    rcases List.mem_cons.mp member with sign | later
    · exact not_mem_ofChars _ ['$'] rfl mark listed (List.mem_singleton.mpr sign)
    · exact name.no_bracket mark listed later
  | named name => exact name.no_bracket

theorem memberName_no_bracket (sigil : Bool) (name : Name) :
    ∀ mark ∈ Bracket.characters, .char mark ∉ memberName sigil name := by
  cases sigil with
  | false => exact name.no_bracket
  | true => exact (Root.var name).no_bracket

theorem Access.no_bracket (access : Access) : ∀ mark ∈ Bracket.characters, .char mark ∉ access.text := by
  cases access <;> exact not_mem_ofChars _ _ rfl

theorem emptied_plain (text : Text) (plain : ∀ mark ∈ Bracket.characters, .char mark ∉ text) : Emptied text text := by
  apply Emptied.of_free
  have round : ∀ mark ∈ ['(', ')'], mark ∈ Bracket.characters := by decide
  exact fun mark listed => plain mark (round mark listed)

theorem emptied_enclosed (bracket : Bracket) (other : bracket ≠ .round) (inside shown : Text)
    (emptied : Emptied inside shown) : Emptied (enclosedBy bracket inside) (enclosedBy bracket shown) := by
  cases bracket with
  | round => contradiction
  | square => exact .plain _ _ _ (by decide) (emptied.append (.single _ (by decide)))
  | curly => exact .plain _ _ _ (by decide) (emptied.append (.single _ (by decide)))

theorem emptied_link (link : Link) : Emptied link.bare link.shown := by
  cases link with
  | member access sigil name =>
    exact (emptied_plain _ access.no_bracket).append (emptied_plain _ (memberName_no_bracket sigil name))
  | call called => exact .group _ [] [] called.nested .nil
  | dynamic access group free =>
    exact (emptied_plain _ access.no_bracket).append (emptied_enclosed .curly (by decide) _ _ (.of_free _ free))
  | index place => exact emptied_enclosed .square (by decide) _ _ (.of_nested _ place.nested)

theorem emptied_links (links : List Link) : Emptied (links.flatMap Link.bare) (links.flatMap Link.shown) := by
  induction links with
  | nil => exact .nil
  | cons link links ih => exact (emptied_link link).append ih

namespace Linked

/-- Whether there is a function signature in a chain, be it in the arguments of a call. -/
def isSigned (linked : Linked) : Bool := Chain.isSigned (Chain.withoutComments tokenize linked.text)

/-- The text that falls apart into the segments. -/
def visible (linked : Linked) : Text := if linked.isSigned then strip .curly linked.shown else linked.shown

theorem unwrapped (linked : Linked) : Chain.unwrapInstantiation linked.bare = linked.bare :=
  unwrapInstantiation_plain linked.root.text _ (by
    obtain ⟨symbol, found, _⟩ := linked.root.isTrimmed.first
    intro empty
    rw [empty] at found
    contradiction) (linked.root.no_bracket '(' (by decide))

theorem emptied_bare (linked : Linked) : Chain.emptied linked.bare = linked.visible := by
  have emptied : Emptied linked.bare linked.shown :=
    (emptied_plain _ linked.root.no_bracket).append (emptied_links linked.links)
  rw [visible, isSigned, withoutComments_linked, Chain.isSigned, Chain.emptied, linked.unwrapped]
  split
  · exact emptied.strip_curly.strip_eq
  · exact emptied.strip_eq

theorem visible_ne_nil (linked : Linked) : linked.visible ≠ [] := by
  obtain ⟨symbol, found, _⟩ := linked.root.isTrimmed.first
  obtain ⟨rest, root⟩ := List.head?_eq_some_iff.mp found
  have kept := strip_append .curly _ (linked.links.flatMap Link.shown)
    (Nested.of_not_mem [.curly] _ linked.root.no_bracket)
  rw [strip_plain .curly _ (Bracket.curly.opener_not_mem _ linked.root.no_bracket)] at kept
  rw [visible, shown, kept, root]
  split <;> simp

/-- The segments of a chain, of which a call's arguments decide nothing but whether the chain holds a signature. -/
theorem segments_text (linked : Linked) :
    Chain.segments tokenize linked.text = (Chain.pieces linked.visible).map (trim Sym.isBlank) := by
  have held : linked.visible.isEmpty = false := by simpa using linked.visible_ne_nil
  simp only [Chain.segments, withoutComments_linked, emptied_bare, held, Bool.false_eq_true, if_false]

end Linked
end Written
end AccessChain
