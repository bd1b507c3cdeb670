import AccessChain.Proofs.Nesting
import AccessChain.Proofs.TokenStream
import AccessChain.Chain.Segments
import Mathlib.Data.Bool.AllAny

/-! Well-formed chains as they are written: a variable, a static access or an instantiation in brackets, and
member accesses with or without a call behind it. What stands between the brackets of a call is any code in
which brackets are nested, so texts are given for any way to write the calls. -/
namespace AccessChain

namespace Text

/-- A text that starts and ends with something other than white space. -/
structure IsTrimmed (text : Text) : Prop where
  first : ∃ symbol, text.head? = some symbol ∧ symbol.isBlank = false
  last : ∃ symbol, text.getLast? = some symbol ∧ symbol.isBlank = false

theorem IsTrimmed.append {left right : Text} (starts : IsTrimmed left) (ends : IsTrimmed right) (middle : Text) :
    IsTrimmed (left ++ middle ++ right) where
  first := by
    obtain ⟨symbol, found, unblank⟩ := starts.first
    exact ⟨symbol, by rw [List.append_assoc, List.head?_append, found]; rfl, unblank⟩
  last := by
    obtain ⟨symbol, found, unblank⟩ := ends.last
    exact ⟨symbol, by rw [List.getLast?_append, found]; rfl, unblank⟩

theorem isTrimmed_of_unblank (text : Text) (held : text ≠ [])
    (unblank : ∀ symbol ∈ text, symbol.isBlank = false) : IsTrimmed text where
  first := ⟨text.head held, List.head?_eq_some_head held, unblank _ (List.head_mem held)⟩
  last := ⟨text.getLast held, List.getLast?_eq_some_getLast held, unblank _ (List.getLast_mem held)⟩

end Text

/-- A name as it is written in code. -/
structure CodeName where
  first : Sym
  rest : Text
  starts : Extent.isNameStart first = true
  goesOn : ∀ symbol ∈ rest, Extent.isNameChar symbol = true

namespace CodeName
variable (name : CodeName)

def text : Text := name.first :: name.rest

theorem isNameChar_of_mem (symbol : Sym) (member : symbol ∈ name.text) : Extent.isNameChar symbol = true := by
  rcases List.mem_cons.mp member with rfl | later
  · exact Bool.or_eq_true_iff.mpr (.inl name.starts)
  · exact name.goesOn symbol later

theorem not_mem_text (mark : Char) (other : Extent.isNameChar (.char mark) = false) : .char mark ∉ name.text :=
  fun member => Bool.false_ne_true (other.symm.trans (name.isNameChar_of_mem _ member))

end CodeName

namespace Written

/-- A name without white space, which some characters of names are. -/
structure Name extends CodeName where
  unblank : ∀ symbol ∈ first :: rest, symbol.isBlank = false

inductive ClassName where
  | static (word : Name) (reserved : Cut.keyword? word.text = some .staticKw)
  | qualified (rooted : Bool) (name : Name) (more : List Name)
      (free : ∀ part ∈ name :: more, Cut.keyword? part.text = none)

def ClassName.text : ClassName → Text
  | .static word _ => word.text
  | .qualified rooted name more _ =>
    (if rooted then [.char '\\'] else []) ++ name.text ++ more.flatMap fun part => .char '\\' :: part.text

def tokensInside (inside : Text) : List Token :=
  (tokenize (.char '(' :: (inside ++ [.char ')']))).tail.dropLast

structure Call where
  inside : Text
  closed : (tokenize (.char '(' :: (inside ++ [.char ')']))).getLast?.map Token.piece =
    some (.character, [.char ')'])
  nested : Nested Bracket.all (Token.textWithoutComments (tokensInside inside))

/-- What is left between the brackets without comments. -/
def Call.bare (call : Call) : Text := Token.textWithoutComments (tokensInside call.inside)

def Call.emptied (_ : Call) : Text := []

/-- A run of white space between words. -/
structure Gap where
  text : Text
  blank : ∀ symbol ∈ text, symbol.satisfies Text.isCodeBlank = true

structure Member where
  name : Name
  call : Option Call

inductive Base where
  | var (name : Name)
  | path (root : ClassName) (call : Option Call)
  | scope (root : ClassName) (constants : List Name) (last : Member)
  | creation (gap : Gap) (apart : gap.text ≠ []) (root : ClassName) (call : Option Call)

section Writing
variable (inside : Call → Text)

def callText : Option Call → Text
  | none => []
  | some call => .char '(' :: (inside call ++ [.char ')'])

def Member.text (member : Member) : Text := member.name.text ++ callText inside member.call

/-- The text of a base, an instantiation without the brackets around it. -/
def Base.unwrapped : Base → Text
  | .var name => .char '$' :: name.text
  | .path root call => root.text ++ callText inside call
  | .scope root constants last =>
    root.text ++ (constants.flatMap fun name => Text.ofChars [':', ':'] ++ name.text) ++
      (Text.ofChars [':', ':'] ++ last.text inside)
  | .creation gap _ root call => Text.ofChars ['n', 'e', 'w'] ++ gap.text ++ root.text ++ callText inside call

def Base.text : Base → Text
  | .creation gap apart root call =>
    .char '(' :: ((Base.creation gap apart root call).unwrapped inside ++ [.char ')'])
  | base => base.unwrapped inside

def membersText (members : List Member) : Text :=
  members.flatMap fun member => Text.ofChars ['-', '>'] ++ member.text inside

end Writing

def Base.segments : Base → List Text
  | .var name => [.char '$' :: name.text]
  | .path root call => [root.text ++ callText Call.emptied call]
  | .scope root constants last => root.text :: ((constants.map fun name => name.text) ++ [last.text Call.emptied])
  | .creation gap _ root call =>
    [Text.ofChars ['n', 'e', 'w'] ++ gap.text ++ root.text ++ callText Call.emptied call]

/-- Whether a double colon occurs outside all brackets. -/
def Base.isScoped : Base → Bool
  | .scope _ _ _ => true
  | _ => false

end Written

structure Written where
  base : Written.Base
  members : List Written.Member

namespace Written

def text (written : Written) : Text :=
  written.base.text Call.inside ++ membersText Call.inside written.members

def segments (written : Written) : List Text :=
  written.base.segments ++ written.members.map (Member.text Call.emptied)

theorem ClassName.not_mem_text (root : ClassName) (mark : Char) (other : Extent.isNameChar (.char mark) = false)
    (apart : mark ≠ '\\') : .char mark ∉ root.text := by
  intro member
  cases root with
  | static word reserved => exact word.not_mem_text mark other member
  | qualified rooted name more free =>
    rcases List.mem_append.mp member with front | later
    · rcases List.mem_append.mp front with separator | first
      · cases rooted with
        | false => contradiction
        | true => exact apart (Sym.char.inj (List.mem_singleton.mp separator))
      · exact name.not_mem_text mark other first
    · obtain ⟨part, _, inside⟩ := List.mem_flatMap.mp later
      rcases List.mem_cons.mp inside with separator | word
      · exact apart (Sym.char.inj separator)
      · exact part.not_mem_text mark other word

theorem isBlank_of_isCodeBlank (symbol : Sym) (blank : symbol.satisfies Text.isCodeBlank = true) :
    symbol.isBlank = true := by
  cases symbol with
  | stray byte high => contradiction
  | char value =>
    have each : ∀ blank ∈ [' ', '\t', '\r', '\n'], Sym.isBlank (.char blank) = true :=
      List.all_iff_forall_prop.mp (by decide)
    exact each value (List.contains_iff_mem.mp blank)

theorem not_isCodeBlank (symbol : Sym) (unblank : symbol.isBlank = false) :
    symbol.satisfies Text.isCodeBlank = false := by
  apply eq_false_of_ne_true
  intro blank
  rw [isBlank_of_isCodeBlank symbol blank] at unblank
  contradiction

theorem Gap.not_mem_text (gap : Gap) (mark : Char) (other : Text.isCodeBlank mark = false) :
    Sym.char mark ∉ gap.text := by
  intro member
  have blank : Text.isCodeBlank mark = true := gap.blank _ member
  rw [other] at blank
  contradiction

theorem Name.no_bracket (name : Name) : ∀ mark ∈ Bracket.characters, Sym.char mark ∉ name.text := by
  have plain : ∀ mark ∈ Bracket.characters, Extent.isNameChar (.char mark) = false :=
    List.all_iff_forall_prop.mp (by decide)
  exact fun mark listed => name.not_mem_text mark (plain mark listed)

theorem ClassName.no_bracket (root : ClassName) : ∀ mark ∈ Bracket.characters, Sym.char mark ∉ root.text := by
  have plain : ∀ mark ∈ Bracket.characters, Extent.isNameChar (.char mark) = false ∧ mark ≠ '\\' :=
    List.all_iff_forall_prop.mp (by decide)
  exact fun mark listed => root.not_mem_text mark (plain mark listed).1 (plain mark listed).2

theorem Gap.no_bracket (gap : Gap) : ∀ mark ∈ Bracket.characters, Sym.char mark ∉ gap.text := by
  have other : ∀ mark ∈ Bracket.characters, Text.isCodeBlank mark = false :=
    List.all_iff_forall_prop.mp (by decide)
  exact fun mark listed => gap.not_mem_text mark (other mark listed)

section Nesting
variable (inside : Call → Text) (nested : ∀ call, Nested Bracket.all (inside call))
include nested

theorem nested_call (call : Option Call) : Nested Bracket.all (callText inside call) := by
  cases call with
  | none => exact .nil
  | some call => exact Nested.enclose _ .round _ (Bracket.mem_all _) (nested call)

theorem nested_member (member : Member) : Nested Bracket.all (member.text inside) :=
  Nested.append _ _ _ (Nested.of_not_mem _ _ member.name.no_bracket) (nested_call inside nested member.call)

theorem nested_unwrapped (base : Base) : Nested Bracket.all (base.unwrapped inside) := by
  have rooted := fun root : ClassName => Nested.of_not_mem Bracket.all _ root.no_bracket
  cases base with
  | var name =>
    exact .plain _ _ (by intro bracket _; cases bracket <;> decide) (Nested.of_not_mem _ _ name.no_bracket)
  | path root call => exact Nested.append _ _ _ (rooted root) (nested_call inside nested call)
  | scope root constants last =>
    have colons : Nested Bracket.all (Text.ofChars [':', ':']) :=
      Nested.of_not_mem _ _ (Text.not_mem_ofChars _ _ rfl)
    have constant : ∀ name : Name, Nested Bracket.all (Text.ofChars [':', ':'] ++ name.text) :=
      fun name => Nested.append _ _ _ colons (Nested.of_not_mem _ _ name.no_bracket)
    have scopes := Nested.flatMap _ _ constants fun name _ => constant name
    exact Nested.append _ _ _ (Nested.append _ _ _ (rooted root) scopes)
      (Nested.append _ _ _ colons (nested_member inside nested last))
  | creation gap apart root call =>
    have word : Nested Bracket.all (Text.ofChars ['n', 'e', 'w']) :=
      Nested.of_not_mem _ _ (Text.not_mem_ofChars _ _ rfl)
    exact Nested.append _ _ _ (Nested.append _ _ _ (Nested.append _ _ _ word (Nested.of_not_mem _ _ gap.no_bracket)) (rooted root))
      (nested_call inside nested call)

end Nesting

/-! White space occurs neither first nor last. -/

theorem Name.isTrimmed (name : Name) : Text.IsTrimmed name.text :=
  Text.isTrimmed_of_unblank name.text (List.cons_ne_nil _ _) name.unblank

theorem ClassName.isTrimmed (root : ClassName) : Text.IsTrimmed root.text := by
  cases root with
  | static word reserved => exact word.isTrimmed
  | qualified rooted name more free =>
    apply Text.isTrimmed_of_unblank
    · simp [ClassName.text, CodeName.text]
    · intro symbol member
      rcases List.mem_append.mp member with front | later
      · rcases List.mem_append.mp front with separator | first
        · cases rooted with
          | false => contradiction
          | true =>
            rw [List.mem_singleton.mp separator]
            decide
        · exact name.unblank symbol first
      · obtain ⟨part, _, inside⟩ := List.mem_flatMap.mp later
        rcases List.mem_cons.mp inside with rfl | word
        · decide
        · exact part.unblank symbol word

section Trimmed
variable (inside : Call → Text)

theorem isTrimmed_call (front : Text) (trimmed : Text.IsTrimmed front) (call : Option Call) :
    Text.IsTrimmed (front ++ callText inside call) := by
  cases call with
  | none =>
    rw [callText, List.append_nil]
    exact trimmed
  | some call =>
    have closing : Text.IsTrimmed [.char ')'] := Text.isTrimmed_of_unblank _ (List.cons_ne_nil _ _) (by decide)
    have parted : front ++ callText inside (some call) = front ++ (.char '(' :: inside call) ++ [.char ')'] := by
      simp [callText]
    rw [parted]
    exact trimmed.append closing _

theorem Member.isTrimmed (member : Member) : Text.IsTrimmed (member.text inside) :=
  isTrimmed_call inside _ member.name.isTrimmed member.call

theorem Base.isTrimmed_unwrapped (base : Base) : Text.IsTrimmed (base.unwrapped inside) := by
  cases base with
  | var name =>
    have sign : Text.IsTrimmed [.char '$'] := Text.isTrimmed_of_unblank _ (List.cons_ne_nil _ _) (by decide)
    exact sign.append name.isTrimmed []
  | path root call => exact isTrimmed_call inside _ root.isTrimmed call
  | scope root constants last =>
    have final := root.isTrimmed.append (last.isTrimmed inside)
      ((constants.flatMap fun name => Text.ofChars [':', ':'] ++ name.text) ++ Text.ofChars [':', ':'])
    rw [Base.unwrapped]
    simpa only [List.append_assoc] using final
  | creation gap apart root call =>
    have word : Text.IsTrimmed (Text.ofChars ['n', 'e', 'w']) := Text.isTrimmed_of_unblank _ (List.cons_ne_nil _ _) (by decide)
    exact isTrimmed_call inside _ (word.append root.isTrimmed gap.text) call

theorem Base.isTrimmed (base : Base) : Text.IsTrimmed (base.text inside) := by
  have plain := base.isTrimmed_unwrapped inside
  cases base with
  | creation gap apart root call =>
    have opening : Text.IsTrimmed [.char '('] := Text.isTrimmed_of_unblank _ (List.cons_ne_nil _ _) (by decide)
    have closing : Text.IsTrimmed [.char ')'] := Text.isTrimmed_of_unblank _ (List.cons_ne_nil _ _) (by decide)
    exact opening.append closing _
  | var name => exact plain
  | path root call => exact plain
  | scope root constants last => exact plain

theorem isTrimmed_members (front : Text) (trimmed : Text.IsTrimmed front) (members : List Member) :
    Text.IsTrimmed (front ++ membersText inside members) := by
  induction members generalizing front with
  | nil =>
    rw [membersText, List.flatMap_nil, List.append_nil]
    exact trimmed
  | cons member members ih =>
    have next := trimmed.append (member.isTrimmed inside) (Text.ofChars ['-', '>'])
    have whole := ih _ next
    rw [membersText, List.flatMap_cons, ← List.append_assoc, ← List.append_assoc]
    exact whole

end Trimmed

theorem isTrimmed (written : Written) : Text.IsTrimmed written.text :=
  isTrimmed_members Call.inside _ (written.base.isTrimmed Call.inside) written.members

end Written
end AccessChain
