import AccessChain.Proofs.Cutting
import AccessChain.Proofs.Lookahead
import AccessChain.Proofs.Written

/-! The tokens of a well-formed chain. Each part is cut off with what really follows it in view, and parts that
follow each other are put together. -/
namespace AccessChain

namespace Text

theorem startsWith_cons_ne (character : Char) (characters : List Char) (first : Sym) (rest : Text)
    (other : first ≠ .char character) : startsWith (character :: characters) (first :: rest) = false := by
  have different : (Sym.char character == first) = false := beq_false_of_ne other.symm
  simp [startsWith, ofChars, List.isPrefixOf, different]

/-- Whether a name that stands in front of a text ends there. -/
def EndsName (text : Text) : Prop := text.head?.any Extent.isNameChar = false

end Text

namespace Extent

theorem ne_of_isNameStart (symbol : Sym) (starts : isNameStart symbol = true) (character : Char)
    (other : isNameStart (.char character) = false) : symbol ≠ .char character := by
  rintro rfl
  rw [other] at starts
  contradiction

end Extent

open Written Text

theorem ofCode_name (afterAccess : Bool) (name : Name) (rest : Text) (ends : EndsName rest) :
    Cut.ofCode afterAccess name.first (name.rest ++ rest) =
      ⟨Cut.nameKind afterAccess name.text, 1 + name.rest.length, by omega⟩ := by
  have blank := not_isCodeBlank name.first (name.unblank _ List.mem_cons_self)
  have quote := Extent.not_isQuote_of_accepted Extent.isNameStart (by decide) name.first name.starts
  have other := Extent.ne_of_isNameStart name.first name.starts
  have starts := fun character characters plain =>
    startsWith_cons_ne character characters name.first (name.rest ++ rest) (other character plain)
  have size : Extent.name (name.rest ++ rest) = name.rest.length :=
    countWhile_of_head Extent.isNameChar name.rest rest name.goesOn ends
  simp only [Cut.ofCode, blank, quote, starts '<' _ (by decide), starts '?' _ (by decide), starts '/' _ (by decide),
    other '#' (by decide), other '$' (by decide), name.starts, size, List.take_left', CodeName.text]
  simp

/-- A text is cut into some pieces in front of the text that follows it. -/
def Cuts (context : Context) (text : Text) (cut : List (TokenKind × Text)) (next : Context) (rest : Text) : Prop :=
  pieces context (text ++ rest) = cut ++ pieces next rest

theorem Cuts.append {context middle next : Context} {left right rest : Text} {before after : List (TokenKind × Text)}
    (first : Cuts context left before middle (right ++ rest)) (second : Cuts middle right after next rest) :
    Cuts context (left ++ right) (before ++ after) next rest := by
  unfold Cuts at first second ⊢
  rw [List.append_assoc, first, second, List.append_assoc]

theorem cuts_flatMap {Part : Type} (text : Part → Text) (cut : Part → List (TokenKind × Text)) (parts : List Part)
    (each : ∀ part ∈ parts, ∀ rest, EndsName rest → Cuts Context.start (text part) (cut part) Context.start rest)
    (headed : ∀ part ∈ parts, ∀ rest, EndsName (text part ++ rest)) (rest : Text) (ends : EndsName rest) :
    Cuts Context.start (parts.flatMap text) (parts.flatMap cut) Context.start rest ∧
      EndsName (parts.flatMap text ++ rest) := by
  induction parts with
  | nil => exact ⟨rfl, ends⟩
  | cons part parts ih =>
    obtain ⟨later, follows⟩ := ih (fun part member => each part (List.mem_cons_of_mem _ member))
      (fun part member => headed part (List.mem_cons_of_mem _ member))
    rw [List.flatMap_cons, List.flatMap_cons, List.append_assoc]
    exact ⟨(each part List.mem_cons_self _ follows).append later, headed part List.mem_cons_self _⟩

theorem cuts_nil (context : Context) (rest : Text) : Cuts context [] [] context rest := rfl

theorem cuts_name (afterAccess : Bool) (name : Name) (rest : Text) (ends : EndsName rest) :
    Cuts ⟨false, afterAccess⟩ name.text [(Cut.nameKind afterAccess name.text, name.text)] Context.start rest := by
  have cut : Cut.ofText ⟨false, afterAccess⟩ name.first (name.rest ++ rest) =
      ⟨Cut.nameKind afterAccess name.text, 1 + name.rest.length, by omega⟩ := ofCode_name afterAccess name rest ends
  have after : Context.after ⟨false, afterAccess⟩ (Cut.nameKind afterAccess name.text) = Context.start := by
    rcases Cut.nameKind_cases afterAccess name.text with kind | ⟨keyword, kind⟩ <;> rw [kind] <;> rfl
  unfold Cuts
  rw [CodeName.text, List.cons_append, pieces_cons, cut, after]
  simp [CodeName.text, Nat.add_comm 1]

theorem cuts_var (afterAccess : Bool) (name : Name) (rest : Text) (ends : EndsName rest) :
    Cuts ⟨false, afterAccess⟩ (.char '$' :: name.text) [(.varName, .char '$' :: name.text)] Context.start rest := by
  have size : Extent.name (name.text ++ rest) = name.text.length := by
    exact countWhile_of_head Extent.isNameChar name.text rest name.isNameChar_of_mem ends
  have cut : Cut.ofText ⟨false, afterAccess⟩ (.char '$') (name.text ++ rest) =
      ⟨.varName, 1 + name.text.length, by omega⟩ := by
    have starts : (name.text ++ rest).head?.any Extent.isNameStart = true := name.starts
    simp only [Cut.ofText, Cut.ofCode, starts, size]
    rfl
  unfold Cuts
  rw [List.cons_append, pieces_cons, cut]
  simp [Nat.add_comm 1]
  rfl

theorem cuts_gap (afterAccess : Bool) (gap : Gap) (apart : gap.text ≠ []) (rest : Text)
    (ends : rest.head?.any (·.satisfies isCodeBlank) = false) :
    Cuts ⟨false, afterAccess⟩ gap.text [(.whitespace, gap.text)] ⟨false, afterAccess⟩ rest := by
  obtain ⟨first, others, text⟩ := List.exists_cons_of_ne_nil apart
  have blanks := gap.blank
  rw [text] at blanks ⊢
  have blank := blanks first List.mem_cons_self
  have size : Extent.blanks (others ++ rest) = others.length :=
    countWhile_of_head _ others rest (fun symbol member => blanks symbol (List.mem_cons_of_mem first member)) ends
  have cut : Cut.ofText ⟨false, afterAccess⟩ first (others ++ rest) = ⟨.whitespace, 1 + others.length, by omega⟩ := by
    simp [Cut.ofText, Cut.ofCode, blank, size]
  unfold Cuts
  rw [List.cons_append, pieces_cons, cut]
  simp [Nat.add_comm 1]
  rfl

theorem cuts_opener (bracket : Bracket) (afterAccess : Bool) (rest : Text) :
    Cuts ⟨false, afterAccess⟩ [bracket.opener] [(.character, [bracket.opener])] Context.start rest := by
  cases bracket <;> exact pieces_cons _ _ _

theorem cuts_closing (afterAccess : Bool) (rest : Text) :
    Cuts ⟨false, afterAccess⟩ [.char ')'] [(.character, [.char ')'])] Context.start rest :=
  pieces_cons _ _ _

theorem cuts_separator (afterAccess : Bool) (rest : Text) :
    Cuts ⟨false, afterAccess⟩ [.char '\\'] [(.namespaceSeparator, [.char '\\'])] Context.start rest :=
  pieces_cons _ _ _

theorem cuts_arrow (afterAccess : Bool) (rest : Text) :
    Cuts ⟨false, afterAccess⟩ (ofChars ['-', '>']) [(.objectOperator, ofChars ['-', '>'])] ⟨false, true⟩ rest :=
  pieces_cons _ _ _

theorem cuts_colons (afterAccess : Bool) (rest : Text) :
    Cuts ⟨false, afterAccess⟩ (ofChars [':', ':']) [(.doubleColon, ofChars [':', ':'])] ⟨false, true⟩ rest :=
  pieces_cons _ _ _

namespace Written

def ClassName.pieces : ClassName → List (TokenKind × Text)
  | .static word _ => [(.keyword .staticKw, word.text)]
  | .qualified rooted name more _ =>
    (if rooted then [(.namespaceSeparator, [.char '\\'])] else []) ++ [(.identifier, name.text)] ++
      more.flatMap fun part => [(.namespaceSeparator, [.char '\\']), (.identifier, part.text)]

def Call.inner (call : Call) : List (TokenKind × Text) := (tokensInside call.inside).map Token.piece

def bracketed (inner : List (TokenKind × Text)) : List (TokenKind × Text) :=
  (.character, [.char '(']) :: (inner ++ [(.character, [.char ')'])])

def callPieces : Option Call → List (TokenKind × Text)
  | none => []
  | some call => bracketed call.inner

def Member.pieces (member : Member) : List (TokenKind × Text) :=
  (.identifier, member.name.text) :: callPieces member.call

def constantPieces (constants : List Name) : List (TokenKind × Text) :=
  constants.flatMap fun name => [(.doubleColon, ofChars [':', ':']), (.identifier, name.text)]

/-- The pieces of a base, an instantiation without the brackets around it. -/
def Base.innerPieces : Base → List (TokenKind × Text)
  | .var name => [(.varName, .char '$' :: name.text)]
  | .path root call => root.pieces ++ callPieces call
  | .scope root constants last =>
    root.pieces ++ constantPieces constants ++ ((.doubleColon, ofChars [':', ':']) :: last.pieces)
  | .creation gap _ root call =>
    [(.keyword .newKw, ofChars ['n', 'e', 'w'])] ++ [(.whitespace, gap.text)] ++ root.pieces ++ callPieces call

def Base.pieces : Base → List (TokenKind × Text)
  | .creation gap apart root call => bracketed (Base.creation gap apart root call).innerPieces
  | base => base.innerPieces

def memberPieces (members : List Member) : List (TokenKind × Text) :=
  members.flatMap fun member => (.objectOperator, ofChars ['-', '>']) :: member.pieces

/-- The tokens between two brackets of one kind. -/
def tokensBetween (bracket : Bracket) (inside : Text) : List Token :=
  (tokenize (bracket.opener :: (inside ++ [bracket.closer]))).tail.dropLast

theorem endsName_call (call : Option Call) (rest : Text) (ends : EndsName rest) :
    EndsName (callText Call.inside call ++ rest) := by
  cases call with
  | none => exact ends
  | some call => rfl

/-- Code that is lexed to complete tokens in front of a closing bracket is lexed so whatever follows the bracket. -/
theorem cuts_between (bracket : Bracket) (inside : Text)
    (closed : (tokenize (bracket.opener :: (inside ++ [bracket.closer]))).getLast?.map Token.piece =
      some (.character, [bracket.closer])) (afterAccess : Bool) (rest : Text) :
    Cuts ⟨false, afterAccess⟩ (bracket.opener :: (inside ++ [bracket.closer]))
      ((.character, [bracket.opener]) :: ((tokensBetween bracket inside).map Token.piece ++
        [(.character, [bracket.closer])])) Context.start rest := by
  have whole : (tokenize (bracket.opener :: (inside ++ [bracket.closer]))).map Token.piece =
      (.character, [bracket.opener]) :: AccessChain.pieces Context.start (inside ++ [bracket.closer]) :=
    cuts_opener bracket false (inside ++ [bracket.closer])
  have held : AccessChain.pieces Context.start (inside ++ [bracket.closer]) ≠ [] := by
    intro empty
    have texts := flatMap_pieces Context.start (inside ++ [bracket.closer])
    rw [empty] at texts
    exact List.append_ne_nil_of_right_ne_nil _ (by simp) texts.symm
  have inner : (tokensBetween bracket inside).map Token.piece =
      (AccessChain.pieces Context.start (inside ++ [bracket.closer])).dropLast := by
    rw [tokensBetween, List.map_dropLast, List.map_tail, whole]
    rfl
  rw [← List.getLast?_map, whole, List.getLast?_cons, List.getLast?_eq_some_getLast held] at closed
  have last : (AccessChain.pieces Context.start (inside ++ [bracket.closer])).getLast held =
      (.character, [bracket.closer]) := Option.some.inj closed
  have parted := (List.dropLast_concat_getLast held).symm
  rw [← inner, last] at parted
  have followed : Cuts Context.start (inside ++ [bracket.closer])
      ((tokensBetween bracket inside).map Token.piece ++ [(.character, [bracket.closer])]) Context.start rest := by
    unfold Cuts
    rw [List.append_assoc, List.append_assoc]
    cases bracket with
    | round => exact pieces_before_bracket ')' (by decide) Context.start inside rest _ parted
    | square => exact pieces_before_bracket ']' (by decide) Context.start inside rest _ parted
    | curly => exact pieces_before_bracket '}' (by decide) Context.start inside rest _ parted
  exact (cuts_opener bracket afterAccess _).append followed

theorem cuts_call (afterAccess : Bool) (call : Call) (rest : Text) :
    Cuts ⟨false, afterAccess⟩ (callText Call.inside (some call)) (callPieces (some call)) Context.start rest :=
  cuts_between .round call.inside call.closed afterAccess rest

theorem cuts_optional (call : Option Call) (rest : Text) :
    Cuts Context.start (callText Call.inside call) (callPieces call) Context.start rest := by
  cases call with
  | none => exact cuts_nil Context.start rest
  | some call => exact cuts_call false call rest

theorem cuts_identifier (name : Name) (free : Cut.keyword? name.text = none) (rest : Text) (ends : EndsName rest) :
    Cuts Context.start name.text [(.identifier, name.text)] Context.start rest := by
  have kind : Cut.nameKind false name.text = .identifier := by simp [Cut.nameKind, free]
  have cut := cuts_name false name rest ends
  rw [kind] at cut
  exact cut

theorem cuts_class (root : ClassName) (rest : Text) (ends : EndsName rest) :
    Cuts Context.start root.text root.pieces Context.start rest := by
  cases root with
  | static word reserved =>
    have kind : Cut.nameKind false word.text = .keyword .staticKw := by simp [Cut.nameKind, reserved]
    have cut := cuts_name false word rest ends
    rw [kind] at cut
    exact cut
  | qualified rooted name more free =>
    obtain ⟨further, follows⟩ := cuts_flatMap (fun part : Name => .char '\\' :: part.text)
      (fun part => [(.namespaceSeparator, [.char '\\']), (.identifier, part.text)]) more
      (fun part member rest ends => (cuts_separator false _).append
        (cuts_identifier part (free part (List.mem_cons_of_mem name member)) rest ends))
      (fun _ _ _ => rfl) rest ends
    have named := cuts_identifier name (free name List.mem_cons_self) _ follows
    cases rooted with
    | false => exact named.append further
    | true => exact ((cuts_separator false _).append named).append further

/-- Behind an access operator any name is an identifier. -/
theorem cuts_member (member : Member) (rest : Text) (ends : EndsName rest) :
    Cuts ⟨false, true⟩ (member.text Call.inside) member.pieces Context.start rest :=
  (cuts_name true member.name _ (endsName_call member.call rest ends)).append (cuts_optional member.call rest)

theorem cuts_constants (constants : List Name) (rest : Text) (ends : EndsName rest) :
    Cuts Context.start (constants.flatMap fun name => ofChars [':', ':'] ++ name.text) (constantPieces constants)
        Context.start rest ∧
      EndsName ((constants.flatMap fun name => ofChars [':', ':'] ++ name.text) ++ rest) :=
  cuts_flatMap _ _ constants
    (fun name _ rest ends => (cuts_colons false _).append (cuts_name true name rest ends)) (fun _ _ _ => rfl) rest ends

theorem cuts_members (members : List Member) (rest : Text) (ends : EndsName rest) :
    Cuts Context.start (membersText Call.inside members) (memberPieces members) Context.start rest ∧
      EndsName (membersText Call.inside members ++ rest) :=
  cuts_flatMap _ _ members
    (fun member _ rest ends => (cuts_arrow false _).append (cuts_member member rest ends)) (fun _ _ _ => rfl) rest ends

def newWord : Name where
  first := .char 'n'
  rest := ofChars ['e', 'w']
  starts := by decide
  goesOn := by decide
  unblank := by decide

theorem not_isNameChar_of_isCodeBlank (symbol : Sym) (blank : symbol.satisfies isCodeBlank = true) :
    Extent.isNameChar symbol = false := by
  cases symbol with
  | stray byte high => contradiction
  | char value =>
    have apart : ∀ blank ∈ [' ', '\t', '\r', '\n'], Extent.isNameChar (.char blank) = false :=
      List.all_iff_forall_prop.mp (by decide)
    exact apart value (List.contains_iff_mem.mp blank)

theorem cuts_innerBase (base : Base) (rest : Text) (ends : EndsName rest) :
    Cuts Context.start (base.unwrapped Call.inside) base.innerPieces Context.start rest := by
  cases base with
  | var name => exact cuts_var false name rest ends
  | path root call => exact (cuts_class root _ (endsName_call call rest ends)).append (cuts_optional call rest)
  | scope root constants last =>
    obtain ⟨scopes, follows⟩ := cuts_constants constants (ofChars [':', ':'] ++ last.text Call.inside ++ rest) rfl
    have final := (cuts_colons false _).append (cuts_member last rest ends)
    have rooted := cuts_class root _ follows
    exact (rooted.append scopes).append final
  | creation gap apart root call =>
    have called := cuts_optional call rest
    have rooted := cuts_class root _ (endsName_call call rest ends)
    obtain ⟨head, found, unblank⟩ := root.isTrimmed.first
    have spaced := cuts_gap false gap apart (root.text ++ (callText Call.inside call ++ rest))
      (by rw [List.head?_append, found]; exact not_isCodeBlank head unblank)
    obtain ⟨first, others, text⟩ := List.exists_cons_of_ne_nil apart
    have ended : EndsName (gap.text ++ (root.text ++ (callText Call.inside call ++ rest))) := by
      have blank := gap.blank first (by rw [text]; exact List.mem_cons_self)
      rw [text]
      exact not_isNameChar_of_isCodeBlank first blank
    exact (((cuts_name false newWord _ ended).append spaced).append rooted).append called

theorem cuts_base (base : Base) (rest : Text) (ends : EndsName rest) :
    Cuts Context.start (base.text Call.inside) base.pieces Context.start rest := by
  have plain := cuts_innerBase base rest ends
  cases base with
  | creation gap apart root call =>
    have inner := cuts_innerBase (.creation gap apart root call) (.char ')' :: rest) rfl
    exact (cuts_opener .round false _).append (inner.append (cuts_closing false rest))
  | var name => exact plain
  | path root call => exact plain
  | scope root constants last => exact plain

end Written

namespace Written

def pieces (written : Written) : List (TokenKind × Text) := written.base.pieces ++ memberPieces written.members

theorem cuts_text (written : Written) : Cuts Context.start written.text written.pieces Context.start [] := by
  obtain ⟨members, follows⟩ := cuts_members written.members [] rfl
  exact (cuts_base written.base _ follows).append members

theorem pieces_text (written : Written) : AccessChain.pieces Context.start written.text = written.pieces := by
  have cuts := written.cuts_text
  unfold Cuts at cuts
  rw [List.append_nil, pieces_nil, List.append_nil] at cuts
  exact cuts

/-! Texts without comments. -/

theorem bare_flatMap {Part : Type} (parts : List Part) (cut : Part → List (TokenKind × Text)) :
    bare (parts.flatMap cut) = parts.flatMap fun part => bare (cut part) := by
  simp [bare, List.filter_flatMap, List.flatMap_assoc]

theorem bare_bracketed (inner : List (TokenKind × Text)) :
    bare (bracketed inner) = .char '(' :: (bare inner ++ [.char ')']) := by
  rw [bracketed, bare_cons _ _ rfl, bare_append]
  rfl

theorem bare_call (call : Option Call) : bare (callPieces call) = callText Call.bare call := by
  cases call with
  | none => rfl
  | some call =>
    rw [callPieces, bare_bracketed, callText, Call.bare, textWithoutComments_eq_bare]
    rfl

theorem bare_class (root : ClassName) : bare root.pieces = root.text := by
  cases root with
  | static word reserved =>
    rw [ClassName.pieces, bare_cons _ _ rfl]
    simp [ClassName.text]
  | qualified rooted name more free =>
    have parts : bare (more.flatMap fun part => [(.namespaceSeparator, [.char '\\']), (.identifier, part.text)]) =
        more.flatMap fun part => .char '\\' :: part.text := by
      rw [bare_flatMap]
      simp [bare, TokenKind.isComment]
    rw [ClassName.pieces, ClassName.text, bare_append, bare_append, parts]
    cases rooted <;> simp [bare, TokenKind.isComment]

theorem bare_member (member : Member) : bare member.pieces = member.text Call.bare := by
  rw [Member.pieces, bare_cons _ _ rfl, bare_call, Member.text]

theorem bare_members (members : List Member) : bare (memberPieces members) = membersText Call.bare members := by
  rw [memberPieces, membersText, bare_flatMap]
  congr 1
  funext member
  rw [bare_cons _ _ rfl, bare_member]

theorem bare_innerBase (base : Base) : bare base.innerPieces = base.unwrapped Call.bare := by
  cases base with
  | var name => simp [Base.innerPieces, Base.unwrapped, bare, TokenKind.isComment]
  | path root call => rw [Base.innerPieces, bare_append, bare_class, bare_call, Base.unwrapped]
  | scope root constants last =>
    have scopes : bare (constantPieces constants) = constants.flatMap fun name => ofChars [':', ':'] ++ name.text := by
      rw [constantPieces, bare_flatMap]
      simp [bare, TokenKind.isComment]
    rw [Base.innerPieces, bare_append, bare_append, bare_class, scopes, bare_cons _ _ rfl, bare_member, Base.unwrapped]
  | creation gap apart root call =>
    rw [Base.innerPieces, bare_append, bare_append, bare_append, bare_class, bare_call, Base.unwrapped]
    simp [bare, TokenKind.isComment]

theorem bare_base (base : Base) : bare base.pieces = base.text Call.bare := by
  have inner := bare_innerBase base
  cases base with
  | creation gap apart root call => rw [Base.pieces, bare_bracketed, inner, Base.text]
  | var name => exact inner
  | path root call => exact inner
  | scope root constants last => exact inner

theorem bare_pieces (written : Written) :
    bare written.pieces = written.base.text Call.bare ++ membersText Call.bare written.members := by
  rw [pieces, bare_append, bare_base, bare_members]

end Written
end AccessChain
