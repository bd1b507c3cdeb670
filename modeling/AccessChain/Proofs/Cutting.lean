import AccessChain.Proofs.TokenStream

/-! What the kind of a cut says about the text that is cut off. -/
namespace AccessChain

namespace Text

theorem startsWith_iff (characters : List Char) (text : Text) :
    startsWith characters text = true ↔ ∃ rest, text = ofChars characters ++ rest := by
  unfold startsWith
  rw [List.isPrefixOf_iff_prefix]
  constructor
  · rintro ⟨rest, same⟩
    exact ⟨rest, same.symm⟩
  · rintro ⟨rest, same⟩
    exact ⟨rest, same.symm⟩

/-- What stands behind the longest part at the front of a text that is in a class. -/
theorem dropWhile_cases (test : Sym → Bool) (text : Text) :
    text.dropWhile test = [] ∨ ∃ symbol rest, text.dropWhile test = symbol :: rest ∧ test symbol = false := by
  cases behind : text.dropWhile test with
  | nil => exact .inl rfl
  | cons symbol rest =>
    have held : text.dropWhile test ≠ [] := by simp [behind]
    have rejected := List.head_dropWhile_not test held
    exact .inr ⟨symbol, rest, rfl, by simpa [behind] using rejected⟩

end Text

namespace Extent

theorem exists_of_isQuote (quote : Sym) (quoted : isQuote quote = true) :
    ∃ value ∈ ['\'', '"', '`'], quote = .char value := by
  cases quote with
  | stray byte high => contradiction
  | char value => exact ⟨value, List.contains_iff_mem.mp quoted, rfl⟩

theorem not_isQuote_of_ne (symbol : Sym) (other : ∀ value ∈ ['\'', '"', '`'], symbol ≠ .char value) :
    isQuote symbol = false := by
  apply eq_false_of_ne_true
  intro quote
  obtain ⟨value, listed, same⟩ := exists_of_isQuote symbol quote
  exact other value listed same

theorem not_isQuote_of_accepted (test : Sym → Bool) (noQuote : ∀ value ∈ ['\'', '"', '`'], test (.char value) = false)
    (symbol : Sym) (accepted : test symbol = true) : isQuote symbol = false := by
  apply not_isQuote_of_ne
  rintro value listed rfl
  exact Bool.false_ne_true ((noQuote value listed).symm.trans accepted)

end Extent

namespace Cut

theorem nameKind_cases (afterAccess : Bool) (word : Text) :
    nameKind afterAccess word = .identifier ∨ ∃ keyword, nameKind afterAccess word = .keyword keyword := by
  unfold nameKind
  split
  · exact Or.inl rfl
  · cases keyword? word with
    | none => exact Or.inl rfl
    | some keyword => exact Or.inr ⟨keyword, rfl⟩

theorem openingTag_kind (text : Text) :
    (openingTag text).kind = .openTag ∨ (openingTag text).kind = .openTagWithEcho := by
  unfold openingTag
  split
  · exact Or.inr rfl
  · split <;> exact Or.inl rfl

theorem mem_of_mapM_lowered? (text : Text) (word : List Char) (lowered : text.mapM lowered? = some word)
    (symbol : Sym) (member : symbol ∈ text) : ∃ character ∈ word, lowered? symbol = some character := by
  induction text generalizing word with
  | nil => contradiction
  | cons first text ih =>
    rw [List.mapM_cons] at lowered
    obtain ⟨character, here, rest⟩ := Option.bind_eq_some_iff.mp lowered
    obtain ⟨characters, later, same⟩ := Option.bind_eq_some_iff.mp rest
    obtain rfl := Option.some.inj same
    rcases List.mem_cons.mp member with rfl | inside
    · exact ⟨character, List.mem_cons_self, here⟩
    · obtain ⟨found, listed, equal⟩ := ih characters later inside
      exact ⟨found, List.mem_cons_of_mem character listed, equal⟩

/-- An opening tag holds signs, or letters in either case. -/
theorem mem_openingTag (text : Text) (opens : Text.startsWith ['<', '?'] text = true) (symbol : Sym)
    (member : symbol ∈ text.take (openingTag text).size) :
    symbol ∈ Text.ofChars ['<', '?', '='] ∨ ∃ character ∈ ['<', '?', 'p', 'h', 'p'], lowered? symbol = some character := by
  revert member
  unfold openingTag
  split
  · next echo =>
    obtain ⟨more, rfl⟩ := (Text.startsWith_iff _ _).mp echo
    exact Or.inl
  split
  · next lowered => exact fun member => .inr (mem_of_mapM_lowered? _ _ lowered symbol member)
  · obtain ⟨more, rfl⟩ := (Text.startsWith_iff _ _).mp opens
    intro member
    have signs : symbol ∈ Text.ofChars ['<', '?'] := member
    exact .inl (List.mem_append_left (Text.ofChars ['=']) signs)

theorem not_mem_openingTag (text : Text) (opens : Text.startsWith ['<', '?'] text = true) (mark : Char)
    (other : mark ∉ ['<', '?', '='] ∧ ∀ character ∈ ['<', '?', 'p', 'h', 'p'], lowered? (.char mark) ≠ some character) :
    .char mark ∉ text.take (openingTag text).size := by
  intro member
  rcases mem_openingTag text opens _ member with sign | ⟨character, letter, same⟩
  · obtain ⟨character, listed, same⟩ := List.mem_map.mp sign
    exact other.1 (Sym.char.inj same ▸ listed)
  · exact other.2 character letter same

/-- What is cut off as an operator is the text of a row of the table, or a single symbol. -/
theorem take_operator (first : Sym) (rest : Text) :
    (∃ row ∈ operators, (operator first rest).kind = row.2.2 ∧
      (first :: rest).take (operator first rest).size = Text.ofChars (row.1 :: row.2.1)) ∨
    ((operator first rest).kind = .character ∧ (first :: rest).take (operator first rest).size = [first]) := by
  unfold operator
  split
  · next row found =>
    have matched := List.find?_some found
    obtain ⟨sign, starts⟩ := Bool.and_eq_true_iff.mp matched
    obtain ⟨more, rfl⟩ := (Text.startsWith_iff _ _).mp starts
    obtain rfl := eq_of_beq sign
    exact .inl ⟨row, List.mem_of_find?_eq_some found, rfl, by simp [Text.ofChars, Nat.add_comm 1]⟩
  · exact .inr ⟨rfl, rfl⟩

theorem operator_doubleColon (first : Sym) (rest : Text) (kind : (operator first rest).kind = .doubleColon) :
    (first :: rest).take (operator first rest).size = Text.ofChars [':', ':'] := by
  have colons : ∀ row ∈ operators, row.2.2 = .doubleColon → row.1 :: row.2.1 = [':', ':'] := by decide
  rcases take_operator first rest with ⟨row, listed, same, taken⟩ | ⟨same, _⟩
  · rw [taken, colons row listed (same.symm.trans kind)]
  · exact absurd (same.symm.trans kind) (by decide)

/-- A double colon is cut off as an operator only, and then it is the text of two colons. -/
theorem take_of_doubleColon (context : Context) (first : Sym) (rest : Text)
    (kind : (ofText context first rest).kind = .doubleColon) :
    (first :: rest).take (ofText context first rest).size = Text.ofChars [':', ':'] := by
  revert kind
  unfold ofText
  split
  · intro kind
    contradiction
  fun_cases ofCode context.afterAccess first rest with
  | case2 blank tag =>
    intro kind
    rcases openingTag_kind (first :: rest) with other | other <;> simp [other] at kind
  | case9 _ _ _ _ _ _ _ _ name size =>
    intro kind
    rcases nameKind_cases context.afterAccess (first :: rest.take size) with other | ⟨word, other⟩ <;>
      simp [other] at kind
  | case12 => exact operator_doubleColon first rest
  | _ =>
    intro kind
    contradiction

end Cut

theorem text_of_doubleColon (context : Context) (text : Text) (piece : TokenKind × Text)
    (member : piece ∈ pieces context text) (kind : piece.1 = .doubleColon) :
    piece.2 = Text.ofChars [':', ':'] := by
  induction context, text using pieces_induction with
  | nil context => simp at member
  | cons context first rest ih =>
    rw [pieces_cons] at member
    rcases List.mem_cons.mp member with rfl | later
    · exact Cut.take_of_doubleColon context first rest kind
    · exact ih later

end AccessChain
