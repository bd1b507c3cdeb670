import AccessChain.Proofs.Decoding
import AccessChain.Proofs.Restart
import AccessChain.Text.Lower

/-! Which names are keywords. Behind an access operator none is; anywhere else a name is looked up in lower case. Of the
characters outside ASCII only the Kelvin sign can stand in a keyword, so a look-up need not know the case of any other. -/
namespace AccessChain

namespace Text

theorem shifted_cases (runs : List (Nat × Nat × Nat × Int)) (point : Nat) : shifted runs point = point ∨
    ∃ run ∈ runs, run.1 ≤ point ∧ point ≤ run.2.1 ∧ shifted runs point = (point + run.2.2.2).toNat := by
  fun_induction shifted runs point with
  | case1 point => exact .inl rfl
  | case2 point first last stride shift rest inside =>
    simp only [Bool.and_eq_true, decide_eq_true_eq] at inside
    exact .inr ⟨_, List.mem_cons_self, inside.1.1, inside.1.2, rfl⟩
  | case3 point first last stride shift rest outside ih =>
    rcases ih with same | ⟨run, listed, found⟩
    · exact .inl same
    · exact .inr ⟨run, List.mem_cons_of_mem _ listed, found⟩

/-- A code point is not moved by runs that start behind it. -/
theorem shifted_below (front behind : List (Nat × Nat × Nat × Int)) (point : Nat) (below : ∀ run ∈ behind, point < run.1) :
    shifted (front ++ behind) point = shifted front point := by
  fun_induction shifted front point with
  | case1 point =>
    rcases shifted_cases behind point with same | ⟨run, listed, least, _⟩
    · exact same
    · exact absurd (below run listed) (Nat.not_lt_of_le least)
  | case2 point first last stride shift rest inside =>
    rw [List.cons_append, shifted, if_pos inside]
  | case3 point first last stride shift rest outside ih =>
    rw [List.cons_append, shifted, if_neg outside, ih below]

theorem lowerChar_of_ascii (value : Char) (ascii : value.toNat < 0x80) : lowerChar value = [value.toLower] := by
  have first : ∀ run ∈ lowerRuns.tail, 0x80 ≤ run.1 := by decide +kernel
  have letters : shifted lowerRuns value.toNat = shifted [(0x41, 0x5A, 1, 32)] value.toNat :=
    shifted_below [(0x41, 0x5A, 1, 32)] lowerRuns.tail value.toNat fun run listed => Nat.lt_of_lt_of_le ascii (first run listed)
  have apart : value ≠ '\u0130' := by
    rintro rfl
    exact absurd ascii (by decide)
  rw [lowerChar, if_neg apart, letters]
  exact forall_ascii (fun value => [Char.ofNat (shifted [(0x41, 0x5A, 1, 32)] value.toNat)] = [value.toLower])
    (by decide +kernel) value ascii

/-- The lower case of a character outside ASCII holds another one, but for the Kelvin sign. -/
theorem lowerChar_of_not_ascii (value : Char) (wide : 0x80 ≤ value.toNat) (other : value ≠ '\u212A') :
    ∃ lower ∈ lowerChar value, 0x80 ≤ lower.toNat := by
  unfold lowerChar
  split
  · exact ⟨'\u0307', by decide, by decide⟩
  refine ⟨_, List.mem_singleton_self _, ?_⟩
  rcases shifted_cases lowerRuns value.toNat with same | ⟨run, listed, least, most, moved⟩
  · rw [same, Char.ofNat_toNat]
    exact wide
  -- A run lies in ASCII, is the Kelvin sign alone, or leads to code points of characters outside ASCII.
  have rows : ∀ run ∈ lowerRuns, run.2.1 < 0x80 ∨ (run.1 = 0x212A ∧ run.2.1 = 0x212A) ∨ (0x80 ≤ run.1 + run.2.2.2 ∧
      (run.2.1 + run.2.2.2 < 0xD800 ∨ (0xE000 ≤ run.1 + run.2.2.2 ∧ run.2.1 + run.2.2.2 < 0x110000))) := by
    decide +kernel
  rw [moved]
  rcases rows run listed with ascii | ⟨first, last⟩ | ⟨low, valid⟩
  · omega
  · have kelvin : value.toNat = ('\u212A' : Char).toNat := by
      have sign : ('\u212A' : Char).toNat = 0x212A := by decide
      omega
    exact absurd (Char.toNat_inj.mp kelvin) other
  · have character : (value.toNat + run.2.2.2).toNat.isValidChar := by
      unfold Nat.isValidChar
      omega
    have point : (Char.ofNat (value.toNat + run.2.2.2).toNat).toNat = (value.toNat + run.2.2.2).toNat := val_ofNat _ character
    omega

end Text

namespace Cut
open Text

theorem lowered?_eq_some (symbol : Sym) (letter : Char) (found : lowered? symbol = some letter) :
    lowerSym symbol = [.char letter] := by
  cases symbol with
  | stray byte high => contradiction
  | char value =>
    simp only [lowered?] at found
    split at found
    · next ascii =>
      obtain rfl := Option.some.inj found
      rw [lowerSym, lowerChar_of_ascii value ascii]
      rfl
    · split at found
      · next kelvin =>
        obtain rfl := Option.some.inj found
        rw [eq_of_beq kelvin]
        decide +kernel
      · contradiction

theorem lowered?_eq_none (symbol : Sym) (missing : lowered? symbol = none) : ∃ lower ∈ lowerSym symbol, lower.isAscii = false := by
  cases symbol with
  | stray byte high => exact ⟨.stray byte high, List.mem_singleton_self _, rfl⟩
  | char value =>
    simp only [lowered?] at missing
    split at missing
    · contradiction
    · next wide =>
      split at missing
      · contradiction
      · next other =>
        obtain ⟨lower, held, foreign⟩ := lowerChar_of_not_ascii value (by omega) (by simpa using other)
        exact ⟨.char lower, List.mem_map_of_mem held, decide_eq_false (by omega)⟩

/-- A text in lower case is what the look-up reads of it, or holds a symbol outside ASCII. -/
theorem lowered_cases (word lower : Text) (lowered : Lowered word lower) :
    (∃ letters, word.mapM lowered? = some letters ∧ lower = ofChars letters) ∨
      (word.mapM lowered? = none ∧ ∃ symbol ∈ lower, symbol.isAscii = false) := by
  induction lowered with
  | nil => exact .inl ⟨[], rfl, rfl⟩
  | finalSigma rest lower tail ih =>
    refine .inr ⟨?_, .char '\u03C2', List.mem_cons_self, by decide⟩
    rw [List.mapM_cons]
    rfl
  | cons symbol rest lower tail ih =>
    rw [List.mapM_cons]
    cases here : lowered? symbol with
    | none =>
      obtain ⟨foreign, held, outside⟩ := lowered?_eq_none symbol here
      exact .inr ⟨rfl, foreign, List.mem_append_left _ held, outside⟩
    | some letter =>
      rw [lowered?_eq_some symbol letter here]
      rcases ih with ⟨letters, later, rfl⟩ | ⟨missing, foreign, held, outside⟩
      · refine .inl ⟨letter :: letters, ?_, rfl⟩
        rw [later]
        rfl
      · refine .inr ⟨?_, foreign, List.mem_append_right _ held, outside⟩
        rw [missing]
        rfl

theorem ofSpelling?_of_foreign (letters : List Char) (symbol : Sym) (held : symbol ∈ ofChars letters)
    (foreign : symbol.isAscii = false) : Keyword.ofSpelling? letters = none := by
  have ascii : ∀ row ∈ Keyword.spellings, ∀ value ∈ row.1.toList, value.toNat < 0x80 := by decide +kernel
  obtain ⟨value, member, same⟩ := List.mem_map.mp held
  rw [Keyword.ofSpelling?, List.lookup_eq_none_iff]
  intro row listed
  rw [bne_iff_ne]
  intro spelled
  have inside : value ∈ row.1.toList := by
    rw [← spelled, String.toList_ofList]
    exact member
  have narrow : symbol.isAscii = true := same ▸ decide_eq_true (ascii row listed value inside)
  exact Bool.false_ne_true (foreign.symm.trans narrow)

/-- The keyword that a word is, read off its lower case. -/
theorem keyword?_eq (word lower : Text) (lowered : Lowered word lower) :
    keyword? word = (chars? lower).bind Keyword.ofSpelling? := by
  rw [keyword?]
  rcases lowered_cases word lower lowered with ⟨letters, read, rfl⟩ | ⟨missing, symbol, held, foreign⟩
  · rw [read, chars?_ofChars]
  · rw [missing]
    cases found : chars? lower with
    | none => rfl
    | some letters =>
      rw [eq_ofChars_of_chars? lower letters found] at held
      exact (ofSpelling?_of_foreign letters symbol held foreign).symm

end Cut

/-- The kinds that names have. -/
def TokenKind.isName : TokenKind → Bool
  | .identifier | .keyword _ => true
  | _ => false

namespace Cut

theorem operator_kind_isName (first : Sym) (rest : Text) : (operator first rest).kind.isName = false := by
  have rows : ∀ row ∈ operators, row.2.2.isName = false := by decide
  rcases take_operator first rest with ⟨row, listed, kind, _⟩ | ⟨kind, _⟩
  · exact kind ▸ rows row listed
  · exact kind ▸ rfl

/-- Nothing but a name is cut off as one. -/
theorem kind_of_isName (context : Context) (first : Sym) (rest : Text)
    (named : (ofText context first rest).kind.isName = true) : (ofText context first rest).kind =
      nameKind context.afterAccess ((first :: rest).take (ofText context first rest).size) := by
  revert named
  unfold ofText
  split
  · intro named
    contradiction
  fun_cases ofCode context.afterAccess first rest with
  | case2 =>
    intro named
    rcases openingTag_kind (first :: rest) with kind | kind <;> rw [kind] at named <;> contradiction
  | case9 _ _ _ _ _ _ _ _ _ size =>
    intro _
    have taken : (first :: rest).take (1 + size) = first :: rest.take size := by rw [Nat.add_comm, List.take_succ_cons]
    exact congrArg (nameKind context.afterAccess) taken.symm
  | case12 =>
    intro named
    rw [operator_kind_isName] at named
    contradiction
  | _ =>
    intro named
    contradiction

end Cut

/-- A name is an identifier if the nearest token in front of it that is no trivia is an access operator. Any other name is
the keyword that its lower case spells, and an identifier if that spells none. -/
theorem kind_of_name (source : Text) (before after : List Token) (token : Token)
    (split : tokenize source = before ++ token :: after) (named : token.kind.isName = true) (lower : Text)
    (lowered : Text.Lowered token.text lower) :
    token.kind = if Token.endInAccess before then .identifier
      else (((Text.chars? lower).bind Keyword.ofSpelling?).map .keyword).getD .identifier := by
  obtain ⟨rest, _, tail⟩ := tokensFrom_split Context.start 0 source before _ split
  cases rest with
  | nil => simp at tail
  | cons first rest =>
    rw [tokensFrom_cons] at tail
    obtain ⟨rfl, _⟩ := List.cons.inj tail
    rw [Cut.kind_of_isName _ first rest named, Context.endInAccess_eq, Cut.nameKind, Cut.keyword?_eq _ lower lowered]

/-- A keyword with a Kelvin sign in it, behind a member that is called like a keyword. -/
theorem kind_of_name_with_sign :
    tokenize (Text.ofString "$a->class brea\u212A") =
        [⟨.varName, Text.ofString "$a", 0⟩, ⟨.objectOperator, Text.ofString "->", 2⟩,
          ⟨.identifier, Text.ofString "class", 4⟩, ⟨.whitespace, Text.ofString " ", 9⟩] ++
        ⟨.keyword .breakKw, Text.ofString "brea\u212A", 10⟩ :: [] ∧
      (TokenKind.keyword .breakKw).isName = true ∧ Text.Lowered (Text.ofString "brea\u212A") (Text.ofString "break") ∧
      TokenKind.keyword .breakKw =
        if Token.endInAccess [⟨.varName, Text.ofString "$a", 0⟩, ⟨.objectOperator, Text.ofString "->", 2⟩,
          ⟨.identifier, Text.ofString "class", 4⟩, ⟨.whitespace, Text.ofString " ", 9⟩] then .identifier
        else (((Text.chars? (Text.ofString "break")).bind Keyword.ofSpelling?).map .keyword).getD .identifier := by
  have split : tokenize (Text.ofString "$a->class brea\u212A") =
      [⟨.varName, Text.ofString "$a", 0⟩, ⟨.objectOperator, Text.ofString "->", 2⟩,
        ⟨.identifier, Text.ofString "class", 4⟩, ⟨.whitespace, Text.ofString " ", 9⟩] ++
      ⟨.keyword .breakKw, Text.ofString "brea\u212A", 10⟩ :: [] := by decide +kernel
  have lowered : Text.Lowered (Text.ofString "brea\u212A") (Text.ofString "break") := by
    have letters : (Text.ofString "brea\u212A").flatMap Text.lowerSym = Text.ofString "break" := by decide +kernel
    rw [← letters]
    exact Text.lowered_flatMap _
  exact ⟨split, rfl, lowered, kind_of_name _ _ _ _ split rfl _ lowered⟩

end AccessChain
