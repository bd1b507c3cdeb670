import AccessChain.Proofs.BeforeCursor
import AccessChain.Proofs.BoundaryLayers
import AccessChain.Proofs.OffsetReports
import AccessChain.Proofs.TokenStream

/-! The table of tokens that debugging shows. Nothing that is shown of a token breaks a line, so the lines of the table
are its rows. The tokens leave no gap, so the row of one of them is marked unless the expression is empty. -/
namespace AccessChain

namespace Text

/-- Letters that are on one line wherever they stand. -/
def Unbroken (letters : List Char) : Prop := ∀ value ∈ letters, breaksLine value = false

instance (letters : List Char) : Decidable (Unbroken letters) :=
  inferInstanceAs (Decidable (∀ value ∈ letters, breaksLine value = false))

theorem unbroken_append (front behind : List Char) : Unbroken (front ++ behind) ↔ Unbroken front ∧ Unbroken behind :=
  List.forall_mem_append

theorem ofString_join (strings : List String) : ofString (String.join strings) = strings.flatMap ofString := by
  rw [ofString, ofChars, String.toList_join, List.map_flatMap]
  rfl

theorem fed_ofChars (letters : List Char) (unbroken : Unbroken letters) : Position.Fed (ofChars letters) := by
  have plain : ∀ symbol ∈ ofChars letters, symbol.satisfies breaksLine = false := by
    intro symbol member
    obtain ⟨value, inside, rfl⟩ := List.mem_map.mp member
    exact unbroken value inside
  refine ⟨fun feed => ?_, fun left mark right same breaks => ?_⟩
  · exact absurd (plain _ feed) (by decide)
  · exact absurd ((plain mark (by simp [same])).symm.trans breaks) Bool.false_ne_true

theorem toNat_of_breaksLine (value : Char) (breaks : breaksLine value = true) :
    value.toNat ∈ [0x0A, 0x0B, 0x0C, 0x0D, 0x1C, 0x1D, 0x1E, 0x85, 0x2028, 0x2029] := by
  simp only [breaksLine, Ranges.holds] at breaks
  simp only [List.mem_cons, List.not_mem_nil, or_false]
  grind

theorem breaksLine_of_isPrintable (value : Char) (printable : isPrintable value = true) : breaksLine value = false := by
  have hidden : ∀ point ∈ [0x0A, 0x0B, 0x0C, 0x0D, 0x1C, 0x1D, 0x1E, 0x85, 0x2028, 0x2029],
      Ranges.holds unprintableRanges point = true := by decide +kernel
  apply eq_false_of_ne_true
  intro breaks
  rw [isPrintable, hidden _ (toNat_of_breaksLine value breaks)] at printable
  contradiction

theorem breaksLine_of_isDigit (value : Char) (digit : value.isDigit = true) : breaksLine value = false := by
  have range : 48 ≤ value.toNat ∧ value.toNat ≤ 57 := Char.isDigit_iff_toNat.mp digit
  apply eq_false_of_ne_true
  intro breaks
  have point := toNat_of_breaksLine value breaks
  simp only [List.mem_cons, List.not_mem_nil, or_false] at point
  omega

theorem unbroken_hexDigits (width value : Nat) : Unbroken (hexDigits width value) := by
  have digits : ∀ rest < 16, breaksLine (Nat.digitChar rest) = false := by decide
  induction width generalizing value with
  | zero => exact List.forall_mem_nil _
  | succ width ih =>
    exact List.forall_mem_append.mpr ⟨ih _, List.forall_mem_singleton.mpr (digits _ (Nat.mod_lt _ (by decide)))⟩

theorem unbroken_numericEscape (point : Nat) : Unbroken (numericEscape point) := by
  have escapes : ∀ letter ∈ ['\\', 'x', 'u', 'U'], breaksLine letter = false := by decide
  have escape : ∀ letter ∈ ['x', 'u', 'U'], ∀ width, Unbroken ('\\' :: letter :: hexDigits width point) := by
    intro letter member width
    exact List.forall_mem_cons.mpr ⟨escapes _ List.mem_cons_self, List.forall_mem_cons.mpr
      ⟨escapes _ (List.mem_cons_of_mem _ member), unbroken_hexDigits width point⟩⟩
  unfold numericEscape
  split
  · exact escape 'x' (by decide) 2
  · split
    · exact escape 'u' (by decide) 4
    · exact escape 'U' (by decide) 8

theorem unbroken_quotedSymbol (quote : Char) (plain : breaksLine quote = false) (symbol : Sym) :
    Unbroken (quotedSymbol quote symbol) := by
  fun_cases quotedSymbol quote symbol with
  | case1 byte high => exact unbroken_numericEscape _
  | case2 value delimits =>
    have shown : breaksLine value = false := by
      rcases Bool.or_eq_true_iff.mp delimits with same | same
      · rwa [beq_iff_eq.mp same]
      · rw [beq_iff_eq.mp same]
        decide
    exact List.forall_mem_cons.mpr ⟨by decide, List.forall_mem_singleton.mpr shown⟩
  | case3 => decide
  | case4 => decide
  | case5 => decide
  | case6 value _ _ _ _ printable => exact List.forall_mem_singleton.mpr (breaksLine_of_isPrintable value printable)
  | case7 => exact unbroken_numericEscape _

theorem unbroken_quoted (text : Text) : Unbroken (quoted text).toList := by
  have plain : breaksLine (quoteFor text) = false := by
    unfold quoteFor
    split
    · decide
    · decide
  rw [quoted, String.toList_ofList]
  intro value member
  simp only [List.cons_append, List.mem_cons, List.mem_append, List.mem_flatMap, List.not_mem_nil, or_false] at member
  rcases member with rfl | ⟨symbol, _, shown⟩ | rfl
  · exact plain
  · exact unbroken_quotedSymbol _ plain symbol value shown
  · exact plain

theorem unbroken_toString (value : Nat) : Unbroken (toString value).toList := by
  intro digit member
  rw [Nat.toString_eq_repr, Nat.toList_repr] at member
  exact breaksLine_of_isDigit digit (Nat.isDigit_of_mem_toDigits (by decide) (by decide) member)

end Text

theorem TokenKind.unbroken_name (kind : TokenKind) : Text.Unbroken kind.name.toList := by
  have names : ∀ kind ∈ all, ∀ value ∈ kind.name.toList, Text.breaksLine value = false := by decide +kernel
  exact names kind kind.mem_all

namespace Token
open Text

theorem unbroken_padding (width : Nat) (string : String) : Unbroken (padding width string).toList := by
  intro value member
  rw [padding, String.toList_ofList] at member
  rw [List.eq_of_mem_replicate member]
  decide

/-- The mark at the front of the row of a token. -/
def mark (start : Nat) (token : Token) : Char := if token.covers start then '>' else ' '

theorem mark_eq_iff (start : Nat) (token : Token) : token.mark start = '>' ↔ token.covers start = true := by
  unfold mark
  split
  · next covered => exact iff_of_true rfl covered
  · next apart => exact iff_of_false (by decide) apart

/-- What stands on the row of a token behind the mark. -/
def shown (token : Token) : String :=
  let offset := toString token.offset
  " " ++ padding 6 offset ++ offset ++ "  " ++ token.kind.name ++ padding 20 token.kind.name ++ " " ++ Text.quoted token.text

theorem unbroken_shown (token : Token) : Unbroken token.shown.toList := by
  have blank : Unbroken " ".toList := by decide
  have gap : Unbroken "  ".toList := by decide
  simp only [shown, String.toList_append]
  repeat' rw [unbroken_append]
  exact ⟨⟨⟨⟨⟨⟨⟨blank, unbroken_padding _ _⟩, unbroken_toString _⟩, gap⟩, token.kind.unbroken_name⟩, unbroken_padding _ _⟩,
    blank⟩, unbroken_quoted _⟩

theorem dumpLine_eq (start : Nat) (token : Token) :
    ofString (dumpLine (some start) token) = .char (token.mark start) :: ofString token.shown ++ [.char '\n'] := by
  have parts : dumpLine (some start) token = (if token.covers start then ">" else " ") ++ token.shown ++ "\n" := by
    simp only [dumpLine, shown, Option.any_some, String.append_assoc]
  have front : ofString (if token.covers start then ">" else " ") = [.char (token.mark start)] := by
    unfold mark
    split
    · rfl
    · rfl
  have feed : ofString "\n" = [.char '\n'] := rfl
  rw [parts, ofString_append, ofString_append, front, feed, List.singleton_append]

theorem head_dumpLine (start : Nat) (token : Token) :
    (ofString (dumpLine (some start) token)).head? = some (.char (token.mark start)) := by
  rw [dumpLine_eq]
  rfl

theorem marked_iff (start : Nat) (token : Token) :
    (ofString (dumpLine (some start) token)).head? = some (.char '>') ↔ token.covers start = true := by
  rw [head_dumpLine, Option.some.injEq, Sym.char.injEq, mark_eq_iff]

theorem fed_row (start : Nat) (token : Token) : Position.Fed (.char (token.mark start) :: ofString token.shown) := by
  have plain : breaksLine (token.mark start) = false := by
    unfold mark
    split
    · decide
    · decide
  have unbroken : Unbroken (token.mark start :: token.shown.toList) :=
    List.forall_mem_cons.mpr ⟨plain, token.unbroken_shown⟩
  have symbols := fed_ofChars _ unbroken
  rwa [ofChars, List.map_cons] at symbols

theorem lines_dump (tokens : List Token) (start : Nat) : lines (ofString (dump tokens (some start))) =
    ofString "Tokens\n" :: tokens.map fun token => ofString (dumpLine (some start) token) := by
  let bodies := ofString "Tokens" :: tokens.map fun token => .char (token.mark start) :: ofString token.shown
  have rows : bodies.map (· ++ [.char '\n']) =
      ofString "Tokens\n" :: tokens.map fun token => ofString (dumpLine (some start) token) := by
    have heading : ofString "Tokens" ++ [.char '\n'] = ofString "Tokens\n" := rfl
    simp only [bodies, List.map_cons, List.map_map, Function.comp_def, heading, dumpLine_eq]
  have fed : ∀ body ∈ bodies, Position.Fed body := by
    refine List.forall_mem_cons.mpr ⟨fed_ofChars _ (by decide), ?_⟩
    intro body member
    obtain ⟨token, _, rfl⟩ := List.mem_map.mp member
    exact fed_row start token
  have whole : ofString (dump tokens (some start)) = fedLines bodies ++ [] := by
    rw [List.append_nil, fedLines, List.flatMap_def, rows, dump, ofString_append, ofString_join, List.flatten_cons,
      List.flatMap_map, List.flatMap_def]
  have read := lines_fedLines bodies []
  rw [lines_of_fed bodies (fun body member => (fed body member).single) fed, rows] at read
  rw [whole, read]
  exact List.append_nil _

section Rows
variable (text : Text) (start : Nat)

theorem exists_marked_row (before : start < Text.byteLength text) :
    ∃ index token, (tokenize text)[index]? = some token ∧ token.covers start ∧
      ∀ (other : Nat) (row : Text), ((tokenize text).map fun token => ofString (dumpLine (some start) token))[other]? =
        some row → (row.head? = some (.char '>') ↔ other = index) := by
  obtain ⟨index, ⟨token, found, covered⟩, unique⟩ := (tokenize_covers text start).1 before
  refine ⟨index, token, found, covered, fun other row shown => ?_⟩
  rw [List.getElem?_map, Option.map_eq_some_iff] at shown
  obtain ⟨candidate, otherFound, rfl⟩ := shown
  rw [marked_iff]
  constructor
  · exact fun otherCovered => unique other ⟨candidate, otherFound, otherCovered⟩
  · rintro rfl
    rwa [Option.some.inj (otherFound.symm.trans found)]

theorem not_marked_behind (behind : Text.byteLength text ≤ start) :
    ∀ row ∈ (tokenize text).map fun token => ofString (dumpLine (some start) token),
      row.head? ≠ some (.char '>') := by
  intro row member marked
  obtain ⟨token, shown, rfl⟩ := List.mem_map.mp member
  have apart := (tokenize_covers text start).2 behind token shown
  exact Bool.false_ne_true (apart.symm.trans ((marked_iff start token).mp marked))

end Rows

end Token

namespace Command.Run
open Text

/-- With debugging the lines of the error output are a heading and a row for each token in front of the cursor. The rows
are those of the tokens in turn, and a single one is marked, that of the token which the expression starts in. There is
no mark if the expression is empty. Outside the source nothing of a table is written. -/
theorem ofSource_dump (settings : Settings) (debug : settings.debug = true) (source : Text) (cursor : Cursor) :
    (cursor.IsOutside source ∧ ∃ error : OffsetError,
      ofSource settings cursor source = failed 1 (error.report (sourceName settings))) ∨
    ∃ (stop start : Nat) (rows : List Text),
      cursor.resolve source = .ok stop ∧ stop ≤ Text.byteLength source ∧
      Scanner.expressionStart ⟨settings.boundary, tokenize⟩ source (some stop) = .ok start ∧ start ≤ stop ∧
      lines (ofSource settings cursor source).stderr = ofString "Tokens\n" :: rows ∧
      let tokens := tokenize (decode ((encode source).take stop))
      (rows = tokens.map fun token => ofString (Token.dumpLine (some start) token)) ∧
      (∀ row ∈ rows, row.head? = some (.char '>') ∨ row.head? = some (.char ' ')) ∧
      (start < stop → ∃ index token, tokens[index]? = some token ∧ token.covers start ∧
        ∀ (other : Nat) (row : Text), rows[other]? = some row → (row.head? = some (.char '>') ↔ other = index)) ∧
      (start = stop → ∀ row ∈ rows, row.head? ≠ some (.char '>')) := by
  rcases Analysis.run_cases ⟨settings.boundary, tokenize⟩ source cursor with
    ⟨_, stop, inside, resolved, ran⟩ | ⟨outside, error, ran⟩
  swap
  · refine .inl ⟨outside, error, ?_⟩
    rw [ofSource, ran]
  have size : Text.byteLength (decode ((encode source).take stop)) = stop := by
    rw [byteLength_decode, List.length_take_of_le inside]
  refine .inr ⟨stop, Scanner.startBefore ⟨settings.boundary, tokenize⟩ ((encode source).take stop), _, resolved, inside,
    expressionStart_eq _ _ _ _ rfl inside, ?_, ?_, rfl, ?_, ?_, ?_⟩
  · have bound := Scanner.startBefore_le ⟨settings.boundary, tokenize⟩ ((encode source).take stop)
    rwa [List.length_take_of_le inside] at bound
  · rw [ofSource, ran]
    simp only [debug, if_true]
    exact Token.lines_dump _ _
  · intro row member
    obtain ⟨token, _, rfl⟩ := List.mem_map.mp member
    rw [Token.head_dumpLine, Token.mark]
    split
    · exact .inl rfl
    · exact .inr rfl
  · exact fun before => Token.exists_marked_row _ _ (before.trans_eq size.symm)
  · exact fun met => Token.not_marked_behind _ _ (Nat.le_of_eq (size.trans met.symm))

/-- The cursor stands behind the first byte of a character, and the marked token is a string over two lines. -/
theorem ofSource_dump_within_character :
    let settings : Settings := ⟨none, true, .absent, false, none, KindSet.boundary, true⟩
    let rows := ["       0  IDENTIFIER           'f'\n", "       1  CHARACTER            '('\n",
      ">      2  STRING_LITERAL       \"'\\n'\"\n", "       5  VARIABLE             '$\\udcc3'\n"].map ofString
    settings.debug = true ∧
    lines (ofSource settings ⟨some 7, false⟩ (ofString "f('\n'$é)")).stderr = ofString "Tokens\n" :: rows ∧
    ∃ index, ∀ (other : Nat) (row : Text), rows[other]? = some row → (row.head? = some (.char '>') ↔ other = index) := by
  intro settings rows
  have shown : lines (ofSource settings ⟨some 7, false⟩ (ofString "f('\n'$é)")).stderr = ofString "Tokens\n" :: rows := by
    decide +kernel
  refine ⟨rfl, shown, ?_⟩
  rcases ofSource_dump settings rfl (ofString "f('\n'$é)") ⟨some 7, false⟩ with
    ⟨_, error, failing⟩ | ⟨stop, start, found, resolved, _, started, _, read, _, _, marked, _⟩
  · have code : (ofSource settings ⟨some 7, false⟩ (ofString "f('\n'$é)")).code = 0 := by decide +kernel
    rw [failing] at code
    exact absurd code Nat.one_ne_zero
  · obtain rfl : stop = 7 := Int.ofNat.inj (Except.ok.inj resolved).symm
    have place : Scanner.expressionStart ⟨KindSet.boundary, tokenize⟩ (ofString "f('\n'$é)") (some (7 : Nat)) = .ok 2 := by
      decide +kernel
    obtain rfl := Except.ok.inj (started.symm.trans place)
    obtain ⟨index, _, _, _, unique⟩ := marked (by decide)
    obtain rfl : found = rows := (List.cons.inj (read.symm.trans shown)).2
    exact ⟨index, unique⟩

end Command.Run
end AccessChain
