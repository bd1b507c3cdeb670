import AccessChain.Offset.Basic

/-! Offsets in bytes and in characters. An offset in characters stands between two symbols of a text, an offset in bytes
there or inside a symbol, and as maps between the two orders the conversions are adjoint. -/
namespace AccessChain

namespace Text

theorem byteLength_le_append (left right : Text) : byteLength left ≤ byteLength (left ++ right) := by
  rw [byteLength_append]
  exact Nat.le_add_right _ _

theorem take_byteLength (left right : Text) : (encode (left ++ right)).take (byteLength left) = encode left := by
  rw [encode_append, byteLength, List.take_left]

theorem drop_byteLength (left right : Text) : (encode (left ++ right)).drop (byteLength left) = encode right := by
  rw [encode_append, byteLength, List.drop_left]

section Within
variable (left right : Text) (symbol : Sym) (part : Nat) (within : part ≤ symbol.width)
include within

theorem take_within : (encode (left ++ symbol :: right)).take (byteLength left + part) =
    encode left ++ symbol.bytes.take part := by
  rw [encode_append, byteLength, List.take_length_add_append, encode_cons, List.take_append_of_le_length within]

theorem drop_within : (encode (left ++ symbol :: right)).drop (byteLength left + part) =
    symbol.bytes.drop part ++ encode right := by
  rw [encode_append, byteLength, List.drop_length_add_append, encode_cons, List.drop_append_of_le_length within]

end Within

def isAscii (text : Text) : Bool := text.all (·.satisfies fun value => value.toNat < 0x80)

theorem width_of_ascii (symbol : Sym) (ascii : symbol.satisfies (fun value => value.toNat < 0x80) = true) :
    symbol.width = 1 := by
  cases symbol with
  | stray byte high => contradiction
  | char value =>
    have low : value.toNat < 0x80 := of_decide_eq_true ascii
    have size : value.utf8Size = 1 := Char.utf8Size_eq_one_iff.mpr (UInt32.le_iff_toNat_le.mpr (Nat.le_of_lt_succ low))
    rw [Sym.width, Sym.bytes, String.length_utf8EncodeChar, size]

theorem byteLength_of_isAscii (text : Text) (ascii : isAscii text = true) : byteLength text = text.length := by
  induction text with
  | nil => rfl
  | cons symbol text ih =>
    obtain ⟨here, behind⟩ := Bool.and_eq_true_iff.mp ascii
    rw [byteLength_cons, width_of_ascii symbol here, ih behind, List.length_cons, Nat.add_comm]

theorem isAscii_take (text : Text) (count : Nat) (ascii : isAscii text = true) : isAscii (text.take count) = true :=
  List.all_eq_true.mpr fun symbol member => List.all_eq_true.mp ascii symbol (List.mem_of_mem_take member)

end Text

namespace Offset

theorem checked_natCast (unit : String) (offset limit : Nat) (source : Text) :
    checked unit offset limit source =
      if offset ≤ limit then .ok offset else .error (OffsetError.outside unit offset limit source) := by
  simp only [checked, Int.natCast_nonneg, true_and, Int.ofNat_le, Int.toNat_natCast]

theorem checked_cases (unit : String) (offset : Int) (limit : Nat) (source : Text) :
    (∃ place : Nat, offset = place ∧ place ≤ limit ∧ checked unit offset limit source = .ok place) ∨
      ((offset < 0 ∨ limit < offset) ∧
        checked unit offset limit source = .error (OffsetError.outside unit offset limit source)) := by
  by_cases inside : 0 ≤ offset ∧ offset ≤ limit
  · obtain ⟨place, rfl⟩ := Int.eq_ofNat_of_zero_le inside.1
    have within : place ≤ limit := Int.ofNat_le.mp inside.2
    exact .inl ⟨place, rfl, within, by rw [checked_natCast, if_pos within]⟩
  · exact .inr ⟨by omega, if_neg inside⟩

theorem convert_eq_error_iff (unit : String) (offset : Int) (limit : Nat) (source : Text) (convert : Nat → Nat)
    (error : OffsetError) :
    (do
      let place ← checked unit offset limit source
      return convert place) = .error error ↔
      (offset < 0 ∨ limit < offset) ∧ error = OffsetError.outside unit offset limit source := by
  rcases checked_cases unit offset limit source with ⟨place, rfl, inside, found⟩ | ⟨outside, missing⟩
  · rw [found]
    exact iff_of_false nofun fun failed => by omega
  · simp [missing, outside, bind, Except.bind, eq_comm]

theorem byteOfChar_natCast (count : Nat) (text : Text) :
    byteOfChar count text =
      if count ≤ text.length then .ok (Text.byteLength (text.take count))
      else .error (OffsetError.outside "character" count text.length text) := by
  rw [byteOfChar, checked_natCast]
  split
  · rfl
  · rfl

theorem charOfByte_natCast (offset : Nat) (text : Text) :
    charOfByte offset text =
      if offset ≤ Text.byteLength text then .ok (charsWithin offset text)
      else .error (OffsetError.outside "byte" offset (Text.byteLength text) text) := by
  rw [charOfByte, checked_natCast]
  split
  · rfl
  · rfl

theorem lineAt_of_le (source : Text) (offset : Nat) (inside : offset ≤ Text.byteLength source) :
    lineAt source offset = .ok (((Text.encode source).take offset).count 0x0A + 1) := by
  rw [lineAt, checked_natCast, if_pos inside]
  rfl

theorem byteOfChar_eq_ok_iff (count : Nat) (text : Text) (place : Nat) :
    byteOfChar count text = .ok place ↔ count ≤ text.length ∧ Text.byteLength (text.take count) = place := by
  rw [byteOfChar_natCast]
  split
  · next within => rw [Except.ok.injEq, and_iff_right within]
  · next outside => simp only [reduceCtorEq, outside, false_and]

theorem charsWithin_append (left right : Text) (part : Nat) :
    charsWithin (Text.byteLength left + part) (left ++ right) = left.length + charsWithin part right := by
  induction left with
  | nil => rw [List.nil_append, Text.byteLength_nil, List.length_nil, Nat.zero_add, Nat.zero_add]
  | cons symbol left ih =>
    rw [List.cons_append, charsWithin, Text.byteLength_cons, Nat.add_assoc, if_pos (Nat.le_add_right _ _),
      Nat.add_sub_cancel_left, ih, List.length_cons, ← Nat.add_assoc, Nat.add_comm 1]

theorem charsWithin_of_short (symbol : Sym) (text : Text) (part : Nat) (short : part < symbol.width) :
    charsWithin part (symbol :: text) = 0 := if_neg (Nat.not_le_of_lt short)

theorem charsWithin_byteLength (left right : Text) :
    charsWithin (Text.byteLength left) (left ++ right) = left.length := by
  have nothing : charsWithin 0 right = 0 := by
    cases right with
    | nil => rfl
    | cons symbol right => exact charsWithin_of_short symbol right 0 symbol.width_pos
  have whole := charsWithin_append left right 0
  rwa [nothing] at whole

theorem charOfByte_byteLength (left right : Text) :
    charOfByte (Text.byteLength left) (left ++ right) = .ok left.length := by
  rw [charOfByte_natCast, Text.byteLength_append, if_pos (Nat.le_add_right _ _), charsWithin_byteLength]

theorem charOfByte_symbol (left right : Text) (symbol : Sym) (part : Nat) (short : part < symbol.width) :
    charOfByte ((Text.byteLength left + part : Nat) : Int) (left ++ symbol :: right) = .ok left.length := by
  rw [charOfByte_natCast, charsWithin_append, charsWithin_of_short symbol right part short, if_pos]
  · rfl
  rw [Text.byteLength_append, Text.byteLength_cons]
  omega

theorem byteOfChar_length (left right : Text) :
    byteOfChar left.length (left ++ right) = .ok (Text.byteLength left) := by
  rw [byteOfChar_natCast, List.length_append, if_pos (Nat.le_add_right _ _), List.take_left]

/-- An offset in bytes is one between two symbols, or it lies inside one. -/
theorem place_cases (offset : Nat) (text : Text) (inside : offset ≤ Text.byteLength text) :
    (∃ left right, text = left ++ right ∧ offset = Text.byteLength left) ∨
      ∃ left symbol right part, text = left ++ symbol :: right ∧ offset = Text.byteLength left + part ∧ 0 < part ∧
        part < symbol.width := by
  induction text generalizing offset with
  | nil => exact .inl ⟨[], [], rfl, Nat.eq_zero_of_le_zero inside⟩
  | cons symbol text ih =>
    by_cases fits : symbol.width ≤ offset
    · rw [Text.byteLength_cons] at inside
      rcases ih (offset - symbol.width) (by omega) with
        ⟨left, right, rfl, place⟩ | ⟨left, other, right, part, rfl, place, positive, short⟩
      · refine .inl ⟨symbol :: left, right, rfl, ?_⟩
        rw [Text.byteLength_cons]
        omega
      · refine .inr ⟨symbol :: left, other, right, part, rfl, ?_, positive, short⟩
        rw [Text.byteLength_cons]
        omega
    · rcases Nat.eq_zero_or_pos offset with rfl | positive
      · exact .inl ⟨[], symbol :: text, rfl, rfl⟩
      · exact .inr ⟨[], symbol, text, offset, rfl, (Nat.zero_add offset).symm, positive, Nat.lt_of_not_le fits⟩

theorem byteLength_take_le_iff (text : Text) (count offset : Nat) (within : count ≤ text.length) :
    Text.byteLength (text.take count) ≤ offset ↔ count ≤ charsWithin offset text := by
  induction text generalizing count offset with
  | nil =>
    obtain rfl := Nat.eq_zero_of_le_zero within
    simp [charsWithin]
  | cons symbol text ih =>
    cases count with
    | zero => simp
    | succ count =>
      have tail := ih count (offset - symbol.width) (Nat.le_of_succ_le_succ within)
      rw [List.take_succ_cons, Text.byteLength_cons, charsWithin]
      split <;> omega

theorem charsWithin_of_isAscii (text : Text) (offset : Nat) (ascii : Text.isAscii text = true)
    (inside : offset ≤ text.length) : charsWithin offset text = offset := by
  have whole := charsWithin_byteLength (text.take offset) (text.drop offset)
  rwa [List.take_append_drop, Text.byteLength_of_isAscii _ (Text.isAscii_take text offset ascii),
    List.length_take_of_le inside] at whole

theorem convert_ascii (text : Text) (ascii : Text.isAscii text = true) (offset : Int) :
    charOfByte offset text = checked "byte" offset text.length text ∧
      byteOfChar offset text = checked "character" offset text.length text := by
  have size := Text.byteLength_of_isAscii text ascii
  rw [charOfByte, byteOfChar, size]
  constructor
  · rcases checked_cases "byte" offset text.length text with ⟨place, _, inside, found⟩ | ⟨_, missing⟩
    · rw [found]
      exact congrArg Except.ok (charsWithin_of_isAscii text place ascii inside)
    · rw [missing]
      rfl
  · rcases checked_cases "character" offset text.length text with ⟨place, _, inside, found⟩ | ⟨_, missing⟩
    · rw [found]
      exact congrArg Except.ok ((Text.byteLength_of_isAscii _ (Text.isAscii_take text place ascii)).trans
        (List.length_take_of_le inside))
    · rw [missing]
      rfl

/-- The conversions are adjoint, and the one into bytes followed by the other one changes nothing. Each fails at the
offsets outside its range, and on a text of ASCII characters it only looks whether the offset is in range. -/
theorem conversions_adjoint (text : Text) :
    (∀ count ≤ text.length, ∀ offset ≤ Text.byteLength text, ∃ place found,
      byteOfChar count text = .ok place ∧ charOfByte offset text = .ok found ∧ (place ≤ offset ↔ count ≤ found)) ∧
    (∀ count ≤ text.length, ∃ place, byteOfChar count text = .ok place ∧ charOfByte place text = .ok count) ∧
    (∀ offset error, byteOfChar offset text = .error error ↔
      (offset < 0 ∨ text.length < offset) ∧ error = .outside "character" offset text.length text) ∧
    (∀ offset error, charOfByte offset text = .error error ↔
      (offset < 0 ∨ Text.byteLength text < offset) ∧ error = .outside "byte" offset (Text.byteLength text) text) ∧
    (Text.isAscii text = true → Text.byteLength text = text.length ∧ ∀ offset,
      charOfByte offset text = checked "byte" offset text.length text ∧
      byteOfChar offset text = checked "character" offset text.length text) := by
  refine ⟨fun count within offset inside => ?_, fun count within => ?_, fun offset error => ?_, fun offset error => ?_,
    fun ascii => ⟨Text.byteLength_of_isAscii text ascii, convert_ascii text ascii⟩⟩
  · refine ⟨_, _, (byteOfChar_eq_ok_iff count text _).mpr ⟨within, rfl⟩, ?_, byteLength_take_le_iff text count offset within⟩
    rw [charOfByte_natCast, if_pos inside]
  · refine ⟨_, (byteOfChar_eq_ok_iff count text _).mpr ⟨within, rfl⟩, ?_⟩
    have back := charOfByte_byteLength (text.take count) (text.drop count)
    rwa [List.take_append_drop, List.length_take_of_le within] at back
  · exact convert_eq_error_iff "character" offset text.length text _ error
  · exact convert_eq_error_iff "byte" offset (Text.byteLength text) text _ error

/-- The offset in bytes lies inside the euro sign, and the byte before the sign is a stray one. -/
theorem conversions_within_sign :
    (∃ place found, byteOfChar (2 : Nat) [.stray 0xE2 (by decide), .char '€', .char 'a'] = .ok place ∧
      charOfByte (3 : Nat) [.stray 0xE2 (by decide), .char '€', .char 'a'] = .ok found ∧ (place ≤ 3 ↔ 2 ≤ found) ∧
      place = 4 ∧ found = 1) ∧
    charOfByte (4 : Nat) [.stray 0xE2 (by decide), .char '€', .char 'a'] = .ok 2 ∧
    Text.byteLength (Text.ofString "$a") = 2 := by
  obtain ⟨adjoint, back, _⟩ := conversions_adjoint [.stray 0xE2 (by decide), .char '€', .char 'a']
  obtain ⟨place, found, placed, counted, related⟩ := adjoint 2 (by decide) 3 (by decide)
  obtain ⟨again, placedAgain, returned⟩ := back 2 (by decide)
  have four : byteOfChar (2 : Nat) [.stray 0xE2 (by decide), .char '€', .char 'a'] = .ok 4 := rfl
  have one : charOfByte (3 : Nat) [.stray 0xE2 (by decide), .char '€', .char 'a'] = .ok 1 := rfl
  obtain rfl := Except.ok.inj (placed.symm.trans four)
  obtain rfl := Except.ok.inj (counted.symm.trans one)
  obtain rfl := Except.ok.inj (placedAgain.symm.trans four)
  exact ⟨⟨4, 1, placed, counted, related, rfl, rfl⟩, returned,
    ((conversions_adjoint (Text.ofString "$a")).2.2.2.2 (by decide)).1⟩

end Offset
end AccessChain
