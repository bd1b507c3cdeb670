import AccessChain.Text.Decoding

/-! Decoding against encoding. No byte is lost, reading can start again behind any symbol, and a byte
below 0x80 is always a character of its own. -/
namespace AccessChain.Text

/-- The texts that reading some bytes gives. -/
def Decoded (text : Text) : Prop := ∃ bytes, decode bytes = text

theorem encodeChar_of_charOf? (piece : List UInt8) (value : Char) (found : charOf? piece = some value) :
    String.utf8EncodeChar value = piece := by
  dsimp only [charOf?] at found
  split at found
  · next same =>
    cases found
    exact same
  · next different => contradiction

theorem prefix_of_multibyte? (bytes : List UInt8) (value : Char) (found : multibyte? bytes = some value) :
    String.utf8EncodeChar value <+: bytes := by
  obtain ⟨size, _, read⟩ := List.exists_of_findSome?_eq_some found
  rw [encodeChar_of_charOf? _ _ read]
  exact List.take_prefix size bytes

theorem drop_of_encodeChar (value : Char) (byte : UInt8) (rest remaining : List UInt8)
    (starts : String.utf8EncodeChar value ++ remaining = byte :: rest) :
    rest.drop (value.utf8Size - 1) = remaining := by
  obtain ⟨more, wide⟩ := Nat.exists_eq_add_one.mpr value.utf8Size_pos
  calc
    rest.drop (value.utf8Size - 1) = (byte :: rest).drop value.utf8Size := by
      rw [wide, List.drop_succ_cons, Nat.add_sub_cancel]
    _ = remaining := by
      rw [← starts, ← String.length_utf8EncodeChar, List.drop_left]

theorem val_ofNat (point : Nat) (valid : point.isValidChar) : (Char.ofNat point).val.toNat = point := by
  rw [Char.ofNat, dif_pos valid]
  rfl

theorem encodeChar_of_low (byte : UInt8) (low : byte < 0x80) :
    String.utf8EncodeChar (Char.ofNat byte.toNat) = [byte] := by
  have small : byte.toNat < 128 := UInt8.lt_iff_toNat_lt.mp low
  unfold String.utf8EncodeChar
  rw [val_ofNat byte.toNat (by left; omega)]
  simp [show byte.toNat ≤ 127 by omega]

theorem bytes_of_low (value : Char) (low : value.toNat < 0x80) :
    (Sym.char value).bytes = [UInt8.ofNat value.toNat] := by
  have small : value.val.toNat ≤ 127 := Nat.le_of_lt_succ low
  change String.utf8EncodeChar value = _
  unfold String.utf8EncodeChar
  exact if_pos small

theorem high_ofNat (value : Nat) (least : 0x80 ≤ value) (most : value < 0x100) :
    (0x80 : UInt8) ≤ UInt8.ofNat value := by
  rw [UInt8.le_iff_toNat_le, UInt8.toNat_ofNat', Nat.mod_eq_of_lt most]
  exact least

theorem high_of_mem_bytes (symbol : Sym) (byte : UInt8) (member : byte ∈ symbol.bytes)
    (outside : ∀ value, symbol = .char value → 0x80 ≤ value.toNat) : 0x80 ≤ byte := by
  cases symbol with
  | stray other high =>
    have same : byte = other := List.mem_singleton.mp member
    rw [same]
    exact high
  | char value =>
    have large : ¬ value.val.toNat ≤ 127 := Nat.not_le_of_lt (outside value rfl)
    change byte ∈ String.utf8EncodeChar value at member
    unfold String.utf8EncodeChar at member
    simp only [large, if_false] at member
    split at member
    · simp only [List.mem_cons, List.not_mem_nil, or_false] at member
      rcases member with rfl | rfl <;> exact high_ofNat _ (by omega) (by omega)
    · split at member
      · simp only [List.mem_cons, List.not_mem_nil, or_false] at member
        rcases member with rfl | rfl | rfl <;> exact high_ofNat _ (by omega) (by omega)
      · simp only [List.mem_cons, List.not_mem_nil, or_false] at member
        rcases member with rfl | rfl | rfl | rfl <;> exact high_ofNat _ (by omega) (by omega)

/-- A byte below 0x80 occurs in no symbol but the character that it encodes. -/
theorem eq_char_of_mem_bytes (symbol : Sym) (value : Char) (low : value.toNat < 0x80)
    (member : UInt8.ofNat value.toNat ∈ symbol.bytes) : symbol = .char value := by
  have small : (UInt8.ofNat value.toNat).toNat = value.toNat := by
    rw [UInt8.toNat_ofNat']
    omega
  by_cases outside : ∀ other, symbol = .char other → 0x80 ≤ other.toNat
  · have high := high_of_mem_bytes symbol _ member outside
    rw [UInt8.le_iff_toNat_le, small] at high
    exact absurd low (Nat.not_lt_of_le high)
  · obtain ⟨other, found⟩ := Classical.not_forall.mp outside
    obtain ⟨rfl, notHigh⟩ := Classical.not_imp.mp found
    have otherLow : other.toNat < 0x80 := Nat.lt_of_not_le notHigh
    rw [bytes_of_low other otherLow, List.mem_singleton] at member
    have same : value.toNat = other.toNat := by
      have equal := congrArg UInt8.toNat member
      rw [small, UInt8.toNat_ofNat'] at equal
      omega
    rw [Char.toNat_inj.mp same]

theorem encode_decode (bytes : List UInt8) : encode (decode bytes) = bytes := by
  fun_induction decode bytes with
  | case1 => rfl
  | case2 byte rest low ih =>
    rw [encode_cons, ih]
    simp [Sym.bytes, encodeChar_of_low byte low]
  | case3 byte rest high value found ih =>
    obtain ⟨remaining, starts⟩ := prefix_of_multibyte? _ _ found
    rw [encode_cons, ih, drop_of_encodeChar value byte rest remaining starts]
    exact starts
  | case4 byte rest high missing ih =>
    rw [encode_cons, ih]
    rfl

theorem byteLength_decode (bytes : List UInt8) : byteLength (decode bytes) = bytes.length := by
  rw [byteLength, encode_decode]

theorem decode_encode_of_decoded (text : Text) (decoded : Decoded text) : decode (encode text) = text := by
  obtain ⟨bytes, rfl⟩ := decoded
  rw [encode_decode]

theorem decode_tail (symbol : Sym) (rest : Text) (bytes : List UInt8)
    (read : decode bytes = symbol :: rest) : ∃ remaining, decode remaining = rest := by
  unfold decode at read
  split at read
  · contradiction
  · next byte more =>
    split at read
    · cases read
      exact ⟨_, rfl⟩
    · split at read
      · cases read
        exact ⟨_, rfl⟩
      · cases read
        exact ⟨_, rfl⟩

theorem Decoded.of_append {left right : Text} (decoded : Decoded (left ++ right)) : Decoded right := by
  induction left with
  | nil => exact decoded
  | cons symbol left ih =>
    obtain ⟨bytes, read⟩ := decoded
    exact ih (decode_tail symbol (left ++ right) bytes read)

theorem chars?_ofChars (letters : List Char) : chars? (ofChars letters) = some letters := by
  induction letters with
  | nil => rfl
  | cons letter letters ih =>
    rw [chars?, ofChars, List.map_cons, List.mapM_cons, ← ofChars, ← chars?, ih]
    rfl

theorem eq_ofChars_of_chars? (text : Text) (letters : List Char) (found : chars? text = some letters) :
    text = ofChars letters := by
  induction text generalizing letters with
  | nil =>
    obtain rfl := Option.some.inj found
    rfl
  | cons symbol text ih =>
    rw [chars?, List.mapM_cons] at found
    obtain ⟨letter, here, later⟩ := Option.bind_eq_some_iff.mp found
    obtain ⟨others, rest, same⟩ := Option.bind_eq_some_iff.mp later
    obtain rfl := Option.some.inj same
    cases symbol with
    | stray byte high => contradiction
    | char value =>
      obtain rfl := Option.some.inj here
      rw [ih others rest]
      rfl

end AccessChain.Text
