import AccessChain.Proofs.Decoding
import AccessChain.Proofs.Offsets
import AccessChain.Source.Reading
import Mathlib.Data.Nat.Find

/-! Decoding against UTF-8 as a format. Characters are read wherever their encodings stand. Elsewhere the longest
piece that begins some encoding is an error, or one byte if none begins with it, and its bytes are kept as
stray ones. -/
namespace AccessChain.Text

theorem spelled_encodeChar (value : Char) : spelled (String.utf8EncodeChar value) = value.toNat := by
  have small : value.val.toNat < 0x110000 := by
    rcases value.valid with low | ⟨_, high⟩
    · exact Nat.lt_trans low (by decide)
    · exact high
  change spelled (String.utf8EncodeChar value) = value.val.toNat
  unfold String.utf8EncodeChar
  generalize value.val.toNat = point at small
  have read := fun byte => UInt8.toNat_ofNat' (n := byte)
  dsimp only
  split
  · change (UInt8.ofNat point).toNat = point
    rw [read]
    omega
  · split
    · change ((UInt8.ofNat _).toNat - 0xC0) * 0x40 + ((UInt8.ofNat _).toNat - 0x80) = point
      rw [read, read]
      omega
    · split
      · change ((UInt8.ofNat _).toNat - 0xE0) * 0x1000 + ((UInt8.ofNat _).toNat - 0x80) * 0x40 +
          ((UInt8.ofNat _).toNat - 0x80) = point
        rw [read, read, read]
        omega
      · change ((UInt8.ofNat _).toNat - 0xF0) * 0x40000 + ((UInt8.ofNat _).toNat - 0x80) * 0x1000 +
          ((UInt8.ofNat _).toNat - 0x80) * 0x40 + ((UInt8.ofNat _).toNat - 0x80) = point
        rw [read, read, read, read]
        omega

theorem charOf?_encodeChar (value : Char) : charOf? (String.utf8EncodeChar value) = some value := by
  simp only [charOf?, spelled_encodeChar, Char.ofNat_toNat, if_true]

theorem encodeChar_unique (first second : Char) (bytes : List UInt8)
    (one : String.utf8EncodeChar first <+: bytes) (other : String.utf8EncodeChar second <+: bytes) :
    first = second := by
  obtain ⟨rest, rfl⟩ := one
  obtain ⟨remaining, same⟩ := other
  have read := ByteArray.utf8DecodeChar?_utf8EncodeChar_append (b := rest.toByteArray) (c := first)
  rw [← List.toByteArray_append, ← same, List.toByteArray_append, ByteArray.utf8DecodeChar?_utf8EncodeChar_append] at read
  exact (Option.some.inj read).symm

theorem high_of_no_char (byte : UInt8) (rest : List UInt8)
    (malformed : ∀ value, ¬ String.utf8EncodeChar value <+: byte :: rest) : 0x80 ≤ byte := by
  apply UInt8.not_lt.mp
  intro low
  apply malformed (Char.ofNat byte.toNat)
  rw [encodeChar_of_low byte low]
  exact List.prefix_append [byte] rest

theorem size_of_high (value : Char) (byte : UInt8) (rest : List UInt8) (high : 0x80 ≤ byte)
    (starts : String.utf8EncodeChar value <+: byte :: rest) : value.utf8Size ∈ [2, 3, 4] := by
  have sizes := value.utf8Size_eq
  have several : value.utf8Size ≠ 1 := by
    intro one
    obtain ⟨more, same⟩ := starts
    have low : value.val.toNat ≤ 127 := UInt32.le_iff_toNat_le.mp (Char.utf8Size_eq_one_iff.mp one)
    have bytes : String.utf8EncodeChar value = [UInt8.ofNat value.val.toNat] := bytes_of_low value (Nat.lt_succ_of_le low)
    rw [bytes] at same
    rw [← (List.cons.inj same).1, UInt8.le_iff_toNat_le, UInt8.toNat_ofNat'] at high
    change 128 ≤ _ at high
    omega
  simp only [List.mem_cons, List.not_mem_nil, or_false]
  omega

theorem multibyte?_eq_some_iff (byte : UInt8) (rest : List UInt8) (value : Char) (high : 0x80 ≤ byte) :
    multibyte? (byte :: rest) = some value ↔ String.utf8EncodeChar value <+: byte :: rest := by
  constructor
  · exact prefix_of_multibyte? (byte :: rest) value
  · intro starts
    cases found : multibyte? (byte :: rest) with
    | some other => rw [encodeChar_unique other value _ (prefix_of_multibyte? _ other found) starts]
    | none =>
      have missing := List.findSome?_eq_none_iff.mp found _ (size_of_high value byte rest high starts)
      rw [← String.length_utf8EncodeChar, ← List.prefix_iff_eq_take.mp starts, charOf?_encodeChar] at missing
      contradiction

theorem decode_stray (byte : UInt8) (rest : List UInt8) (high : 0x80 ≤ byte)
    (malformed : ∀ value, ¬ String.utf8EncodeChar value <+: byte :: rest) :
    decode (byte :: rest) = .stray byte high :: decode rest := by
  have missing : multibyte? (byte :: rest) = none := by
    cases found : multibyte? (byte :: rest) with
    | none => rfl
    | some value => exact absurd ((multibyte?_eq_some_iff byte rest value high).mp found) (malformed value)
  rw [decode, dif_neg (UInt8.not_lt.mpr high), missing]

theorem decode_encodeChar_append (value : Char) (rest : List UInt8) :
    decode (String.utf8EncodeChar value ++ rest) = .char value :: decode rest := by
  obtain ⟨byte, more, bytes⟩ := List.exists_cons_of_ne_nil (List.ne_nil_of_length_pos (by
    rw [String.length_utf8EncodeChar]
    exact value.utf8Size_pos))
  have starts : String.utf8EncodeChar value ++ rest = byte :: (more ++ rest) := by rw [bytes, List.cons_append]
  rw [starts, decode]
  by_cases low : byte < 0x80
  · have short := encodeChar_of_low byte low
    have alone : String.utf8EncodeChar (Char.ofNat byte.toNat) <+: byte :: (more ++ rest) := by
      rw [short]
      exact List.prefix_append [byte] _
    have same := encodeChar_unique _ _ _ ⟨rest, starts⟩ alone
    rw [← same, bytes] at short
    rw [dif_pos low, ← same, (List.cons.inj short).2, List.nil_append]
  · have found := (multibyte?_eq_some_iff byte (more ++ rest) value (UInt8.not_lt.mp low)).mpr ⟨rest, starts⟩
    rw [dif_neg low, found]
    simp only [drop_of_encodeChar value byte _ rest starts]

/-- The beginning of a decoded text is read again as it was before any beginning of the rest: no character starts at a
stray byte if none does with all the bytes behind it. -/
theorem decode_encode_append {left right : Text} (decoded : Decoded (left ++ right)) (more : List UInt8)
    (begun : more <+: encode right) : decode (encode left ++ more) = left ++ decode more := by
  induction left with
  | nil => rfl
  | cons symbol left ih =>
    have behind : Decoded ([symbol] ++ (left ++ right)) := decoded
    have tail := ih behind.of_append
    rw [encode_cons, List.append_assoc, List.cons_append, ← tail]
    cases symbol with
    | char value => exact decode_encodeChar_append value (encode left ++ more)
    | stray byte high =>
      apply decode_stray byte (encode left ++ more) high
      rintro value ⟨rest, same⟩
      obtain ⟨remaining, parted⟩ := begun
      have whole := decode_encode_of_decoded _ decoded
      have bytes : encode (.stray byte high :: left ++ right) = byte :: (encode left ++ (more ++ remaining)) := by
        rw [parted, ← encode_append]
        rfl
      rw [bytes, ← List.append_assoc, ← List.cons_append, ← same, List.append_assoc, decode_encodeChar_append] at whole
      exact Sym.noConfusion (List.cons.inj whole).1

theorem Decoded.of_append_right {left right : Text} (decoded : Decoded (left ++ right)) : Decoded left := by
  have alone := decode_encode_append decoded [] List.nil_prefix
  rw [decode, List.append_nil, List.append_nil] at alone
  exact ⟨encode left, alone⟩

/-- A byte below 0x80 in the encoding of a text is the encoding of one of its characters. -/
theorem split_of_encode (value : Char) (low : value.toNat < 0x80) (text : Text) (bytes rest : List UInt8)
    (same : encode text = bytes ++ (Sym.char value).bytes ++ rest) :
    ∃ front back, text = front ++ .char value :: back ∧ encode front = bytes ∧ encode back = rest := by
  have single := bytes_of_low value low
  rw [single, List.append_assoc, List.singleton_append] at same
  induction text generalizing bytes with
  | nil => simp at same
  | cons symbol text ih =>
    rw [encode_cons] at same
    rcases List.append_eq_append_iff.mp same with ⟨more, rfl, later⟩ | ⟨more, first, later⟩
    · obtain ⟨front, back, rfl, before, behind⟩ := ih more later
      exact ⟨symbol :: front, back, rfl, by rw [encode_cons, before], behind⟩
    · cases more with
      | nil =>
        obtain ⟨front, back, rfl, before, behind⟩ := ih [] (by simpa using later.symm)
        rw [List.append_nil] at first
        exact ⟨symbol :: front, back, rfl, by rw [encode_cons, before, List.append_nil, first], behind⟩
      | cons byte more =>
        obtain ⟨rfl, rest⟩ := List.cons.inj later
        obtain rfl := eq_char_of_mem_bytes symbol value low (by
          rw [first]
          simp)
        rw [single, List.singleton_eq_append_iff] at first
        obtain ⟨rfl, last⟩ : bytes = [] ∧ more = [] := by simpa using first
        subst last
        exact ⟨[], text, rfl, rfl, rest.symm⟩

theorem decode_ofChars (characters : List Char) :
    decode (characters.flatMap String.utf8EncodeChar) = ofChars characters := by
  induction characters with
  | nil => simp [decode, ofChars]
  | cons value characters ih =>
    rw [List.flatMap_cons, decode_encodeChar_append, ih]
    rfl

theorem encode_ofChars (characters : List Char) :
    encode (ofChars characters) = characters.flatMap String.utf8EncodeChar := by
  rw [encode, ofChars, List.flatMap_map]
  rfl

theorem ofChars_or_stray (text : Text) :
    (∃ characters, text = ofChars characters) ∨ ∃ byte high, Sym.stray byte high ∈ text := by
  induction text with
  | nil => exact Or.inl ⟨[], rfl⟩
  | cons symbol text ih =>
    cases symbol with
    | stray byte high => exact Or.inr ⟨byte, high, List.mem_cons_self⟩
    | char value =>
      rcases ih with ⟨characters, rfl⟩ | ⟨byte, high, member⟩
      · exact Or.inl ⟨value :: characters, rfl⟩
      · exact Or.inr ⟨byte, high, List.mem_cons_of_mem _ member⟩

theorem isValidUTF8_iff (bytes : List UInt8) :
    bytes.toByteArray.IsValidUTF8 ↔
      ∃ characters : List Char, bytes = characters.flatMap String.utf8EncodeChar := by
  constructor
  · rintro ⟨characters, same⟩
    exact ⟨characters, List.toByteArray_inj.mp same⟩
  · rintro ⟨characters, rfl⟩
    exact ByteArray.isValidUTF8_utf8Encode

theorem stray_mem_decode_iff (bytes : List UInt8) :
    (∃ byte high, Sym.stray byte high ∈ decode bytes) ↔ ¬ bytes.toByteArray.IsValidUTF8 := by
  rw [isValidUTF8_iff]
  constructor
  · rintro ⟨byte, high, member⟩ ⟨characters, rfl⟩
    rw [decode_ofChars, ofChars, List.mem_map] at member
    obtain ⟨value, _, same⟩ := member
    contradiction
  · intro invalid
    rcases ofChars_or_stray (decode bytes) with ⟨characters, same⟩ | found
    · exact absurd ⟨characters, by rw [← encode_ofChars, ← same, encode_decode]⟩ invalid
    · exact found

theorem utf8Decode?_of_valid (bytes : List UInt8) (valid : bytes.toByteArray.IsValidUTF8) :
    bytes.toByteArray.utf8Decode?.map (fun characters => ofChars characters.toList) = some (decode bytes) := by
  obtain ⟨characters, rfl⟩ := (isValidUTF8_iff bytes).mp valid
  rw [show (characters.flatMap String.utf8EncodeChar).toByteArray = characters.utf8Encode from rfl,
    List.utf8Decode?_utf8Encode, decode_ofChars]
  rfl

theorem all_char_iff (text : Text) :
    text.all (·.satisfies fun _ => true) = true ↔ ¬ ∃ byte high, Sym.stray byte high ∈ text := by
  rw [List.all_eq_true]
  constructor
  · rintro all ⟨byte, high, member⟩
    exact absurd (all _ member) Bool.false_ne_true
  · intro unspelled symbol member
    cases symbol with
    | char value => rfl
    | stray byte high => exact absurd ⟨byte, high, member⟩ unspelled

theorem decodeStrict?_eq (bytes : List UInt8) :
    decodeStrict? bytes = bytes.toByteArray.utf8Decode?.map fun characters => ofChars characters.toList := by
  unfold decodeStrict?
  dsimp only
  by_cases valid : bytes.toByteArray.IsValidUTF8
  · rw [utf8Decode?_of_valid bytes valid, if_pos]
    rw [all_char_iff, stray_mem_decode_iff]
    exact not_not_intro valid
  · rw [if_neg]
    · rw [← ByteArray.isSome_utf8Decode?_iff, Bool.not_eq_true, Option.isSome_eq_false_iff, Option.isNone_iff_eq_none] at valid
      rw [valid]
      rfl
    · rw [all_char_iff, stray_mem_decode_iff]
      exact not_not_intro valid

/-- The first bytes of some character's encoding, or all of them. -/
def Begins (piece : List UInt8) : Prop := ∃ value, piece <+: String.utf8EncodeChar value

/-- The bytes that are one error where no character is read: the longest piece there that begins an
encoding, or a single byte that begins none. -/
structure ErrorAt (bytes piece : List UInt8) : Prop where
  front : piece <+: bytes
  nonempty : piece ≠ []
  known : Begins piece ∨ piece.length = 1
  longest : ∀ longer, longer <+: bytes → Begins longer → longer.length ≤ piece.length

def keptBytes (strays : List { byte : UInt8 // 0x80 ≤ byte }) : Text :=
  strays.map fun byte => .stray byte.val byte.property

theorem encode_keptBytes (strays : List { byte : UInt8 // 0x80 ≤ byte }) : encode (keptBytes strays) = strays.unattach := by
  induction strays with
  | nil => rfl
  | cons byte strays ih => exact congrArg (byte.val :: ·) ih

/-- The texts that bytes may be read as, by the longest errors. -/
inductive Reads : List UInt8 → Text → Prop where
  | done : Reads [] []
  | char (value : Char) (rest : List UInt8) (text : Text) (more : Reads rest text) :
      Reads (String.utf8EncodeChar value ++ rest) (.char value :: text)
  | error (strays : List { byte : UInt8 // 0x80 ≤ byte }) (rest : List UInt8) (text : Text)
      (malformed : ∀ value, ¬ String.utf8EncodeChar value <+: strays.unattach ++ rest)
      (piece : ErrorAt (strays.unattach ++ rest) strays.unattach) (more : Reads rest text) :
      Reads (strays.unattach ++ rest) (keptBytes strays ++ text)

def IsContinuation (byte : UInt8) : Prop := 0x80 ≤ byte ∧ byte < 0xC0

theorem isContinuation_ofNat (value : Nat) : IsContinuation (UInt8.ofNat (value % 0x40 + 0x80)) := by
  constructor
  · exact high_ofNat _ (by omega) (by omega)
  · rw [UInt8.lt_iff_toNat_lt, UInt8.toNat_ofNat']
    change _ < 192
    omega

theorem not_isContinuation_ofNat (value : Nat) (apart : value < 0x80 ∨ 0xC0 ≤ value) (most : value < 0x100) :
    ¬ IsContinuation (UInt8.ofNat value) := by
  rintro ⟨high, low⟩
  rw [UInt8.le_iff_toNat_le, UInt8.toNat_ofNat'] at high
  rw [UInt8.lt_iff_toNat_lt, UInt8.toNat_ofNat'] at low
  change 128 ≤ _ at high
  change _ < 192 at low
  omega

theorem encodeChar_shape (value : Char) :
    ∃ byte tail, String.utf8EncodeChar value = byte :: tail ∧ ¬ IsContinuation byte ∧
      ∀ other ∈ tail, IsContinuation other := by
  have payload := isContinuation_ofNat
  unfold String.utf8EncodeChar
  dsimp only
  split
  · exact ⟨_, _, rfl, not_isContinuation_ofNat _ (by omega) (by omega), List.forall_mem_nil _⟩
  · split
    · exact ⟨_, _, rfl, not_isContinuation_ofNat _ (by omega) (by omega),
        List.forall_mem_cons.mpr ⟨payload _, List.forall_mem_nil _⟩⟩
    · split
      · exact ⟨_, _, rfl, not_isContinuation_ofNat _ (by omega) (by omega),
          List.forall_mem_cons.mpr ⟨payload _, List.forall_mem_cons.mpr ⟨payload _, List.forall_mem_nil _⟩⟩⟩
      · exact ⟨_, _, rfl, not_isContinuation_ofNat _ (by omega) (by omega),
          List.forall_mem_cons.mpr ⟨payload _, List.forall_mem_cons.mpr ⟨payload _,
            List.forall_mem_cons.mpr ⟨payload _, List.forall_mem_nil _⟩⟩⟩⟩

/-- Reading stops and starts again at the encoding of every character, whatever bytes stand before it. -/
theorem decode_append_char (value : Char) (bytes rest : List UInt8) :
    decode (bytes ++ (Sym.char value).bytes ++ rest) = decode bytes ++ .char value :: decode rest := by
  generalize count : bytes.length = length
  induction length using Nat.strong_induction_on generalizing bytes with
  | _ length ih =>
    cases bytes with
    | nil =>
      have nothing : decode [] = [] := by rw [decode]
      rw [nothing]
      exact decode_encodeChar_append value rest
    | cons byte bytes =>
      by_cases starts : ∃ other, String.utf8EncodeChar other <+: byte :: bytes
      · obtain ⟨other, more, same⟩ := starts
        have shorter : more.length < length := by
          rw [← count, ← same, List.length_append, String.length_utf8EncodeChar]
          exact Nat.lt_add_of_pos_left other.utf8Size_pos
        have kept := ih _ shorter more rfl
        rw [List.append_assoc] at kept
        rw [← same, List.append_assoc, List.append_assoc, decode_encodeChar_append, decode_encodeChar_append, kept,
          List.cons_append]
      · have malformed : ∀ other, ¬ String.utf8EncodeChar other <+: byte :: bytes := fun other begun => starts ⟨other, begun⟩
        have later : ∀ other, ¬ String.utf8EncodeChar other <+: byte :: (bytes ++ (Sym.char value).bytes ++ rest) := by
          intro other begun
          obtain ⟨behind, whole⟩ := begun
          rw [← List.cons_append, ← List.cons_append, List.append_assoc] at whole
          rcases List.append_eq_append_iff.mp whole with ⟨remaining, parted, _⟩ | ⟨remaining, parted, joined⟩
          · exact malformed other ⟨remaining, parted.symm⟩
          · -- A character that went on behind the bytes would have the first byte of one in the middle.
            obtain ⟨lead, tail, shape, first, _⟩ := encodeChar_shape value
            obtain ⟨_, others, otherShape, _, continuations⟩ := encodeChar_shape other
            rw [Sym.bytes, shape, List.cons_append] at joined
            cases remaining with
            | nil => exact malformed other ⟨[], by rw [List.append_nil, parted, List.append_nil]⟩
            | cons next remaining =>
              rw [otherShape, List.cons_append] at parted
              obtain ⟨rfl, _⟩ := List.cons.inj joined
              refine first (continuations lead ?_)
              rw [(List.cons.inj parted).2]
              simp
        have high := high_of_no_char byte bytes malformed
        have shorter : bytes.length < length := by
          rw [← count]
          exact Nat.lt_succ_self _
        have kept := ih _ shorter bytes rfl
        rw [List.cons_append, List.cons_append, decode_stray byte _ high later, decode_stray byte bytes high malformed, kept,
          List.cons_append]

theorem ErrorAt.continuations {bytes rest : List UInt8} {byte : UInt8} (error : ErrorAt bytes (byte :: rest)) :
    ∀ other ∈ rest, IsContinuation other := by
  intro other member
  rcases error.known with ⟨value, begins⟩ | single
  · obtain ⟨first, tail, shape, _, continuations⟩ := encodeChar_shape value
    rw [shape, List.cons_prefix_cons] at begins
    exact continuations other (begins.2.subset member)
  · rw [List.length_cons, Nat.add_eq_right, List.length_eq_zero_iff] at single
    rw [single] at member
    exact absurd member List.not_mem_nil

theorem no_char_of_continuation (byte : UInt8) (rest : List UInt8) (continuation : IsContinuation byte)
    (value : Char) : ¬ String.utf8EncodeChar value <+: byte :: rest := by
  intro starts
  obtain ⟨first, tail, shape, lead, _⟩ := encodeChar_shape value
  rw [shape, List.cons_prefix_cons] at starts
  rw [starts.1] at lead
  exact lead continuation

theorem decode_continuations (strays : List { byte : UInt8 // 0x80 ≤ byte }) (rest : List UInt8)
    (continuations : ∀ byte ∈ strays.unattach, IsContinuation byte) :
    decode (strays.unattach ++ rest) = keptBytes strays ++ decode rest := by
  induction strays with
  | nil => rfl
  | cons byte strays ih =>
    rw [List.unattach_cons] at continuations ⊢
    rw [List.cons_append, decode_stray byte.val _ byte.property
      (no_char_of_continuation _ _ (continuations _ List.mem_cons_self)),
      ih fun other member => continuations other (List.mem_cons_of_mem _ member)]
    rfl

theorem decode_error (strays : List { byte : UInt8 // 0x80 ≤ byte }) (rest : List UInt8)
    (malformed : ∀ value, ¬ String.utf8EncodeChar value <+: strays.unattach ++ rest)
    (piece : ErrorAt (strays.unattach ++ rest) strays.unattach) :
    decode (strays.unattach ++ rest) = keptBytes strays ++ decode rest := by
  cases strays with
  | nil => exact absurd rfl piece.nonempty
  | cons byte strays =>
    rw [List.unattach_cons] at malformed piece ⊢
    rw [List.cons_append, decode_stray byte.val (strays.unattach ++ rest) byte.property malformed,
      decode_continuations strays rest piece.continuations]
    rfl

theorem exists_errorAt (bytes : List UInt8) (nonempty : bytes ≠ []) :
    ∃ piece rest, bytes = piece ++ rest ∧ ErrorAt bytes piece := by
  classical
  have least : Begins (bytes.take 0) := ⟨Char.ofNat 0, List.nil_prefix⟩
  have begins := Nat.findGreatest_spec (P := fun size => Begins (bytes.take size)) (Nat.zero_le bytes.length) least
  have greatest := fun size => Nat.le_findGreatest (P := fun size => Begins (bytes.take size)) (m := size) (n := bytes.length)
  generalize Nat.findGreatest (fun size => Begins (bytes.take size)) bytes.length = size at begins greatest
  have positive : 0 < bytes.length := List.length_pos_iff.mpr nonempty
  have longest : ∀ longer, longer <+: bytes → Begins longer → longer.length ≤ size := by
    intro longer front known
    exact greatest _ front.length_le (by rwa [← List.prefix_iff_eq_take.mp front])
  -- If only the empty piece begins an encoding, the error is one byte.
  refine ⟨bytes.take (max 1 size), bytes.drop (max 1 size), (List.take_append_drop _ _).symm,
    List.take_prefix _ _, ?_, ?_, ?_⟩
  · rintro empty
    rcases List.take_eq_nil_iff.mp empty with zero | empty
    · omega
    · exact nonempty empty
  · by_cases zero : size = 0
    · exact Or.inr (by rw [List.length_take]; omega)
    · exact Or.inl (by rwa [Nat.max_eq_right (Nat.one_le_iff_ne_zero.mpr zero)])
  · intro longer front known
    have bound := longest longer front known
    have within := front.length_le
    rw [List.length_take]
    omega

theorem exists_strays (bytes : List UInt8) (high : ∀ byte ∈ bytes, 0x80 ≤ byte) :
    ∃ strays : List { byte : UInt8 // 0x80 ≤ byte }, strays.unattach = bytes :=
  ⟨bytes.attachWith _ high, List.unattach_attachWith⟩

theorem exists_error (bytes : List UInt8) (malformed : ∀ value, ¬ String.utf8EncodeChar value <+: bytes)
    (nonempty : bytes ≠ []) :
    ∃ (strays : List { byte : UInt8 // 0x80 ≤ byte }) (rest : List UInt8),
      bytes = strays.unattach ++ rest ∧ ErrorAt (strays.unattach ++ rest) strays.unattach := by
  obtain ⟨piece, rest, rfl, error⟩ := exists_errorAt bytes nonempty
  have high : ∀ byte ∈ piece, 0x80 ≤ byte := by
    intro byte member
    cases piece with
    | nil => exact absurd member List.not_mem_nil
    | cons first piece =>
      rcases List.mem_cons.mp member with rfl | behind
      · exact high_of_no_char _ _ malformed
      · exact (error.continuations byte behind).1
  obtain ⟨strays, rfl⟩ := exists_strays piece high
  exact ⟨strays, rest, rfl, error⟩

theorem reads_decode (bytes : List UInt8) : Reads bytes (decode bytes) := by
  induction length : bytes.length using Nat.strong_induction_on generalizing bytes with
  | _ length ih =>
    by_cases starts : ∃ value, String.utf8EncodeChar value <+: bytes
    · obtain ⟨value, rest, rfl⟩ := starts
      rw [decode_encodeChar_append]
      refine .char value rest _ (ih rest.length ?_ rest rfl)
      have size := value.utf8Size_pos
      rw [← length, List.length_append, String.length_utf8EncodeChar]
      omega
    · have malformed := not_exists.mp starts
      by_cases empty : bytes = []
      · rw [empty, decode]
        exact .done
      · -- No character starts here, so an error does, and it leaves less to read.
        obtain ⟨strays, rest, rfl, error⟩ := exists_error bytes malformed empty
        rw [decode_error strays rest malformed error]
        refine .error strays rest _ malformed error (ih rest.length ?_ rest rfl)
        have size := List.length_pos_iff.mpr error.nonempty
        rw [← length, List.length_append]
        omega

theorem reads_iff (bytes : List UInt8) (text : Text) : Reads bytes text ↔ text = decode bytes := by
  constructor
  · intro reads
    induction reads with
    | done => rw [decode]
    | char value rest text more ih => rw [decode_encodeChar_append, ih]
    | error strays rest text malformed piece more ih => rw [decode_error strays rest malformed piece, ih]
  · rintro rfl
    exact reads_decode bytes

example : decode [0xE2, 0x82, 0x41] = [.stray 0xE2 (by decide), .stray 0x82 (by decide), .char 'A'] := by decide +kernel

theorem ofBytes_of_valid (detect : List UInt8 → Option Text) (bytes : List UInt8)
    (valid : bytes.toByteArray.IsValidUTF8) : Source.ofBytes detect bytes = decode bytes := by
  rw [Source.ofBytes, decodeStrict?_eq, utf8Decode?_of_valid bytes valid]
  rfl

theorem ofBytes_of_undetected (detect : List UInt8 → Option Text) (bytes : List UInt8)
    (undetected : detect bytes = none) : Source.ofBytes detect bytes = decode bytes := by
  rw [Source.ofBytes, undetected, Option.or_none, decodeStrict?]
  split
  · rfl
  · rfl

/-- A character's place in the text of some bytes is a place in the bytes themselves. -/
theorem byteOfChar_decode (bytes : List UInt8) (count : Nat) (within : count ≤ (decode bytes).length) :
    ∃ place, Offset.byteOfChar count (decode bytes) = .ok place ∧
      bytes.take place = encode ((decode bytes).take count) ∧
      bytes.drop place = encode ((decode bytes).drop count) := by
  have before := take_byteLength ((decode bytes).take count) ((decode bytes).drop count)
  have behind := drop_byteLength ((decode bytes).take count) ((decode bytes).drop count)
  rw [List.take_append_drop, encode_decode] at before behind
  exact ⟨_, (Offset.byteOfChar_eq_ok_iff _ _ _).mpr ⟨within, rfl⟩, before, behind⟩

theorem decode_keeps_bytes (bytes : List UInt8) :
    encode (decode bytes) = bytes ∧
    (∀ text, Reads bytes text ↔ text = decode bytes) ∧
    ((∃ byte high, Sym.stray byte high ∈ decode bytes) ↔ ¬ bytes.toByteArray.IsValidUTF8) ∧
    (bytes.toByteArray.IsValidUTF8 →
      bytes.toByteArray.utf8Decode?.map (fun characters => ofChars characters.toList) = some (decode bytes)) ∧
    decodeStrict? bytes = bytes.toByteArray.utf8Decode?.map (fun characters => ofChars characters.toList) ∧
    ∀ detect : List UInt8 → Option Text, bytes.toByteArray.IsValidUTF8 ∨ detect bytes = none →
      encode (Source.ofBytes detect bytes) = bytes ∧
      ∀ count ≤ (Source.ofBytes detect bytes).length, ∃ place,
        Offset.byteOfChar count (Source.ofBytes detect bytes) = .ok place ∧
        bytes.take place = encode ((Source.ofBytes detect bytes).take count) ∧
        bytes.drop place = encode ((Source.ofBytes detect bytes).drop count) := by
  refine ⟨encode_decode bytes, reads_iff bytes, stray_mem_decode_iff bytes, utf8Decode?_of_valid bytes,
    decodeStrict?_eq bytes, ?_⟩
  intro detect kept
  have same : Source.ofBytes detect bytes = decode bytes := by
    rcases kept with valid | undetected
    · exact ofBytes_of_valid detect bytes valid
    · exact ofBytes_of_undetected detect bytes undetected
  rw [same]
  exact ⟨encode_decode bytes, byteOfChar_decode bytes⟩

end AccessChain.Text
