import AccessChain.Proofs.StrayBytes

/-! The texts that bytes are read as. Writing a text as bytes and reading them gives the text back unless stray bytes
stand in it that are a character's encoding together. -/
namespace AccessChain.Text

/-- The well-formed sequences of more than one byte, by the range of each byte. The second one is not free behind four
leading bytes: that leaves out overlong forms, surrogates and values above U+10FFFF. -/
inductive IsWellFormed : List UInt8 → Prop where
  | two (lead second : UInt8) (least : 0xC2 ≤ lead) (most : lead < 0xE0) (next : IsContinuation second) :
      IsWellFormed [lead, second]
  | three (lead second third : UInt8) (least : 0xE0 ≤ lead) (most : lead < 0xF0)
      (long : lead = 0xE0 → 0xA0 ≤ second) (scalar : lead = 0xED → second < 0xA0)
      (next : IsContinuation second) (last : IsContinuation third) : IsWellFormed [lead, second, third]
  | four (lead second third fourth : UInt8) (least : 0xF0 ≤ lead) (most : lead < 0xF5)
      (long : lead = 0xF0 → 0x90 ≤ second) (scalar : lead = 0xF4 → second < 0x90)
      (next : IsContinuation second) (further : IsContinuation third) (last : IsContinuation fourth) :
      IsWellFormed [lead, second, third, fourth]

theorem isWellFormed_encodeChar (value : Char) (several : value.utf8Size ≠ 1) :
    IsWellFormed (String.utf8EncodeChar value) := by
  have high : ¬ value.val.toNat ≤ 0x7F := fun low =>
    several (Char.utf8Size_eq_one_iff.mpr (UInt32.le_iff_toNat_le.mpr low))
  have valid : value.val.toNat < 0xD800 ∨ 0xDFFF < value.val.toNat ∧ value.val.toNat < 0x110000 := value.valid
  have payload := isContinuation_ofNat
  unfold String.utf8EncodeChar
  generalize value.val.toNat = point at high valid
  simp only [high, if_false]
  split
  · apply IsWellFormed.two _ _ _ _ (payload _)
    all_goals
      simp only [UInt8.le_iff_toNat_le, UInt8.lt_iff_toNat_lt, UInt8.toNat_ofNat', UInt8.reduceToNat]
      omega
  split
  · apply IsWellFormed.three _ _ _ _ _ _ _ (payload _) (payload _)
    all_goals
      simp only [UInt8.le_iff_toNat_le, UInt8.lt_iff_toNat_lt, ← UInt8.toNat_inj, UInt8.toNat_ofNat', UInt8.reduceToNat]
      omega
  · apply IsWellFormed.four _ _ _ _ _ _ _ _ (payload _) (payload _) (payload _)
    all_goals
      simp only [UInt8.le_iff_toNat_le, UInt8.lt_iff_toNat_lt, ← UInt8.toNat_inj, UInt8.toNat_ofNat', UInt8.reduceToNat]
      omega

theorem encodeChar_spelled (bytes : List UInt8) (sequence : IsWellFormed bytes) :
    String.utf8EncodeChar (Char.ofNat (spelled bytes)) = bytes := by
  cases sequence with
  | two lead second least most next =>
    simp only [IsContinuation, UInt8.le_iff_toNat_le, UInt8.lt_iff_toNat_lt, UInt8.reduceToNat] at least most next
    have value : spelled [lead, second] = (lead.toNat - 0xC0) * 0x40 + (second.toNat - 0x80) := rfl
    generalize spelled [lead, second] = point at value
    have valid : point.isValidChar := .inl (by omega)
    rw [String.utf8EncodeChar, val_ofNat point valid]
    simp only [if_neg (show ¬ point ≤ 0x7F by omega), if_pos (show point ≤ 0x7FF by omega), List.cons.injEq, and_true,
      UInt8.ofNat_eq_iff_mod_eq_toNat]
    omega
  | three lead second third least most long scalar next last =>
    simp only [IsContinuation, UInt8.le_iff_toNat_le, UInt8.lt_iff_toNat_lt, ← UInt8.toNat_inj, UInt8.reduceToNat]
      at least most long scalar next last
    have value : spelled [lead, second, third] =
      (lead.toNat - 0xE0) * 0x1000 + (second.toNat - 0x80) * 0x40 + (third.toNat - 0x80) := rfl
    generalize spelled [lead, second, third] = point at value
    have valid : point.isValidChar := by
      unfold Nat.isValidChar
      omega
    rw [String.utf8EncodeChar, val_ofNat point valid]
    simp only [if_neg (show ¬ point ≤ 0x7F by omega), if_neg (show ¬ point ≤ 0x7FF by omega),
      if_pos (show point ≤ 0xFFFF by omega), List.cons.injEq, and_true, UInt8.ofNat_eq_iff_mod_eq_toNat]
    omega
  | four lead second third fourth least most long scalar next further last =>
    simp only [IsContinuation, UInt8.le_iff_toNat_le, UInt8.lt_iff_toNat_lt, ← UInt8.toNat_inj, UInt8.reduceToNat]
      at least most long scalar next further last
    have value : spelled [lead, second, third, fourth] = (lead.toNat - 0xF0) * 0x40000 +
      (second.toNat - 0x80) * 0x1000 + (third.toNat - 0x80) * 0x40 + (fourth.toNat - 0x80) := rfl
    generalize spelled [lead, second, third, fourth] = point at value
    have valid : point.isValidChar := by
      unfold Nat.isValidChar
      omega
    rw [String.utf8EncodeChar, val_ofNat point valid]
    simp only [if_neg (show ¬ point ≤ 0x7F by omega), if_neg (show ¬ point ≤ 0x7FF by omega),
      if_neg (show ¬ point ≤ 0xFFFF by omega), List.cons.injEq, and_true, UInt8.ofNat_eq_iff_mod_eq_toNat]
    omega

/-- Somewhere in a text, stray bytes side by side are a well-formed sequence. -/
def SpellsSequence (text : Text) : Prop :=
  ∃ strays : List { byte : UInt8 // 0x80 ≤ byte }, IsWellFormed strays.unattach ∧ keptBytes strays <:+: text

/-- A character's bytes begin with one that continues none, so no continuation byte at the front of a text is part of a
character. -/
theorem strays_of_continuations (bytes : List UInt8) (text : Text) (continuations : ∀ byte ∈ bytes, IsContinuation byte)
    (front : bytes <+: encode text) :
    ∃ strays : List { byte : UInt8 // 0x80 ≤ byte }, strays.unattach = bytes ∧ keptBytes strays <+: text := by
  induction bytes generalizing text with
  | nil => exact ⟨[], rfl, List.nil_prefix⟩
  | cons byte bytes ih =>
    cases text with
    | nil => exact absurd (List.prefix_nil.mp front) (List.cons_ne_nil _ _)
    | cons symbol text =>
      cases symbol with
      | char value =>
        obtain ⟨first, tail, shape, lead, _⟩ := encodeChar_shape value
        rw [encode_cons, Sym.bytes, shape, List.cons_append, List.cons_prefix_cons] at front
        exact absurd (front.1 ▸ continuations byte List.mem_cons_self) lead
      | stray other high =>
        rw [encode_cons, Sym.bytes, List.singleton_append, List.cons_prefix_cons] at front
        obtain ⟨rfl, behind⟩ := front
        obtain ⟨strays, rfl, inside⟩ := ih text (fun next member => continuations next (List.mem_cons_of_mem _ member)) behind
        exact ⟨⟨byte, high⟩ :: strays, rfl, List.cons_prefix_cons.mpr ⟨rfl, inside⟩⟩

theorem spellsSequence_of_char (byte : UInt8) (high : 0x80 ≤ byte) (text : Text) (value : Char)
    (starts : String.utf8EncodeChar value <+: byte :: encode text) : SpellsSequence (.stray byte high :: text) := by
  have sizes := size_of_high value byte (encode text) high starts
  have sequence := isWellFormed_encodeChar value (by
    rintro one
    rw [one] at sizes
    exact absurd sizes (by decide))
  obtain ⟨first, tail, shape, _, continuations⟩ := encodeChar_shape value
  rw [shape] at starts sequence
  obtain ⟨rfl, behind⟩ := List.cons_prefix_cons.mp starts
  obtain ⟨strays, rfl, inside⟩ := strays_of_continuations tail text continuations behind
  exact ⟨⟨first, high⟩ :: strays, sequence, (List.cons_prefix_cons.mpr ⟨rfl, inside⟩).isInfix⟩

theorem decode_encode_of_not_spells (text : Text) (unspelled : ¬ SpellsSequence text) : decode (encode text) = text := by
  induction text with
  | nil => simp [decode]
  | cons symbol text ih =>
    have tail : decode (encode text) = text := by
      apply ih
      rintro ⟨strays, sequence, inside⟩
      exact unspelled ⟨strays, sequence, inside.trans (List.suffix_cons symbol text).isInfix⟩
    cases symbol with
    | char value => exact (decode_encodeChar_append value (encode text)).trans (congrArg _ tail)
    | stray byte high =>
      have apart := fun value starts => unspelled (spellsSequence_of_char byte high text value starts)
      exact (decode_stray byte (encode text) high apart).trans (congrArg _ tail)

theorem not_spells_of_decoded (text : Text) (decoded : Decoded text) : ¬ SpellsSequence text := by
  rintro ⟨strays, sequence, left, right, rfl⟩
  rw [List.append_assoc] at decoded
  have kept := decode_encode_of_decoded _ decoded.of_append
  rw [encode_append, encode_keptBytes, ← encodeChar_spelled _ sequence, decode_encodeChar_append] at kept
  cases strays with
  | nil => cases sequence
  | cons byte strays => exact Sym.noConfusion (List.cons.inj kept).1

/-- The texts that bytes are read as are those that a round trip through their bytes gives back, and those in which no
stray bytes are a well-formed sequence. -/
theorem decode_encode_iff (text : Text) :
    (Decoded text ↔ decode (encode text) = text) ∧
    (decode (encode text) = text ↔ ¬ SpellsSequence text) ∧
    ∀ characters, decode (encode (ofChars characters)) = ofChars characters := by
  refine ⟨⟨decode_encode_of_decoded text, fun same => ⟨_, same⟩⟩, ⟨fun same => ?_, decode_encode_of_not_spells text⟩,
    fun characters => ?_⟩
  · exact not_spells_of_decoded text ⟨_, same⟩
  · rw [encode_ofChars, decode_ofChars]

example : decode (encode [.stray 0xC3 (by decide), .stray 0xA9 (by decide)]) = [.char 'é'] := by decide +kernel

end AccessChain.Text
