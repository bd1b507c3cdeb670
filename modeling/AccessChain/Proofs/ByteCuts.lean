import AccessChain.Proofs.StrayBytes

/-! Cutting bytes in two. What is read in front of the cut does not change, and neither does what is read behind it. Only
a character that the cut goes through is lost: its bytes on either side become stray ones. -/
namespace AccessChain

namespace Text

section Character
variable (value : Char) (part : Nat) (positive : 0 < part)
include positive

/-- The first bytes of a character, but not all of them, are one error. -/
theorem decode_take_bytes (short : part < (Sym.char value).width) :
    ∃ strays : List { byte : UInt8 // 0x80 ≤ byte }, strays.unattach = (Sym.char value).bytes.take part ∧
      decode ((Sym.char value).bytes.take part) = keptBytes strays := by
  have size : ((Sym.char value).bytes.take part).length = part := List.length_take_of_le (Nat.le_of_lt short)
  have front : (Sym.char value).bytes.take part <+: String.utf8EncodeChar value := List.take_prefix part _
  generalize (Sym.char value).bytes.take part = piece at size front
  have malformed : ∀ other, ¬ String.utf8EncodeChar other <+: piece := by
    intro other whole
    obtain rfl := encodeChar_unique other value _ (whole.trans front) (List.prefix_refl _)
    have long : (Sym.char other).width ≤ piece.length := whole.length_le
    omega
  obtain ⟨strays, rest, rfl, error⟩ := exists_error piece malformed (List.ne_nil_of_length_pos (by omega))
  have long := error.longest _ (List.prefix_refl _) ⟨value, front⟩
  obtain rfl : rest = [] := List.eq_nil_of_length_eq_zero (by
    rw [List.length_append] at long
    omega)
  refine ⟨strays, (List.append_nil _).symm, ?_⟩
  rw [decode_error strays [] malformed error, decode, List.append_nil]

/-- The last bytes of a character, but not all of them, begin no character. -/
theorem decode_drop_bytes (rest : List UInt8) :
    ∃ strays : List { byte : UInt8 // 0x80 ≤ byte }, strays.unattach = (Sym.char value).bytes.drop part ∧
      decode ((Sym.char value).bytes.drop part ++ rest) = keptBytes strays ++ decode rest := by
  obtain ⟨first, tail, shape, _, continuations⟩ := encodeChar_shape value
  have behind : ∀ byte ∈ (Sym.char value).bytes.drop part, IsContinuation byte := by
    obtain ⟨more, rfl⟩ := Nat.exists_eq_add_one.mpr positive
    rw [Sym.bytes, shape, List.drop_succ_cons]
    exact fun byte member => continuations byte (List.mem_of_mem_drop member)
  obtain ⟨strays, same⟩ := exists_strays _ fun byte member => (behind byte member).1
  rw [← same] at behind ⊢
  exact ⟨strays, rfl, decode_continuations strays rest behind⟩

end Character

/-- Where bytes are cut, the text in front is what it was, with as many stray bytes behind it as the cut goes into a
character, and the text behind is what it was, or what was behind that character. -/
theorem decode_cut (bytes : List UInt8) (cut : Nat) (inside : cut ≤ bytes.length) :
    ∃ count place, Offset.charOfByte cut (decode bytes) = .ok count ∧
      Offset.byteOfChar count (decode bytes) = .ok place ∧ place ≤ cut ∧
      (∃ strays : List { byte : UInt8 // 0x80 ≤ byte }, strays.unattach = (bytes.take cut).drop place ∧
        decode (bytes.take cut) = (decode bytes).take count ++ keptBytes strays) ∧
      (place = cut → decode (bytes.drop cut) = (decode bytes).drop count) ∧
      (place < cut → ∃ strays : List { byte : UInt8 // 0x80 ≤ byte },
        decode (bytes.drop cut) = keptBytes strays ++ (decode bytes).drop (count + 1)) := by
  have kept := encode_decode bytes
  have decoded : Decoded (decode bytes) := ⟨bytes, rfl⟩
  have within : cut ≤ byteLength (decode bytes) := by rwa [byteLength, kept]
  generalize decode bytes = text at kept decoded within
  subst kept
  rcases Offset.place_cases cut text within with
    ⟨left, right, rfl, rfl⟩ | ⟨left, symbol, right, part, rfl, rfl, positive, short⟩
  · refine ⟨left.length, byteLength left, Offset.charOfByte_byteLength left right, Offset.byteOfChar_length left right,
      Nat.le_refl _, ⟨[], ?_, ?_⟩, fun _ => ?_, fun before => absurd before (Nat.lt_irrefl _)⟩
    · rw [take_byteLength, byteLength, List.drop_length]
      rfl
    · rw [take_byteLength, decode_encode_of_decoded left decoded.of_append_right, List.take_left]
      exact (List.append_nil left).symm
    · rw [drop_byteLength, decode_encode_of_decoded right decoded.of_append, List.drop_left]
  · cases symbol with
    | stray byte high =>
      have one : (Sym.stray byte high).width = 1 := rfl
      omega
    | char value =>
      have front := take_within left right (.char value) part (Nat.le_of_lt short)
      have begun : (Sym.char value).bytes.take part <+: encode (.char value :: right) :=
        (List.take_prefix part _).trans (List.prefix_append _ (encode right))
      obtain ⟨strays, before, read⟩ := decode_take_bytes value part positive short
      obtain ⟨others, _, readBehind⟩ := decode_drop_bytes value part positive (encode right)
      refine ⟨left.length, byteLength left, Offset.charOfByte_symbol left right _ part short,
        Offset.byteOfChar_length left _, Nat.le_add_right _ _, ⟨strays, ?_, ?_⟩, fun same => by omega,
        fun _ => ⟨others, ?_⟩⟩
      · rw [front, byteLength, List.drop_left]
        exact before
      · rw [front, decode_encode_append decoded _ begun, List.take_left, read]
      · have behind : Decoded ([.char value] ++ right) := decoded.of_append
        rw [drop_within left right (.char value) part (Nat.le_of_lt short), List.drop_length_add_append,
          List.drop_one, List.tail_cons]
        rw [decode_encode_of_decoded right behind.of_append] at readBehind
        exact readBehind

/-- The cut goes through the euro sign, and the byte before it begins a character that does not go on. -/
theorem decode_cut_through_sign :
    4 ≤ ([0x41, 0xC3, 0xE2, 0x82, 0xAC, 0x42] : List UInt8).length ∧
      ∃ count place, Offset.charOfByte (4 : Nat) (decode [0x41, 0xC3, 0xE2, 0x82, 0xAC, 0x42]) = .ok count ∧
        Offset.byteOfChar count (decode [0x41, 0xC3, 0xE2, 0x82, 0xAC, 0x42]) = .ok place ∧ place ≤ 4 ∧
        (∃ strays : List { byte : UInt8 // 0x80 ≤ byte }, strays.unattach = [0x41, 0xC3, 0xE2, 0x82].drop place ∧
          decode [0x41, 0xC3, 0xE2, 0x82] =
            (decode [0x41, 0xC3, 0xE2, 0x82, 0xAC, 0x42]).take count ++ keptBytes strays) ∧
        count = 2 ∧ place = 2 := by
  obtain ⟨count, place, counted, placed, before, kept, _⟩ := decode_cut [0x41, 0xC3, 0xE2, 0x82, 0xAC, 0x42] 4 (by decide)
  have two : Offset.charOfByte (4 : Nat) (decode [0x41, 0xC3, 0xE2, 0x82, 0xAC, 0x42]) = .ok 2 := by decide +kernel
  obtain rfl := Except.ok.inj (counted.symm.trans two)
  have here : Offset.byteOfChar (2 : Nat) (decode [0x41, 0xC3, 0xE2, 0x82, 0xAC, 0x42]) = .ok 2 := by decide +kernel
  exact ⟨by decide, 2, place, counted, placed, before, kept, rfl, Except.ok.inj (placed.symm.trans here)⟩

end Text
end AccessChain
