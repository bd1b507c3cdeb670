import AccessChain.Proofs.Decoding
import AccessChain.Proofs.Offsets
import AccessChain.Text.Classes

/-! Line numbers. A line feed is one byte, and that byte is part of no other symbol, so the line feeds in front of an
offset may be counted in bytes or in characters. -/
namespace AccessChain

namespace Text

theorem count_feed_bytes (symbol : Sym) : symbol.bytes.count 0x0A = if symbol = .char '\n' then 1 else 0 := by
  split
  · next feed =>
    rw [feed]
    decide
  · next other =>
    apply List.count_eq_zero.mpr
    intro member
    exact other (eq_char_of_mem_bytes symbol '\n' (by decide) member)

theorem count_feed_encode (text : Text) : (encode text).count 0x0A = lineFeeds text := by
  induction text with
  | nil => rfl
  | cons symbol text ih =>
    rw [encode_cons, List.count_append, count_feed_bytes, ih, lineFeeds, lineFeeds, List.count_cons]
    simp [Nat.add_comm]

theorem count_feed_part (symbol : Sym) (part : Nat) (positive : 0 < part) (short : part < symbol.width) :
    (symbol.bytes.take part).count 0x0A = 0 := by
  have several : symbol ≠ .char '\n' := by
    rintro rfl
    have single : (Sym.char '\n').width = 1 := by decide
    omega
  have fits := count_feed_bytes symbol
  rw [if_neg several] at fits
  exact Nat.eq_zero_of_le_zero (fits ▸ (List.take_sublist part symbol.bytes).count_le 0x0A)

end Text

namespace Offset

theorem lineAt_byteLength (left right : Text) :
    lineAt (left ++ right) (Text.byteLength left) = .ok (Text.lineFeeds left + 1) := by
  rw [lineAt_of_le _ _ (Text.byteLength_le_append left right), Text.take_byteLength, Text.count_feed_encode]

theorem lineAt_symbol (left right : Text) (symbol : Sym) (part : Nat) (positive : 0 < part) (short : part < symbol.width) :
    lineAt (left ++ symbol :: right) ((Text.byteLength left + part : Nat) : Int) = .ok (Text.lineFeeds left + 1) := by
  rw [lineAt_of_le, Text.take_within left right symbol part (Nat.le_of_lt short), List.count_append,
    Text.count_feed_encode, Text.count_feed_part symbol part positive short, Nat.add_zero]
  rw [Text.byteLength_append, Text.byteLength_cons]
  omega

theorem lineAt_le (source : Text) (offset later : Nat) (before : offset ≤ later) (inside : later ≤ Text.byteLength source) :
    ∃ line lineLater, lineAt source offset = .ok line ∧ lineAt source later = .ok lineLater ∧ line ≤ lineLater := by
  refine ⟨_, _, lineAt_of_le source offset (Nat.le_trans before inside), lineAt_of_le source later inside, ?_⟩
  exact Nat.succ_le_succ ((List.take_prefix_take_left before).sublist.count_le 0x0A)

/-- An offset in bytes, also one inside a character, is on the line that the line feeds among the characters in front of
it make, and no later one is on a line before. -/
theorem lineAt_charOfByte (source : Text) (offset : Nat) (inside : offset ≤ Text.byteLength source) :
    (∃ count, charOfByte offset source = .ok count ∧
      lineAt source offset = .ok (1 + Text.lineFeeds (source.take count))) ∧
    ∀ later, offset ≤ later → later ≤ Text.byteLength source →
      ∃ line lineLater, lineAt source offset = .ok line ∧ lineAt source later = .ok lineLater ∧ line ≤ lineLater := by
  refine ⟨?_, lineAt_le source offset⟩
  rcases place_cases offset source inside with
    ⟨left, right, rfl, rfl⟩ | ⟨left, symbol, right, part, rfl, rfl, positive, short⟩
  · refine ⟨left.length, charOfByte_byteLength left right, ?_⟩
    rw [lineAt_byteLength, List.take_left, Nat.add_comm]
  · refine ⟨left.length, charOfByte_symbol left right symbol part short, ?_⟩
    rw [lineAt_symbol left right symbol part positive short, List.take_left, Nat.add_comm]

/-- The offset lies inside the second euro sign, and the later one behind the last line feed. -/
theorem lineAt_within_sign :
    5 ≤ Text.byteLength (Text.ofString "€\n€\n") ∧
    (∃ count, charOfByte (5 : Nat) (Text.ofString "€\n€\n") = .ok count ∧
      lineAt (Text.ofString "€\n€\n") (5 : Nat) = .ok (1 + Text.lineFeeds ((Text.ofString "€\n€\n").take count)) ∧
      count = 2) ∧
    ∃ line lineLater, lineAt (Text.ofString "€\n€\n") (5 : Nat) = .ok line ∧
      lineAt (Text.ofString "€\n€\n") (8 : Nat) = .ok lineLater ∧ line ≤ lineLater := by
  have inside : 5 ≤ Text.byteLength (Text.ofString "€\n€\n") := by decide
  obtain ⟨⟨count, counted, lined⟩, later⟩ := lineAt_charOfByte (Text.ofString "€\n€\n") 5 inside
  have two : charOfByte (5 : Nat) (Text.ofString "€\n€\n") = .ok 2 := rfl
  exact ⟨inside, ⟨count, counted, lined, Except.ok.inj (counted.symm.trans two)⟩, later 8 (by decide) (by decide)⟩

end Offset
end AccessChain
