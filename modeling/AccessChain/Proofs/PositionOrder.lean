import AccessChain.Proofs.BeforeCursor
import AccessChain.Proofs.HoverRange
import AccessChain.Proofs.ReportedPositions
import AccessChain.Proofs.StrayBytes

/-! Reported positions and the characters they stand for. The line is counted in the bytes in front of a character and
the column in characters, and both agree on where the line begins: a character further on has a later position, so no
two characters share one, and a range that is shown for a word ends behind where it starts. -/
namespace AccessChain

namespace Text

/-- The places of a text at which a line begins: its start, and behind every line feed. -/
def StartsLine (source : Text) (place : Nat) : Prop :=
  place = 0 ∨ ∃ before, place = before + 1 ∧ source[before]? = some (.char '\n')

theorem eq_nil_of_byteLength (text : Text) (empty : byteLength text = 0) : text = [] := by
  cases text with
  | nil => rfl
  | cons symbol text =>
    have positive := symbol.width_pos
    rw [byteLength_cons] at empty
    omega

theorem lastLineLength_append_single (left right : Text) (absent : .char '\n' ∉ right) :
    lastLineLength (left ++ right) = lastLineLength left + right.length := by
  have passed : ∀ symbol ∈ right.reverse, (symbol != .char '\n') = true := by
    intro symbol member
    exact bne_iff_ne.mpr fun feed => absent (feed ▸ List.mem_reverse.mp member)
  rw [lastLineLength, List.reverse_append, List.takeWhile_append_of_pos passed, List.length_append, List.length_reverse,
    lastLineLength, Nat.add_comm]

theorem exists_lastLine (text : Text) : ∃ earlier line, text = earlier ++ line ∧ .char '\n' ∉ line ∧
    (earlier = [] ∨ ∃ front, earlier = front ++ [.char '\n']) := by
  by_cases fed : .char '\n' ∈ text
  · obtain ⟨line, front, reversed, absent⟩ := List.eq_append_cons_of_mem (List.mem_reverse.mpr fed)
    refine ⟨front.reverse ++ [.char '\n'], line.reverse, ?_, mt List.mem_reverse.mp absent, .inr ⟨_, rfl⟩⟩
    rw [← text.reverse_reverse, reversed]
    simp
  · exact ⟨[], text, rfl, fed, .inl rfl⟩

/-- The symbols of the last line reach back to the last place at which a line begins. -/
theorem lastLine_isGreatest (source : Text) (index : Nat) (inside : index ≤ source.length) :
    ∃ start, IsGreatest {place | place ≤ index ∧ StartsLine source place} start ∧
      lastLineLength (source.take index) = index - start := by
  obtain ⟨earlier, line, parted, absent, ends⟩ := exists_lastLine (source.take index)
  have whole : source = earlier ++ line ++ source.drop index := by rw [← parted, List.take_append_drop]
  have size : earlier.length + line.length = index := by
    rw [← List.length_append, ← parted, List.length_take_of_le inside]
  have column : lastLineLength (source.take index) = line.length := by
    rw [parted, lastLineLength_append_single earlier line absent]
    rcases ends with rfl | ⟨front, rfl⟩
    · exact Nat.zero_add _
    · have behind := lastLineLength_feed front []
      rw [List.append_nil] at behind
      rw [behind]
      exact Nat.zero_add _
  refine ⟨earlier.length, ⟨⟨by omega, ?_⟩, ?_⟩, by omega⟩
  · rcases ends with rfl | ⟨front, rfl⟩
    · exact .inl rfl
    · refine .inr ⟨front.length, List.length_append, ?_⟩
      rw [whole]
      simp
  · rintro place ⟨within, rfl | ⟨before, rfl, found⟩⟩
    · exact Nat.zero_le _
    apply Nat.le_of_not_lt
    intro beyond
    have short : before - earlier.length < line.length := by omega
    rw [whole, List.append_assoc, List.getElem?_append_right (by omega), List.getElem?_append_left short] at found
    exact absent (List.mem_of_getElem? found)

theorem decode_append_chars (bytes : List UInt8) (text : Text) (chars : ∀ symbol ∈ text, ∃ value, symbol = .char value) :
    decode (bytes ++ encode text) = decode bytes ++ text := by
  induction text generalizing bytes with
  | nil => rw [encode_nil, List.append_nil, List.append_nil]
  | cons symbol text ih =>
    obtain ⟨⟨value, rfl⟩, others⟩ := List.forall_mem_cons.mp chars
    have behind := ih [] others
    have nothing : decode [] = [] := by rw [decode]
    rw [List.nil_append, nothing, List.nil_append] at behind
    rw [encode_cons, ← List.append_assoc, decode_append_char, behind]

end Text

namespace Offset

theorem charsWithin_front (front rest : Text) (offset : Nat) (inside : offset ≤ Text.byteLength front) :
    ∃ kept more, front = kept ++ more ∧ Text.byteLength kept ≤ offset ∧
      charsWithin offset (front ++ rest) = kept.length := by
  rcases place_cases offset front inside with ⟨kept, more, rfl, rfl⟩ | ⟨kept, symbol, more, part, rfl, rfl, _, short⟩
  · refine ⟨kept, more, rfl, Nat.le_refl _, ?_⟩
    rw [List.append_assoc, charsWithin_byteLength]
  · refine ⟨kept, symbol :: more, rfl, Nat.le_add_right _ _, ?_⟩
    rw [List.append_assoc, charsWithin_append, List.cons_append, charsWithin_of_short symbol _ part short, Nat.add_zero]

end Offset

namespace Position
open Text

/-- The order of the positions in a document: by line, and on a line by character. -/
def Before (first last : Position) : Prop :=
  first.line < last.line ∨ (first.line = last.line ∧ first.character < last.character)

theorem Before.irrefl (place : Position) : ¬ place.Before place := by
  rintro (line | ⟨_, character⟩)
  · exact Nat.lt_irrefl _ line
  · exact Nat.lt_irrefl _ character

theorem before_of_append (front between : Text) (more : between ≠ []) :
    Before ⟨lineFeeds front, lastLineLength front⟩
      ⟨lineFeeds (front ++ between), lastLineLength (front ++ between)⟩ := by
  by_cases fed : .char '\n' ∈ between
  · have further := (lineFeeds_pos between).mpr fed
    refine .inl ?_
    rw [lineFeeds_append]
    exact Nat.lt_add_of_pos_right further
  · have beyond := List.length_pos_iff.mpr more
    refine .inr ⟨?_, ?_⟩
    · rw [lineFeeds_append, lineFeeds_eq_zero between fed, Nat.add_zero]
    · rw [lastLineLength_append_single front between fed]
      exact Nat.lt_add_of_pos_right beyond

theorem ofIndex_before (source : Text) (first last : Nat) (before : first < last) (inside : last ≤ source.length) :
    ∃ firstPlace lastPlace, ofIndex source first = .ok firstPlace ∧ ofIndex source last = .ok lastPlace ∧
      firstPlace.Before lastPlace := by
  refine ⟨_, _, ofIndex_of_le source first (by omega), ofIndex_of_le source last inside, ?_⟩
  have parted : source.take last = source.take first ++ (source.take last).drop first := by
    conv_lhs => rw [← List.take_append_drop first (source.take last), List.take_take, Nat.min_eq_left (Nat.le_of_lt before)]
  rw [parted]
  apply before_of_append
  intro same
  have length := congrArg List.length same
  rw [List.length_drop, List.length_take_of_le inside, List.length_nil] at length
  omega

end Position

namespace Hover
open Offset Position

/-- Blanks that are all of the characters behind those in front of an expression leave nothing for a chain. -/
theorem visible_behind (kept more : Text) (start : Nat) (within : Text.byteLength kept ≤ start)
    (edge : ∃ left, left <+: Text.decode (Text.encode (kept ++ more)) ∧ Text.byteLength left = start)
    (held : Chain.segments tokenize (Text.decode ((Text.encode (kept ++ more)).drop start)) ≠ []) :
    ∃ symbol ∈ more, symbol.isBlank = false := by
  by_contra none
  have blank : ∀ symbol ∈ more, symbol.isBlank = true := by
    intro symbol member
    exact eq_true_of_ne_false fun visible => none ⟨symbol, member, visible⟩
  have chars : ∀ symbol ∈ more, ∃ value, symbol = .char value := by
    intro symbol member
    cases symbol with
    | char value => exact ⟨value, rfl⟩
    | stray byte high => exact absurd (blank _ member) Bool.false_ne_true
  obtain ⟨left, ⟨expression, whole⟩, rfl⟩ := edge
  have read : Text.decode (Text.encode (kept ++ more)) = Text.decode (Text.encode kept) ++ more := by
    rw [Text.encode_append, Text.decode_append_chars _ more chars]
  have decoded : Text.Decoded (left ++ expression) := ⟨_, whole.symm⟩
  have code : Text.decode ((Text.encode (kept ++ more)).drop (Text.byteLength left)) = expression := by
    rw [← Text.encode_decode (Text.encode (kept ++ more)), ← whole, Text.drop_byteLength,
      Text.decode_encode_of_decoded expression decoded.of_append]
  rw [code] at held
  obtain ⟨blanks, symbol, rest, text, _, _, visible⟩ := Chain.visible_of_segments expression held
  suffices member : symbol ∈ more from absurd ((blank symbol member).symm.trans visible) Bool.true_eq_false_eq_False
  have shown : symbol ∈ expression := by simp [text]
  have size : Text.byteLength (Text.decode (Text.encode kept)) = Text.byteLength kept := Text.byteLength_decode _
  rw [read] at whole
  rcases List.append_eq_append_iff.mp whole with ⟨between, parted, behind⟩ | ⟨between, parted, behind⟩
  · have longer := Text.byteLength_append left between
    rw [← parted, size] at longer
    have vacant : between = [] := Text.eq_nil_of_byteLength between (by omega)
    rw [behind, vacant] at shown
    exact shown
  · rw [behind]
    exact List.mem_append_right between shown

theorem spanAt_front (front rest : Text) (index : Nat) (ends : wordEnd (front ++ rest) index = front.length) :
    ∃ first chain, charsWithin (Scanner.startBefore {} (Text.encode front)) (front ++ rest) = first ∧
      Chain.segments tokenize (Text.decode ((Text.encode front).drop (Scanner.startBefore {} (Text.encode front)))) = chain ∧
      spanAt (front ++ rest) index = .ok (if chain.isEmpty then none else
        some ⟨first + Text.countWhile Sym.isBlank (front.drop first), front.length, chain⟩) := by
  refine ⟨_, _, rfl, rfl, ?_⟩
  have fits := Text.byteLength_le_append front rest
  have bound := Scanner.startBefore_le {} (Text.encode front)
  have within : Scanner.startBefore {} (Text.encode front) ≤ Text.byteLength (front ++ rest) := Nat.le_trans bound fits
  have started := expressionStart_eq {} (front ++ rest) (some (Text.byteLength front : Nat)) _ rfl fits
  have counted := charOfByte_natCast (Scanner.startBefore {} (Text.encode front)) (front ++ rest)
  rw [Text.take_byteLength] at started
  rw [if_pos within] at counted
  simp only [spanAt, ends, byteOfChar_length, started, counted, Scanner.chainBetween, Text.take_byteLength, List.take_left,
    bind, Except.bind]
  split
  · rfl
  · rfl

theorem spanAt_held (source : Text) (index : Nat) (span : Span) (shown : spanAt source index = .ok (some span)) :
    span.first < span.stop ∧ span.stop ≤ source.length := by
  obtain ⟨cursor, placed, _⟩ := (bind_eq_ok_iff _ _ _).mp shown
  obtain ⟨within, _⟩ := (byteOfChar_eq_ok_iff _ source cursor).mp placed
  obtain ⟨front, rest, rfl, ends⟩ : ∃ front rest, source = front ++ rest ∧ wordEnd source index = front.length :=
    ⟨_, _, (List.take_append_drop (wordEnd source index) source).symm, (List.length_take_of_le within).symm⟩
  obtain ⟨first, chain, counted, read, found⟩ := spanAt_front front rest index ends
  obtain ⟨kept, more, rfl, least, fits⟩ := charsWithin_front front rest _ (Scanner.startBefore_le {} (Text.encode front))
  obtain rfl := counted.symm.trans fits
  rw [shown] at found
  by_cases empty : chain.isEmpty
  · rw [if_pos empty] at found
    exact absurd (Except.ok.inj found) (Option.some_ne_none _)
  rw [if_neg empty, List.drop_left] at found
  obtain rfl := Option.some.inj (Except.ok.inj found)
  have edge := startBefore_between KindSet.boundary _ ⟨Text.encode (kept ++ more), rfl⟩
  rw [Text.encode_decode] at edge
  have held : chain ≠ [] := fun vacant => empty (by rw [vacant, List.isEmpty_nil])
  obtain ⟨symbol, member, visible⟩ := visible_behind kept more _ least edge (read ▸ held)
  have short : Text.countWhile Sym.isBlank more < more.length := by
    apply Nat.lt_of_le_of_ne (List.takeWhile_sublist _).length_le
    intro all
    have whole := (List.takeWhile_prefix Sym.isBlank).eq_of_length all
    have blank := List.takeWhile_eq_self_iff.mp whole symbol member
    exact Bool.false_ne_true (visible.symm.trans blank)
  simp only [List.length_append]
  omega

theorem range_before (source : Text) (index : Nat) (hover : Hover) (shown : atIndex source index = .ok (some hover)) :
    hover.first.Before hover.last := by
  obtain ⟨span, spanned, _, first, last⟩ := atIndex_eq_ok_some source index hover shown
  obtain ⟨held, inside⟩ := spanAt_held source index span spanned
  obtain ⟨firstPlace, lastPlace, firstAt, lastAt, before⟩ := ofIndex_before source _ _ held inside
  obtain rfl := Except.ok.inj (first.symm.trans firstAt)
  obtain rfl := Except.ok.inj (last.symm.trans lastAt)
  exact before

end Hover

namespace Position

/-- The reported position of a character is the number of line feeds in front of it and its distance from the place at
which its line begins. In the order of positions it follows those of all characters in front of it, so it tells the
character, and the range of an answer starts in front of its end. -/
theorem ofIndex_in_order (source : Text) :
    (∀ index ≤ source.length, ∃ place start, ofIndex source index = .ok place ∧
      place.line = (source.take index).count (.char '\n') ∧
      IsGreatest {place | place ≤ index ∧ Text.StartsLine source place} start ∧ place.character = index - start) ∧
    (∀ first last, first < last → last ≤ source.length → ∃ firstPlace lastPlace,
      ofIndex source first = .ok firstPlace ∧ ofIndex source last = .ok lastPlace ∧ firstPlace.Before lastPlace) ∧
    (∀ first last, first ≤ source.length → last ≤ source.length → ofIndex source first = ofIndex source last →
      first = last) ∧
    (∀ request hover, Hover.atPosition source request = .ok (some hover) → hover.first.Before hover.last) := by
  refine ⟨fun index inside => ?_, ofIndex_before source, fun first last firstInside lastInside same => ?_,
    fun request hover shown => Hover.range_before source _ hover shown⟩
  · obtain ⟨start, greatest, column⟩ := Text.lastLine_isGreatest source index inside
    exact ⟨_, start, ofIndex_of_le source index inside, rfl, greatest, column⟩
  · have apart : ∀ first last, first < last → last ≤ source.length → ofIndex source first ≠ ofIndex source last := by
      intro first last before inside same
      obtain ⟨firstPlace, lastPlace, firstAt, lastAt, ordered⟩ := ofIndex_before source first last before inside
      rw [firstAt, lastAt] at same
      obtain rfl := Except.ok.inj same
      exact ordered.irrefl
    rcases Nat.lt_trichotomy first last with before | equal | behind
    · exact absurd same (apart first last before lastInside)
    · exact equal
    · exact absurd same.symm (apart last first behind firstInside)

/-- The chain begins on the line in front of the requested one, and a stray byte and a character of two bytes are on
another line in front of it. -/
theorem ofIndex_in_order_over_lines :
    let source := .stray 0xE2 (by decide) :: Text.ofString "é(\n $a\n ->b);"
    Hover.atPosition source ⟨2, 3⟩ =
      .ok (some ⟨Hover.markdownOf [Text.ofString "$a", Text.ofString "b"], ⟨1, 1⟩, ⟨2, 4⟩⟩) ∧
    Before ⟨1, 1⟩ ⟨2, 4⟩ ∧
    (∃ firstPlace lastPlace, ofIndex source 2 = .ok firstPlace ∧ ofIndex source 12 = .ok lastPlace ∧
      firstPlace.Before lastPlace) ∧
    ∃ start, IsGreatest {place | place ≤ 12 ∧ Text.StartsLine source place} start ∧ 4 = 12 - start := by
  intro source
  have answer : Hover.atPosition source ⟨2, 3⟩ =
      .ok (some ⟨Hover.markdownOf [Text.ofString "$a", Text.ofString "b"], ⟨1, 1⟩, ⟨2, 4⟩⟩) := by decide +kernel
  obtain ⟨places, ordered, _, ranges⟩ := ofIndex_in_order source
  obtain ⟨place, start, placed, _, greatest, column⟩ := places 12 (by decide)
  have reported : ofIndex source 12 = .ok ⟨2, 4⟩ := by decide +kernel
  obtain rfl := Except.ok.inj (placed.symm.trans reported)
  exact ⟨answer, ranges ⟨2, 3⟩ _ answer, ordered 2 12 (by decide) (by decide), start, greatest, column⟩

end Position
end AccessChain
