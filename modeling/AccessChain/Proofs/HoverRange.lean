import AccessChain.Hover.Answer
import AccessChain.Proofs.CharacterEdges
import AccessChain.Proofs.Cutting
import AccessChain.Proofs.ReportedPositions
import AccessChain.Proofs.ShownChain
import Mathlib.Order.Bounds.Defs

/-! What an answer covers: from the first visible character of the expression that ends with a word to the end
of that word. White space in front of an expression is no part of its chain, so the characters covered reduce
to the chain that is shown. -/
namespace AccessChain

namespace Chain

theorem withoutComments_of_blanks (tokenizer : Tokenizer) (blanks text : Text)
    (blank : ∀ symbol ∈ blanks, symbol.isBlank = true) :
    withoutComments tokenizer (blanks ++ text) = withoutComments tokenizer text := by
  have trimmed : Text.trim Sym.isBlank (blanks ++ text) = Text.trim Sym.isBlank text := by
    rw [Text.trim, List.dropWhile_append_of_pos blank, Text.trim]
  rw [withoutComments, trimmed, withoutComments]

theorem segments_of_blanks (tokenizer : Tokenizer) (blanks text : Text)
    (blank : ∀ symbol ∈ blanks, symbol.isBlank = true) :
    segments tokenizer (blanks ++ text) = segments tokenizer text := by
  simp only [segments, withoutComments_of_blanks tokenizer blanks text blank]

/-- A text that has segments is white space and then a symbol that is not. -/
theorem visible_of_segments (text : Text) (held : segments tokenize text ≠ []) :
    ∃ blanks symbol rest, text = blanks ++ symbol :: rest ∧ blanks = text.takeWhile Sym.isBlank ∧
      (∀ blank ∈ blanks, blank.isBlank = true) ∧ symbol.isBlank = false := by
  have parted : text.takeWhile Sym.isBlank ++ text.dropWhile Sym.isBlank = text := List.takeWhile_append_dropWhile
  have blank : ∀ symbol ∈ text.takeWhile Sym.isBlank, symbol.isBlank = true :=
    fun symbol member => List.mem_takeWhile_imp member
  rcases Text.dropWhile_cases Sym.isBlank text with ended | ⟨symbol, rest, behind, visible⟩
  · rw [← parted, ended, segments_of_blanks tokenize _ _ blank] at held
    exact absurd (by decide +kernel) held
  · rw [behind] at parted
    exact ⟨_, symbol, rest, parted.symm, rfl, blank, visible⟩

end Chain

namespace Hover

/-- Where a word may end: at the end of the text or in front of a symbol that is in no name. -/
def EndsWord (source : Text) (place : Nat) : Prop :=
  place = source.length ∨ ∃ symbol, source[place]? = some symbol ∧ Extent.isNameChar symbol = false

theorem wordEnd_isLeast (source : Text) (index : Nat) (inside : index ≤ source.length) :
    IsLeast {place | index ≤ place ∧ EndsWord source place} (wordEnd source index) := by
  let word := (source.drop index).takeWhile Extent.isNameChar
  have parted : word ++ (source.drop index).dropWhile Extent.isNameChar = source.drop index :=
    List.takeWhile_append_dropWhile
  have ending : wordEnd source index = index + word.length := rfl
  have whole : source.length = index + (source.drop index).length := by
    rw [List.length_drop]
    omega
  refine ⟨⟨Nat.le_add_right _ _, ?_⟩, ?_⟩
  · rw [ending]
    rcases Text.dropWhile_cases Extent.isNameChar (source.drop index) with ended | ⟨symbol, rest, behind, other⟩
    · left
      rw [whole, ← parted, ended, List.append_nil]
    · right
      refine ⟨symbol, ?_, other⟩
      rw [← List.getElem?_drop, ← parted, behind, List.getElem?_append_right (Nat.le_refl _), Nat.sub_self]
      rfl
  · rintro place ⟨least, ends⟩
    apply Nat.le_of_not_lt
    intro within
    obtain ⟨further, rfl⟩ := Nat.exists_eq_add_of_le least
    have short : further < word.length := by omega
    have shown : source[index + further]? = some word[further] := by
      rw [← List.getElem?_drop, ← parted, List.getElem?_append_left short, List.getElem?_eq_getElem short]
    have named : Extent.isNameChar word[further] = true := List.mem_takeWhile_imp (List.getElem_mem short)
    rcases ends with last | ⟨symbol, found, other⟩
    · rw [last, List.getElem?_eq_none (Nat.le_refl _)] at shown
      contradiction
    · rw [shown] at found
      obtain rfl := Option.some.inj found
      rw [named] at other
      contradiction

/-- A text cut where the expression that ends behind `expression` starts. -/
structure Parted (source left expression rest : Text) : Prop where
  whole : source = left ++ expression ++ rest
  start : Scanner.expressionStart {} source (some (Text.byteLength (left ++ expression) : Nat)) =
    .ok (Text.byteLength left)
  code : Text.decode (((Text.encode source).take (Text.byteLength (left ++ expression))).drop (Text.byteLength left)) =
    expression

theorem exists_parted (source : Text) (decoded : Text.Decoded source) (stop : Nat) (inside : stop ≤ source.length) :
    ∃ left expression rest, Parted source left expression rest ∧ (left ++ expression).length = stop := by
  rw [← List.take_append_drop stop source] at decoded
  have decodedFront : Text.Decoded (source.take stop) := decoded.of_append_right
  obtain ⟨left, ⟨expression, front⟩, edge⟩ := startBefore_between KindSet.boundary (source.take stop) decodedFront
  have whole : source = left ++ expression ++ source.drop stop := by
    rw [front, List.take_append_drop]
  have length : (left ++ expression).length = stop := by
    rw [front]
    exact List.length_take_of_le inside
  refine ⟨left, expression, source.drop stop, ⟨whole, ?_, ?_⟩, length⟩
  · have placed : Text.byteLength (left ++ expression) ≤ Text.byteLength source := by
      rw [whole]
      exact Text.byteLength_le_append _ _
    rw [expressionStart_eq _ _ _ _ rfl placed, edge]
    conv_lhs => rw [whole, Text.take_byteLength, front]
  · rw [← front] at decodedFront
    conv_lhs => rw [whole, Text.take_byteLength, Text.drop_byteLength]
    exact Text.decode_encode_of_decoded expression decodedFront.of_append

namespace Parted
variable {source left expression rest : Text} (parted : Parted source left expression rest)
include parted

theorem byteOfChar_stop : Offset.byteOfChar (left ++ expression).length source =
    .ok (Text.byteLength (left ++ expression)) := by
  rw [parted.whole, Offset.byteOfChar_length]

theorem byteOfChar_start : Offset.byteOfChar left.length source = .ok (Text.byteLength left) := by
  rw [parted.whole, List.append_assoc, Offset.byteOfChar_length]

theorem charOfByte_start : Offset.charOfByte (Text.byteLength left) source = .ok left.length := by
  rw [parted.whole, List.append_assoc, Offset.charOfByte_byteLength]

theorem take_stop : source.take (left ++ expression).length = left ++ expression := by
  rw [parted.whole, List.take_left]

theorem chain : Scanner.chain {} source (some (Text.byteLength (left ++ expression) : Nat)) =
    .ok (Chain.segments tokenize expression) := by
  have placed : Text.byteLength (left ++ expression) ≤ Text.byteLength source := by
    rw [parted.whole]
    exact Text.byteLength_le_append _ _
  rw [Scanner.chain, cursorIn_eq source _ _ rfl placed, parted.start]
  exact congrArg (fun code => Except.ok (Chain.segments tokenize code)) parted.code

theorem spanAt_eq (index : Nat) (ends : wordEnd source index = (left ++ expression).length) :
    spanAt source index = .ok (if (Chain.segments tokenize expression).isEmpty then none else
      some ⟨left.length + Text.countWhile Sym.isBlank expression, (left ++ expression).length,
        Chain.segments tokenize expression⟩) := by
  have between : Scanner.chainBetween {} source (Text.byteLength left) (Text.byteLength (left ++ expression)) =
      Chain.segments tokenize expression := congrArg (Chain.segments tokenize) parted.code
  simp only [spanAt, ends, parted.byteOfChar_stop, parted.start, between, parted.charOfByte_start, parted.take_stop,
    List.drop_left, bind, Except.bind]
  split
  · rfl
  · rfl

end Parted

theorem exists_position (source : Text) (index : Nat) (inside : index ≤ source.length) :
    ∃ place, Position.ofIndex source index = .ok place :=
  ⟨_, Position.ofIndex_of_le source index inside⟩

/-- The symbols from `begin` to `stop` are what an expression that starts at `first` shows: its leading white
space is left out, and no other symbol of it. -/
structure Covers (source : Text) (first begin stop : Nat) : Prop where
  started : first ≤ begin
  held : begin < stop
  blanks : ∀ symbol ∈ (source.take begin).drop first, symbol.isBlank = true
  visible : ∃ symbol, source[begin]? = some symbol ∧ symbol.isBlank = false

theorem Parted.covers {source left expression rest : Text} (parted : Parted source left expression rest)
    (held : Chain.segments tokenize expression ≠ []) :
    Covers source left.length (left.length + Text.countWhile Sym.isBlank expression) (left ++ expression).length ∧
    Chain.segments tokenize ((source.take (left ++ expression).length).drop
      (left.length + Text.countWhile Sym.isBlank expression)) = Chain.segments tokenize expression := by
  obtain ⟨blanks, symbol, word, text, counted, blank, visible⟩ := Chain.visible_of_segments expression held
  have count : Text.countWhile Sym.isBlank expression = blanks.length := by
    rw [counted]
    rfl
  have whole : source = left ++ blanks ++ symbol :: (word ++ rest) := by
    rw [parted.whole, text]
    simp
  have begins : left.length + blanks.length = (left ++ blanks).length := List.length_append.symm
  rw [parted.take_stop, count, begins]
  refine ⟨⟨?_, ?_, ?_, symbol, ?_, visible⟩, ?_⟩
  · rw [List.length_append]
    exact Nat.le_add_right _ _
  · rw [text]
    simp
  · rw [whole, List.take_left, List.drop_left]
    exact blank
  · rw [whole, List.getElem?_append_right (Nat.le_refl _), Nat.sub_self]
    rfl
  · rw [text, ← List.append_assoc, List.drop_left, Chain.segments_of_blanks tokenize blanks _ blank]

/-- An answer covers exactly the text whose chain it shows. There is one if and only if a chain ends with the word at the
index. Its text is made of the segments of that chain, and its range reaches from the first visible symbol of the
expression to the word's end. -/
theorem range_covers_chain (source : Text) (decoded : Text.Decoded source) (index : Nat)
    (inside : index ≤ source.length) :
    ∃ (stop cursor : Nat) (chain : List Text),
      IsLeast {place | index ≤ place ∧ EndsWord source place} stop ∧
      Offset.byteOfChar stop source = .ok cursor ∧
      Scanner.chain {} source (some cursor) = .ok chain ∧
      (atIndex source index = .ok none ↔ chain = []) ∧
      (chain ≠ [] → ∃ (start first begin : Nat) (firstPlace lastPlace : Position) (markdown : Text),
        Scanner.expressionStart {} source (some cursor) = .ok start ∧
        Offset.byteOfChar first source = .ok start ∧
        Covers source first begin stop ∧
        Chain.segments tokenize ((source.take stop).drop begin) = chain ∧
        Position.ofIndex source begin = .ok firstPlace ∧ Position.ofIndex source stop = .ok lastPlace ∧
        Shows chain markdown ∧ atIndex source index = .ok (some ⟨markdown, firstPlace, lastPlace⟩)) := by
  have least := wordEnd_isLeast source index inside
  have within : wordEnd source index ≤ source.length := least.2 ⟨inside, .inl rfl⟩
  obtain ⟨left, expression, rest, parted, ends⟩ := exists_parted source decoded _ within
  have spanned := parted.spanAt_eq index ends.symm
  rw [← ends] at least within
  refine ⟨_, _, _, least, parted.byteOfChar_stop, parted.chain, ?_⟩
  by_cases empty : Chain.segments tokenize expression = []
  · have unanswered : atIndex source index = .ok none := by
      rw [atIndex, spanned, empty]
      rfl
    exact ⟨iff_of_true unanswered empty, fun held => absurd empty held⟩
  · obtain ⟨covers, shown⟩ := parted.covers empty
    obtain ⟨firstPlace, firstAt⟩ := exists_position source _ (Nat.le_trans (Nat.le_of_lt covers.held) within)
    obtain ⟨lastPlace, lastAt⟩ := exists_position source _ within
    have answer : atIndex source index =
        .ok (some ⟨markdownOf (Chain.segments tokenize expression), firstPlace, lastPlace⟩) := by
      simp only [atIndex, spanned, List.isEmpty_eq_false_iff.mpr empty, bind, Except.bind, Bool.false_eq_true, if_false,
        firstAt, lastAt]
      rfl
    refine ⟨iff_of_false (by rw [answer]; exact fun same => nomatch same) empty, fun _ => ?_⟩
    exact ⟨_, _, _, firstPlace, lastPlace, _, parted.start, parted.byteOfChar_start, covers, shown, firstAt, lastAt,
      shows_markdownOf _, answer⟩

/-- The expression starts behind the bracket with two blanks, one of them as wide as two bytes, and the index is
in the middle of its last name. -/
theorem range_behind_blanks :
    atIndex (Text.ofString "f(\u00A0 $é->tag)") 9 =
      .ok (some ⟨Text.ofString "**Access chain**\n\n`$é` → `tag`", ⟨0, 4⟩, ⟨0, 11⟩⟩) ∧
    ∃ (stop : Nat) (chain : List Text) (first begin : Nat), chain ≠ [] ∧
      Covers (Text.ofString "f(\u00A0 $é->tag)") first begin stop ∧
      Chain.segments tokenize (((Text.ofString "f(\u00A0 $é->tag)").take stop).drop begin) = chain ∧
      Shows chain (Text.ofString "**Access chain**\n\n`$é` → `tag`") := by
  have answer : atIndex (Text.ofString "f(\u00A0 $é->tag)") 9 =
      .ok (some ⟨Text.ofString "**Access chain**\n\n`$é` → `tag`", ⟨0, 4⟩, ⟨0, 11⟩⟩) := by
    decide +kernel
  have decoded : Text.Decoded (Text.ofString "f(\u00A0 $é->tag)") :=
    ⟨Text.encode (Text.ofString "f(\u00A0 $é->tag)"), by decide +kernel⟩
  obtain ⟨stop, cursor, chain, _, _, _, unanswered, answered⟩ :=
    range_covers_chain (Text.ofString "f(\u00A0 $é->tag)") decoded 9 (by decide)
  have held : chain ≠ [] := by
    intro empty
    rw [unanswered.mpr empty] at answer
    exact nomatch answer
  obtain ⟨start, first, begin, _, _, markdown, _, _, covers, reduced, _, _, shows, same⟩ := answered held
  obtain rfl := congrArg Hover.markdown (Option.some.inj (Except.ok.inj (answer.symm.trans same)))
  exact ⟨answer, stop, chain, first, begin, held, covers, reduced, shows⟩

end Hover
end AccessChain
