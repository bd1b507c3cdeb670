import AccessChain.Proofs.BeforeCursor
import AccessChain.Proofs.TokenStream

/-! Which token a byte belongs to, for any list of tokens. A walk over the bytes from right to left steps to the token
on the left where a byte is in front of the start of the one it is in, and computes the start of the new one from the
byte it stands at. So the tokens are laid out from the right, and the bytes that none of them takes are the first one's. -/
namespace AccessChain.Expression

/-- How many bytes tokens take up: as many as their texts have, but each at least one. -/
def room : List Token → Nat
  | [] => 0
  | token :: tokens => max 1 token.byteLength + room tokens

/-- The token at an index has a place, if the tokens are laid out so that the last one ends at `stop`. The first one also
has the places on its left. -/
structure Owns (tokens : List Token) (stop place index : Nat) : Prop where
  listed : index < tokens.length
  right : place + room (tokens.drop (index + 1)) < stop
  left : index = 0 ∨ stop ≤ place + room (tokens.drop index)

theorem room_append (left right : List Token) : room (left ++ right) = room left + room right := by
  induction left with
  | nil => rw [List.nil_append, room, Nat.zero_add]
  | cons token left ih => rw [List.cons_append, room, room, ih, Nat.add_assoc]

theorem room_reverse (tokens : List Token) : room tokens.reverse = room tokens := by
  induction tokens with
  | nil => rfl
  | cons token tokens ih => rw [List.reverse_cons, room_append, ih, room, room, room, Nat.add_zero, Nat.add_comm]

section Rooms
variable {tokens : List Token} {stop place : Nat}

theorem room_drop (index : Nat) (token : Token) (found : tokens[index]? = some token) :
    room (tokens.drop index) = max 1 token.byteLength + room (tokens.drop (index + 1)) := by
  obtain ⟨listed, rfl⟩ := List.getElem?_eq_some_iff.mp found
  rw [List.drop_eq_getElem_cons listed, room]

theorem room_drop_le (tokens : List Token) (first last : Nat) (before : first ≤ last) :
    room (tokens.drop last) ≤ room (tokens.drop first) := by
  induction before with
  | refl => exact Nat.le_refl _
  | @step index _ ih =>
    refine Nat.le_trans ?_ ih
    cases found : tokens[index]? with
    | none =>
      have short := List.getElem?_eq_none_iff.mp found
      exact Nat.le_of_eq (by rw [List.drop_of_length_le short, List.drop_of_length_le (Nat.le_succ_of_le short)])
    | some token =>
      rw [room_drop index token found]
      exact Nat.le_add_left _ _

theorem Owns.unique {first last : Nat} (one : Owns tokens stop place first) (other : Owns tokens stop place last) :
    first = last := by
  have apart : ∀ {first last : Nat}, Owns tokens stop place first → Owns tokens stop place last → ¬ first < last := by
    intro first last one other before
    have shorter := room_drop_le tokens (first + 1) last before
    have right := one.right
    rcases other.left with first | left
    · omega
    · omega
  have forward := apart one other
  have backward := apart other one
  omega

end Rooms

/-- Where a walk over the bytes is in the list of tokens. -/
structure Tracker where
  index : Nat
  start : Int
  token : Option Token

namespace Tracker

/-- The walk before it comes to the last byte. -/
def behind (tokens : List Token) (stop : Nat) : Tracker := ⟨tokens.length, stop, none⟩

/-- The walk comes to a byte, and steps to the token on the left if the byte is in front of the present one's start.
There is no result if the list has no such token. -/
def turn? (tokens : List Token) (place : Nat) (tracker : Tracker) : Option Tracker :=
  if place < tracker.start ∧ 0 < tracker.index then do
    let token ← tokens[tracker.index - 1]?
    return ⟨tracker.index - 1, place + 1 - token.byteLength, some token⟩
  else some tracker

/-- What a walk knows when it comes to the bytes in front of `count`. -/
structure Tracks (tokens : List Token) (stop count : Nat) (tracker : Tracker) : Prop where
  listed : tracker.index ≤ tokens.length
  token : tracker.token = tokens[tracker.index]?
  starts : ∀ place < count, (place < tracker.start ↔ place + room (tokens.drop tracker.index) < stop)
  right : count + room (tokens.drop (tracker.index + 1)) ≤ stop
  left : tracker.index = 0 ∨ stop ≤ count + room (tokens.drop tracker.index)

theorem tracks_behind (tokens : List Token) (stop : Nat) : Tracks tokens stop stop (behind tokens stop) := by
  have nothing : room (tokens.drop tokens.length) = 0 := by rw [List.drop_length]; rfl
  have further : room (tokens.drop (tokens.length + 1)) = 0 := by rw [List.drop_of_length_le (Nat.le_succ _)]; rfl
  refine ⟨Nat.le_refl _, (List.getElem?_eq_none (Nat.le_refl _)).symm, fun place _ => ?_, ?_, .inr ?_⟩
  · dsimp only [behind]
    omega
  · dsimp only [behind]
    omega
  · dsimp only [behind]
    omega

section Turns
variable {tokens : List Token} {stop place : Nat} {tracker : Tracker} (tracks : Tracks tokens stop (place + 1) tracker)
include tracks

/-- A step is into the list, and the walk takes it at the last byte in front of the tokens that it comes from. -/
theorem Tracks.move (before : place < tracker.start) (positive : 0 < tracker.index) :
    ∃ next, tracker.turn? tokens place = some next ∧ Tracks tokens stop place next ∧ Owns tokens stop place next.index := by
  obtain ⟨listed, _, starts, right, left⟩ := tracks
  obtain ⟨index, same⟩ := Nat.exists_eq_add_one_of_ne_zero (Nat.ne_of_gt positive)
  rw [same] at listed starts left
  have found : tokens[index]? = some tokens[index] := List.getElem?_eq_getElem listed
  have wider := room_drop index _ found
  have short := (starts place (Nat.lt_succ_self place)).mp before
  have reached : stop = place + 1 + room (tokens.drop (index + 1)) := by omega
  have further : index = 0 ∨ stop ≤ place + room (tokens.drop index) := by omega
  refine ⟨⟨index, place + 1 - tokens[index].byteLength, some tokens[index]⟩, ?_,
    ⟨Nat.le_of_lt listed, found.symm, fun other earlier => ?_, Nat.le_of_lt short, further⟩, ⟨listed, short, further⟩⟩
  · rw [turn?, if_pos ⟨before, positive⟩, same, Nat.add_sub_cancel, found]
    rfl
  · -- A token without a text starts behind the byte that it takes.
    dsimp only
    omega

theorem Tracks.stay (stays : ¬ (place < tracker.start ∧ 0 < tracker.index)) :
    tracker.turn? tokens place = some tracker ∧ Tracks tokens stop place tracker ∧
      (tokens ≠ [] → Owns tokens stop place tracker.index) := by
  obtain ⟨listed, current, starts, right, left⟩ := tracks
  have here := starts place (Nat.lt_succ_self place)
  have further : tracker.index = 0 ∨ stop ≤ place + room (tokens.drop tracker.index) := by omega
  refine ⟨if_neg stays, ⟨listed, current, fun other earlier => starts other (Nat.lt_succ_of_lt earlier), by omega, further⟩,
    fun held => ⟨Nat.lt_of_le_of_ne listed fun ended => ?_, by omega, further⟩⟩
  -- The walk steps to the last token at the last byte.
  have positive := List.length_pos_iff.mpr held
  have last : room (tokens.drop tokens.length) = 0 := by rw [List.drop_length]; rfl
  rw [ended, last] at here
  omega

theorem Tracks.turn : ∃ next, tracker.turn? tokens place = some next ∧ Tracks tokens stop place next ∧
    (tokens ≠ [] → Owns tokens stop place next.index) := by
  by_cases moves : place < tracker.start ∧ 0 < tracker.index
  · obtain ⟨next, stepped, further, owns⟩ := tracks.move moves.1 moves.2
    exact ⟨next, stepped, further, fun _ => owns⟩
  · exact ⟨tracker, tracks.stay moves⟩

end Turns

end Tracker

/-- The kind of the token in front of the one at an index. There is no result if such a token is not in the list. -/
def preceding? (tokens : List Token) (index : Nat) : Option (Option TokenKind) :=
  if 0 < index then do
    let token ← tokens[index - 1]?
    return some token.kind
  else some none

theorem preceding?_eq (tokens : List Token) (index : Nat) (listed : index ≤ tokens.length) :
    preceding? tokens index = some (if 0 < index then tokens[index - 1]?.map Token.kind else none) := by
  unfold preceding?
  split
  · next positive =>
    have inside : index - 1 < tokens.length := by omega
    rw [List.getElem?_eq_getElem inside]
    rfl
  · rfl

/-- A byte that a walk comes to, the token it is in by then, and what a scan is told. -/
structure Visit where
  place : Nat
  index : Nat
  token : Option Token
  cell : Cell

/-- The walk over the bytes in front of `count`, from right to left. There is no result if one of its look-ups in the lists
fails. -/
def visits? (tokens : List Token) (code : List UInt8) : Nat → Tracker → Option (List Visit)
  | 0, _ => some []
  | place + 1, tracker => do
    let next ← tracker.turn? tokens place
    let byte ← code[place]?
    let before ← preceding? tokens next.index
    let others ← visits? tokens code place next
    return ⟨place, next.index, next.token, ⟨byte, next.token.map Token.kind, before⟩⟩ :: others

/-- The token of a visit is the one that has the byte, and the scan is told of that one and of the one in front of it. -/
structure Visit.Tracked (tokens : List Token) (code : List UInt8) (visit : Visit) : Prop where
  token : visit.token = tokens[visit.index]?
  owner : tokens ≠ [] → Owns tokens code.length visit.place visit.index
  byte : code[visit.place]? = some visit.cell.byte
  kind : visit.cell.kind = visit.token.map Token.kind
  before : visit.cell.before = if 0 < visit.index then tokens[visit.index - 1]?.map Token.kind else none

theorem Visit.Tracked.token_eq_none_iff {tokens : List Token} {code : List UInt8} {visit : Visit}
    (tracked : visit.Tracked tokens code) : visit.token = none ↔ tokens = [] := by
  rw [tracked.token, List.getElem?_eq_none_iff]
  constructor
  · intro unlisted
    by_contra some
    exact Nat.not_lt_of_le unlisted (tracked.owner some).listed
  · rintro rfl
    exact Nat.zero_le _

/-- Where a layout has the token at an index, and the tokens are given from right to left like the bytes. -/
theorem getElem?_layout (tokens : List Token) (bytes : List UInt8) (position index : Nat) (inside : position < bytes.length)
    (listed : index < tokens.length) (reached : room (tokens.take index) ≤ position)
    (within : index + 1 = tokens.length ∨ position < room (tokens.take (index + 1))) :
    (layout tokens bytes)[position]? =
      some ⟨bytes[position], tokens[index]?.map Token.kind, tokens[index + 1]?.map Token.kind⟩ := by
  fun_induction layout tokens bytes generalizing position index with
  | case1 bytes => contradiction
  | case2 token bytes =>
    obtain rfl : index = 0 := by
      rw [List.length_singleton] at listed
      omega
    rw [List.getElem?_map, List.getElem?_eq_getElem inside]
    rfl
  | case3 token previous tokens bytes size ih =>
    have taken : ((bytes.take size).map fun byte => (⟨byte, some token.kind, some previous.kind⟩ : Cell)).length =
        min size bytes.length := by rw [List.length_map, List.length_take]
    cases index with
    | zero =>
      have short : position < size := by
        rcases within with one | short
        · simp at one
        · rwa [List.take_one, List.head?_cons, Option.toList_some, room] at short
      rw [List.getElem?_append_left (by omega), List.getElem?_map, List.getElem?_take_of_lt short,
        List.getElem?_eq_getElem inside]
      rfl
    | succ index =>
      rw [List.take_succ_cons, room] at reached
      have beyond : size ≤ position := by omega
      have further : position - size < (bytes.drop size).length := by
        rw [List.length_drop]
        omega
      rw [List.getElem?_append_right (by omega), taken, Nat.min_eq_left (by omega),
        ih (position - size) index further (Nat.lt_of_succ_lt_succ listed) (by omega) ?_, List.getElem_drop]
      · simp only [Nat.add_sub_cancel' beyond, List.getElem?_cons_succ]
      · rw [List.take_succ_cons, room, List.length_cons] at within
        omega

theorem Owns.cell {tokens : List Token} {code : List UInt8} {place index : Nat} (inside : place < code.length)
    (owns : Owns tokens code.length place index) : (layout tokens.reverse code.reverse)[code.length - (place + 1)]? =
      some ⟨code[place], tokens[index]?.map Token.kind, if 0 < index then tokens[index - 1]?.map Token.kind else none⟩ := by
  obtain ⟨listed, right, left⟩ := owns
  have turned : ∀ count, room (tokens.reverse.take count) = room (tokens.drop (tokens.length - count)) := by
    intro count
    rw [List.take_reverse, room_reverse]
  have position : code.length - (place + 1) < code.reverse.length := by
    rw [List.length_reverse]
    omega
  have found := getElem?_layout tokens.reverse code.reverse _ (tokens.length - (index + 1)) position
    (by rw [List.length_reverse]; omega) ?_ ?_
  · have here : code.length - 1 - (code.length - (place + 1)) = place := by omega
    have own : tokens.length - 1 - (tokens.length - (index + 1)) = index := by omega
    rw [found, List.getElem?_reverse (by omega)]
    simp only [List.getElem_reverse, here, own]
    congr 2
    split
    · next positive =>
      have before : tokens.length - 1 - (tokens.length - (index + 1) + 1) = index - 1 := by omega
      rw [List.getElem?_reverse (by omega), before]
    · next first => rw [List.getElem?_eq_none (by rw [List.length_reverse]; omega), Option.map_none]
  · have behind : tokens.length - (tokens.length - (index + 1)) = index + 1 := by omega
    rw [turned, behind]
    omega
  · rw [List.length_reverse]
    rcases left with first | left
    · exact .inl (by omega)
    · have from_here : tokens.length - (tokens.length - (index + 1) + 1) = index := by omega
      rw [turned, from_here]
      exact .inr (by omega)

theorem cell_of_tracks {tokens : List Token} {code : List UInt8} {place : Nat} {tracker : Tracker}
    (inside : place < code.length) (tracks : tracker.Tracks tokens code.length place)
    (owns : tokens ≠ [] → Owns tokens code.length place tracker.index) :
    (layout tokens.reverse code.reverse)[code.length - (place + 1)]? = some ⟨code[place], tracker.token.map Token.kind,
      if 0 < tracker.index then tokens[tracker.index - 1]?.map Token.kind else none⟩ := by
  rw [tracks.token]
  by_cases vacant : tokens = []
  · subst vacant
    have here : code.length - 1 - (code.length - (place + 1)) = place := by omega
    have byte : code.reverse[code.length - (place + 1)]? = some code[place] := by
      rw [List.getElem?_reverse (by omega), here, List.getElem?_eq_getElem inside]
    rw [List.reverse_nil, layout, List.getElem?_map, byte]
    simp
  · exact (owns vacant).cell inside

/-- The walk fails at no byte, and what it tells a scan are the cells of the layout. -/
theorem visits?_eq (tokens : List Token) (code : List UInt8) (count : Nat) (tracker : Tracker) (inside : count ≤ code.length)
    (tracks : tracker.Tracks tokens code.length count) : ∃ visits, visits? tokens code count tracker = some visits ∧
      visits.map Visit.place = (List.range count).reverse ∧
      visits.map Visit.cell = (layout tokens.reverse code.reverse).drop (code.length - count) ∧
      ∀ visit ∈ visits, visit.Tracked tokens code := by
  induction count generalizing tracker with
  | zero =>
    refine ⟨[], rfl, rfl, ?_, List.forall_mem_nil _⟩
    have sized := length_layout tokens.reverse code.reverse
    rw [List.length_reverse] at sized
    rw [Nat.sub_zero, ← sized, List.drop_length]
    rfl
  | succ place ih =>
    obtain ⟨next, stepped, tracksNext, owns⟩ := tracks.turn
    obtain ⟨visits, ran, places, cells, known⟩ := ih next (Nat.le_of_succ_le inside) tracksNext
    have byte : code[place]? = some code[place] := List.getElem?_eq_getElem inside
    have before := preceding?_eq tokens next.index tracksNext.listed
    let visit : Visit := ⟨place, next.index, next.token, ⟨code[place], next.token.map Token.kind,
      if 0 < next.index then tokens[next.index - 1]?.map Token.kind else none⟩⟩
    have tracked : visit.Tracked tokens code := ⟨tracksNext.token, owns, byte, rfl, rfl⟩
    refine ⟨visit :: visits, ?_, ?_, ?_, List.forall_mem_cons.mpr ⟨tracked, known⟩⟩
    · simp only [visits?, stepped, byte, before, ran, bind, Option.bind]
      rfl
    · rw [List.map_cons, places, List.range_succ, List.reverse_append, List.reverse_singleton, List.singleton_append]
    · obtain ⟨shorter, told⟩ := List.getElem?_eq_some_iff.mp (cell_of_tracks inside tracksNext owns)
      have further : code.length - (place + 1) + 1 = code.length - place := by omega
      rw [List.map_cons, cells, List.drop_eq_getElem_cons shorter, told, further]

theorem byteLength_pos (token : Token) (held : token.text ≠ []) : 0 < token.byteLength := by
  obtain ⟨symbol, rest, text⟩ := List.exists_cons_of_ne_nil held
  rw [Token.byteLength, text, Text.byteLength_cons]
  exact Nat.add_pos_left symbol.width_pos _

theorem room_of_held (tokens : List Token) (held : ∀ token ∈ tokens, token.text ≠ []) :
    room tokens = Text.byteLength (tokens.flatMap Token.text) := by
  induction tokens with
  | nil => rfl
  | cons token tokens ih =>
    obtain ⟨here, others⟩ := List.forall_mem_cons.mp held
    rw [room, ih others, List.flatMap_cons, Text.byteLength_append, Nat.max_eq_right (byteLength_pos token here),
      Token.byteLength]

theorem owns_tokenize_iff (text : Text) (place index : Nat) :
    Owns (tokenize text) (Text.byteLength text) place index ↔
      ∃ token, (tokenize text)[index]? = some token ∧ token.covers place = true := by
  by_cases listed : index < (tokenize text).length
  swap
  · refine iff_of_false (fun owns => listed owns.listed) ?_
    rintro ⟨token, found, _⟩
    exact listed (List.getElem?_eq_some_iff.mp found).1
  have parted : (tokenize text).take index ++ (tokenize text)[index] :: (tokenize text).drop (index + 1) = tokenize text := by
    rw [← List.drop_eq_getElem_cons listed, List.take_append_drop]
  have offset := offset_of_tokenize text _ _ _ parted.symm
  have taken : room ((tokenize text).drop (index + 1)) =
      Text.byteLength (((tokenize text).drop (index + 1)).flatMap Token.text) :=
    room_of_held _ fun token member => text_ne_nil_of_mem_tokenize text token (List.mem_of_mem_drop member)
  have whole := congrArg (fun tokens => Text.byteLength (tokens.flatMap Token.text)) parted
  simp only [List.flatMap_append, List.flatMap_cons, Text.byteLength_append, flatMap_text_tokenize, ← offset, ← taken]
    at whole
  have found : (tokenize text)[index]? = some (tokenize text)[index] := List.getElem?_eq_getElem listed
  have wider := room_drop index _ found
  have positive := byteLength_pos _ (text_ne_nil_of_mem_tokenize text _ (List.getElem_mem listed))
  rw [Token.byteLength] at wider positive
  constructor
  · intro owns
    have right := owns.right
    refine ⟨_, found, (Token.covers_iff _ place).mpr ⟨?_, ?_⟩⟩
    · rcases owns.left with rfl | left
      · rw [offset, List.take_zero]
        exact Nat.zero_le _
      · omega
    · rw [Token.byteLength]
      omega
  · rintro ⟨token, same, covered⟩
    obtain rfl := Option.some.inj (found.symm.trans same)
    obtain ⟨least, most⟩ := (Token.covers_iff _ place).mp covered
    rw [Token.byteLength] at most
    exact ⟨listed, by omega, .inr (by omega)⟩

theorem Visit.Tracked.covers {code : List UInt8} {visit : Visit} (tracked : visit.Tracked (tokenize (Text.decode code)) code)
    (inside : visit.place < code.length) : ∃ token, visit.token = some token ∧ token.covers visit.place := by
  have size := Text.byteLength_decode code
  have held : tokenize (Text.decode code) ≠ [] := by
    intro vacant
    have whole := flatMap_text_tokenize (Text.decode code)
    rw [vacant, List.flatMap_nil] at whole
    rw [← whole, Text.byteLength_nil] at size
    omega
  have own := tracked.owner held
  rw [← size] at own
  obtain ⟨token, found, covered⟩ := (owns_tokenize_iff _ _ _).mp own
  exact ⟨token, tracked.token.trans found, covered⟩

end AccessChain.Expression

namespace AccessChain.Scanner
open Expression

theorem startBefore_eq_visits (scanner : Scanner) (code : List UInt8) (tokens : List Token)
    (read : scanner.tokenizer (Text.decode code) = tokens) : ∃ visits,
    visits? tokens code code.length (.behind tokens code.length) = some visits ∧
    visits.map Visit.place = (List.range code.length).reverse ∧
    scanner.startBefore code = scan scanner.boundary (tokens.getLast?.any fun token => token.kind == .stringLiteral)
      Progress.start (visits.map Visit.cell) ∧
    ∀ visit ∈ visits, visit.Tracked tokens code := by
  obtain ⟨visits, ran, places, cells, known⟩ :=
    visits?_eq tokens code code.length _ (Nat.le_refl _) (Tracker.tracks_behind tokens code.length)
  refine ⟨visits, ran, places, ?_, known⟩
  rw [Nat.sub_self, List.drop_zero] at cells
  rw [cells, startBefore, read]
  split
  · next empty =>
    obtain rfl := List.isEmpty_iff.mp empty
    have vacant : layout tokens.reverse [] = [] := List.eq_nil_of_length_eq_zero (length_layout _ _)
    rw [List.reverse_nil, vacant]
    rfl
  · rfl

/-- Whatever tokens there are, the walk over the bytes in front of the cursor looks up nothing that is not in its list,
and the current token at a byte is the only one that has it in the layout from the right; there is one unless the list is
empty. For the tokens of the text itself it is the one that the byte is in. The start is in front of the cursor, and the
only failure is that of a cursor outside the source. -/
theorem expressionStart_tracks_tokens (scanner : Scanner) (source : Text) (cursor : Option Int) :
    (∃ offset : Int, cursor = some offset ∧ (offset < 0 ∨ Text.byteLength source < offset) ∧
      scanner.expressionStart source cursor =
        .error (OffsetError.outside "cursor" offset (Text.byteLength source) source)) ∨
    ∃ (stop start : Nat) (visits : List Visit), cursor.getD (Text.byteLength source) = stop ∧
      stop ≤ Text.byteLength source ∧ scanner.expressionStart source cursor = .ok start ∧ start ≤ stop ∧
      let code := (Text.encode source).take stop
      let tokens := scanner.tokenizer (Text.decode code)
      visits? tokens code stop (.behind tokens stop) = some visits ∧
      visits.map Visit.place = (List.range stop).reverse ∧
      start = scan scanner.boundary (tokens.getLast?.any fun token => token.kind == .stringLiteral) Progress.start
        (visits.map Visit.cell) ∧
      ∀ visit ∈ visits, visit.Tracked tokens code ∧ (visit.token = none ↔ tokens = []) ∧
        (∀ index, Owns tokens stop visit.place index → index = visit.index) ∧
        (scanner.tokenizer = tokenize → ∃ token, visit.token = some token ∧ token.covers visit.place) := by
  rcases Offset.checked_cases "cursor" (cursor.getD (Text.byteLength source)) (Text.byteLength source) source with
    ⟨stop, placed, inside, _⟩ | ⟨outside, missing⟩
  · right
    have size : ((Text.encode source).take stop).length = stop := List.length_take_of_le inside
    obtain ⟨visits, ran, places, scanned, known⟩ := scanner.startBefore_eq_visits ((Text.encode source).take stop) _ rfl
    have bound := scanner.startBefore_le ((Text.encode source).take stop)
    rw [size] at ran places bound
    refine ⟨stop, _, visits, placed, inside, expressionStart_eq scanner source cursor stop placed inside, bound, ran, places,
      scanned, ?_⟩
    intro visit member
    have tracked := known visit member
    refine ⟨tracked, tracked.token_eq_none_iff, fun index owns => ?_, fun default => ?_⟩
    · have held : scanner.tokenizer (Text.decode ((Text.encode source).take stop)) ≠ [] :=
        List.ne_nil_of_length_pos (Nat.zero_lt_of_lt owns.listed)
      have own := tracked.owner held
      rw [size] at own
      exact owns.unique own
    · rw [default] at tracked
      have inFront : visit.place < stop := by
        have listed := List.mem_map_of_mem (f := Visit.place) member
        rw [places] at listed
        exact List.mem_range.mp (List.mem_reverse.mp listed)
      exact tracked.covers (Nat.lt_of_lt_of_eq inFront size.symm)
  · left
    cases cursor with
    | none => exact absurd outside (by simp)
    | some offset =>
      refine ⟨offset, rfl, outside, ?_⟩
      rw [expressionStart, cursorIn, missing]
      rfl

/-- The tokens have no more than three symbols between them, and the one in the middle has none. -/
theorem expressionStart_tracks_short_tokens :
    let tokens : List Token := [⟨.identifier, Text.ofString "a", 0⟩, ⟨.character, [], 0⟩, ⟨.varName, Text.ofString "bc", 0⟩]
    let scanner : Scanner := ⟨KindSet.boundary, fun _ => tokens⟩
    scanner.expressionStart (Text.ofString "v(xyz") none = .ok 2 ∧
    ∃ visits : List Visit, visits.map Visit.index = [2, 2, 1, 0, 0] ∧ visits.map Visit.place = [4, 3, 2, 1, 0] ∧
      ∀ visit ∈ visits, (visit.token = none ↔ tokens = []) ∧ ∀ index, Owns tokens 5 visit.place index → index = visit.index := by
  intro tokens scanner
  refine ⟨by decide +kernel, ?_⟩
  rcases expressionStart_tracks_tokens scanner (Text.ofString "v(xyz") none with
    ⟨offset, outside, _⟩ | ⟨stop, start, visits, placed, _, _, _, ran, places, _, known⟩
  · contradiction
  · obtain rfl : 5 = stop := Int.ofNat.inj placed
    have indices : (visits? tokens (Text.encode (Text.ofString "v(xyz")) 5 (.behind tokens 5)).map (·.map Visit.index) =
        some [2, 2, 1, 0, 0] := by decide +kernel
    have whole : (Text.encode (Text.ofString "v(xyz")).take 5 = Text.encode (Text.ofString "v(xyz") := by decide +kernel
    have walked : visits? tokens (Text.encode (Text.ofString "v(xyz")) 5 (.behind tokens 5) = some visits := by
      rw [← whole]
      exact ran
    rw [walked] at indices
    exact ⟨visits, Option.some.inj indices, places, fun visit member => (known visit member).2.imp_right And.left⟩

end AccessChain.Scanner
