import AccessChain.Command.Run
import AccessChain.Proofs.Cells
import AccessChain.Proofs.Failures
import AccessChain.Proofs.Offsets

/-! What a run reads of its source: the bytes before the cursor, however the cursor is given and even if it
stands inside a character. -/
namespace AccessChain

namespace Scanner

/-- A cursor inside a source, with the bytes that stand before it. -/
def Sees (source : Text) (cursor : Option Int) (code : List UInt8) : Prop :=
  ∃ stop : Nat, cursor.getD (Text.byteLength source) = stop ∧ stop ≤ Text.byteLength source ∧
    (Text.encode source).take stop = code

theorem sees_of_le (source : Text) (stop : Nat) (inside : stop ≤ Text.byteLength source) :
    Sees source (some stop) ((Text.encode source).take stop) :=
  ⟨stop, rfl, inside, rfl⟩

theorem sees_at_end (source : Text) : Sees source none (Text.encode source) :=
  ⟨Text.byteLength source, rfl, Nat.le_refl _, List.take_length⟩

theorem startBefore_le (scanner : Scanner) (code : List UInt8) : scanner.startBefore code ≤ code.length := by
  unfold startBefore
  split
  · exact Nat.zero_le _
  · exact Expression.startIn_le_length ..

section Seeing
variable {source : Text} {cursor : Option Int} {code : List UInt8} (sees : Sees source cursor code)
include sees

theorem Sees.expressionStart (scanner : Scanner) :
    scanner.expressionStart source cursor = .ok (scanner.startBefore code) := by
  obtain ⟨stop, placed, inside, rfl⟩ := sees
  exact expressionStart_eq scanner source cursor stop placed inside

theorem Sees.chain (scanner : Scanner) : scanner.chain source cursor =
    .ok (Chain.segments scanner.tokenizer (Text.decode (code.drop (scanner.startBefore code)))) := by
  have started := sees.expressionStart scanner
  obtain ⟨stop, placed, inside, rfl⟩ := sees
  rw [Scanner.chain, cursorIn_eq source cursor stop placed inside, started]
  rfl

/-- The start lies before the cursor, so the lines in front of it are counted in the bytes that are seen. -/
theorem Sees.lineAt_start (scanner : Scanner) : Offset.lineAt source (scanner.startBefore code) =
    .ok ((code.take (scanner.startBefore code)).count 0x0A + 1) := by
  have before := scanner.startBefore_le code
  obtain ⟨stop, _, inside, rfl⟩ := sees
  have shorter : ((Text.encode source).take stop).length ≤ stop := List.length_take_le stop _
  generalize scanner.startBefore ((Text.encode source).take stop) = start at before
  rw [Offset.lineAt_of_le source start (by omega), List.take_take, Nat.min_eq_left (Nat.le_trans before shorter)]

end Seeing
end Scanner

namespace Cursor

/-- Whether a cursor is an offset outside a source, in the unit in which it is given. -/
def IsOutside (cursor : Cursor) (source : Text) : Prop :=
  ∃ offset : Int, cursor.offset = some offset ∧
    (offset < 0 ∨ ((if cursor.inChars then source.length else Text.byteLength source : Nat) : Int) < offset)

/-- An offset in characters that is outside is not converted. One in bytes stays what it is. -/
theorem resolve_cases (cursor : Cursor) (source : Text) :
    (¬ cursor.IsOutside source ∧ ∃ stop : Nat, stop ≤ Text.byteLength source ∧ cursor.resolve source = .ok stop) ∨
    (cursor.IsOutside source ∧ ∃ error, cursor.resolve source = .error error) ∨
    cursor.IsOutside source ∧ ∃ place : Int, cursor.resolve source = .ok place ∧
      (place < 0 ∨ Text.byteLength source < place) := by
  obtain ⟨offset, inChars⟩ := cursor
  cases offset with
  | none => exact .inl ⟨nofun, Text.byteLength source, Nat.le_refl _, rfl⟩
  | some offset =>
    cases inChars with
    | false =>
      by_cases outside : offset < 0 ∨ Text.byteLength source < offset
      · exact .inr (.inr ⟨⟨offset, rfl, outside⟩, offset, rfl, outside⟩)
      · obtain ⟨stop, rfl⟩ := Int.eq_ofNat_of_zero_le (show 0 ≤ offset by omega)
        refine .inl ⟨?_, stop, by omega, rfl⟩
        rintro ⟨_, same, away⟩
        obtain rfl := Option.some.inj same
        exact outside away
    | true =>
      have converts : (⟨some offset, true⟩ : Cursor).resolve source =
          Offset.byteOfChar offset source >>= fun place => .ok (Int.ofNat place) := rfl
      by_cases outside : offset < 0 ∨ source.length < offset
      · have failed := (Offset.convert_eq_error_iff "character" offset source.length source
          (fun count => Text.byteLength (source.take count)) _).mpr ⟨outside, rfl⟩
        exact .inr (.inl ⟨⟨offset, rfl, outside⟩, _, converts.trans ((bind_eq_error_iff _ _ _).mpr (.inl failed))⟩)
      · obtain ⟨count, rfl⟩ := Int.eq_ofNat_of_zero_le (show 0 ≤ offset by omega)
        have within : count ≤ source.length := by omega
        have parts := Text.byteLength_append (source.take count) (source.drop count)
        rw [List.take_append_drop] at parts
        have converted := (Offset.byteOfChar_eq_ok_iff count source _).mpr ⟨within, rfl⟩
        refine .inl ⟨?_, Text.byteLength (source.take count), by omega,
          converts.trans ((bind_eq_ok_iff _ _ _).mpr ⟨_, converted, rfl⟩)⟩
        rintro ⟨_, same, away⟩
        obtain rfl := Option.some.inj same
        exact outside away

end Cursor

namespace Analysis
open Scanner

/-- What a run finds out about the bytes before its cursor. -/
def ofBytes (scanner : Scanner) (code : List UInt8) : Analysis where
  start := scanner.startBefore code
  line := (code.take (scanner.startBefore code)).count 0x0A + 1
  chain := Chain.segments scanner.tokenizer (Text.decode (code.drop (scanner.startBefore code)))

theorem run_of_sees (scanner : Scanner) (source : Text) (cursor : Option Int) (code : List UInt8)
    (sees : Sees source cursor code) : run scanner source ⟨cursor, false⟩ =
      .ok (ofBytes scanner code, scanner.tokenizer (Text.decode code)) := by
  -- A run puts the end of the source for a missing cursor before it looks at where the cursor stands.
  have resolved : (⟨cursor, false⟩ : Cursor).resolve source = .ok (cursor.getD (Text.byteLength source)) := by
    cases cursor <;> rfl
  have given : Sees source (some (cursor.getD (Text.byteLength source))) code := sees
  have started := given.expressionStart scanner
  have lined := given.lineAt_start scanner
  obtain ⟨stop, placed, inside, rfl⟩ := given
  simp only [run, resolved, bind, Except.bind, cursorIn_eq source _ stop placed inside, started, lined]
  rfl

theorem run_of_resolve (scanner : Scanner) (source : Text) (cursor : Cursor) (place : Int)
    (resolved : cursor.resolve source = .ok place) :
    run scanner source cursor = run scanner source ⟨some place, false⟩ := by
  rw [run, resolved]
  rfl

/-- A run fails if its cursor is outside the source, and otherwise it reads the bytes before some place inside. -/
theorem run_cases (scanner : Scanner) (source : Text) (cursor : Cursor) :
    (¬ cursor.IsOutside source ∧ ∃ stop : Nat, stop ≤ Text.byteLength source ∧ cursor.resolve source = .ok stop ∧
      run scanner source cursor = .ok (ofBytes scanner ((Text.encode source).take stop),
        scanner.tokenizer (Text.decode ((Text.encode source).take stop)))) ∨
    cursor.IsOutside source ∧ ∃ error, run scanner source cursor = .error error := by
  rcases cursor.resolve_cases source with ⟨inside, stop, placed, resolved⟩ | ⟨outside, error, failed⟩ |
    ⟨outside, place, resolved, away⟩
  · refine .inl ⟨inside, stop, placed, resolved, ?_⟩
    rw [run_of_resolve scanner source cursor stop resolved]
    exact run_of_sees scanner source _ _ (sees_of_le source stop placed)
  · exact .inr ⟨outside, error, (bind_eq_error_iff _ _ _).mpr (.inl failed)⟩
  · rcases Offset.checked_cases "cursor" place (Text.byteLength source) source with ⟨stop, rfl, inside, _⟩ | ⟨_, missing⟩
    · omega
    · exact .inr ⟨outside, _, (bind_eq_error_iff _ _ _).mpr (.inr ⟨place, resolved, (bind_eq_error_iff _ _ _).mpr (.inl missing)⟩)⟩

end Analysis

namespace Command.Run
open Scanner

/-- What is printed depends on the source only through the bytes before the cursor. -/
theorem ofSource_of_sees (settings : Settings) (source : Text) (cursor : Option Int) (code : List UInt8)
    (sees : Sees source cursor code) : ofSource settings ⟨cursor, false⟩ source =
      ofSource settings ⟨none, false⟩ (Text.decode code) := by
  have whole : Sees (Text.decode code) none code := by
    have seen := sees_at_end (Text.decode code)
    rwa [Text.encode_decode] at seen
  simp only [ofSource, Analysis.run_of_sees _ _ _ _ sees, Analysis.run_of_sees _ _ _ _ whole]

end Command.Run

/-- Nothing behind the cursor matters. Two sources with the same bytes before it, and the text of just those
bytes with the cursor at its end, have the same start, line and chain, and every run prints the same. -/
theorem analysis_of_same_bytes (scanner : Scanner) (first second : Text) (stop : Nat)
    (inFirst : stop ≤ Text.byteLength first) (inSecond : stop ≤ Text.byteLength second)
    (same : (Text.encode first).take stop = (Text.encode second).take stop) :
    let shown := Text.decode ((Text.encode first).take stop)
    ∃ (found : Analysis) (tokens : List Token),
      ∀ seen ∈ [(first, some (stop : Int)), (second, some (stop : Int)), (shown, some (stop : Int)), (shown, none)],
        scanner.expressionStart seen.1 seen.2 = .ok found.start ∧
        scanner.chain seen.1 seen.2 = .ok found.chain ∧
        Analysis.run scanner seen.1 ⟨seen.2, false⟩ = .ok (found, tokens) ∧
        ∀ settings : Command.Settings, Command.Run.ofSource settings ⟨seen.2, false⟩ seen.1 =
          Command.Run.ofSource settings ⟨some (stop : Int), false⟩ first := by
  intro shown
  have whole : Text.encode shown = (Text.encode first).take stop := Text.encode_decode _
  have atEnd : Text.byteLength shown = stop := by
    rw [Text.byteLength, whole]
    exact List.length_take_of_le inFirst
  refine ⟨Analysis.ofBytes scanner (Text.encode shown), scanner.tokenizer (Text.decode (Text.encode shown)), ?_⟩
  have inOrder : ∀ seen ∈ [(first, some (stop : Int)), (second, some (stop : Int)), (shown, some (stop : Int)),
      (shown, none)], Scanner.Sees seen.1 seen.2 (Text.encode shown) := by
    have ofFirst := Scanner.sees_of_le first stop inFirst
    have ofSecond := Scanner.sees_of_le second stop inSecond
    have ofShown := Scanner.sees_of_le shown stop (Nat.le_of_eq atEnd.symm)
    rw [← whole] at ofFirst
    rw [← same, ← whole] at ofSecond
    rw [← atEnd, Text.byteLength, List.take_length, ← Text.byteLength, atEnd] at ofShown
    simp only [List.forall_mem_cons, List.not_mem_nil, false_implies, implies_true, and_true]
    exact ⟨ofFirst, ofSecond, ofShown, Scanner.sees_at_end shown⟩
  intro seen member
  have sees := inOrder seen member
  refine ⟨sees.expressionStart scanner, sees.chain scanner, Analysis.run_of_sees scanner _ _ _ sees, ?_⟩
  intro settings
  rw [Command.Run.ofSource_of_sees settings _ _ _ sees,
    Command.Run.ofSource_of_sees settings first _ _ (inOrder _ List.mem_cons_self)]

/-- The cursor stands behind the first byte of a character, and the two characters share that byte. -/
theorem analysis_within_character :
    (Text.encode (Text.ofString "$a;$b->é")).take 8 = (Text.encode (Text.ofString "$a;$b->ö\n")).take 8 ∧
    ∃ found tokens,
      Analysis.run {} (Text.ofString "$a;$b->é") ⟨some (8 : Nat), false⟩ = .ok (found, tokens) ∧
      Analysis.run {} (Text.ofString "$a;$b->ö\n") ⟨some (8 : Nat), false⟩ = .ok (found, tokens) ∧
      found.start = 3 := by
  have shared : (Text.encode (Text.ofString "$a;$b->é")).take 8 =
      (Text.encode (Text.ofString "$a;$b->ö\n")).take 8 := by decide +kernel
  obtain ⟨found, tokens, agreed⟩ := analysis_of_same_bytes {} (Text.ofString "$a;$b->é")
    (Text.ofString "$a;$b->ö\n") 8 (by decide +kernel) (by decide +kernel) shared
  simp only [List.forall_mem_cons] at agreed
  obtain ⟨ofFirst, ofSecond, _⟩ := agreed
  have started := (Scanner.sees_of_le (Text.ofString "$a;$b->é") 8 (by decide +kernel)).expressionStart {}
  have third : Scanner.startBefore {} ((Text.encode (Text.ofString "$a;$b->é")).take 8) = 3 := by
    decide +kernel
  rw [third] at started
  exact ⟨shared, found, tokens, ofFirst.2.2.1, ofSecond.2.2.1, Except.ok.inj (ofFirst.1.symm.trans started)⟩

end AccessChain
