import AccessChain.Proofs.Failures
import AccessChain.Toml.Document

/-! Integers of too many digits. A value has no text if and only if such an integer stands in it, and a settings file is
refused for one only where it really has that many digits. -/
namespace AccessChain.Toml

namespace Value

/-- Whether an integer of too many digits stands somewhere in a value. -/
inductive HoldsLong : Value → Prop where
  | integer (number : Int) (long : Nat.pow 10 Text.digitLimit ≤ number.natAbs) : HoldsLong (.integer number)
  | item (items : List Value) (item : Value) (member : item ∈ items) (long : HoldsLong item) : HoldsLong (.list items)
  | entry (entries : Table) (key : String) (value : Value) (member : (key, value) ∈ entries) (long : HoldsLong value) :
      HoldsLong (.table entries)

theorem holdsLong_integer_iff (number : Int) : HoldsLong (.integer number) ↔ Nat.pow 10 Text.digitLimit ≤ number.natAbs := by
  constructor
  · intro held
    cases held with
    | integer _ long => exact long
  · exact HoldsLong.integer number

theorem holdsLong_list_iff (items : List Value) : HoldsLong (.list items) ↔ ∃ item ∈ items, HoldsLong item := by
  constructor
  · intro held
    cases held with
    | item _ item member long => exact ⟨item, member, long⟩
  · rintro ⟨item, member, long⟩
    exact .item items item member long

theorem holdsLong_table_iff (entries : Table) : HoldsLong (.table entries) ↔ ∃ entry ∈ entries, HoldsLong entry.2 := by
  constructor
  · intro held
    cases held with
    | entry _ key value member long => exact ⟨(key, value), member, long⟩
  · rintro ⟨⟨key, value⟩, member, long⟩
    exact .entry entries key value member long

mutual

theorem written?_eq_none_iff (value : Value) : written? value = none ↔ HoldsLong value := by
  cases value with
  | integer number =>
    rw [holdsLong_integer_iff, written?]
    split
    · next short => exact iff_of_false nofun (Nat.not_le_of_lt short)
    · next long => exact iff_of_true rfl (Nat.le_of_not_lt long)
  | list items => rw [holdsLong_list_iff, written?, Option.map_eq_none_iff, writtenItems?_eq_none_iff]
  | table entries => rw [holdsLong_table_iff, written?, Option.map_eq_none_iff, writtenEntries?_eq_none_iff]
  | _ => exact iff_of_false nofun nofun

theorem writtenItems?_eq_none_iff (items : List Value) : writtenItems? items = none ↔ ∃ item ∈ items, HoldsLong item := by
  cases items with
  | nil => exact iff_of_false nofun nofun
  | cons item items =>
    rw [List.exists_mem_cons_iff, ← written?_eq_none_iff item, ← writtenItems?_eq_none_iff items, writtenItems?]
    cases written? item with
    | none => simp
    | some text => cases writtenItems? items <;> simp

theorem writtenEntries?_eq_none_iff (entries : Table) :
    writtenEntries? entries = none ↔ ∃ entry ∈ entries, HoldsLong entry.2 := by
  cases entries with
  | nil => exact iff_of_false nofun nofun
  | cons entry entries =>
    obtain ⟨key, value⟩ := entry
    rw [List.exists_mem_cons_iff, ← written?_eq_none_iff value, ← writtenEntries?_eq_none_iff entries, writtenEntries?]
    cases written? value with
    | none => simp
    | some text => cases writtenEntries? entries <;> simp

end

theorem shown?_eq_none_iff (value : Value) : value.shown? = none ↔ HoldsLong value := by
  cases value with
  | text string => exact iff_of_false nofun nofun
  | moment point => exact iff_of_false nofun nofun
  | _ => exact written?_eq_none_iff _

end Value

/-- Whether a reader that stops does so for an integer of too many digits or because the text is not well formed. -/
def Measures {α : Type} (result : Except Rejection α) : Prop :=
  ∀ rejection, result = .error rejection →
    rejection = .invalid ∨ ∃ digits, Text.digitLimit < digits ∧ rejection = .tooLong digits

namespace Measures
variable {α β : Type}

theorem ok (value : α) : Measures (.ok value) := fun _ same => nomatch same

theorem invalid : Measures (.error .invalid : Except Rejection α) := fun _ same => .inl (Except.error.inj same).symm

theorem require (found : Option α) : Measures (require found) := by
  cases found with
  | none => exact invalid
  | some value => exact ok value

theorem bind {first : Except Rejection α} {next : α → Except Rejection β} (before : Measures first)
    (behind : ∀ value, Measures (next value)) : Measures (first >>= next) := by
  intro rejection stopped
  rcases (bind_eq_error_iff first next _).mp stopped with here | ⟨value, _, later⟩
  · exact before rejection here
  · exact behind value rejection later

theorem integer (negative : Bool) (digits : List Char) : Measures (integer negative digits) := by
  intro rejection stopped
  rw [Toml.integer] at stopped
  split at stopped
  · next long => exact .inr ⟨_, long, (Except.error.inj stopped).symm⟩
  · contradiction

theorem decimal? (chars rest : List Char) (value : Except Rejection Value) (found : decimal? chars = some (value, rest)) :
    Measures value := by
  obtain ⟨⟨whole, afterWhole⟩, _, found⟩ := Option.bind_eq_some_iff.mp found
  dsimp only at found
  split at found
  · obtain rfl := congrArg Prod.fst (Option.some.inj found)
    exact ok _
  · split at found
    · obtain rfl := congrArg Prod.fst (Option.some.inj found)
      exact integer _ _
    · obtain rfl := congrArg Prod.fst (Option.some.inj found)
      exact ok _

theorem number? (chars rest : List Char) (value : Except Rejection Value) (found : number? chars = some (value, rest)) :
    Measures value := by
  rw [Toml.number?] at found
  split at found
  · obtain rfl := congrArg Prod.fst (Option.some.inj found)
    exact ok _
  · rcases Option.or_eq_some_iff.mp found with decimal | ⟨_, special⟩
    · exact Measures.decimal? chars rest value decimal
    · obtain ⟨pair, _, same⟩ := Option.map_eq_some_iff.mp special
      obtain rfl := congrArg Prod.fst same
      exact ok _

theorem scalar (chars : List Char) : Measures (Value.scalar chars) := by
  rw [Value.scalar]
  split
  · exact ok _
  · split
    · split
      · exact ok _
      · exact invalid
    · cases found : Toml.number? chars with
      | none => exact invalid
      | some pair =>
        change Measures (pair.1 >>= fun value => .ok (value, pair.2))
        exact bind (number? chars pair.2 pair.1 found) fun _ => ok _

section Readers
variable (steps : Nat)

theorem read_succ (readItems : ∀ chars, Measures (Value.readItems steps chars))
    (readEntries : ∀ closed entries chars, Measures (Value.readEntries steps closed entries chars)) (chars : List Char) :
    Measures (Value.read (steps + 1) chars) := by
  cases chars with
  | nil => exact invalid
  | cons character rest =>
    rw [Value.read]
    split
    · exact bind (require _) fun _ => ok _
    · split
      · refine bind (require _) fun layout => ?_
        split
        · exact ok _
        · exact bind (readItems _) fun _ => ok _
      · split
        · split
          · exact ok _
          · exact bind (readEntries _ _ _) fun _ => ok _
        · exact scalar _

theorem readItems_succ (read : ∀ chars, Measures (Value.read steps chars))
    (readItems : ∀ chars, Measures (Value.readItems steps chars)) (chars : List Char) :
    Measures (Value.readItems (steps + 1) chars) := by
  rw [Value.readItems]
  refine bind (read _) fun _ => bind (require _) fun layout => ?_
  split
  · exact ok _
  · refine bind (require _) fun layout => ?_
    split
    · exact ok _
    · exact bind (readItems _) fun _ => ok _
  · exact invalid

theorem readEntries_succ (readPair : ∀ chars, Measures (Value.readPair steps chars))
    (readEntries : ∀ closed entries chars, Measures (Value.readEntries steps closed entries chars)) (closed : List Path)
    (entries : Table) (chars : List Char) : Measures (Value.readEntries (steps + 1) closed entries chars) := by
  rw [Value.readEntries]
  refine bind (readPair _) fun ((path, value), rest) => ?_
  dsimp only
  split
  · exact invalid
  · refine bind (require _) fun _ => ?_
    split
    · exact ok _
    · exact readEntries _ _ _
    · exact invalid

theorem readPair_succ (read : ∀ chars, Measures (Value.read steps chars)) (chars : List Char) :
    Measures (Value.readPair (steps + 1) chars) := by
  rw [Value.readPair]
  refine bind (require _) fun (path, rest) => ?_
  dsimp only
  split
  · exact bind (read _) fun _ => ok _
  · exact invalid

/-- All four readers of values at once, by the steps that they have left. -/
theorem readers :
    (∀ chars, Measures (Value.read steps chars)) ∧ (∀ chars, Measures (Value.readItems steps chars)) ∧
    (∀ closed entries chars, Measures (Value.readEntries steps closed entries chars)) ∧
    ∀ chars, Measures (Value.readPair steps chars) := by
  induction steps with
  | zero => exact ⟨fun _ => invalid, fun _ => invalid, fun _ _ _ => invalid, fun _ => invalid⟩
  | succ steps ih =>
    obtain ⟨read, readItems, readEntries, readPair⟩ := ih
    exact ⟨read_succ steps readItems readEntries, readItems_succ steps read readItems,
      readEntries_succ steps readPair readEntries, readPair_succ steps read⟩

end Readers

theorem statement (document : Document) (chars : List Char) : Measures (document.statement chars) := by
  rw [Document.statement.eq_def]
  split
  · refine bind (require _) fun _ => bind (require _) fun _ => ?_
    split
    · exact ok _
    · exact invalid
  · refine bind (require _) fun _ => bind (require _) fun _ => ?_
    split
    · exact ok _
    · exact invalid
  · split
    · exact bind ((readers _).2.2.2 _) fun _ => bind (require _) fun _ => ok _
    · exact ok _

theorem lines (steps : Nat) (document : Document) (chars : List Char) : Measures (Document.lines steps document chars) := by
  induction steps generalizing document chars with
  | zero => exact invalid
  | succ steps ih =>
    rw [Document.lines]
    refine bind (statement _ _) fun _ => bind (require _) fun _ => ?_
    split
    · exact ok _
    · exact ih _ _
    · exact invalid

end Measures

/-- No file is refused for an integer that is short enough. -/
theorem Document.rejection_of_parse (stack : Stack) (chars : List Char) (rejection : Rejection)
    (refused : parse stack chars = .error rejection) :
    rejection = .invalid ∨ (∃ digits, Text.digitLimit < digits ∧ rejection = .tooLong digits) ∨
      rejection = .tooDeep ∧ stack.reads chars = false := by
  rw [parse] at refused
  split at refused
  · cases read : lines (chars.length + 1) empty (withLineFeeds chars) with
    | ok document =>
      rw [read] at refused
      exact nomatch refused
    | error other =>
      rw [read] at refused
      obtain rfl := Except.error.inj refused
      exact (Measures.lines _ _ _ other read).imp_right .inl
  · next deep => exact .inr (.inr ⟨(Except.error.inj refused).symm, Bool.eq_false_iff.mpr deep⟩)

end AccessChain.Toml
