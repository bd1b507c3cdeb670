import AccessChain.Command.Settings
import AccessChain.Proofs.LongIntegers
import Mathlib.Data.List.Nodup

/-! The boundary kinds of a run. The settings file changes the defaults, and the command line changes what the file
leaves. Each layer first adds kinds and then drops some, so that for every kind the last word on it counts. -/
namespace AccessChain

namespace TokenKind

theorem mem_all (kind : TokenKind) : kind ∈ all := by
  cases kind with
  | keyword word => cases word <;> decide
  | operator sign => cases sign <;> decide
  | _ => decide

theorem nodup_names : (all.map name).Nodup := by
  decide +kernel

/-- Whether a name, in upper case and without the white space around it, is that of a kind. -/
def IsCalled (kind : TokenKind) (called : String) : Prop := kind.name = normalName called

instance (kind : TokenKind) (called : String) : Decidable (kind.IsCalled called) :=
  inferInstanceAs (Decidable (kind.name = normalName called))

theorem parse?_eq_some_iff (called : String) (kind : TokenKind) : parse? called = some kind ↔ kind.IsCalled called := by
  rw [parse?, ofName?, IsCalled]
  constructor
  · intro found
    simpa using List.find?_some found
  · intro same
    cases found : all.find? (·.name == normalName called) with
    | none => exact absurd same (by simpa using List.find?_eq_none.mp found kind (mem_all kind))
    | some other =>
      have shared : other.name = normalName called := by simpa using List.find?_some found
      rw [List.inj_on_of_nodup_map nodup_names (mem_all other) (mem_all kind) (shared.trans same.symm)]

end TokenKind

namespace Command.Settings

/-! Names, from the first to the last. -/

theorem kind_eq_ok_iff (called : String) (found : TokenKind) : kind called = .ok found ↔ found.IsCalled called := by
  rw [← TokenKind.parse?_eq_some_iff, kind]
  cases TokenKind.parse? called with
  | none => simp
  | some other => simp

theorem kind_eq_error_iff (called : String) (error : SettingsError) :
    kind called = .error error ↔ (¬ ∃ found : TokenKind, found.IsCalled called) ∧ error = .unknownKind called := by
  simp only [← TokenKind.parse?_eq_some_iff, kind]
  cases TokenKind.parse? called with
  | none => simp [eq_comm]
  | some other => simp

/-! Items, each of which is a name or the fault that there is none. -/

/-- How an item is refused: one with a text by a report that names it. -/
def refusal (report : String → SettingsError) : Except Fault String → SettingsError
  | .ok text => report text
  | .error fault => .fault fault

/-- Whether an item is the name of a kind. -/
def Names (item : Except Fault String) (kind : TokenKind) : Prop :=
  match item with
  | .ok called => kind.IsCalled called
  | .error _ => False

instance decidableNames (item : Except Fault String) (kind : TokenKind) : Decidable (Names item kind) :=
  match item with
  | .ok called => inferInstanceAs (Decidable (kind.IsCalled called))
  | .error _ => inferInstanceAs (Decidable False)

def IsKnown (item : Except Fault String) : Prop := ∃ kind, Names item kind

theorem kindOf_eq_ok_iff (item : Except Fault String) (found : TokenKind) : kindOf item = .ok found ↔ Names item found := by
  cases item with
  | error fault => simp [kindOf, Names]
  | ok called => simp [kindOf, Names, kind_eq_ok_iff]

theorem kindOf_eq_error_iff (item : Except Fault String) (error : SettingsError) :
    kindOf item = .error error ↔ ¬ IsKnown item ∧ error = refusal .unknownKind item := by
  cases item with
  | error fault => simp [kindOf, refusal, IsKnown, Names, eq_comm]
  | ok called => simp [kindOf, refusal, IsKnown, Names, kind_eq_error_iff]

/-- All items that a run has to read, in the order in which it reads them. -/
def listed (stack : Toml.Stack) (table : Toml.Table) (arguments : Arguments) : List (Except Fault String) :=
  names stack table "boundary_kinds" ++ names stack table "ignore_kinds" ++ given arguments.added ++ given arguments.removed

/-- The lists are read one behind the other, so the first failure is that of all of them as one list. -/
theorem boundaryOf_eq_error_iff (stack : Toml.Stack) (table : Toml.Table) (arguments : Arguments) (error : SettingsError) :
    boundaryOf stack table arguments = .error error ↔ kinds (listed stack table arguments) = .error error := by
  simp only [boundaryOf, listed, kinds, List.mapM_append]
  cases (names stack table "boundary_kinds").mapM kindOf with
  | error first => exact Iff.rfl
  | ok added =>
    cases (names stack table "ignore_kinds").mapM kindOf with
    | error second => exact Iff.rfl
    | ok removed =>
      cases (given arguments.added).mapM kindOf with
      | error third => exact Iff.rfl
      | ok addedLast =>
        cases (given arguments.removed).mapM kindOf with
        | error fourth => exact Iff.rfl
        | ok removedLast => exact iff_of_false nofun nofun

/-- What a value of the settings file counts as: its text, or the fault that it has none. -/
inductive Reads (stack : Toml.Stack) (value : Toml.Value) : Except Fault String → Prop where
  | text (fits : stack.writes value = true) (text : String) (shown : value.shown? = some text) : Reads stack value (.ok text)
  | tooLong (fits : stack.writes value = true) (long : value.HoldsLong) : Reads stack value (.error (.tooLong none))
  | tooDeep (deep : stack.writes value = false) : Reads stack value (.error .tooDeep)

theorem reads_iff (stack : Toml.Stack) (value : Toml.Value) (item : Except Fault String) :
    Reads stack value item ↔ textOf stack value = item := by
  constructor
  · intro reads
    rw [textOf]
    cases reads with
    | text fits text shown => rw [if_pos fits, shown]
    | tooLong fits long => rw [if_pos fits, value.shown?_eq_none_iff.mpr long]
    | tooDeep deep => rw [deep, if_neg Bool.false_ne_true]
  · rintro rfl
    rw [textOf]
    split
    · next fits =>
      cases shown : value.shown? with
      | none => exact .tooLong fits (value.shown?_eq_none_iff.mp shown)
      | some text => exact .text fits text shown
    · next deep => exact .tooDeep (Bool.eq_false_iff.mpr deep)

/-- The items in a list of the settings file. There are none unless the part is a table and its entry a list. -/
inductive Lists (stack : Toml.Stack) (table : Toml.Table) (key : String) : List (Except Fault String) → Prop where
  | items (part : Toml.Table) (values : List Toml.Value) (scanner : table.get? "scanner" = some (.table part))
      (entry : part.get? key = some (.list values)) (items : List (Except Fault String))
      (read : List.Forall₂ (Reads stack) values items) : Lists stack table key items
  | missing (absent : ∀ (part : Toml.Table) values, table.get? "scanner" = some (.table part) →
        part.get? key ≠ some (.list values)) :
      Lists stack table key []

theorem items?_eq_some (value : Toml.Value) (values : List Toml.Value) :
    value.items? = some values ↔ value = .list values := by
  cases value <;> simp [Toml.Value.items?]

theorem entries?_eq_some (value : Toml.Value) (part : Toml.Table) : value.entries? = some part ↔ value = .table part := by
  cases value <;> simp [Toml.Value.entries?]

theorem lookup?_eq_some_iff (table : Toml.Table) (part key : String) (value : Toml.Value) :
    lookup? table part key = some value ↔
      ∃ entries : Toml.Table, table.get? part = some (.table entries) ∧ entries.get? key = some value := by
  simp only [lookup?, bind, Option.bind_eq_some_iff, entries?_eq_some]
  constructor
  · rintro ⟨_, found, entries, rfl, entry⟩
    exact ⟨entries, found, entry⟩
  · rintro ⟨entries, found, entry⟩
    exact ⟨_, found, entries, rfl, entry⟩

section Listing
variable (stack : Toml.Stack) (table : Toml.Table) (key : String)

theorem forall₂_reads_iff (values : List Toml.Value) (items : List (Except Fault String)) :
    List.Forall₂ (Reads stack) values items ↔ values.map (textOf stack) = items := by
  have graph : Reads stack = fun value item => textOf stack value = item :=
    funext fun value => funext fun item => propext (reads_iff stack value item)
  rw [← List.forall₂_eq_eq_eq, List.forall₂_map_left_iff, graph]

theorem names_of_lists (items : List (Except Fault String)) (lists : Lists stack table key items) :
    names stack table key = items := by
  cases lists with
  | items part values scanner entry items read =>
    have found : lookup? table "scanner" key = some (.list values) :=
      (lookup?_eq_some_iff _ _ _ _).mpr ⟨part, scanner, entry⟩
    rw [names, found, ← (forall₂_reads_iff stack values items).mp read]
    rfl
  | missing absent =>
    have missing : (lookup? table "scanner" key).bind Toml.Value.items? = none := by
      rw [Option.bind_eq_none_iff]
      intro value found
      obtain ⟨part, scanner, entry⟩ := (lookup?_eq_some_iff _ _ _ _).mp found
      rw [Option.eq_none_iff_forall_ne_some]
      intro values items
      rw [(items?_eq_some value values).mp items] at entry
      exact absent part values scanner entry
    rw [names, missing]

theorem lists_names : Lists stack table key (names stack table key) := by
  by_cases held : ∃ (part : Toml.Table) (values : List Toml.Value), table.get? "scanner" = some (.table part) ∧
      part.get? key = some (.list values)
  · obtain ⟨part, values, scanner, entry⟩ := held
    have lists := Lists.items part values scanner entry _ ((forall₂_reads_iff stack values _).mpr rfl)
    rwa [names_of_lists stack table key _ lists]
  · have lists : Lists stack table key [] := .missing fun part values scanner entry => held ⟨part, values, scanner, entry⟩
    rwa [names_of_lists stack table key _ lists]

end Listing

/-! What is left of the layers. -/

/-- Whether one of some items is the name of a kind. -/
def Mentions (items : List (Except Fault String)) (kind : TokenKind) : Prop := ∃ item ∈ items, Names item kind

instance (items : List (Except Fault String)) (kind : TokenKind) : Decidable (Mentions items kind) :=
  inferInstanceAs (Decidable (∃ item ∈ items, Names item kind))

theorem mem_of_kinds (items : List (Except Fault String)) (found : List TokenKind) (read : kinds items = .ok found)
    (kind : TokenKind) : kind ∈ found ↔ Mentions items kind := by
  rw [kinds] at read
  rw [mem_of_mapM_eq_ok _ items found read kind, Mentions]
  simp only [kindOf_eq_ok_iff]

theorem mem_of_boundaryOf (stack : Toml.Stack) (table : Toml.Table) (arguments : Arguments) (boundary : KindSet)
    (built : boundaryOf stack table arguments = .ok boundary) (kind : TokenKind) :
    kind ∈ boundary ↔ ¬ Mentions (given arguments.removed) kind ∧ (Mentions (given arguments.added) kind ∨
      ¬ Mentions (names stack table "ignore_kinds") kind ∧
        (Mentions (names stack table "boundary_kinds") kind ∨ kind ∈ KindSet.boundary)) := by
  obtain ⟨first, readFirst, built⟩ := (bind_eq_ok_iff _ _ _).mp built
  obtain ⟨second, readSecond, built⟩ := (bind_eq_ok_iff _ _ _).mp built
  obtain ⟨third, readThird, built⟩ := (bind_eq_ok_iff _ _ _).mp built
  obtain ⟨fourth, readFourth, built⟩ := (bind_eq_ok_iff _ _ _).mp built
  obtain rfl := Except.ok.inj built
  rw [KindSet.mem_dropping, KindSet.mem_adding, KindSet.mem_dropping, KindSet.mem_adding, mem_of_kinds _ _ readFirst,
    mem_of_kinds _ _ readSecond, mem_of_kinds _ _ readThird, mem_of_kinds _ _ readFourth]
  tauto

/-- The first of some items that is the name of no kind. -/
def FirstUnknown (items : List (Except Fault String)) (item : Except Fault String) : Prop :=
  ∃ front behind, items = front ++ item :: behind ∧ (∀ passed ∈ front, IsKnown passed) ∧ ¬ IsKnown item

theorem kinds_eq_error_iff (items : List (Except Fault String)) (error : SettingsError) :
    kinds items = .error error ↔ ∃ item, FirstUnknown items item ∧ error = refusal .unknownKind item := by
  rw [kinds, mapM_eq_error_iff]
  simp only [kindOf_eq_ok_iff, kindOf_eq_error_iff, FirstUnknown, IsKnown]
  constructor
  · rintro ⟨front, item, behind, same, passed, unknown, rfl⟩
    exact ⟨item, ⟨front, behind, same, passed, unknown⟩, rfl⟩
  · rintro ⟨item, ⟨front, behind, same, passed, unknown⟩, rfl⟩
    exact ⟨front, item, behind, same, passed, unknown, rfl⟩

theorem exists_kinds_iff (items : List (Except Fault String)) :
    (∃ found, kinds items = .ok found) ↔ ∀ item ∈ items, IsKnown item := by
  rw [kinds, exists_mapM_eq_ok_iff]
  simp only [kindOf_eq_ok_iff, IsKnown]

theorem exists_firstUnknown_iff (items : List (Except Fault String)) :
    (∃ item, FirstUnknown items item) ↔ ¬ ∀ item ∈ items, IsKnown item := by
  rw [← exists_kinds_iff]
  cases read : kinds items with
  | error error =>
    obtain ⟨item, first, _⟩ := (kinds_eq_error_iff items error).mp read
    exact iff_of_true ⟨item, first⟩ (by simp)
  | ok found =>
    refine iff_of_false (fun unknown => ?_) (not_not_intro ⟨found, rfl⟩)
    obtain ⟨item, first⟩ := unknown
    exact nomatch read.symm.trans ((kinds_eq_error_iff items _).mpr ⟨item, first, rfl⟩)

theorem exists_boundaryOf_iff (stack : Toml.Stack) (table : Toml.Table) (arguments : Arguments) :
    (∃ boundary, boundaryOf stack table arguments = .ok boundary) ↔ ∀ item ∈ listed stack table arguments, IsKnown item := by
  rw [← exists_kinds_iff]
  have failed := boundaryOf_eq_error_iff stack table arguments
  cases built : boundaryOf stack table arguments with
  | error error => rw [(failed error).mp built]
  | ok boundary =>
    cases read : kinds (listed stack table arguments) with
    | error error => exact nomatch built.symm.trans ((failed error).mpr read)
    | ok kinds => exact iff_of_true ⟨boundary, rfl⟩ ⟨kinds, rfl⟩

/-! The boundary kinds among the other settings. -/

theorem ofName?_eq_none_iff (wanted : String) : Format.ofName? wanted = none ↔ ∀ format : Format, wanted ≠ format.name := by
  rw [Format.ofName?, List.find?_eq_none]
  constructor
  · intro missing format same
    have listed : format ∈ Format.all := by cases format <;> decide
    exact missing format listed (beq_iff_eq.mpr same.symm)
  · intro other format _ same
    exact other format (beq_iff_eq.mp same).symm

theorem formatOf?_eq_none_iff (value : Toml.Value) :
    formatOf? value = none ↔ ∀ format : Format, value ≠ .text format.name := by
  cases value with
  | text string =>
    rw [formatOf?, ofName?_eq_none_iff]
    simp only [ne_eq, Toml.Value.text.injEq]
  | _ => exact iff_of_true rfl fun _ same => nomatch same

theorem formatIn_eq_error_iff (stack : Toml.Stack) (table : Toml.Table) (error : SettingsError) :
    formatIn stack table = .error error ↔ ∃ value, lookup? table "output" "format" = some value ∧
      (∀ format : Format, value ≠ .text format.name) ∧
        ∃ item, Reads stack value item ∧ error = refusal .invalidFormat item := by
  rw [formatIn]
  cases asked : lookup? table "output" "format" with
  | none => simp
  | some value =>
    simp only [Option.some.injEq, exists_eq_left', ← formatOf?_eq_none_iff, reads_iff]
    cases formatOf? value with
    | some format => simp
    | none => cases textOf stack value <;> simp [refusal, eq_comm]

theorem formatIn_ne_unknownKind (stack : Toml.Stack) (table : Toml.Table) (called : String) :
    formatIn stack table ≠ .error (.unknownKind called) := by
  intro refused
  obtain ⟨value, _, _, item, _, reported⟩ := (formatIn_eq_error_iff stack table _).mp refused
  cases item with
  | ok name => exact nomatch reported
  | error fault => exact nomatch reported

section Resolving
variable (surroundings : Surroundings) (arguments : Arguments)

theorem resolve_eq_error_iff (error : SettingsError) : resolve surroundings arguments = .error error ↔
    load surroundings (filePath arguments) = .error error ∨
      ∃ table, load surroundings (filePath arguments) = .ok table ∧
        (boundaryOf surroundings.stack table arguments = .error error ∨
          (∃ boundary, boundaryOf surroundings.stack table arguments = .ok boundary) ∧
            formatIn surroundings.stack table = .error error) := by
  rw [resolve, bind_eq_error_iff]
  apply or_congr_right
  apply exists_congr
  intro table
  apply and_congr_right
  intro _
  rw [bind_eq_error_iff]
  apply or_congr_right
  rw [← exists_and_right]
  apply exists_congr
  intro boundary
  apply and_congr_right
  intro _
  rw [bind_eq_error_iff]
  exact or_iff_left nofun

theorem resolve_eq_error_of_loaded (table : Toml.Table) (loaded : load surroundings (filePath arguments) = .ok table)
    (error : SettingsError) : resolve surroundings arguments = .error error ↔
      boundaryOf surroundings.stack table arguments = .error error ∨
        (∃ boundary, boundaryOf surroundings.stack table arguments = .ok boundary) ∧
          formatIn surroundings.stack table = .error error := by
  rw [resolve_eq_error_iff, loaded]
  simp only [reduceCtorEq, Except.ok.injEq, exists_eq_left', false_or]

theorem resolve_eq_ok (settings : Settings) (resolved : resolve surroundings arguments = .ok settings) :
    ∃ table, load surroundings (filePath arguments) = .ok table ∧
      boundaryOf surroundings.stack table arguments = .ok settings.boundary ∧
      settings.input = pathOf? arguments.input ∧ settings.stdin = arguments.stdin ∧
      settings.offset = arguments.offset ∧ settings.inChars = arguments.charOffset := by
  obtain ⟨table, loaded, resolved⟩ := (bind_eq_ok_iff _ _ _).mp resolved
  obtain ⟨boundary, built, resolved⟩ := (bind_eq_ok_iff _ _ _).mp resolved
  obtain ⟨format, chosen, same⟩ := (bind_eq_ok_iff _ _ _).mp resolved
  obtain rfl := Except.ok.inj same
  exact ⟨table, loaded, built, rfl, rfl, rfl, rfl⟩

theorem given_eq_map_ok (names : List String) : given (names.map some) = names.map .ok := by
  rw [given, List.map_map]
  rfl

end Resolving

/-- Every item that is listed has to be the name of a kind, and the first that is not decides how the settings are refused:
an item with a text is reported, and one without ends the run. Then a kind ends expressions if the command line adds it, or
if the settings file or the default does and the file does not drop it, but never if the command line drops it. -/
theorem boundary_by_layers (surroundings : Surroundings) (arguments : Arguments) (table : Toml.Table)
    (fileAdded fileDropped : List (Except Fault String)) (added dropped : List String)
    (loaded : load surroundings (filePath arguments) = .ok table)
    (listsAdded : Lists surroundings.stack table "boundary_kinds" fileAdded)
    (listsDropped : Lists surroundings.stack table "ignore_kinds" fileDropped)
    (givenAdded : arguments.added = added.map some) (givenDropped : arguments.removed = dropped.map some) :
    let items := fileAdded ++ fileDropped ++ added.map .ok ++ dropped.map .ok
    ((∀ item ∈ items, IsKnown item) →
      ∃ boundary, boundaryOf surroundings.stack table arguments = .ok boundary ∧
        (∀ kind, kind ∈ boundary ↔ ¬ Mentions (dropped.map .ok) kind ∧ (Mentions (added.map .ok) kind ∨
          ¬ Mentions fileDropped kind ∧ (Mentions fileAdded kind ∨ kind ∈ KindSet.boundary))) ∧
        (∀ settings, resolve surroundings arguments = .ok settings → settings.boundary = boundary) ∧
        ∀ error, resolve surroundings arguments = .error error → formatIn surroundings.stack table = .error error) ∧
    ((¬ ∀ item ∈ items, IsKnown item) →
      ∃ item, FirstUnknown items item ∧ boundaryOf surroundings.stack table arguments = .error (refusal .unknownKind item) ∧
        resolve surroundings arguments = .error (refusal .unknownKind item)) ∧
    ∀ called, resolve surroundings arguments = .error (.unknownKind called) ↔ FirstUnknown items (.ok called) := by
  intro items
  obtain rfl := names_of_lists _ table _ _ listsAdded
  obtain rfl := names_of_lists _ table _ _ listsDropped
  have same : listed surroundings.stack table arguments = items := by
    rw [listed, givenAdded, givenDropped, given_eq_map_ok, given_eq_map_ok]
  have failed (error : SettingsError) : boundaryOf surroundings.stack table arguments = .error error ↔
      ∃ item, FirstUnknown items item ∧ error = refusal .unknownKind item := by
    rw [boundaryOf_eq_error_iff, same, kinds_eq_error_iff]
  have refused := resolve_eq_error_of_loaded surroundings arguments table loaded
  refine ⟨fun known => ?_, fun unknown => ?_, fun called => ⟨fun ended => ?_, fun first => ?_⟩⟩
  · obtain ⟨boundary, built⟩ := (exists_boundaryOf_iff surroundings.stack table arguments).mpr (by rwa [same])
    have members := mem_of_boundaryOf _ table arguments boundary built
    rw [givenAdded, givenDropped, given_eq_map_ok, given_eq_map_ok] at members
    refine ⟨boundary, built, members, fun settings resolved => ?_, fun error ended => ?_⟩
    · obtain ⟨other, here, again, _⟩ := resolve_eq_ok surroundings arguments settings resolved
      obtain rfl := Except.ok.inj (loaded.symm.trans here)
      exact Except.ok.inj (again.symm.trans built)
    · rcases (refused error).mp ended with failing | ⟨_, format⟩
      · exact nomatch built.symm.trans failing
      · exact format
  · obtain ⟨item, first⟩ := (exists_firstUnknown_iff items).mpr unknown
    have failing := (failed _).mpr ⟨item, first, rfl⟩
    exact ⟨item, first, failing, (refused _).mpr (.inl failing)⟩
  · rcases (refused _).mp ended with failing | ⟨_, format⟩
    · obtain ⟨item, first, reported⟩ := (failed _).mp failing
      cases item with
      | error fault => exact nomatch reported
      | ok other =>
        obtain rfl := SettingsError.unknownKind.inj reported
        exact first
    · exact absurd format (formatIn_ne_unknownKind _ table called)
  · exact (refused _).mpr (.inl ((failed _).mpr ⟨.ok called, first, rfl⟩))

theorem exists_loaded (surroundings : Surroundings) (path : FilePath) (holds : Toml.Table → Bool)
    (checked : (load surroundings path).toOption.any holds = true) :
    ∃ table, load surroundings path = .ok table ∧ holds table = true := by
  cases loaded : load surroundings path with
  | error error =>
    rw [loaded] at checked
    contradiction
  | ok table =>
    rw [loaded] at checked
    exact ⟨table, rfl, checked⟩

/-- Surroundings that refuse nothing, with some files. -/
def surroundingsOf (files : FilePath → FileState) : Surroundings where
  files := files
  stream := .ok []
  detect _ := none
  stack := ⟨fun _ => true, fun _ => true⟩
  stdout _ := true
  stderr _ := true

def sampleSettings : Surroundings := surroundingsOf fun _ => .contents (Text.encode (Text.ofString
  "[scanner]\nboundary_kinds = [\"character\", \"NEW\"]\nignore_kinds = ['Return', \"echo\"]"))

def sampleArguments : Arguments := { Arguments.none with added := [some "echo"], removed := [some " new "] }

/-- The command line adds a kind that the file drops, and drops one that the file adds. -/
theorem boundary_of_file_and_line :
    ∃ table boundary, load sampleSettings (filePath sampleArguments) = .ok table ∧
      Lists sampleSettings.stack table "boundary_kinds" [.ok "character", .ok "NEW"] ∧
      Lists sampleSettings.stack table "ignore_kinds" [.ok "Return", .ok "echo"] ∧
      boundaryOf sampleSettings.stack table sampleArguments = .ok boundary ∧ .character ∈ boundary ∧
      .keyword .newKw ∉ boundary ∧ .keyword .returnKw ∉ boundary ∧ .keyword .echoKw ∈ boundary := by
  obtain ⟨table, loaded, checked⟩ := exists_loaded sampleSettings (filePath sampleArguments) (fun table =>
    names sampleSettings.stack table "boundary_kinds" == [.ok "character", .ok "NEW"] &&
      names sampleSettings.stack table "ignore_kinds" == [.ok "Return", .ok "echo"]) (by decide +kernel)
  rw [Bool.and_eq_true, beq_iff_eq, beq_iff_eq] at checked
  have listsAdded := lists_names sampleSettings.stack table "boundary_kinds"
  have listsDropped := lists_names sampleSettings.stack table "ignore_kinds"
  rw [checked.1] at listsAdded
  rw [checked.2] at listsDropped
  have layers := boundary_by_layers sampleSettings sampleArguments table _ _ ["echo"] [" new "] loaded listsAdded
    listsDropped rfl rfl
  obtain ⟨boundary, built, members, _⟩ := layers.1 (by
    simp only [List.map_cons, List.map_nil, List.cons_append, List.nil_append, List.forall_mem_cons]
    exact ⟨⟨.character, by decide +kernel⟩, ⟨.keyword .newKw, by decide +kernel⟩, ⟨.keyword .returnKw, by decide +kernel⟩,
      ⟨.keyword .echoKw, by decide +kernel⟩, ⟨.keyword .echoKw, by decide +kernel⟩,
      ⟨.keyword .newKw, by decide +kernel⟩, nofun⟩)
  exact ⟨table, boundary, loaded, listsAdded, listsDropped, built, (members _).mpr (by decide +kernel),
    mt (members _).mp (by decide +kernel), mt (members _).mp (by decide +kernel), (members _).mpr (by decide +kernel)⟩

def longSettings : Surroundings := surroundingsOf fun _ => .contents (Text.encode
  (Text.ofString "[scanner]\nboundary_kinds = [0x" ++ List.replicate 3600 (.char 'F') ++ Text.ofString "]"))

/-- The file lists an integer of 4335 digits, which names no kind. No report says so. -/
theorem resolve_of_long_integer :
    ∃ table, load longSettings (filePath Arguments.none) = .ok table ∧
      Lists longSettings.stack table "boundary_kinds" [.error (.tooLong none)] ∧
      resolve longSettings Arguments.none = .error (.fault (.tooLong none)) ∧
      ∀ called, resolve longSettings Arguments.none ≠ .error (.unknownKind called) := by
  obtain ⟨table, loaded, checked⟩ := exists_loaded longSettings (filePath Arguments.none) (fun table =>
    names longSettings.stack table "boundary_kinds" == [.error (.tooLong none)] &&
      boundaryOf longSettings.stack table Arguments.none == .error (.fault (.tooLong none))) (by decide +kernel)
  rw [Bool.and_eq_true, beq_iff_eq, beq_iff_eq] at checked
  have ended : resolve longSettings Arguments.none = .error (.fault (.tooLong none)) :=
    (resolve_eq_error_of_loaded longSettings Arguments.none table loaded _).mpr (.inl checked.2)
  have lists := lists_names longSettings.stack table "boundary_kinds"
  rw [checked.1] at lists
  exact ⟨table, loaded, lists, ended, fun called reported => nomatch ended.symm.trans reported⟩

end Command.Settings
end AccessChain
