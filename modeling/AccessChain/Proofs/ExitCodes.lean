import AccessChain.Proofs.BeforeCursor
import AccessChain.Proofs.BoundaryLayers
import AccessChain.Proofs.StrayBytes

/-! How a run ends. Its code says whether the settings were refused, whether there was no source or no such place in it,
or whether all went well, and then only is anything printed but a report. Some runs end without a code: the system fails to
tell what is at a path, a file or stream cannot be read where that is not reported, the settings file is not UTF-8, nests
too deep or holds an integer of too many digits, an option was given two dashes for a value, or a stream does not take what
is printed. -/
namespace AccessChain

namespace Text

theorem decodeStrict?_ofChars (chars : List Char) : decodeStrict? (encode (ofChars chars)) = some (ofChars chars) := by
  have valid : (encode (ofChars chars)).toByteArray.IsValidUTF8 := by
    rw [isValidUTF8_iff, encode_ofChars]
    exact ⟨chars, rfl⟩
  rw [decodeStrict?_eq, utf8Decode?_of_valid _ valid, encode_ofChars, decode_ofChars]

theorem decodeStrict?_of_invalid (bytes : List UInt8) (invalid : ¬ bytes.toByteArray.IsValidUTF8) :
    decodeStrict? bytes = none := by
  rw [← ByteArray.isSome_utf8Decode?_iff, Bool.not_eq_true, Option.isSome_eq_false_iff, Option.isNone_iff_eq_none] at invalid
  rw [decodeStrict?_eq, invalid]
  rfl

theorem exists_ofChars (bytes : List UInt8) (valid : bytes.toByteArray.IsValidUTF8) :
    ∃ chars, bytes = encode (ofChars chars) := by
  obtain ⟨chars, same⟩ := (isValidUTF8_iff bytes).mp valid
  exact ⟨chars, by rw [encode_ofChars, same]⟩

end Text

namespace Command

namespace Settings

/-! The settings. -/

/-- The table of a settings file, or the empty one if there is no file. -/
inductive Loads (surroundings : Surroundings) (path : FilePath) : Toml.Table → Prop where
  | absent (missing : surroundings.files path = .absent) : Loads surroundings path []
  | file (chars : List Char) (table : Toml.Table)
      (contents : surroundings.files path = .contents (Text.encode (Text.ofChars chars)))
      (parsed : Toml.Document.parse surroundings.stack chars = .ok table) : Loads surroundings path table

/-- The causes for which there is no table. Of these only that the file is not well formed is reported. -/
inductive Misreads (surroundings : Surroundings) (path : FilePath) : SettingsError → Prop where
  | unreachable (failure : ReadFailure) (state : surroundings.files path = .unreachable failure) :
      Misreads surroundings path (.fault (.unreachable path failure))
  | unreadable (failure : ReadFailure) (state : surroundings.files path = .unreadable failure) :
      Misreads surroundings path (.fault (.unreadable path failure))
  | undecodable (bytes : List UInt8) (contents : surroundings.files path = .contents bytes)
      (invalid : ¬ bytes.toByteArray.IsValidUTF8) : Misreads surroundings path (.fault .undecodable)
  | rejected (chars : List Char) (contents : surroundings.files path = .contents (Text.encode (Text.ofChars chars)))
      (rejection : Toml.Rejection) (parsed : Toml.Document.parse surroundings.stack chars = .error rejection) :
      Misreads surroundings path (Settings.rejected path rejection)

/-- The causes for which settings are refused. Of several items that name no kind the first one counts, and a format is
looked at only if there are none. -/
inductive Refuses (surroundings : Surroundings) (arguments : Arguments) : SettingsError → Prop where
  | file (error : SettingsError) (misread : Misreads surroundings (filePath arguments) error) :
      Refuses surroundings arguments error
  | item (table : Toml.Table) (loads : Loads surroundings (filePath arguments) table) (item : Except Fault String)
      (first : FirstUnknown (listed surroundings.stack table arguments) item) :
      Refuses surroundings arguments (refusal .unknownKind item)
  | format (table : Toml.Table) (loads : Loads surroundings (filePath arguments) table)
      (known : ∀ item ∈ listed surroundings.stack table arguments, IsKnown item) (value : Toml.Value)
      (asked : lookup? table "output" "format" = some value) (other : ∀ format : Format, value ≠ .text format.name)
      (item : Except Fault String) (reads : Reads surroundings.stack value item) :
      Refuses surroundings arguments (refusal .invalidFormat item)

section Loading
variable (surroundings : Surroundings) (path : FilePath)

theorem load_of_chars (chars : List Char)
    (contents : surroundings.files path = .contents (Text.encode (Text.ofChars chars))) :
    load surroundings path = (Toml.Document.parse surroundings.stack chars).mapError (rejected path) := by
  rw [load, contents]
  dsimp only
  rw [Text.decodeStrict?_ofChars, Option.bind_some, Text.chars?_ofChars]

theorem load_of_loads (table : Toml.Table) (loads : Loads surroundings path table) : load surroundings path = .ok table := by
  cases loads with
  | absent missing => rw [load, missing]
  | file chars table contents parsed =>
    rw [load_of_chars surroundings path chars contents, parsed]
    rfl

theorem load_of_misreads (error : SettingsError) (misread : Misreads surroundings path error) :
    load surroundings path = .error error := by
  cases misread with
  | unreachable failure state => rw [load, state]
  | unreadable failure state => rw [load, state]
  | undecodable bytes contents invalid =>
    rw [load, contents]
    dsimp only
    rw [Text.decodeStrict?_of_invalid bytes invalid]
    rfl
  | rejected chars contents rejection parsed =>
    rw [load_of_chars surroundings path chars contents, parsed]
    rfl

theorem load_cases : (∃ table, Loads surroundings path table) ∨ ∃ error, Misreads surroundings path error := by
  cases state : surroundings.files path with
  | unreachable failure => exact .inr ⟨_, .unreachable failure state⟩
  | absent => exact .inl ⟨[], .absent state⟩
  | unreadable failure => exact .inr ⟨_, .unreadable failure state⟩
  | contents bytes =>
    by_cases valid : bytes.toByteArray.IsValidUTF8
    · obtain ⟨chars, rfl⟩ := Text.exists_ofChars bytes valid
      cases parsed : Toml.Document.parse surroundings.stack chars with
      | error rejection => exact .inr ⟨_, .rejected chars state rejection parsed⟩
      | ok table => exact .inl ⟨table, .file chars table state parsed⟩
    · exact .inr ⟨_, .undecodable bytes state valid⟩

theorem load_eq_ok_iff (table : Toml.Table) : load surroundings path = .ok table ↔ Loads surroundings path table := by
  refine ⟨fun loaded => ?_, load_of_loads surroundings path table⟩
  rcases load_cases surroundings path with ⟨other, loads⟩ | ⟨error, misread⟩
  · obtain rfl := Except.ok.inj ((load_of_loads surroundings path other loads).symm.trans loaded)
    exact loads
  · exact nomatch (load_of_misreads surroundings path error misread).symm.trans loaded

theorem load_eq_error_iff (error : SettingsError) :
    load surroundings path = .error error ↔ Misreads surroundings path error := by
  refine ⟨fun failed => ?_, load_of_misreads surroundings path error⟩
  rcases load_cases surroundings path with ⟨table, loads⟩ | ⟨other, misread⟩
  · exact nomatch (load_of_loads surroundings path table loads).symm.trans failed
  · obtain rfl := Except.error.inj ((load_of_misreads surroundings path other misread).symm.trans failed)
    exact misread

end Loading

/-- The causes are the ones that are reported. -/
theorem resolve_eq_error_iff_refuses (surroundings : Surroundings) (arguments : Arguments) (error : SettingsError) :
    resolve surroundings arguments = .error error ↔ Refuses surroundings arguments error := by
  rw [resolve_eq_error_iff, load_eq_error_iff]
  simp only [load_eq_ok_iff, boundaryOf_eq_error_iff, kinds_eq_error_iff, exists_boundaryOf_iff, formatIn_eq_error_iff]
  constructor
  · rintro (misread | ⟨table, loads, ⟨item, first, rfl⟩ | ⟨known, value, asked, other, item, reads, rfl⟩⟩)
    · exact .file error misread
    · exact .item table loads item first
    · exact .format table loads known value asked other item reads
  · intro refused
    cases refused with
    | file _ misread => exact .inl misread
    | item table loads item first => exact .inr ⟨table, loads, .inl ⟨item, first, rfl⟩⟩
    | format table loads known value asked other item reads =>
      exact .inr ⟨table, loads, .inr ⟨known, value, asked, other, item, reads, rfl⟩⟩

end Settings

/-! The source and the place in it. -/

/-- The text that a run reads: that of the stream if it was asked for, or else that of the file. -/
inductive Provides (surroundings : Surroundings) (arguments : Arguments) : Text → Prop where
  | stream (asked : arguments.stdin = true) (bytes : List UInt8) (contents : surroundings.stream = .ok bytes) :
      Provides surroundings arguments (Source.ofBytes surroundings.detect bytes)
  | file (unasked : arguments.stdin = false) (path : FilePath) (bytes : List UInt8)
      (given : Settings.pathOf? arguments.input = some path) (contents : surroundings.files path = .contents bytes) :
      Provides surroundings arguments (Source.ofBytes surroundings.detect bytes)

/-- The causes for which it is not even known whether there is a source. -/
inductive Withholds (surroundings : Surroundings) (arguments : Arguments) : Fault → Prop where
  | stream (asked : arguments.stdin = true) (failure : ReadFailure) (state : surroundings.stream = .error failure) :
      Withholds surroundings arguments (.unreadableStream failure)
  | file (unasked : arguments.stdin = false) (path : FilePath) (failure : ReadFailure)
      (given : Settings.pathOf? arguments.input = some path) (state : surroundings.files path = .unreachable failure) :
      Withholds surroundings arguments (.unreachable path failure)

section Reading
variable (surroundings : Surroundings) (arguments : Arguments)

theorem read_of_provides (source : Text) (provides : Provides surroundings arguments source) :
    Source.read surroundings.toInputs arguments.stdin (Settings.pathOf? arguments.input) = .ok (.ok source) := by
  cases provides with
  | stream asked bytes contents => rw [Source.read.eq_def, if_pos asked, contents]
  | file unasked path bytes given contents => simp [Source.read, unasked, given, contents]

theorem read_of_withholds (fault : Fault) (withholds : Withholds surroundings arguments fault) :
    Source.read surroundings.toInputs arguments.stdin (Settings.pathOf? arguments.input) = .error fault := by
  cases withholds with
  | stream asked failure state => rw [Source.read.eq_def, if_pos asked, state]
  | file unasked path failure given state => simp [Source.read, unasked, given, state]

theorem read_cases : (∃ source, Provides surroundings arguments source) ∨ (∃ fault, Withholds surroundings arguments fault) ∨
    ∃ error, Source.read surroundings.toInputs arguments.stdin (Settings.pathOf? arguments.input) = .ok (.error error) := by
  cases asked : arguments.stdin with
  | true =>
    cases state : surroundings.stream with
    | error failure => exact .inr (.inl ⟨_, .stream asked failure state⟩)
    | ok bytes => exact .inl ⟨_, .stream asked bytes state⟩
  | false =>
    cases given : Settings.pathOf? arguments.input with
    | none => exact .inr (.inr ⟨_, rfl⟩)
    | some path =>
      cases state : surroundings.files path with
      | unreachable failure => exact .inr (.inl ⟨_, .file asked path failure given state⟩)
      | absent => exact .inr (.inr ⟨.missing path, by simp [Source.read, state]⟩)
      | unreadable failure => exact .inr (.inr ⟨.unreadable path failure, by simp [Source.read, state]⟩)
      | contents bytes => exact .inl ⟨_, .file asked path bytes given state⟩

end Reading

/-- Whether the offset that was given lies outside a source, in the unit that was asked for. -/
def IsOutside (arguments : Arguments) (source : Text) : Prop :=
  ∃ offset : Int, arguments.offset = .value offset ∧ Cursor.IsOutside ⟨some offset, arguments.charOffset⟩ source

/-- Whether there is no source, or no such place in it. -/
def Misses (surroundings : Surroundings) (arguments : Arguments) : Prop :=
  (¬ ∃ source, Provides surroundings arguments source) ∨
    ∃ source, Provides surroundings arguments source ∧ IsOutside arguments source

theorem misses_iff {surroundings : Surroundings} {arguments : Arguments} {source : Text}
    (provides : Provides surroundings arguments source) : Misses surroundings arguments ↔ IsOutside arguments source := by
  constructor
  · rintro (missing | ⟨other, again, outside⟩)
    · exact absurd ⟨source, provides⟩ missing
    · have first := read_of_provides surroundings arguments source provides
      have second := read_of_provides surroundings arguments other again
      rwa [Except.ok.inj (Except.ok.inj (first.symm.trans second))]
  · intro outside
    exact .inr ⟨source, provides, outside⟩

/-! The code. -/

/-- The causes for which a run ends before anything is printed. -/
inductive Breaks (surroundings : Surroundings) (arguments : Arguments) : Fault → Prop where
  | settings (fault : Fault) (refused : Settings.Refuses surroundings arguments (.fault fault)) :
      Breaks surroundings arguments fault
  | source (accepted : ¬ ∃ error, Settings.Refuses surroundings arguments error) (fault : Fault)
      (withholds : Withholds surroundings arguments fault) : Breaks surroundings arguments fault
  | blankOffset (accepted : ¬ ∃ error, Settings.Refuses surroundings arguments error) (source : Text)
      (provides : Provides surroundings arguments source) (blank : arguments.offset = .blank) :
      Breaks surroundings arguments .blankOffset

/-- Whether the streams take what is printed to them. -/
def Takes (surroundings : Surroundings) (output : Output) : Prop :=
  (output.stdout = [] ∨ surroundings.stdout output.stdout = true) ∧
    (output.stderr = [] ∨ surroundings.stderr output.stderr = true)

/-- A code tells how a run went, and only a run that went well prints. -/
structure Tells (surroundings : Surroundings) (arguments : Arguments) (output : Output) : Prop where
  listed : output.code = 0 ∨ output.code = 1 ∨ output.code = 2
  refused : output.code = 2 ↔ ∃ error, Settings.Refuses surroundings arguments error
  missed : output.code = 1 ↔ (¬ ∃ error, Settings.Refuses surroundings arguments error) ∧ Misses surroundings arguments
  printed : output.stdout ≠ [] ↔ output.code = 0

namespace Run

theorem ofSource_of_outside (settings : Settings) (cursor : Cursor) (source : Text) (outside : cursor.IsOutside source) :
    ∃ report, ofSource settings cursor source = failed 1 report := by
  rcases Analysis.run_cases ⟨settings.boundary, tokenize⟩ source cursor with ⟨inside, _⟩ | ⟨_, error, missing⟩
  · exact absurd outside inside
  · exact ⟨_, by rw [ofSource, missing]⟩

theorem ofSource_of_inside (settings : Settings) (cursor : Cursor) (source : Text) (inside : ¬ cursor.IsOutside source) :
    ∃ text dump, ofSource settings cursor source = ⟨0, line text, dump⟩ := by
  rcases Analysis.run_cases ⟨settings.boundary, tokenize⟩ source cursor with ⟨_, stop, _, _, found⟩ | ⟨outside, _⟩
  · exact ⟨_, _, by rw [ofSource, found]⟩
  · exact absurd outside inside

section Ends
variable {surroundings : Surroundings} {arguments : Arguments}

theorem tells_of_refused (error : SettingsError) (report : Text) (refused : Settings.Refuses surroundings arguments error) :
    Tells surroundings arguments (failed 2 report) where
  listed := .inr (.inr rfl)
  refused := iff_of_true rfl ⟨error, refused⟩
  missed := iff_of_false nofun fun accepted => accepted.1 ⟨error, refused⟩
  printed := iff_of_false (by simp [failed]) nofun

variable (accepted : ¬ ∃ error, Settings.Refuses surroundings arguments error)
include accepted

theorem tells_of_missed (report : Text) (misses : Misses surroundings arguments) :
    Tells surroundings arguments (failed 1 report) where
  listed := .inr (.inl rfl)
  refused := iff_of_false nofun accepted
  missed := iff_of_true rfl ⟨accepted, misses⟩
  printed := iff_of_false (by simp [failed]) nofun

theorem tells_of_found (text dump : Text) (found : ¬ Misses surroundings arguments) :
    Tells surroundings arguments ⟨0, line text, dump⟩ where
  listed := .inl rfl
  refused := iff_of_false nofun accepted
  missed := iff_of_false nofun fun missed => found missed.2
  printed := iff_of_true (by simp [line]) rfl

theorem withSettings_of_unbroken (settings : Settings) (input : settings.input = Settings.pathOf? arguments.input)
    (stdin : settings.stdin = arguments.stdin) (offset : settings.offset = arguments.offset)
    (inChars : settings.inChars = arguments.charOffset) (unbroken : ¬ ∃ fault, Breaks surroundings arguments fault) :
    ∃ output, withSettings surroundings.toInputs settings = .ok output ∧ Tells surroundings arguments output := by
  rw [withSettings, stdin, input, cursorOf, offset, inChars]
  rcases read_cases surroundings arguments with ⟨source, provides⟩ | ⟨fault, withholds⟩ | ⟨error, read⟩
  · -- Which code it is depends on the place only, and that is outside the source for both or for neither.
    have ends : ∀ cursor : Cursor, (cursor.IsOutside source ↔ IsOutside arguments source) →
        ∃ output, Except.ok (ofSource settings cursor source) = (.ok output : Except Fault Output) ∧
          Tells surroundings arguments output := by
      intro cursor same
      by_cases outside : cursor.IsOutside source
      · obtain ⟨report, shown⟩ := ofSource_of_outside settings cursor source outside
        have misses := (misses_iff provides).mpr (same.mp outside)
        exact ⟨_, congrArg _ shown, tells_of_missed accepted report misses⟩
      · obtain ⟨text, dump, shown⟩ := ofSource_of_inside settings cursor source outside
        have found := mt (misses_iff provides).mp (mt same.mpr outside)
        exact ⟨_, congrArg _ shown, tells_of_found accepted text dump found⟩
    rw [read_of_provides surroundings arguments source provides]
    cases given : arguments.offset with
    | blank => exact absurd ⟨_, .blankOffset accepted source provides given⟩ unbroken
    | absent =>
      apply ends
      simp [Cursor.IsOutside, IsOutside, given]
    | value offset =>
      apply ends
      simp [Cursor.IsOutside, IsOutside, given]
  · exact absurd ⟨fault, .source accepted fault withholds⟩ unbroken
  · have missing : ¬ ∃ source, Provides surroundings arguments source := by
      rintro ⟨source, provides⟩
      exact nomatch read.symm.trans (read_of_provides surroundings arguments source provides)
    rw [read]
    exact ⟨_, rfl, tells_of_missed accepted _ (.inl missing)⟩

end Ends

section Planned
variable (surroundings : Surroundings) (arguments : Arguments)

theorem withArguments_of_breaks (fault : Fault) (breaks : Breaks surroundings arguments fault) :
    withArguments surroundings arguments = .error fault := by
  have refuses := Settings.resolve_eq_error_iff_refuses surroundings arguments
  rw [withArguments]
  cases resolved : Settings.resolve surroundings arguments with
  | error error =>
    have refused := (refuses error).mp resolved
    cases breaks with
    | settings fault other =>
      obtain rfl := Except.error.inj (resolved.symm.trans ((refuses _).mpr other))
      rfl
    | source accepted => exact absurd ⟨error, refused⟩ accepted
    | blankOffset accepted => exact absurd ⟨error, refused⟩ accepted
  | ok settings =>
    obtain ⟨_, _, _, input, stdin, offset, _⟩ := Settings.resolve_eq_ok _ _ settings resolved
    dsimp only
    rw [withSettings, stdin, input]
    cases breaks with
    | settings fault refused => exact nomatch resolved.symm.trans ((refuses _).mpr refused)
    | source accepted fault withholds =>
      rw [read_of_withholds surroundings arguments fault withholds]
      rfl
    | blankOffset accepted source provides blank =>
      rw [read_of_provides surroundings arguments source provides, cursorOf, offset, blank]
      rfl

theorem withArguments_of_unbroken (unbroken : ¬ ∃ fault, Breaks surroundings arguments fault) :
    ∃ output, withArguments surroundings arguments = .ok output ∧ Tells surroundings arguments output := by
  have refuses := Settings.resolve_eq_error_iff_refuses surroundings arguments
  rw [withArguments]
  cases resolved : Settings.resolve surroundings arguments with
  | error error =>
    have refused := (refuses error).mp resolved
    cases error with
    | fault fault => exact absurd ⟨fault, .settings fault refused⟩ unbroken
    | _ => exact ⟨_, rfl, tells_of_refused _ _ refused⟩
  | ok settings =>
    have allowed : ¬ ∃ error, Settings.Refuses surroundings arguments error := by
      rintro ⟨error, refused⟩
      exact nomatch resolved.symm.trans ((refuses error).mpr refused)
    obtain ⟨_, _, _, input, stdin, offset, inChars⟩ := Settings.resolve_eq_ok _ _ settings resolved
    exact withSettings_of_unbroken allowed settings input stdin offset inChars unbroken

theorem takes_iff (output : Output) : takes surroundings output = true ↔ Takes surroundings output := by
  simp only [takes, Takes, Bool.and_eq_true, Bool.or_eq_true, List.isEmpty_iff]

theorem delivered_of_takes (output : Output) (taken : Takes surroundings output) :
    delivered surroundings output = .finished output := by
  rw [delivered, if_pos ((takes_iff surroundings output).mpr taken)]

theorem delivered_of_not_takes (output : Output) (refused : ¬ Takes surroundings output) :
    delivered surroundings output = .fault .unwritable := by
  rw [delivered, if_neg (mt (takes_iff surroundings output).mp refused)]

end Planned

theorem strictStream_append (left right : Text) : strictStream (left ++ right) = (strictStream left && strictStream right) :=
  List.all_append

theorem strictStream_ofString (string : String) : strictStream (Text.ofString string) = true := by
  simp [strictStream, Text.ofString, Text.ofChars, Sym.satisfies]

theorem strictStream_intercalate (separator : Text) (plain : strictStream separator = true) (segments : List Text) :
    strictStream (List.intercalate separator segments) = segments.all strictStream := by
  induction segments with
  | nil => rfl
  | cons segment segments ih =>
    cases segments with
    | nil => simp [List.intercalate]
    | cons next rest =>
      rw [List.intercalate_cons_cons, strictStream_append, strictStream_append, plain, ih, List.all_cons (a := segment)]
      simp

/-- A strict stream takes every chain as JSON, and as plain text those without a stray byte. -/
theorem strictStream_render_iff (analysis : Analysis) (format : Format) :
    strictStream (line (analysis.render format)) = true ↔
      format = .json ∨ ∀ segment ∈ analysis.chain, strictStream segment = true := by
  rw [line, strictStream_append]
  cases format with
  | json =>
    rw [Analysis.render, strictStream_ofString]
    simp [strictStream, Sym.satisfies]
  | text =>
    rw [Analysis.render, Analysis.plainText, strictStream_intercalate _ rfl]
    simp [strictStream, Sym.satisfies]

-- The cursor is in the middle of the last character.
example :
    let files path := if path = FilePath.ofString "a.php" then .contents (Text.encode (Text.ofString "$a->é")) else .absent
    run { Settings.surroundingsOf files with stdout := strictStream } ["a.php", "--offset=5"] = .fault .unwritable := by
  decide +kernel

end Run

/-- Whether nothing from outside stands in the way of a run, and no option was given two dashes for a value. The settings
file may be absent or hold any bytes, and so may the source. -/
structure Undisturbed (surroundings : Surroundings) (arguments : Arguments) : Prop where
  reached (failure : ReadFailure) : surroundings.files (Settings.filePath arguments) ≠ .unreachable failure
  readable (failure : ReadFailure) : surroundings.files (Settings.filePath arguments) ≠ .unreadable failure
  source (fault : Fault) : ¬ Withholds surroundings arguments fault
  reads (chars : List Char) : surroundings.stack.reads chars = true
  writes (value : Toml.Value) : surroundings.stack.writes value = true
  stdout (text : Text) : surroundings.stdout text = true
  stderr (text : Text) : surroundings.stderr text = true
  offset : arguments.offset ≠ .blank
  added : none ∉ arguments.added
  removed : none ∉ arguments.removed

namespace Undisturbed
variable {surroundings : Surroundings} {arguments : Arguments} (undisturbed : Undisturbed surroundings arguments)
include undisturbed

theorem takes (output : Output) : Takes surroundings output := ⟨.inr (undisturbed.stdout _), .inr (undisturbed.stderr _)⟩

theorem tooLong_of_reads (value : Toml.Value) (fault : Fault)
    (reads : Settings.Reads surroundings.stack value (.error fault)) : fault = .tooLong none := by
  cases reads with
  | tooLong fits long => rfl
  | tooDeep deep => exact nomatch (undisturbed.writes value).symm.trans deep

theorem tooLong_of_names (table : Toml.Table) (key : String) (fault : Fault)
    (member : .error fault ∈ Settings.names surroundings.stack table key) : fault = .tooLong none := by
  rw [Settings.names] at member
  split at member
  · obtain ⟨value, _, text⟩ := List.mem_map.mp member
    exact undisturbed.tooLong_of_reads value fault ((Settings.reads_iff _ value _).mpr text)
  · contradiction

theorem tooLong_of_listed (table : Toml.Table) (fault : Fault)
    (member : .error fault ∈ Settings.listed surroundings.stack table arguments) : fault = .tooLong none := by
  have given (names : List (Option String)) (full : none ∉ names) : .error fault ∉ Settings.given names := by
    intro member
    obtain ⟨name, among, same⟩ := List.mem_map.mp member
    cases name with
    | none => exact full among
    | some name => exact nomatch same
  simp only [Settings.listed, List.mem_append, given _ undisturbed.added, given _ undisturbed.removed, or_false] at member
  rcases member with added | dropped
  · exact undisturbed.tooLong_of_names table _ fault added
  · exact undisturbed.tooLong_of_names table _ fault dropped

theorem fault_of_refuses (fault : Fault) (refused : Settings.Refuses surroundings arguments (.fault fault)) :
    (fault = .undecodable ∧ ∃ bytes, surroundings.files (Settings.filePath arguments) = .contents bytes ∧
      ¬ bytes.toByteArray.IsValidUTF8) ∨
    ∃ digits, fault = .tooLong digits ∧ ∀ count, digits = some count → Text.digitLimit < count := by
  generalize reported : SettingsError.fault fault = error at refused
  cases refused with
  | file _ misread =>
    cases misread with
    | unreachable failure state => exact absurd state (undisturbed.reached failure)
    | unreadable failure state => exact absurd state (undisturbed.readable failure)
    | undecodable bytes contents invalid => exact .inl ⟨SettingsError.fault.inj reported, bytes, contents, invalid⟩
    | rejected chars contents rejection parsed =>
      rcases Toml.Document.rejection_of_parse _ chars rejection parsed with rfl | ⟨digits, long, rfl⟩ | ⟨_, deep⟩
      · exact nomatch reported
      · refine .inr ⟨some digits, SettingsError.fault.inj reported, fun count same => ?_⟩
        rwa [← Option.some.inj same]
      · exact nomatch (undisturbed.reads chars).symm.trans deep
  | item table loads item first =>
    cases item with
    | ok called => exact nomatch reported
    | error other =>
      obtain rfl := SettingsError.fault.inj reported
      obtain ⟨front, behind, items, _⟩ := first
      have member : .error fault ∈ Settings.listed surroundings.stack table arguments := by
        rw [items]
        exact List.mem_append_right front List.mem_cons_self
      exact .inr ⟨none, undisturbed.tooLong_of_listed table fault member, nofun⟩
  | format table loads known value asked other item reads =>
    cases item with
    | ok called => exact nomatch reported
    | error other =>
      obtain rfl := SettingsError.fault.inj reported
      exact .inr ⟨none, undisturbed.tooLong_of_reads value fault reads, nofun⟩

theorem fault_of_breaks (fault : Fault) (breaks : Breaks surroundings arguments fault) :
    Settings.Refuses surroundings arguments (.fault fault) := by
  cases breaks with
  | settings fault refused => exact refused
  | source accepted fault withholds => exact absurd withholds (undisturbed.source fault)
  | blankOffset accepted source provides blank => exact absurd blank undisturbed.offset

end Undisturbed

section Accepted
variable {surroundings : Surroundings} {argv : List String} {arguments : Arguments}
  (accepted : parse argv = .ok (.arguments arguments))
include accepted

theorem run_of_breaks (fault : Fault) (breaks : Breaks surroundings arguments fault) :
    run surroundings argv = .fault fault := by
  rw [run, accepted]
  dsimp only
  rw [Run.withArguments_of_breaks surroundings arguments fault breaks]

theorem run_of_unbroken (unbroken : ¬ ∃ fault, Breaks surroundings arguments fault) :
    ∃ output, Tells surroundings arguments output ∧ run surroundings argv = Run.delivered surroundings output := by
  obtain ⟨output, planned, tells⟩ := Run.withArguments_of_unbroken surroundings arguments unbroken
  refine ⟨output, tells, ?_⟩
  rw [run, accepted]
  dsimp only
  rw [planned]

theorem Undisturbed.run_eq_fault_iff (undisturbed : Undisturbed surroundings arguments) (fault : Fault) :
    run surroundings argv = .fault fault ↔ Settings.Refuses surroundings arguments (.fault fault) := by
  refine ⟨fun ended => ?_, fun refused => run_of_breaks accepted fault (.settings fault refused)⟩
  by_cases broken : ∃ other, Breaks surroundings arguments other
  · obtain ⟨other, breaks⟩ := broken
    obtain rfl := Outcome.fault.inj (ended.symm.trans (run_of_breaks accepted other breaks))
    exact undisturbed.fault_of_breaks fault breaks
  · obtain ⟨output, _, delivered⟩ := run_of_unbroken accepted broken
    have finished := Run.delivered_of_takes surroundings output (undisturbed.takes output)
    exact nomatch (ended.symm.trans delivered).trans finished

end Accepted

def sampleSurroundings (settings : List UInt8) : Surroundings := Settings.surroundingsOf fun path =>
  if path = FilePath.ofString "a.php" then .contents (Text.encode (Text.ofString "$a->b")) else .contents settings

theorem undisturbed_sample (settings : List UInt8) (arguments : Arguments) (offset : arguments.offset ≠ .blank)
    (added : none ∉ arguments.added) (removed : none ∉ arguments.removed) :
    Undisturbed (sampleSurroundings settings) arguments := by
  have held (path : FilePath) : ∃ bytes, (sampleSurroundings settings).files path = .contents bytes := by
    rw [sampleSurroundings, Settings.surroundingsOf]
    dsimp only
    split
    · exact ⟨_, rfl⟩
    · exact ⟨_, rfl⟩
  have reached (path : FilePath) (failure : ReadFailure) :
      (sampleSurroundings settings).files path ≠ .unreachable failure := by
    obtain ⟨bytes, contents⟩ := held path
    exact fun state => nomatch contents.symm.trans state
  refine ⟨reached _, fun failure state => ?_, fun fault withholds => ?_, fun _ => rfl, fun _ => rfl, fun _ => rfl,
    fun _ => rfl, offset, added, removed⟩
  · obtain ⟨bytes, contents⟩ := held (Settings.filePath arguments)
    exact nomatch contents.symm.trans state
  · cases withholds with
    | stream asked failure state => exact nomatch state
    | file unasked path failure given state => exact reached path failure state

end Command
end AccessChain
