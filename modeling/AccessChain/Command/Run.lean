import AccessChain.Command.Settings
import AccessChain.Offset.Basic

/-! A run of the command: what it prints and the code it exits with. -/
namespace AccessChain.Command

structure Output where
  code : Nat
  stdout : Text
  stderr : Text
deriving DecidableEq

inductive Outcome where
  | help
  | usage (error : UsageError)
  | fault (fault : Fault)
  | finished (output : Output)
deriving DecidableEq

namespace Run

def line (text : Text) : Text := text ++ [.char '\n']

def failed (code : Nat) (report : Text) : Output := ⟨code, [], line report⟩

def sourceName (settings : Settings) : String := (settings.input.map FilePath.toString).getD "<stdin>"

/-- What a stream takes that writes UTF-8 and no stray byte. -/
def strictStream (text : Text) : Bool := text.all (·.satisfies fun _ => true)

/-- Whether the streams take what is printed. Nothing is written where nothing is printed. -/
def takes (surroundings : Surroundings) (output : Output) : Bool :=
  (output.stdout.isEmpty || surroundings.stdout output.stdout) &&
    (output.stderr.isEmpty || surroundings.stderr output.stderr)

def cursorOf (settings : Settings) : Except Fault Cursor :=
  match settings.offset with
  | .absent => .ok ⟨none, settings.inChars⟩
  | .blank => .error .blankOffset
  | .value offset => .ok ⟨some offset, settings.inChars⟩

/-- What is printed about a source. Without a format it is plain text. -/
def ofSource (settings : Settings) (cursor : Cursor) (source : Text) : Output :=
  match Analysis.run ⟨settings.boundary, tokenize⟩ source cursor with
  | .error error => failed 1 (error.report (sourceName settings))
  | .ok (analysis, tokens) =>
    let dump := if settings.debug then Token.dump tokens (some analysis.start) else ""
    ⟨0, line (analysis.render (settings.format.getD .text)), Text.ofString dump⟩

/-- What is printed for settings that have been resolved. The source is read before the cursor is looked at. -/
def withSettings (inputs : Inputs) (settings : Settings) : Except Fault Output := do
  match ← Source.read inputs settings.stdin settings.input with
  | .error error => return failed 1 (Text.ofString error.report)
  | .ok source => return ofSource settings (← cursorOf settings) source

def withArguments (surroundings : Surroundings) (arguments : Arguments) : Except Fault Output :=
  match Settings.resolve surroundings arguments with
  | .error (.fault fault) => .error fault
  | .error error => .ok (failed 2 (Text.ofString ("error: " ++ error.message)))
  | .ok settings => withSettings surroundings.toInputs settings

def delivered (surroundings : Surroundings) (output : Output) : Outcome :=
  if takes surroundings output then .finished output else .fault .unwritable

end Run

def run (surroundings : Surroundings) (argv : List String) : Outcome :=
  match parse argv with
  | .error error => .usage error
  | .ok .help => .help
  | .ok (.arguments arguments) =>
    match Run.withArguments surroundings arguments with
    | .error fault => .fault fault
    | .ok output => Run.delivered surroundings output

def needs (argv : List String) : List FilePath × Bool :=
  match parse argv with
  | .ok (.arguments arguments) =>
    (Settings.filePath arguments :: (Settings.pathOf? arguments.input).toList, arguments.stdin)
  | _ => ([], false)

def UsageError.report (error : UsageError) : String := "exprchain: error: " ++ error.message

end AccessChain.Command
