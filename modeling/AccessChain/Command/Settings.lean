import AccessChain.Command.Arguments
import AccessChain.Source.Reading
import AccessChain.Token.KindSet
import AccessChain.Toml.Document

/-! The settings of a run, from the defaults, a settings file and the command line. Each layer goes over
the one before it. -/
namespace AccessChain.Command

structure Settings where
  input : Option FilePath
  stdin : Bool
  offset : Given Int
  inChars : Bool
  /-- Nothing if a blank format was asked for. -/
  format : Option Format
  boundary : KindSet
  debug : Bool

/-- All that a run takes from outside: what it reads from, the stack of the program, and for each of the two streams it
prints to, which texts that stream takes. -/
structure Surroundings extends Inputs where
  stack : Toml.Stack
  stdout : Text → Bool
  stderr : Text → Bool

inductive SettingsError where
  | fault (fault : Fault)
  | invalidFile (path : FilePath)
  | unknownKind (name : String)
  | invalidFormat (name : String)
deriving DecidableEq

namespace SettingsError

def message : SettingsError → String
  | .fault cause => cause.message
  | .invalidFile path => "invalid config file " ++ path.toString
  | .unknownKind name => "unknown token kind: " ++ name
  | .invalidFormat name => "invalid output format in config: " ++ name

end SettingsError

namespace Settings

def fileName : String := "exprchain.toml"

/-- A path given as an argument, of which an empty one counts as none. -/
def pathOf? (argument : Option String) : Option FilePath :=
  (argument.filter fun string => !string.isEmpty).map FilePath.ofString

def filePath (arguments : Arguments) : FilePath :=
  match pathOf? arguments.config with
  | some path => path
  | none => (((pathOf? arguments.input).map FilePath.parent).getD (FilePath.ofString "")).child fileName

/-- How a settings file is refused. Only that it is not well formed is reported. -/
def rejected (path : FilePath) : Toml.Rejection → SettingsError
  | .invalid => .invalidFile path
  | .tooLong digits => .fault (.tooLong (some digits))
  | .tooDeep => .fault .tooDeep

/-- The table of a settings file, which is empty if there is no such file. -/
def load (surroundings : Surroundings) (path : FilePath) : Except SettingsError Toml.Table :=
  match surroundings.files path with
  | .unreachable failure => .error (.fault (.unreachable path failure))
  | .absent => .ok []
  | .unreadable failure => .error (.fault (.unreadable path failure))
  | .contents bytes =>
    match (Text.decodeStrict? bytes).bind Text.chars? with
    | none => .error (.fault .undecodable)
    | some chars => (Toml.Document.parse surroundings.stack chars).mapError (rejected path)

def lookup? (table : Toml.Table) (part key : String) : Option Toml.Value := do
  let entries ← (← table.get? part).entries?
  Toml.Table.get? entries key

def textOf (stack : Toml.Stack) (value : Toml.Value) : Except Fault String :=
  if stack.writes value then
    match value.shown? with
    | some text => .ok text
    | none => .error (.tooLong none)
  else .error .tooDeep

/-- The names in a list of the settings file, each of which is made from its item only when it is read. -/
def names (stack : Toml.Stack) (table : Toml.Table) (key : String) : List (Except Fault String) :=
  match (lookup? table "scanner" key).bind Toml.Value.items? with
  | some items => items.map (textOf stack)
  | none => []

/-- The names that an option was given, of which a blank one cannot be read. -/
def given (names : List (Option String)) : List (Except Fault String) :=
  names.map fun
    | some name => .ok name
    | none => .error .blankKind

def kind (name : String) : Except SettingsError TokenKind :=
  match TokenKind.parse? name with
  | some kind => .ok kind
  | none => .error (.unknownKind name)

def kindOf : Except Fault String → Except SettingsError TokenKind
  | .ok name => kind name
  | .error fault => .error (.fault fault)

def kinds (names : List (Except Fault String)) : Except SettingsError (List TokenKind) := names.mapM kindOf

/-- The boundary kinds: the defaults, changed by the settings file and then by the arguments, each of which
adds kinds before it drops others. -/
def boundaryOf (stack : Toml.Stack) (table : Toml.Table) (arguments : Arguments) :
    Except SettingsError KindSet := do
  let added ← kinds (names stack table "boundary_kinds")
  let removed ← kinds (names stack table "ignore_kinds")
  let addedLast ← kinds (given arguments.added)
  let removedLast ← kinds (given arguments.removed)
  return (((KindSet.boundary.adding added).dropping removed).adding addedLast).dropping removedLast

def formatOf? : Toml.Value → Option Format
  | .text name => Format.ofName? name
  | _ => none

def formatIn (stack : Toml.Stack) (table : Toml.Table) : Except SettingsError Format :=
  match lookup? table "output" "format" with
  | none => .ok .text
  | some value =>
    match formatOf? value with
    | some format => .ok format
    | none =>
      match textOf stack value with
      | .ok name => .error (.invalidFormat name)
      | .error fault => .error (.fault fault)

def resolve (surroundings : Surroundings) (arguments : Arguments) : Except SettingsError Settings := do
  let table ← load surroundings (filePath arguments)
  let boundary ← boundaryOf surroundings.stack table arguments
  let format ← formatIn surroundings.stack table
  return {
    input := pathOf? arguments.input
    stdin := arguments.stdin
    offset := arguments.offset
    inChars := arguments.charOffset
    format :=
      match arguments.format with
      | .absent => some format
      | .blank => none
      | .value format => some format
    boundary := boundary
    debug := arguments.debug }

end Settings
end AccessChain.Command
