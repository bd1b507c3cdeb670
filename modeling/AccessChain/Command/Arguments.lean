import AccessChain.Analysis
import AccessChain.Text.Classes

/-! The arguments of the command: at most one source file and options. An option with a value takes it from
behind an equals sign or from the next argument; its name may be cut short as long as it stays unique. -/
namespace AccessChain.Command

inductive Flag where
  | help | stdin | offset | charOffset | format | boundaryKind | ignoreKind | config | debug
deriving DecidableEq

namespace Flag

def names : List (String × Flag) := [
  ("-h", .help), ("--help", .help), ("--stdin", .stdin), ("--offset", .offset),
  ("--charoffset", .charOffset), ("--format", .format), ("--boundary-kind", .boundaryKind),
  ("--ignore-kind", .ignoreKind), ("--config", .config), ("--debug", .debug)]

def title (flag : Flag) : String :=
  String.intercalate "/" ((names.filter fun row => row.2 = flag).map Prod.fst)

def takesValue : Flag → Bool
  | .help | .stdin | .charOffset | .debug => false
  | .offset | .format | .boundaryKind | .ignoreKind | .config => true

end Flag

inductive UsageError where
  | ambiguous (argument : String) (candidates : List String)
  | valueMissing (flag : Flag)
  | valueIgnored (flag : Flag) (value : String)
  | invalidInteger (flag : Flag) (value : String)
  | invalidChoice (flag : Flag) (value : String) (choices : List String)
  | unrecognized (arguments : List String)
deriving DecidableEq

namespace UsageError

def quoted (string : String) : String := Text.quoted (Text.ofString string)

def of (flag : Flag) (message : String) : String := "argument " ++ flag.title ++ ": " ++ message

def message : UsageError → String
  | .ambiguous argument candidates =>
    "ambiguous option: " ++ argument ++ " could match " ++ String.intercalate ", " candidates
  | .valueMissing flag => of flag "expected one argument"
  | .valueIgnored flag value => of flag ("ignored explicit argument " ++ quoted value)
  | .invalidInteger flag value => of flag ("invalid int value: " ++ quoted value)
  | .invalidChoice flag value choices =>
    of flag ("invalid choice: " ++ quoted value ++ " (choose from " ++
      String.intercalate ", " (choices.map quoted) ++ ")")
  | .unrecognized arguments => "unrecognized arguments: " ++ String.intercalate " " arguments

end UsageError

/-! Classification of arguments, before any of them is used -/

/-- What an argument is: a plain one, the mark behind which all are plain, or an option. An option that is
not known has no flag. A short option is one with a single dash; the value is what the argument holds behind
the name. -/
inductive Word where
  | plain (argument : String)
  | mark
  | option (argument : String) (flag : Option Flag) (isShort : Bool) (value : Option String)
deriving DecidableEq

namespace Word

def splitValue (argument : List Char) : List Char × Option String :=
  let name := argument.takeWhile (· != '=')
  match argument.drop name.length with
  | [] => (name, none)
  | _ :: value => (name, some (String.ofList value))

/-- A negative number, whole or with decimal places; a line feed may stand at its end. -/
def isNegativeNumber : List Char → Bool
  | '-' :: rest =>
    let rest := if rest.getLast? = some '\n' then rest.dropLast else rest
    let places := rest.dropWhile Text.isDecimal
    match places with
    | [] => !rest.isEmpty
    | '.' :: digits => !digits.isEmpty && digits.all Text.isDecimal
    | _ => false
  | _ => false

/-- The options that an argument can mean which is none in full, with their values. Of an argument with a
single dash, all that follows the letter is the value. -/
def candidates (argument : List Char) : List (String × Flag × Option String) :=
  match argument with
  | '-' :: '-' :: _ =>
    let (name, value) := splitValue argument
    (Flag.names.filter fun row => name.isPrefixOf row.1.toList).map fun row => (row.1, row.2, value)
  | _ =>
    (Flag.names.filter fun row => row.1.toList = argument.take 2).map fun row =>
      (row.1, row.2, some (String.ofList (argument.drop 2)))

def inFull? (argument : List Char) : Option (Flag × Option String) :=
  match Flag.names.lookup (String.ofList argument) with
  | some flag => some (flag, none)
  | none =>
    match splitValue argument with
    | (_, none) => none
    | (name, value) => (Flag.names.lookup (String.ofList name)).map fun flag => (flag, value)

def isShort (argument : List Char) : Bool := argument.take 2 != ['-', '-']

def ofDashed (argument : String) : Except UsageError Word :=
  let chars := argument.toList
  match inFull? chars, candidates chars with
  | some (flag, value), _ => .ok (.option argument (some flag) (isShort chars) value)
  | none, [] =>
    if isNegativeNumber chars || chars.contains ' ' then .ok (.plain argument)
    else .ok (.option argument none (isShort chars) none)
  | none, [(_, flag, value)] => .ok (.option argument (some flag) (isShort chars) value)
  | none, several => .error (.ambiguous argument (several.map Prod.fst))

def ofArgument (argument : String) : Except UsageError Word :=
  match argument.toList with
  | '-' :: _ :: _ => ofDashed argument
  | _ => .ok (.plain argument)

def ofArguments : List String → Except UsageError (List Word)
  | [] => .ok []
  | argument :: rest =>
    if argument = "--" then .ok (.mark :: rest.map .plain)
    else do
      let word ← ofArgument argument
      return word :: (← ofArguments rest)

def argument : Word → String
  | .plain argument => argument
  | .mark => "--"
  | .option argument _ _ _ => argument

end Word

/-! Values -/

def asciiBlank (character : Char) : Bool :=
  ('\t' ≤ character && character ≤ '\r') || character == ' '

/-- The white space around integers: of ASCII the blank and the five characters from the tab on. -/
def isMargin (character : Char) : Bool :=
  asciiBlank character || 0x7F < character.toNat && Text.isBlank character

def digitValues? : List Char → Option (List Nat)
  | [] => none
  | [digit] => (Text.decimalValue? digit).map ([·])
  | digit :: '_' :: rest => do
    let value ← Text.decimalValue? digit
    return value :: (← digitValues? rest)
  | digit :: rest => do
    let value ← Text.decimalValue? digit
    return value :: (← digitValues? rest)

def natural? (chars : List Char) : Option Nat := do
  let values ← digitValues? chars
  if Text.digitLimit < values.length then none
  else some (values.foldl (fun total value => total * 10 + value) 0)

def integer? (value : String) : Option Int :=
  let trimmed := ((value.toList.dropWhile isMargin).reverse.dropWhile isMargin).reverse
  match trimmed with
  | '-' :: digits => (natural? digits).map fun value => -value
  | '+' :: digits => (natural? digits).map Int.ofNat
  | digits => (natural? digits).map Int.ofNat

/-! Walking over the arguments -/

/-- What an option was given: nothing, two dashes in place of a value, or a value. -/
inductive Given (α : Type) where
  | absent
  | blank
  | value (value : α)
deriving DecidableEq

structure Arguments where
  input : Option String
  stdin : Bool
  offset : Given Int
  charOffset : Bool
  format : Given Format
  /-- The names of kinds to add, of which a blank one is nothing. -/
  added : List (Option String)
  removed : List (Option String)
  config : Option String
  debug : Bool
deriving DecidableEq

namespace Arguments

def none : Arguments := ⟨.none, false, .absent, false, .absent, [], [], .none, false⟩

def set (arguments : Arguments) : Flag → Arguments
  | .stdin => { arguments with stdin := true }
  | .charOffset => { arguments with charOffset := true }
  | .debug => { arguments with debug := true }
  | _ => arguments

/-- The arguments with the value of an option. Kinds add up; of all others the last value counts. -/
def setValue (arguments : Arguments) (flag : Flag) (value : String) : Except UsageError Arguments :=
  match flag with
  | .offset =>
    match integer? value with
    | some offset => .ok { arguments with offset := .value offset }
    | .none => .error (.invalidInteger flag value)
  | .format =>
    match Format.ofName? value with
    | some format => .ok { arguments with format := .value format }
    | .none => .error (.invalidChoice flag value (Format.all.map Format.name))
  | .boundaryKind => .ok { arguments with added := arguments.added ++ [some value] }
  | .ignoreKind => .ok { arguments with removed := arguments.removed ++ [some value] }
  | .config => .ok { arguments with config := some value }
  | .help | .stdin | .charOffset | .debug => .ok arguments

/-- The arguments with a blank value of an option, of which no reading is tried. -/
def setBlank (arguments : Arguments) : Flag → Arguments
  | .offset => { arguments with offset := .blank }
  | .format => { arguments with format := .blank }
  | .boundaryKind => { arguments with added := arguments.added ++ [.none] }
  | .ignoreKind => { arguments with removed := arguments.removed ++ [.none] }
  | .config => { arguments with config := .none }
  | .help | .stdin | .charOffset | .debug => arguments

/-- As `setValue`, for a value behind an equals sign, where two dashes are a blank one. -/
def setAssigned (arguments : Arguments) (flag : Flag) (value : String) : Except UsageError Arguments :=
  if value = "--" then .ok (arguments.setBlank flag) else arguments.setValue flag value

end Arguments

/-- The arguments read so far, whether the source file is among them, and those that fit nowhere, the
latest first. -/
structure Reading where
  arguments : Arguments
  hasInput : Bool
  unknown : List String

inductive Parsed where
  | arguments (arguments : Arguments)
  | help
deriving DecidableEq

namespace Reading

def start : Reading := ⟨.none, false, []⟩

def leftOver (reading : Reading) (words : List Word) : Reading :=
  { reading with unknown := (words.map Word.argument).reverse ++ reading.unknown }

def withInput (reading : Reading) (argument : String) : Reading :=
  { reading with arguments := { reading.arguments with input := some argument }, hasInput := true }

def finish (reading : Reading) : Except UsageError Parsed :=
  if reading.unknown.isEmpty then .ok (.arguments reading.arguments)
  else .error (.unrecognized reading.unknown.reverse)

/-- The mark and what follows it. The mark is dropped with the source file that it stands beside. -/
def afterMark (reading : Reading) (words : List Word) : Reading :=
  if reading.hasInput then reading.leftOver (.mark :: words)
  else
    match words with
    | [] => reading
    | word :: rest => (reading.withInput word.argument).leftOver rest

/-- A value for an option that takes none. A short option is followed by more letters of the same kind, so
there only what is left behind them is a value. -/
def surplus (flag : Flag) (isShort : Bool) (value : String) : Except UsageError Parsed :=
  if isShort && !value.isEmpty then
    match value.toList.dropWhile (· == 'h') with
    | [] => .ok .help
    | rest => .error (.valueIgnored flag (String.ofList rest))
  else .error (.valueIgnored flag value)

def walk (reading : Reading) : List Word → Except UsageError Parsed
  | [] => reading.finish
  | .mark :: rest => (reading.afterMark rest).finish
  | .plain argument :: .mark :: rest =>
    if reading.hasInput then (reading.leftOver (.plain argument :: .mark :: rest)).finish
    else ((reading.withInput argument).leftOver rest).finish
  | .plain argument :: rest =>
    if reading.hasInput then walk (reading.leftOver [.plain argument]) rest
    else walk (reading.withInput argument) rest
  | .option argument .none _ _ :: rest =>
    walk { reading with unknown := argument :: reading.unknown } rest
  | .option _ (some flag) isShort (some value) :: rest =>
    if flag.takesValue then do
      walk { reading with arguments := ← reading.arguments.setAssigned flag value } rest
    else surplus flag isShort value
  | .option _ (some flag) _ .none :: .plain value :: rest =>
    if flag.takesValue then do
      walk { reading with arguments := ← reading.arguments.setValue flag value } rest
    else if flag = .help then .ok .help
    else walk { reading with arguments := reading.arguments.set flag } (.plain value :: rest)
  | .option _ (some flag) _ .none :: rest =>
    if flag.takesValue then .error (.valueMissing flag)
    else if flag = .help then .ok .help
    else walk { reading with arguments := reading.arguments.set flag } rest

end Reading

def parse (argv : List String) : Except UsageError Parsed := do
  Reading.start.walk (← Word.ofArguments argv)

end AccessChain.Command
