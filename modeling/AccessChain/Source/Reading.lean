import AccessChain.Source.FilePath
import AccessChain.Text.Decoding

/-! Where source text comes from: a file or a stream, whose bytes are UTF-8 or of an encoding that has to
be detected. -/
namespace AccessChain

/-- What the system says when it fails, with the number of the error if there is one. -/
structure ReadFailure where
  number : Option Int
  text : String
deriving DecidableEq

/-- What is at a path. The system may fail to tell, as it does for a name that is too long or below a directory that
must not be searched. -/
inductive FileState where
  | unreachable (failure : ReadFailure)
  /-- No regular file. -/
  | absent
  | unreadable (failure : ReadFailure)
  | contents (bytes : List UInt8)
deriving DecidableEq

/-- What source text is read from, with the detection of encodings other than UTF-8, which may find none. -/
structure Inputs where
  files : FilePath → FileState
  stream : Except ReadFailure (List UInt8)
  detect : List UInt8 → Option Text

inductive Fault where
  | unreachable (path : FilePath) (failure : ReadFailure)
  | unreadable (path : FilePath) (failure : ReadFailure)
  | unreadableStream (failure : ReadFailure)
  /-- The settings file is not UTF-8. -/
  | undecodable
  /-- An integer in the settings file has too many digits. How many is known where it is read in base ten. -/
  | tooLong (digits : Option Nat)
  | tooDeep
  | blankKind
  | blankOffset
  | unwritable
deriving DecidableEq

inductive SourceError where
  | notGiven
  | missing (path : FilePath)
  | unreadable (path : FilePath) (failure : ReadFailure)
deriving DecidableEq

namespace ReadFailure

def reason (failure : ReadFailure) : String :=
  match failure.number with
  | some number =>
    if failure.text.isEmpty then "[Errno " ++ toString number ++ "] " else failure.text
  | none => failure.text

end ReadFailure

def Fault.message : Fault → String
  | .unreachable path failure | .unreadable path failure => path.toString ++ ": " ++ failure.reason
  | .unreadableStream failure => "<stdin>: " ++ failure.reason
  | .undecodable => "the config file is not UTF-8"
  | .tooLong _ => "an integer of the config file has too many digits"
  | .tooDeep => "the config file is nested too deep"
  | .blankKind => "a token kind is missing"
  | .blankOffset => "the offset is missing"
  | .unwritable => "the output cannot be written"

namespace SourceError

def message : SourceError → String
  | .notGiven => "no source file given"
  | .missing _ => "the specified file does not exist"
  | .unreadable _ failure => "cannot read file: " ++ failure.reason

def path? : SourceError → Option FilePath
  | .notGiven => none
  | .missing path | .unreadable path _ => some path

def reportOf (message : String) (path : Option FilePath) : String :=
  "error: " ++ message ++ "\n  --> " ++ (path.map FilePath.toString).getD "<no file given>"

def report (error : SourceError) : String := reportOf error.message error.path?

end SourceError

namespace Source

/-- The text of bytes: UTF-8 as it is, otherwise what detection makes of it, otherwise with stray bytes. -/
def ofBytes (detect : List UInt8 → Option Text) (bytes : List UInt8) : Text :=
  ((Text.decodeStrict? bytes).or (detect bytes)).getD (Text.decode bytes)

def read (inputs : Inputs) (fromStream : Bool) (path : Option FilePath) :
    Except Fault (Except SourceError Text) :=
  if fromStream then
    match inputs.stream with
    | .error failure => .error (.unreadableStream failure)
    | .ok bytes => .ok (.ok (ofBytes inputs.detect bytes))
  else
    match path with
    | none => .ok (.error .notGiven)
    | some path =>
      match inputs.files path with
      | .unreachable failure => .error (.unreachable path failure)
      | .absent => .ok (.error (.missing path))
      | .unreadable failure => .ok (.error (.unreadable path failure))
      | .contents bytes => .ok (.ok (ofBytes inputs.detect bytes))

end Source
end AccessChain
