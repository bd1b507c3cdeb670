import AccessChain.Command.Run

/-! The command. It reads the files that a run needs and prints what the run answers. No encoding other
than UTF-8 is detected. -/
namespace AccessChain.Command

def usage : String :=
  "usage: exprchain [-h] [--stdin] [--offset N] [--charoffset] [--format \x7btext,json\x7d]\n" ++
  "                 [--boundary-kind KIND] [--ignore-kind KIND] [--config FILE] [--debug]\n" ++
  "                 [input]\n"

def stateOf (path : FilePath) : IO FileState := do
  try
    return .contents (← IO.FS.readBinFile path.toString).toList
  catch error =>
    match error with
    | .noFileOrDirectory .. | .inappropriateType .. => return .absent
    | .invalidArgument _ code details => return .unreachable ⟨some code.toNat, details⟩
    | .permissionDenied _ code details => return .unreadable ⟨some code.toNat, details⟩
    | other => return .unreadable ⟨none, toString other⟩

def emit (stream : IO.FS.Stream) (text : Text) : IO Unit := do
  stream.write ⟨(Text.encode text).toArray⟩
  stream.flush

partial def readAll (stream : IO.FS.Stream) (held : ByteArray) : IO ByteArray := do
  let bytes ← stream.read 65536
  if bytes.isEmpty then return held
  readAll stream (held ++ bytes)

def contentsOf (stream : IO.FS.Stream) : IO (Except ReadFailure (List UInt8)) := do
  try
    return .ok (← readAll stream .empty).toList
  catch error => return .error ⟨none, toString error⟩

def execute (argv : List String) : IO UInt32 := do
  let (paths, readsStream) := needs argv
  let states ← paths.mapM fun path => return (path, ← stateOf path)
  let surroundings : Surroundings := {
    files := fun path => (states.lookup path).getD .absent
    stream := ← if readsStream then contentsOf (← IO.getStdin) else pure (.ok [])
    detect := fun _ => none
    stack := ⟨fun _ => true, fun _ => true⟩
    stdout := Run.strictStream
    stderr := fun _ => true }
  let stdout ← IO.getStdout
  let stderr ← IO.getStderr
  match run surroundings argv with
  | .help => emit stdout (Text.ofString usage); return 0
  | .usage error => emit stderr (Text.ofString (usage ++ error.report ++ "\n")); return 2
  | .fault fault => emit stderr (Text.ofString (fault.message ++ "\n")); return 1
  | .finished output => emit stdout output.stdout; emit stderr output.stderr; return output.code.toUInt32

end AccessChain.Command

def main (argv : List String) : IO UInt32 := AccessChain.Command.execute argv
