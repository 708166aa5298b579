import LineShell.Invocation

/-!
# The program

The shell on the standard streams of its own process.  All of standard input is read first and the
run is played out afterwards.  This process makes no other processes, so every fork is refused and
each command is reported as one that could not be started.
-/

namespace LineShell.Main

def bytesOf (bs : ByteArray) : Bytes := bs.data.toList

def refusal : IO.Error → SystemError
  | .noFileOrDirectory .. => .noSuchFile
  | .permissionDenied .. => .ofNumber 13
  | _ => .ofNumber 5

/-- Reads a stream to its end, onto what was read before. -/
partial def readAll (stream : IO.FS.Stream) (before : ByteArray) : IO ByteArray := do
  let bs ← stream.read 0x10000
  if bs.isEmpty then return before else readAll stream (before ++ bs)

def readFile (name : Text) : IO (Except SystemError Bytes) := do
  try
    let bs ← IO.FS.readBinFile (String.ofList (name.filterMap CodePoint.toChar?))
    return .ok (bytesOf bs)
  catch e => return .error (refusal e)

def readEnvironment : IO Environment := do
  let names := Config.fileVariable :: "HOME" :: Field.all.map Config.variableOf
  let values ← names.mapM fun name => return (name, ← IO.getEnv name)
  return fun name => ((values.lookup name).join).map Text.bytes

def invocation (arguments : List String) : IO Invocation := do
  let environment ← readEnvironment
  let home := ((environment "HOME").map Text.ofBytes).getD []
  let bare : Invocation :=
    { arguments := arguments.map .ofString, environment
      files := fun _ => .error .noSuchFile, defaultFile := Config.fileIn home }
  match Options.ofArguments bare.arguments with
  | .error _ => return bare
  | .ok o =>
    match Config.location (bare.sources o) with
    | .error _ => return bare
    | .ok path =>
      let content ← readFile path.toText
      return { bare with files := fun _ => content }

def play : Event → IO Unit
  | .write _ stream bytes => do
    let out ← match stream with
      | .output => IO.getStdout
      | .errors => IO.getStderr
    out.write ⟨bytes.toArray⟩
    out.flush
  | _ => pure ()

def exitCode : Ending Nat → IO UInt32
  | .value code => return .ofNat code
  | .fault f => do
    (← IO.getStderr).write ⟨(Text.spell (f.message ++ [CodePoint.lineFeed])).toArray⟩
    return 1
  | .departure _ => return 0

end LineShell.Main

def main (arguments : List String) : IO UInt32 := do
  let invocation ← LineShell.Main.invocation arguments
  let bytes := LineShell.Main.bytesOf (← LineShell.Main.readAll (← IO.getStdin) .empty)
  let refused : LineShell.ForkReply := .failure (.ofNumber 38)
  let result := invocation.run
    { input := .ofBytes bytes, forks := List.replicate bytes.length refused }
  result.trace.forM LineShell.Main.play
  LineShell.Main.exitCode result.ending
