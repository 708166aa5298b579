import LineShell.Host.Basic

/-!
# Reading a line

* `Reading`: a line, or the end of the stream.
* `Line.read`: the next line of standard input, as long as a limit allows.
-/

namespace LineShell

inductive Reading
  | line (l : Line)
  | endOfStream

/-- Reads the next line.  The `limit` counts the terminator, so at most `limit - 1` bytes are taken,
and nothing past the terminator is.  A line that fills the limit without a terminator is truncated;
the rest of it is left for the next read.  If no byte comes before an end of file, the stream is
exhausted. -/
def Line.read (limit : Int) : Action Reading := do
  if limit < 2 then
    .raise (.tooShort limit)
  else
    let room := (limit - 1).toNat
    let raw ← Action.takeInput .shell (.lineWithin room)
    if raw.isEmpty then
      Action.log "labsh.shell.reader" .debug (.ofString "end of stream")
      return .endOfStream
    else
      let truncated := !raw.contains Line.terminator && room ≤ raw.length
      if truncated then
        Action.log "labsh.shell.reader" .warning <|
          .ofString "command line truncated to " ++ .decimal raw.length ++ .ofString " bytes"
      return .line (Line.ofRaw raw truncated)

end LineShell
