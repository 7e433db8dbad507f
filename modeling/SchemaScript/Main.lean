import SchemaScript.Run

/-!
# Command line

The request is read from the standard input and the answer written to the standard output.  Notices
go to the standard error, and so does the cause that ends a run without an answer.
-/

namespace SchemaScript

/-- All bytes of a stream, after those read so far. -/
partial def readAll (input : IO.FS.Stream) (before : ByteArray) : IO ByteArray := do
  let piece ← input.read 65536
  if piece.isEmpty then return before else readAll input (before ++ piece)

end SchemaScript

open SchemaScript in
def main : IO UInt32 := do
  let input ← readAll (← IO.getStdin) ByteArray.empty
  let (notices, response) := runBytes input.toList
  for n in notices do
    IO.eprintln n.line
  match response with
  | .ok r =>
    let output ← IO.getStdout
    output.write (ByteArray.mk r.encode.toArray)
    output.flush
    return 0
  | .error cause =>
    IO.eprintln cause.message
    return 1
