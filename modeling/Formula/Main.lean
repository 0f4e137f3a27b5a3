import Formula.CommandLine.Run

/-!
# The program

Reads the command line, and the standard input if the command line names no
formula, and writes what the run comes to.
-/

namespace Formula

/-- All bytes that are left to read. -/
partial def readAll (stream : IO.FS.Stream) (read : ByteArray) : IO ByteArray := do
  let chunk ← stream.read 65536
  if chunk.isEmpty then return read else readAll stream (read ++ chunk)

end Formula

open Formula in
/-- Runs the command line that the program was started with. -/
def main (texts : List String) : IO UInt32 := do
  let invocation := Arguments.read texts
  let input ← if invocation.readsInput then readAll (← IO.getStdin) .empty else pure .empty
  let result := CommandLine.run invocation input.toList
  (← IO.getStdout).putStr result.output
  (← IO.getStderr).putStr result.errors
  return UInt32.ofNat result.code
