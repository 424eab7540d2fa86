import GraphRequest.CommandLine.Run

/-!
# The program

Opens sources and prints replies; all else is the command line's.
-/

namespace GraphRequest.CommandLine

/-- Reads a stream to its end. -/
partial def readToEnd (stream : IO.FS.Stream) (sofar : ByteArray) : IO ByteArray := do
  let more ← stream.read 65536
  if more.isEmpty then return sofar
  readToEnd stream (sofar ++ more)

/-- What an error of the operating system means for a source. -/
def sourceFault : IO.Error → Option ReadFault
  | .noFileOrDirectory .. => some .missing
  | .permissionDenied .. => some .denied
  | .inappropriateType _ code _ => if code = 21 then some .directory else some .noDirectory
  | .invalidArgument _ code _ => if code = 36 || code = 0 - 36 then some .nameTooLong else none
  | _ => none

/-- Opens a source and reads all of it. -/
def readSource (source : String) : IO (Except ReadFault ByteArray) := do
  try
    if source = "-" then return .ok (← readToEnd (← IO.getStdin) .empty)
    else return .ok (← IO.FS.readBinFile source)
  catch error =>
    match sourceFault error with
    | some fault => return .error fault
    | none => throw error

end GraphRequest.CommandLine

def main (arguments : List String) : IO UInt32 := do
  let reply ← GraphRequest.CommandLine.reply GraphRequest.CommandLine.readSource arguments
  (← IO.getStdout).putStr reply.output
  (← IO.getStderr).putStr reply.complaint
  return UInt32.ofNat reply.code
