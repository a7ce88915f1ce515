import GuardedText.Command.Report

/-!
# The command
-/

namespace GuardedText.Command

def decode (bytes : ByteArray) : Except ReadFault String :=
  match String.fromUTF8? bytes with
  | some text => .ok text
  | none => .error .notText

def ReadFault.ofError : IO.Error → ReadFault
  | .noFileOrDirectory .. => .notFound
  | .inappropriateType .. => .isDirectory
  | error => .other (toString error)

def readFile (path : String) : IO (Except ReadFault String) := do
  try return decode (← IO.FS.readBinFile path)
  catch error => return .error (.ofError error)

partial def readAll (stream : IO.FS.Stream) (bytes : ByteArray) : IO ByteArray := do
  let more ← stream.read 65536
  if more.isEmpty then return bytes else readAll stream (bytes ++ more)

def readInput : IO (Except ReadFault String) := do
  try return decode (← readAll (← IO.getStdin) .empty)
  catch error => return .error (.ofError error)

end GuardedText.Command

def main (arguments : List String) : IO UInt32 := do
  let host : GuardedText.Command.Host IO :=
    ⟨GuardedText.Command.readFile, GuardedText.Command.readInput⟩
  let report ← host.run arguments
  report.messages.forM IO.eprintln
  IO.print report.output
  return report.code.toUInt32
