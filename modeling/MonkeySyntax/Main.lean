import MonkeySyntax.CommandLine

/-!
# The program

Runs the command line on the files and the standard streams of the process.  A session answers each
line as soon as it has been read.
-/

namespace MonkeySyntax

/-- The reason behind an error of the operating system.  The error carries the number of the system
or its negation. -/
def ReadError.ofSystem : IO.Error → ReadError
  | .noFileOrDirectory .. => .notFound
  | error@(.inappropriateType _ code _) | error@(.invalidArgument _ code _) =>
      match (min code (0 - code)).toNat with
      | 20 => .notDirectory
      | 21 => .isDirectory
      | 36 => .nameTooLong
      | _ => .other (toString error)
  | error => .other (toString error)

/-- The bytes of a file. -/
def readBytes (path : String) : IO (Except ReadError ByteArray) := do
  try
    return .ok (← IO.FS.readBinFile path)
  catch error =>
    return .error (.ofSystem error)

/-- Writes the texts of a run and yields its exit code. -/
def Transcript.write (transcript : Transcript) : IO UInt32 := do
  IO.print transcript.output
  IO.eprint transcript.errors
  return transcript.exitCode

/-- Prompts for a line and answers it, until the input ends. -/
partial def converse (parsing : Bool) (input output : IO.FS.Stream) : IO UInt32 := do
  output.putStr prompt
  output.flush
  match linesOf (← input.getLine) with
  | line :: _ =>
      let _ ← (answer parsing line).write
      converse parsing input output
  | [] => return 0

/-- Does what the arguments ask for. -/
def perform (arguments : List String) : IO UInt32 := do
  match Command.ofArguments arguments with
  | .session parsing =>
      let output ← IO.getStdout
      output.putStr welcome
      converse parsing (← IO.getStdin) output
  | .file path =>
      let bytes ← readBytes path
      (Command.run (.file path) (fun _ => bytes) "").write
  | command => (command.run (fun _ => .error .notFound) "").write

end MonkeySyntax

/-- The command line of the Monkey front end. -/
def main (arguments : List String) : IO UInt32 :=
  MonkeySyntax.perform arguments
