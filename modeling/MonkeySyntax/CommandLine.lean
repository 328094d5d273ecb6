import MonkeySyntax.Parser
import MonkeySyntax.Text.Lines

/-!
# Command line

The program parses a file, or reads lines from its input and answers each of them.  What it writes
is a function of its arguments, of the files it can read and of its input.
-/

namespace MonkeySyntax

/-! ### Arguments -/

/-- What a command line asks for. -/
inductive Command where
  /-- Show the version. -/
  | version
  /-- Parse a file. -/
  | file (path : String)
  /-- Answer the lines of the input, by parsing them or else by listing their tokens. -/
  | session (parsing : Bool)
  /-- Nothing: the arguments are not understood. -/
  | refused
deriving DecidableEq, Repr

/-- What the arguments read so far say. -/
structure Settings where
  /-- The file to parse. -/
  path? : Option String := none
  /-- Whether a session parses its lines. -/
  parsing : Bool := false
  /-- Whether only paths may follow. -/
  pathsOnly : Bool := false
deriving DecidableEq, Repr

namespace Settings

/-- Reads an argument as the path of the only file.  An empty path is none. -/
def readPath (settings : Settings) (path : String) : Except Command Settings :=
  if path = "" ∨ settings.path?.isSome then
    .error .refused
  else
    .ok { settings with path? := some path }

/-- Reads a flag that is a single letter.  The letter `v` may be repeated. -/
def readLetter (settings : Settings) : Char → Except Command Settings
  | 'v' => .ok settings
  | 'V' => .error .version
  | _ => .error .refused

/-- Reads a flag that is a word.  The word `parse` may not be repeated. -/
def readWord (settings : Settings) : String → Except Command Settings
  | "" => .ok { settings with pathsOnly := true }
  | "parse" =>
      if settings.parsing then .error .refused else .ok { settings with parsing := true }
  | "verbose" => .ok settings
  | "version" => .error .version
  | _ => .error .refused

/-- Reads an argument.  The outcome is the command if no later argument matters. -/
def read (settings : Settings) (argument : String) : Except Command Settings :=
  match settings.pathsOnly, argument.toList with
  | false, '-' :: '-' :: word => settings.readWord (String.ofList word)
  | false, '-' :: letter :: letters => (letter :: letters).foldlM readLetter settings
  | _, _ => settings.readPath argument

/-- The command that the arguments ask for if nothing follows. -/
def command (settings : Settings) : Command :=
  match settings.path? with
  | some path => .file path
  | none => .session settings.parsing

end Settings

/-- The command that the arguments ask for.  They are read from left to right, and the first one
that shows the version or is not understood decides. -/
def Command.ofArguments (arguments : List String) : Command :=
  match arguments.foldlM Settings.read {} with
  | .ok settings => settings.command
  | .error command => command

/-! ### Files -/

/-- Why a file could not be read. -/
inductive ReadError where
  /-- There is no such file. -/
  | notFound
  /-- The path leads to a directory. -/
  | isDirectory
  /-- The path goes through something that is not a directory. -/
  | notDirectory
  /-- The path, or a part of it, is too long. -/
  | nameTooLong
  /-- The bytes of the file are no text. -/
  | notText
  /-- Another reason. -/
  | other (description : String)
deriving DecidableEq, Repr

namespace ReadError

/-- The reason in words, with its number where the operating system gives it one. -/
def message : ReadError → String
  | notFound => "No such file or directory (os error 2)"
  | isDirectory => "Is a directory (os error 21)"
  | notDirectory => "Not a directory (os error 20)"
  | nameTooLong => "File name too long (os error 36)"
  | notText => "stream did not contain valid UTF-8"
  | other description => description

end ReadError

/-- The text that some bytes encode. -/
def decodeText (bytes : ByteArray) : Except ReadError String :=
  match String.fromUTF8? bytes with
  | some text => .ok text
  | none => .error .notText

/-! ### Runs -/

/-- What a run writes, and the code it ends with. -/
structure Transcript where
  /-- Text written to the standard output. -/
  output : String := ""
  /-- Text written to the standard error. -/
  errors : String := ""
  /-- The exit code, zero for success. -/
  exitCode : UInt32 := 0
deriving DecidableEq, Repr

/-- A text as a line. -/
def lineOf (text : String) : String :=
  text ++ "\n"

/-- Parses a source text and shows the program and what is wrong with it.  A program without
statements is not shown. -/
def report (source : String) : Transcript :=
  let parsed := parse source
  { output := if parsed.1.isEmpty then "" else lineOf parsed.1.render
    errors := String.join (parsed.2.map fun message => lineOf ("parse error: " ++ message))
    exitCode := if parsed.2.isEmpty then 0 else 1 }

/-- Lists the tokens of a source text. -/
def echo (source : String) : Transcript where
  output := String.join ((tokenLines source).map lineOf)

/-- The answer to a line of a session. -/
def answer (parsing : Bool) (line : String) : Transcript :=
  if parsing then report line else echo line

/-- The line that opens a session. -/
def welcome : String := lineOf "Welcome to the Monkey REPL!"

/-- What a session writes before it reads a line. -/
def prompt : String := ">> "

/-- A session over the whole of its input. -/
def session (parsing : Bool) (input : String) : Transcript :=
  let answers := (linesOf input).map (answer parsing)
  { output := welcome ++ String.join (answers.map (prompt ++ ·.output)) ++ prompt
    errors := String.join (answers.map (·.errors)) }

/-- Reports on the text of a file, or on why it cannot be had. -/
def reportFile (path : String) : Except ReadError String → Transcript
  | .ok source => report source
  | .error reason =>
      { errors := lineOf ("Error: could not read " ++ path ++ ": " ++ reason.message)
        exitCode := 1 }

/-- The line that shows the version. -/
def versionLine : String := lineOf "monkey 0.1.0"

/-- The line that tells how the program is used. -/
def usageLine : String := lineOf "usage: monkey [--parse] [-v]... [-V] [--] [FILE]"

/-- A run of the program with the given files and input. -/
def Command.run (command : Command) (read : String → Except ReadError ByteArray)
    (input : String) : Transcript :=
  match command with
  | version => { output := versionLine }
  | file path => reportFile path (read path >>= decodeText)
  | session parsing => MonkeySyntax.session parsing input
  | refused => { errors := usageLine, exitCode := 2 }

end MonkeySyntax
