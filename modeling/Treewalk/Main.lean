import Treewalk.CommandLine
import Std.Time

/-!
The program: it reads the arguments, the script, the input and the clock of its process, and
writes what the command line answers.
-/

namespace Treewalk.Main

/-- The seconds since the epoch. -/
def now : IO Number := do
  let nanoseconds := (← Std.Time.Timestamp.now).toNanosecondsSinceUnixEpoch.val.toNat
  return Number.ofRatio nanoseconds 1000000000

/-- Whether a code is the given one. Codes are reported with either sign. -/
def isCode (code number : UInt32) : Bool :=
  code == number || code == 0 - number

/-- Why a file cannot be read, in the words of the operating system. -/
def explain : IO.Error → String
  | .noFileOrDirectory .. => PathError.missing.message
  | .permissionDenied .. => PathError.denied.message
  | .inappropriateType _ code _ =>
      let problem := if isCode code 20 then PathError.notFolder else PathError.isFolder
      problem.message
  | .invalidArgument _ code details =>
      if isCode code 36 then PathError.nameTooLong.message else details
  | problem => toString problem

/-- The bytes of a file, or why they cannot be read. -/
def readFile (path : String) : IO (Except String ByteArray) := do
  try
    return .ok (← IO.FS.readBinFile path)
  catch problem => return .error (explain problem)

/-- The next line of a stream with its newline; it is empty at the end of the stream. -/
partial def readLine (stream : IO.FS.Stream) (line : ByteArray) : IO ByteArray := do
  let bytes ← stream.read 1
  let line := line ++ bytes
  if bytes.isEmpty || bytes.toList == [10] then return line else readLine stream line

def write (stream : IO.FS.Stream) (bytes : ByteArray) : IO Unit := do
  stream.write bytes
  stream.flush

def report (outcome : Outcome) : IO UInt32 := do
  write (← IO.getStdout) outcome.stdout
  write (← IO.getStderr) outcome.stderr
  return outcome.exitCode.toUInt32

/-- Converses until the input ends. Each line is answered before the next is read. -/
partial def converse (showTrees : Bool) (interpreter : Interpreter) : IO UInt32 := do
  write (← IO.getStdout) CommandLine.prompt.toUTF8
  let line ← readLine (← IO.getStdin) ByteArray.empty
  if line.isEmpty then return 0
  match String.fromUTF8? line with
  | none => report ⟨1, ByteArray.empty, CommandLine.conversationFailed.toUTF8⟩
  | some source =>
      let fresh := { interpreter with
        world := { interpreter.world with
          output := {}
          clock := CommandLine.clockAt (← now) } }
      let ((errors, _), interpreter) := CommandLine.runSource showTrees fresh source
      let _ ← report ⟨0, interpreter.written, errors.toUTF8⟩
      converse showTrees interpreter

end Treewalk.Main

open Treewalk in
def main (arguments : List String) : IO UInt32 := do
  let start ← Main.now
  match Command.ofArguments arguments with
  | .script path showTrees =>
      Main.report (CommandLine.runScript start showTrees path (← Main.readFile path))
  | .converse showTrees => Main.converse showTrees (CommandLine.interpreter start true)
  | _ => Main.report (CommandLine.run start ⟨.folder [], []⟩ ByteArray.empty arguments)
