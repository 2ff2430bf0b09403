import Treewalk.FileTree
import Treewalk.Interpreter
import Treewalk.Tree.Text

/-!
The command line: it executes a script, or else converses line by line. All that a process reads
is a parameter here, and all that it writes is a result.
-/

namespace Treewalk

/-- What a single argument is. -/
inductive Argument where
  | endOfOptions
  | showTrees
  | version
  | help
  | unknown
  | path

namespace Argument

/-- An option of two dashes is known by its whole text, one of a single dash by the letter after
it. All else is a path, and so is every argument once the options have ended. -/
def ofText (options : Bool) (text : String) : Argument :=
  if options then
    match text.toList with
    | ['-', '-'] => endOfOptions
    | '-' :: '-' :: _ =>
        if text == "--dump-ast" then showTrees
        else if text == "--version" then version
        else if text == "--help" then help
        else unknown
    | '-' :: 'V' :: _ => version
    | '-' :: 'h' :: _ => help
    | '-' :: _ :: _ => unknown
    | _ => path
  else path

end Argument

/-- What the arguments ask for. -/
inductive Command where
  | script (path : String) (showTrees : Bool)
  | converse (showTrees : Bool)
  | version
  | help
  | misuse (argument : String)

namespace Command

/-- Reads arguments from left to right. The first that is misused, or that asks for the version or
help, decides; an option may not be repeated, and there is at most one path. -/
def ofArgumentsFrom (options showTrees : Bool) (path : Option String) : List String → Command
  | [] =>
      match path with
      | some path => script path showTrees
      | none => converse showTrees
  | argument :: rest =>
      match Argument.ofText options argument with
      | .endOfOptions => ofArgumentsFrom false showTrees path rest
      | .showTrees =>
          if showTrees then misuse argument else ofArgumentsFrom options true path rest
      | .version => version
      | .help => help
      | .unknown => misuse argument
      | .path =>
          if argument.isEmpty || path.isSome then misuse argument
          else ofArgumentsFrom options showTrees (some argument) rest

def ofArguments (arguments : List String) : Command :=
  ofArgumentsFrom true false none arguments

end Command

/-- What a process leaves behind. -/
structure Outcome where
  exitCode : UInt8
  stdout : ByteArray
  stderr : ByteArray

namespace CommandLine

/-- The clock of a process shows the time at which it was started. -/
def clockAt (start : Number) : Clock :=
  ⟨fun _ => start, 0⟩

/-- A fresh interpreter that writes without limit. -/
def interpreter (start : Number) (interactive : Bool) : Interpreter :=
  { Interpreter.new 0 {} (clockAt start) with interactive }

/-- Reads and executes a text. Returns what is to be written as errors: the trees of the program,
if they are asked for, and the message of a failure. -/
def runSource (showTrees : Bool) (interpreter : Interpreter) (source : String) :
    (String × Except Failure Unit) × Interpreter :=
  let complain (trees : String) (result : Except Failure Unit) : String × Except Failure Unit :=
    match result with
    | .ok () => (trees, result)
    | .error failure => (trees ++ failure.message ++ "\n", result)
  match interpreter.parse source with
  | (.error failure, interpreter) => (complain "" (.error failure), interpreter)
  | (.ok program, interpreter) =>
      let trees := if showTrees then program.map (·.text ++ "\n") else []
      let (result, interpreter) := interpreter.execute Interpreter.roundLimit program
      (complain (String.join trees) result, interpreter)

/-- The report of a process that cannot go on, with the reason. -/
def breakdown (problem reason : String) : String :=
  "Error: " ++ problem ++ "\n\nCaused by:\n    " ++ reason ++ "\n"

def notText : String :=
  "stream did not contain valid UTF-8"

/-- Executes a script, given its bytes or the reason why they cannot be read. -/
def runScript (start : Number) (showTrees : Bool) (path : String)
    (contents : Except String ByteArray) : Outcome :=
  let unreadable (reason : String) : Outcome :=
    ⟨1, ByteArray.empty, (breakdown ("failed to read " ++ path) reason).toUTF8⟩
  match contents with
  | .error reason => unreadable reason
  | .ok bytes =>
      match String.fromUTF8? bytes with
      | none => unreadable notText
      | some source =>
          let ((errors, result), interpreter) :=
            runSource showTrees (interpreter start false) source
          let exitCode :=
            match result with
            | .ok () => 0
            | .error failure => failure.exitCode
          ⟨exitCode, interpreter.written, errors.toUTF8⟩

/-! Conversations -/

def prompt : String := "> "

/-- The report of a conversation that ends because a line is no text. -/
def conversationFailed : String :=
  breakdown "interactive session failed" notText

/-- Cuts input into lines, each with the newline that ends it; `line` and `lines` have been cut
already and stand in reverse. -/
def linesOnto (line : List UInt8) (lines : List ByteArray) : List UInt8 → List ByteArray
  | [] => (if line.isEmpty then lines else ⟨line.reverse.toArray⟩ :: lines).reverse
  | byte :: rest =>
      if byte == 10 then linesOnto [] (⟨(byte :: line).reverse.toArray⟩ :: lines) rest
      else linesOnto (byte :: line) lines rest

def lines (input : ByteArray) : List ByteArray :=
  linesOnto [] [] input.toList

/-- Converses about the given lines. The prompt stands before each of them and before the end of
the input; a failure ends no more than its line. -/
def converse (showTrees : Bool) (interpreter : Interpreter) (stdout stderr : ByteArray) :
    List ByteArray → Outcome
  | [] => ⟨0, stdout ++ prompt.toUTF8, stderr⟩
  | line :: rest =>
      let stdout := stdout ++ prompt.toUTF8
      match String.fromUTF8? line with
      | none => ⟨1, stdout, stderr ++ conversationFailed.toUTF8⟩
      | some source =>
          let before := interpreter.written.size
          let ((errors, _), interpreter) := runSource showTrees interpreter source
          let output := interpreter.written.extract before interpreter.written.size
          converse showTrees interpreter (stdout ++ output) (stderr ++ errors.toUTF8) rest

/-! The whole process -/

def versionText : String :=
  "walox 0.1.0\n"

def usage : String :=
  "Usage: walox [OPTIONS] [SCRIPT]\n"

def helpText : String :=
  "Tree-walking interpreter for a subset of Lox\n\n" ++ usage ++
    "\nArguments:\n  [SCRIPT]  Script to run.  Starts an interactive session when omitted\n" ++
    "\nOptions:\n      --dump-ast  Print the syntax tree of each statement before running it\n" ++
    "  -h, --help      Print help\n  -V, --version   Print version\n"

def misuseText (argument : String) : String :=
  "error: unexpected argument '" ++ argument ++ "' found\n\n" ++ usage ++
    "\nFor more information, try '--help'.\n"

/-- Does what the arguments ask for, with the files that can be reached from a place and the bytes
of the input. -/
def run (start : Number) (place : Place) (input : ByteArray) (arguments : List String) :
    Outcome :=
  match Command.ofArguments arguments with
  | .script path showTrees =>
      runScript start showTrees path ((place.read path).mapError PathError.message)
  | .converse showTrees =>
      converse showTrees (interpreter start true) ByteArray.empty ByteArray.empty (lines input)
  | .version => ⟨0, versionText.toUTF8, ByteArray.empty⟩
  | .help => ⟨0, helpText.toUTF8, ByteArray.empty⟩
  | .misuse argument => ⟨2, ByteArray.empty, (misuseText argument).toUTF8⟩

end CommandLine

end Treewalk
