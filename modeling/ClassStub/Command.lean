import ClassStub.Command.Listing
import ClassStub.Directory

/-!
# Running commands

What a run of the program does to the files and what it prints. A run that fails has exit code 1
and prints what went wrong and, below that, what caused it; a command line that is not understood
has exit code 2. How command lines are understood is left to a reader of them.
-/

namespace ClassStub

/-- What the program is asked to do. -/
inductive Command where
  /-- Stub one file, into the output or beside the input. -/
  | stubFile (input : Path) (output : Option Path) (emptyInitializers noVerify verbose : Bool)
  /-- Stub all class files below a directory, with some number of workers. -/
  | stubTree (input output : Path) (threads : Option Nat) (emptyInitializers noVerify : Bool)
  /-- Print the declarations of a class file. -/
  | inspect (input : Path)
  deriving DecidableEq, Inhabited

/-- What a command line comes to. -/
inductive Invocation where
  | run (command : Command)
  | version
  | help
  /-- The arguments are not understood. -/
  | misuse
  deriving DecidableEq, Inhabited

/-- What a run of the program leaves behind, apart from files. -/
structure Outcome where
  exitCode : UInt8
  stdout : String
  stderr : String
  deriving DecidableEq, Inhabited

namespace Outcome

/-- The run succeeds. -/
def success (stdout : String) : Outcome := ⟨0, stdout, ""⟩

/-- A text whose lines behind the first are indented. -/
def indentLines (indent text : String) : String :=
  String.ofList (text.toList.flatMap fun c => if c = '\n' then c :: indent.toList else [c])

/-- A cause that is one of several, behind its number. -/
def numbered (number : Nat) (cause : String) : String :=
  let digits := toString number
  String.ofList (List.replicate (5 - digits.length) ' ') ++ digits ++ ": " ++
    indentLines "       " cause ++ "\n"

/-- The printed form of an error and its causes. A single cause is indented, several are
numbered. -/
def renderChain : List String → String
  | [] => ""
  | [error] => "Error: " ++ error ++ "\n"
  | [error, cause] =>
    "Error: " ++ error ++ "\n\nCaused by:\n    " ++ indentLines "    " cause ++ "\n"
  | error :: causes =>
    "Error: " ++ error ++ "\n\nCaused by:\n" ++
      String.join (causes.zipIdx.map fun (cause, number) => numbered number cause)

/-- The run fails with an error and its causes, after having printed something. -/
def failure (stdout stderr : String) (chain : List String) : Outcome :=
  ⟨1, stdout, stderr ++ renderChain chain⟩

end Outcome

namespace Command

/-- The extension of a stub that is written beside its class. -/
def stubExtension : Bytes := utf8Bytes "stub.class"

/-- How stubs are made under some flags. -/
def makeOptions (emptyInitializers noVerify : Bool) (threads : Option Nat) : StubOptions where
  verify := !noVerify
  initializers := if emptyInitializers then .empty else .stub
  threads := threads

/-- The name and version of the program. -/
def versionText : String := "apistub 0.1.0\n"

/-- How the program is called. -/
def usageText : String :=
  "Usage: apistub class FILE [-o FILE] [--empty-clinit] [--no-verify] [-v]\n" ++
  "       apistub tree DIR DIR [-j THREADS] [--empty-clinit] [--no-verify]\n" ++
  "       apistub inspect FILE\n" ++
  "       apistub --version\n"

variable {m : Type → Type} [Monad m] [FileStore m]

/-- A step that may fail with an error and its causes, outermost first. -/
abbrev Step (m : Type → Type) (α : Type) := ExceptT (List String) m α

/-- An action on files as a step. -/
def onFiles {α : Type} (context : List String) (action : m (Except FileError α)) : Step m α := do
  match ← action with
  | .ok a => return a
  | .error error => throw (context ++ [error.message])

/-- Stubs a file and returns the path of the stub. -/
def writeStub (input : Path) (output : Option Path) (options : StubOptions) : Step m Path := do
  let bytes ← onFiles ["reading " ++ input.display] (FileStore.readFile input)
  match stubBytes options bytes with
  | .error failure => throw (("stubbing " ++ input.display) :: failure.chain)
  | .ok stub => do
    let output := output.getD (input.withExtension stubExtension)
    onFiles [] (FileStore.makeParents output)
    onFiles ["writing " ++ output.display] (FileStore.writeFile output stub)
    return output

/-- Reads a class file. -/
def readClass (input : Path) : Step m ClassFile := do
  let bytes ← onFiles ["reading " ++ input.display] (FileStore.readFile input)
  match ClassFile.decode bytes with
  | .error error => throw error.chain
  | .ok c => return c

/-- Carries out a command. -/
def run [DirectoryWalker m] [Workers m] : Command → m Outcome
  | .stubFile input output emptyInitializers noVerify verbose => do
    let opening := if verbose then "Stubbing " ++ input.display ++ "...\n" else ""
    match ← (writeStub input output (makeOptions emptyInitializers noVerify none)).run with
    | .ok output =>
      let closing := if verbose then "Stub written to " ++ output.display ++ "\n" else ""
      return .success (opening ++ closing)
    | .error chain => return .failure opening "" chain
  | .stubTree input output threads emptyInitializers noVerify => do
    match ← (Directory.stubTree (makeOptions emptyInitializers noVerify threads)
      input output).run with
    | .ok report =>
      let stdout := "Stubbed " ++ toString report.stubbed.length ++ " classes into " ++
        output.display ++ "\n"
      if report.isSuccess then
        return .success stdout
      else
        let lines := report.failures.map fun failure => "error: " ++ failure.message ++ "\n"
        return .failure stdout (String.join lines)
          [toString report.failures.length ++ " classes failed"]
    | .error failure => return .failure "" "" failure.chain
  | .inspect input => do
    match ← (readClass input).run with
    | .ok c =>
      match c.print.run "" with
      | .ok _ printed => return .success printed
      | .error chain printed => return .failure printed "" chain
    | .error chain => return .failure "" "" chain

end Command

/-- Runs the program with some arguments, which are read by a reader of command lines. -/
def runProgram {m : Type → Type} [Monad m] [FileStore m] [DirectoryWalker m] [Workers m]
    (read : List Bytes → Invocation) (arguments : List Bytes) : m Outcome :=
  match read arguments with
  | .run command => command.run
  | .version => return .success Command.versionText
  | .help => return .success Command.usageText
  | .misuse => return ⟨2, "", Command.usageText⟩

end ClassStub
