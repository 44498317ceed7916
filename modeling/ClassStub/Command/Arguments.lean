import ClassStub.Command

/-!
# Command lines

A reader of command lines. A command has options, which start with a dash, and positional
arguments. An option is written out (`--output FILE`, `--output=FILE`) or by its letter
(`-o FILE`, `-oFILE`, `-o=FILE`), and letters may share a dash (`-vo FILE`). No option may be given
twice, and the value of an option may start with a dash only if it is that dash. Behind the
argument `--` everything is positional.

`Invocation.ofWords` reads the arguments from left to right, so that a request for help counts
only if nothing wrong stands before it.
-/

namespace ClassStub

/-! ### Options and positional arguments -/

/-- An option of a command, with the values that it accepts if it has one. -/
structure OptionSpec where
  name : String
  letter : Option Char
  takesValue : Bool
  accepts : String → Bool

/-- The options of a command, and how many positional arguments it has. -/
structure ArgumentSpec where
  options : List OptionSpec
  positionals : Nat

/-- The arguments read so far, the options with their values. -/
structure Arguments where
  positionals : List String
  options : List (String × String)
  deriving DecidableEq, Inhabited

/-- Why reading ends before the last argument. -/
inductive EarlyEnd where
  | help
  | misuse
  deriving DecidableEq, Inhabited

namespace Arguments

/-- The option was given. -/
def has (arguments : Arguments) (name : String) : Bool := (arguments.options.lookup name).isSome

/-- Adds an option, which must be new and have an acceptable value. -/
def addOption (arguments : Arguments) (option : OptionSpec) (value : String) :
    Except EarlyEnd Arguments :=
  if arguments.has option.name || (option.takesValue && !option.accepts value) then
    .error .misuse
  else
    .ok { arguments with options := arguments.options ++ [(option.name, value)] }

/-- Adds a positional argument, for which there must be room and which must not be empty. -/
def addPositional (spec : ArgumentSpec) (arguments : Arguments) (value : String) :
    Except EarlyEnd Arguments :=
  if arguments.positionals.length = spec.positionals || value.isEmpty then
    .error .misuse
  else
    .ok { arguments with positionals := arguments.positionals ++ [value] }

/-- Reads an option that is written out, given without its dashes. Returns the option too if its
value is still to come. -/
def readName (spec : ArgumentSpec) (arguments : Arguments) (text : List Char) :
    Except EarlyEnd (Arguments × Option OptionSpec) :=
  let name := String.ofList (text.takeWhile (· != '='))
  let attached := text.dropWhile (· != '=')
  if name == "help" && attached.isEmpty then
    .error .help
  else
    match spec.options.find? (·.name == name), attached with
    | some option, [] =>
      if option.takesValue then .ok (arguments, some option)
      else do return (← arguments.addOption option "", none)
    | some option, _ :: value =>
      if option.takesValue then do
        return (← arguments.addOption option (String.ofList value), none)
      else
        .error .misuse
    | none, _ => .error .misuse

/-- Reads the letters behind a dash. Returns an option too if its value is still to come. -/
def readLetters (spec : ArgumentSpec) (arguments : Arguments) :
    List Char → Except EarlyEnd (Arguments × Option OptionSpec)
  | [] => .ok (arguments, none)
  | letter :: rest =>
    if letter == 'h' then
      .error .help
    else
      match spec.options.find? (·.letter == some letter) with
      | none => .error .misuse
      | some option =>
        if option.takesValue then
          match rest with
          | [] => .ok (arguments, some option)
          | '=' :: value => do
            return (← arguments.addOption option (String.ofList value), none)
          | value => do return (← arguments.addOption option (String.ofList value), none)
        else do
          readLetters spec (← arguments.addOption option "") rest

/-- An argument that starts with a dash and is not that dash. -/
def looksLikeOption (argument : String) : Bool :=
  match argument.toList with
  | '-' :: _ :: _ => true
  | _ => false

/-- Reads arguments. An option whose value is still to come takes the next argument. -/
def read (spec : ArgumentSpec) (arguments : Arguments) (pending : Option OptionSpec) :
    List String → Except EarlyEnd Arguments
  | [] => if pending.isSome then .error .misuse else .ok arguments
  | argument :: rest =>
    match pending with
    | some option => do
      if looksLikeOption argument then
        throw .misuse
      read spec (← arguments.addOption option argument) none rest
    | none =>
      match argument.toList with
      | ['-', '-'] => rest.foldlM (addPositional spec) arguments
      | '-' :: '-' :: text => do
        let (arguments, pending) ← readName spec arguments text
        read spec arguments pending rest
      | '-' :: c :: letters => do
        let (arguments, pending) ← readLetters spec arguments (c :: letters)
        read spec arguments pending rest
      | _ => do read spec (← addPositional spec arguments argument) none rest

/-- Reads all arguments of a command; none of the positional ones may be missing. -/
def ofList (spec : ArgumentSpec) (arguments : List String) : Except EarlyEnd Arguments := do
  let arguments ← read spec ⟨[], []⟩ none arguments
  if arguments.positionals.length < spec.positionals then
    throw .misuse
  return arguments

end Arguments

/-! ### The commands -/

/-- The number that a text of decimal digits denotes, perhaps with a plus sign in front, if it
fits in 64 bits. -/
def parseCount? (text : String) : Option Nat :=
  let digits := match text.toList with
    | '+' :: digits => digits
    | digits => digits
  if !digits.isEmpty && digits.all Char.isDigit then
    let n := digits.foldl (fun n digit => n * 10 + (digit.toNat - '0'.toNat)) 0
    if n < UInt64.size then some n else none
  else
    none

namespace Command

/-- An option without a value. -/
def flagOption (name : String) (letter : Option Char) : OptionSpec :=
  ⟨name, letter, false, fun _ => true⟩

/-- Static initializers return at once. -/
def emptyInitializersOption : OptionSpec := flagOption "empty-clinit" none

/-- Stubs are not searched for defects. -/
def noVerifyOption : OptionSpec := flagOption "no-verify" none

/-- What is done is told. -/
def verboseOption : OptionSpec := flagOption "verbose" (some 'v')

/-- Where the stub goes. -/
def outputOption : OptionSpec := ⟨"output", some 'o', true, (!·.isEmpty)⟩

/-- How many classes may be handled at once. -/
def workersOption : OptionSpec := ⟨"threads", some 'j', true, (parseCount? · |>.isSome)⟩

/-- The arguments of the command that stubs a file. -/
def stubFileSpec : ArgumentSpec :=
  ⟨[outputOption, emptyInitializersOption, noVerifyOption, verboseOption], 1⟩

/-- The arguments of the command that stubs a directory. -/
def stubTreeSpec : ArgumentSpec := ⟨[workersOption, emptyInitializersOption, noVerifyOption], 2⟩

/-- The arguments of the command that lists a class. -/
def inspectSpec : ArgumentSpec := ⟨[], 1⟩

/-- The command that stubs a file. -/
def stubFile? (arguments : Arguments) : Option Command :=
  match arguments.positionals with
  | [input] =>
    some (.stubFile (.ofText input)
      ((arguments.options.lookup outputOption.name).map Path.ofText)
      (arguments.has emptyInitializersOption.name) (arguments.has noVerifyOption.name)
      (arguments.has verboseOption.name))
  | _ => none

/-- The command that stubs a directory. -/
def stubTree? (arguments : Arguments) : Option Command :=
  match arguments.positionals with
  | [input, output] =>
    some (.stubTree (.ofText input) (.ofText output)
      ((arguments.options.lookup workersOption.name).bind parseCount?)
      (arguments.has emptyInitializersOption.name) (arguments.has noVerifyOption.name))
  | _ => none

/-- The command that lists a class. -/
def inspect? (arguments : Arguments) : Option Command :=
  match arguments.positionals with
  | [input] => some (.inspect (.ofText input))
  | _ => none

/-- The names of the commands. -/
def names : List String := ["class", "tree", "inspect", "help"]

end Command

namespace Invocation

/-- The command that the arguments behind its name come to. -/
def ofSpec (spec : ArgumentSpec) (make : Arguments → Option Command) (arguments : List String) :
    Invocation :=
  match Arguments.ofList spec arguments with
  | .ok arguments =>
    match make arguments with
    | some command => run command
    | none => misuse
  | .error .help => help
  | .error .misuse => misuse

/-- What the words of a command line come to. -/
def ofWords : List String → Invocation
  | [] => misuse
  | "class" :: arguments => ofSpec Command.stubFileSpec Command.stubFile? arguments
  | "tree" :: arguments => ofSpec Command.stubTreeSpec Command.stubTree? arguments
  | "inspect" :: arguments => ofSpec Command.inspectSpec Command.inspect? arguments
  | ["help"] => help
  | ["help", name] => if Command.names.contains name then help else misuse
  | "--version" :: _ => version
  | "--help" :: _ => help
  | argument :: _ =>
    match argument.toList with
    | '-' :: 'V' :: _ => version
    | '-' :: 'h' :: _ => help
    | _ => misuse

/-- What a command line comes to. -/
def ofArguments (arguments : List Bytes) : Invocation := ofWords (arguments.map lossyText)

end Invocation

end ClassStub
