import TapeCalc.Config.Document

/-!
# Options

What the arguments of a command ask for. They are read from left to right, and the first one that
is wrong, or that asks for help or for the version, decides.
-/
namespace TapeCalc.CommandLine

structure Options where
  expressions : List String := []
  interactive : Bool := false
  eightBit : Bool := false
  stats : Bool := false
  verbosity : Nat := 0
  modules : Option String := none
  config : Option String := none
  stepLimit : Option UInt64 := none
  deriving DecidableEq, Repr

/-- An option that takes a value. -/
inductive Setting where
  | modules
  | config
  | stepLimit
  deriving DecidableEq, Repr

inductive Switch where
  | interactive
  | eightBit
  | stats
  | verbose
  | shortHelp
  | longHelp
  | version
  deriving DecidableEq, Repr

inductive UsageError where
  | unknownOption (argument : String)
  | repeatedOption (name : String)
  | missingValue (name : String)
  | unwantedValue (argument : String)
  | badNumber (value : String)
  deriving DecidableEq, Repr

/-- Why reading stops before the last argument. -/
inductive Stop where
  | shortHelp
  | longHelp
  | version
  | usage (error : UsageError)
  deriving DecidableEq, Repr

/-- What the next argument may be: anything, the value of an option, or an expression whatever
it looks like. -/
inductive Awaited where
  | argument
  | value (setting : Setting)
  | expression
  deriving DecidableEq, Repr

def Setting.name : Setting → String
  | modules => "--modules"
  | config => "--config"
  | stepLimit => "--step-limit"

def Switch.ofLong? (name : String) : Option Switch :=
  if name = "--interactive" then some .interactive
  else if name = "--8bit" then some .eightBit
  else if name = "--stats" then some .stats
  else if name = "--verbose" then some .verbose
  else if name = "--help" then some .longHelp
  else if name = "--version" then some .version
  else none

def Switch.ofShort? (letter : Char) : Option Switch :=
  if letter = 'i' then some .interactive
  else if letter = 'v' then some .verbose
  else if letter = 'h' then some .shortHelp
  else if letter = 'V' then some .version
  else none

def Setting.ofLong? (name : String) : Option Setting :=
  [Setting.modules, .config, .stepLimit].find? fun setting => setting.name = name

/-- A whole number of 64 bits in decimal, after a plus sign or none. -/
def readWord? (text : String) : Option UInt64 :=
  let digits := match text.toList with
    | '+' :: cs => cs
    | cs => cs
  if digits.isEmpty then none else Json.word? (.number digits)

namespace Options

def addExpression (options : Options) (text : String) : Options :=
  { options with expressions := options.expressions ++ [text] }

/-- Turns a switch on. Only the verbosity may be raised more than once. -/
def turnOn (options : Options) : Switch → Except Stop Options
  | .interactive =>
    if options.interactive then .error (.usage (.repeatedOption "--interactive"))
    else .ok { options with interactive := true }
  | .eightBit =>
    if options.eightBit then .error (.usage (.repeatedOption "--8bit"))
    else .ok { options with eightBit := true }
  | .stats =>
    if options.stats then .error (.usage (.repeatedOption "--stats"))
    else .ok { options with stats := true }
  | .verbose => .ok { options with verbosity := options.verbosity + 1 }
  | .shortHelp => .error .shortHelp
  | .longHelp => .error .longHelp
  | .version => .error .version

def isGiven (options : Options) : Setting → Bool
  | .modules => options.modules.isSome
  | .config => options.config.isSome
  | .stepLimit => options.stepLimit.isSome

/-- Gives an option its value, once. -/
def assign (options : Options) (setting : Setting) (value : String) : Except Stop Options :=
  if value.isEmpty then .error (.usage (.missingValue setting.name))
  else if options.isGiven setting then .error (.usage (.repeatedOption setting.name))
  else
    match setting with
    | .modules => .ok { options with modules := some value }
    | .config => .ok { options with config := some value }
    | .stepLimit =>
      match readWord? value with
      | none => .error (.usage (.badNumber value))
      | some n => .ok { options with stepLimit := some n }

/-- The switches of one argument, letter by letter. -/
def turnOnLetters : List Char → Options → Except Stop Options
  | [], options => .ok options
  | letter :: letters, options =>
    match Switch.ofShort? letter with
    | none => .error (.usage (.unknownOption letter.toString))
    | some switch =>
      match options.turnOn switch with
      | .error stop => .error stop
      | .ok options => turnOnLetters letters options

/-- The parts of an argument before and after its first equals sign. -/
def splitValue (argument : String) : String × Option String :=
  let cs := argument.toList
  match cs.dropWhile (· != '=') with
  | [] => (argument, none)
  | _ :: value => (String.ofList (cs.takeWhile (· != '=')), some (String.ofList value))

/-- An argument that starts with two hyphens. -/
def takeLong (options : Options) (argument : String) : Except Stop (Awaited × Options) :=
  let (name, value?) := splitValue argument
  match Setting.ofLong? name, Switch.ofLong? name, value? with
  | some setting, _, some value => (options.assign setting value).map (Awaited.argument, ·)
  | some setting, _, none => .ok (.value setting, options)
  | none, some switch, none => (options.turnOn switch).map (Awaited.argument, ·)
  | none, some _, some _ => .error (.usage (.unwantedValue argument))
  | none, none, _ => .error (.usage (.unknownOption argument))

/-- One argument. A lone hyphen is never an option, and two hyphens end the options. -/
def take (options : Options) (awaited : Awaited) (argument : String) :
    Except Stop (Awaited × Options) :=
  match awaited, argument.toList with
  | .expression, _ => .ok (.expression, options.addExpression argument)
  | .value setting, '-' :: _ :: _ => .error (.usage (.missingValue setting.name))
  | .value setting, _ => (options.assign setting argument).map (Awaited.argument, ·)
  | .argument, ['-', '-'] => .ok (.expression, options)
  | .argument, '-' :: '-' :: _ => options.takeLong argument
  | .argument, '-' :: letter :: letters =>
    (turnOnLetters (letter :: letters) options).map (Awaited.argument, ·)
  | .argument, _ => .ok (.argument, options.addExpression argument)

def read : List String → Awaited → Options → Except Stop Options
  | [], .value setting, _ => .error (.usage (.missingValue setting.name))
  | [], _, options => .ok options
  | argument :: arguments, awaited, options =>
    match options.take awaited argument with
    | .error stop => .error stop
    | .ok (awaited, options) => read arguments awaited options

def parse (arguments : List String) : Except Stop Options := read arguments .argument {}

/-- The configuration with what the command line says about it. -/
def override (options : Options) (config : Config) : Config :=
  { config with
    mode := if options.eightBit then .eightBit else config.mode
    modulesDir := options.modules.orElse fun _ => config.modulesDir
    stepLimit := options.stepLimit.orElse fun _ => config.stepLimit
    trace := config.trace || decide (2 ≤ options.verbosity) }

/-- Whether an entry of a level is written. -/
def admits (options : Options) (rank : Nat) : Bool := 2 ≤ rank + options.verbosity

end Options

end TapeCalc.CommandLine
