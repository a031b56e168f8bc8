/-! The arguments of a command line.

An option has a long name and mostly a short one. A value follows its option, either as
the next argument or attached to it; a long name has an equals sign in between, a short
one may have. Short options without values can be written together. Asking for help or
for the version ends the reading, so that nothing behind it matters. -/
namespace Provision.CommandLine

inductive Flag where
  | model
  | target
  | output
  | source
  | config
  | verifyTools
  | verbose
  | listTargets
  | help
  | version
  deriving DecidableEq, Repr

namespace Flag

def all : List Flag :=
  [.model, .target, .output, .source, .config, .verifyTools, .verbose, .listTargets, .help,
    .version]

def long : Flag → String
  | .model => "model"
  | .target => "target"
  | .output => "output"
  | .source => "source"
  | .config => "config"
  | .verifyTools => "verify-tools"
  | .verbose => "verbose"
  | .listTargets => "list-targets"
  | .help => "help"
  | .version => "version"

def short? : Flag → Option Char
  | .model => some 'm'
  | .target => some 't'
  | .output => some 'o'
  | .source => some 's'
  | .config => some 'c'
  | .verbose => some 'v'
  | .help => some 'h'
  | .version => some 'V'
  | .verifyTools | .listTargets => none

/-- What stands for the value of an option in the usage. -/
def placeholder? : Flag → Option String
  | .model | .config => some "FILE"
  | .target => some "TARGET"
  | .output | .source => some "DIR"
  | _ => none

def takesValue (f : Flag) : Bool := f.placeholder?.isSome

/-- Only a target may be given more than once. -/
def repeats (f : Flag) : Bool := f = .target

/-- Paths must not be empty. -/
def takesPath (f : Flag) : Bool := f.takesValue && f ≠ .target

def about : Flag → String
  | .model => "Path to the deployment model (YAML)"
  | .target => "Target to generate; can be specified multiple times: -t heat -t kubernetes"
  | .output => "Output directory; each target writes into its own subdirectory"
  | .source => "Directory that artifact paths in the model are relative to"
  | .config => "Path to a config file"
  | .verifyTools => "Verify that the tools each target needs are installed"
  | .verbose => "Enable debug logging"
  | .listTargets => "List the available targets and exit"
  | .help => "Print help"
  | .version => "Print version"

def ofLong? (name : String) : Option Flag := all.find? fun f => f.long = name

def ofShort? (c : Char) : Option Flag := all.find? fun f => f.short? = some c

end Flag

/-! ### Faults -/

inductive ArgumentFault where
  | unexpected (argument : String)
  | missingValue (flag : Flag)
  | emptyValue (flag : Flag)
  | unwantedValue (flag : Flag)
  | repeated (flag : Flag)
  | missingModel
  deriving DecidableEq, Repr

def ArgumentFault.message : ArgumentFault → String
  | .unexpected argument => "unexpected argument '" ++ argument ++ "' found"
  | .missingValue f => "a value is required for '--" ++ f.long ++ "' but none was supplied"
  | .emptyValue f => "the value of '--" ++ f.long ++ "' must not be empty"
  | .unwantedValue f => "no value is expected for '--" ++ f.long ++ "'"
  | .repeated f => "the argument '--" ++ f.long ++ "' cannot be used multiple times"
  | .missingModel => "the argument '--model' is required unless '--list-targets' is present"

/-! ### Reading -/

/-- The options with their values as they were given. -/
abbrev Given := List (Flag × String)

/-- Why the reading ends before the last argument. -/
inductive Interruption where
  | help
  | version
  | wrong (fault : ArgumentFault)
  deriving DecidableEq, Repr

abbrev Reading := Except Interruption

def wrong {α : Type} (fault : ArgumentFault) : Reading α := .error (.wrong fault)

def give (given : Given) (f : Flag) (value : String) : Reading Given :=
  if f.takesPath && value.isEmpty then wrong (.emptyValue f)
  else if !f.repeats && given.any fun g => g.1 = f then wrong (.repeated f)
  else .ok (given ++ [(f, value)])

/-- An option that stands without a value. -/
def giveBare (given : Given) : Flag → Reading Given
  | .help => .error .help
  | .version => .error .version
  | f => give given f ""

/-- Short options written together. The last one may still wait for its value. -/
def readShort (given : Given) : List Char → Reading (Given × Option Flag)
  | [] => .ok (given, none)
  | c :: rest =>
    match Flag.ofShort? c with
    | none => wrong (.unexpected ("-" ++ c.toString))
    | some f =>
      if f.takesValue then
        match rest with
        | [] => .ok (given, some f)
        | '=' :: value => return (← give given f (String.ofList value), none)
        | value => return (← give given f (String.ofList value), none)
      else do readShort (← giveBare given f) rest

/-- A long option, perhaps with a value behind an equals sign. -/
def readLong (given : Given) (cs : List Char) : Reading (Given × Option Flag) :=
  let name := String.ofList (cs.takeWhile (· ≠ '='))
  match Flag.ofLong? name, cs.dropWhile (· ≠ '=') with
  | none, _ => wrong (.unexpected ("--" ++ name))
  | some f, [] => if f.takesValue then .ok (given, some f) else return (← giveBare given f, none)
  | some f, _ :: value =>
    if f.takesValue then return (← give given f (String.ofList value), none)
    else wrong (.unwantedValue f)

/-- Reads argument by argument. An option may wait for its value. -/
def readAll (given : Given) (waiting : Option Flag) : List String → Reading Given
  | [] =>
    match waiting with
    | some f => wrong (.missingValue f)
    | none => .ok given
  | argument :: rest =>
    match argument.toList, waiting with
    | '-' :: _ :: _, some f => wrong (.missingValue f)
    | _, some f => do readAll (← give given f argument) none rest
    | ['-', '-'], none =>
      match rest with
      | next :: _ => wrong (.unexpected next)
      | [] => .ok given
    | '-' :: '-' :: cs, none => do
      let (given, waiting) ← readLong given cs
      readAll given waiting rest
    | '-' :: c :: cs, none => do
      let (given, waiting) ← readShort given (c :: cs)
      readAll given waiting rest
    | _, none => wrong (.unexpected argument)

/-! ### Commands -/

structure Options where
  model : String
  targets : List String := []
  output : Option String := none
  source : Option String := none
  config : Option String := none
  verifyTools : Bool := false
  deriving DecidableEq, Repr

inductive Command where
  | help
  | version
  | listTargets
  | generate (options : Options)
  deriving DecidableEq, Repr

def Given.values (given : Given) (f : Flag) : List String :=
  (given.filter fun g => g.1 = f).map Prod.snd

def Given.value? (given : Given) (f : Flag) : Option String := (given.values f).head?

def Given.has (given : Given) (f : Flag) : Bool := (given.value? f).isSome

def Given.command (given : Given) : Except ArgumentFault Command :=
  if given.has .listTargets then .ok .listTargets
  else
    match given.value? .model with
    | none => .error .missingModel
    | some model => .ok <| .generate
      { model, targets := given.values .target, output := given.value? .output,
        source := given.value? .source, config := given.value? .config,
        verifyTools := given.has .verifyTools }

def Command.parse (arguments : List String) : Except ArgumentFault Command :=
  match readAll [] none arguments with
  | .ok given => given.command
  | .error .help => .ok .help
  | .error .version => .ok .version
  | .error (.wrong fault) => .error fault

/-! ### Usage -/

def Flag.usage (f : Flag) : String :=
  let short :=
    match f.short? with
    | some c => "  -" ++ c.toString ++ ", "
    | none => "      "
  let value :=
    match f.placeholder? with
    | some name => " <" ++ name ++ ">"
    | none => ""
  let names := short ++ "--" ++ f.long ++ value
  names ++ String.ofList (List.replicate (25 - names.length) ' ') ++ f.about ++ "\n"

def usage : String :=
  "Transform technology-neutral deployment models into infrastructure-as-code artifacts\n\n" ++
    "Usage: topology-transform [OPTIONS]\n\nOptions:\n" ++ String.join (Flag.all.map Flag.usage)

end Provision.CommandLine
