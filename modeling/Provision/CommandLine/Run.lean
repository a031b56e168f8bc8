import Provision.CommandLine.Arguments
import Provision.Config.Loading
import Provision.Deployment.Execution
import Provision.Entity.Document
import Provision.Workspace.Directories

/-! Running a command line.

A run needs a file system, a console and a search path for tools. Results are printed and
messages reported. Arguments count before the configuration; what neither of them gives
has a default. -/
namespace Provision.CommandLine

inductive ExitCode where
  | success
  | invalidArguments
  | transformationFailed
  deriving DecidableEq, Repr

namespace ExitCode

def all : List ExitCode := [.success, .invalidArguments, .transformationFailed]

def number : ExitCode → UInt8
  | .success => 0
  | .invalidArguments => 2
  | .transformationFailed => 3

def description (c : ExitCode) : String :=
  let name :=
    match c with
    | .success => "Success"
    | .invalidArguments => "Invalid Arguments"
    | .transformationFailed => "Transformation Failed"
  name ++ " (" ++ toString c.number.toNat ++ ")"

end ExitCode

/-! ### Messages -/

/-- What a run reports beside its results. -/
inductive Message where
  | notice (n : Notice)
  | unknownField (name : String)
  | failure (error : Error)
  | misuse (fault : ArgumentFault)
  deriving Repr

/-- A failure with all its causes. -/
def failureText (e : Error) : String :=
  "\n❌ An error occurred:\n\n" ++ e.summary ++ "\n" ++
    String.join (e.causes.map fun cause => "\nCaused by: " ++ cause ++ "\n") ++ "\n"

def Message.text : Message → String
  | .notice (.generating ..) => ""
  | .notice n => n.message ++ "\n"
  | .unknownField name => Config.warning name ++ "\n"
  | .failure error => failureText error
  | .misuse fault => "error: " ++ fault.message ++ "\n\nFor more information, try '--help'.\n"

structure Console (m : Type → Type) where
  print : String → m Unit
  report : Message → m Unit
  /-- The time since some fixed moment. -/
  milliseconds : m Nat

structure Surroundings (m : Type → Type) where
  files : FileSystem m
  console : Console m
  searchPath : Option String

/-! ### Requests -/

def defaultOutput : String := "output"

/-- The request of options and a configuration. -/
def requestOf (o : Options) (c : Config) : Except Fault Request :=
  let targets := if o.targets.isEmpty then c.targets.getD [] else o.targets
  if targets.isEmpty then .error .noTargets
  else .ok
    { modelPath := o.model
      sourceDir := (o.source.or c.sourceDir).getD (Request.directoryOf o.model)
      outputDir := (o.output.or c.outputDir).getD defaultOutput
      targets
      verifyTools := o.verifyTools || c.verifyTools.getD false
      backendOptions := c.backends }

/-! ### Summaries -/

/-- What a target leaves. -/
structure Generated where
  written : List String
  milliseconds : Nat

def green (s : String) : String := "\x1b[32m" ++ s ++ "\x1b[39m"
def red (s : String) : String := "\x1b[31m" ++ s ++ "\x1b[39m"
def bold (s : String) : String := "\x1b[1m" ++ s ++ "\x1b[0m"

/-- The line that tells how a target ended. -/
def summary (outputDir : String) (o : Outcome Generated) : String :=
  match o.error with
  | none =>
    green "✅" ++ " " ++ bold o.target ++ ": " ++ toString o.left.written.length ++ " file(s) in " ++
      Files.Path.join outputDir o.target ++ " (" ++ toString o.left.milliseconds ++ " ms)\n"
  | some error => red "❌" ++ " " ++ bold o.target ++ ": " ++ error.message ++ "\n"

/-! ### Runs -/

variable {m : Type → Type} [Monad m]

/-- The configuration that is asked for, else the one beside the model if there is one. -/
def loadConfig (s : Surroundings m) (o : Options) : ExceptT Error m Config := do
  match o.config with
  | some path => Config.load s.files path
  | none => return (← Config.discover? s.files (Request.directoryOf o.model)).getD {}

def hasTool (s : Surroundings m) (tool : String) : m Bool :=
  match s.searchPath with
  | some path => return (← locateTool? s.files path tool).isSome
  | none => return false

def siteOf (s : Surroundings m) (r : Request) : Site m (Directories.M m) Generated where
  readModel path := EntityGraph.read s.files path
  announce n := s.console.report (.notice n)
  inWorkspace target run := do
    let start ← s.console.milliseconds
    let directories := Directories.forTarget r.sourceDir r.outputDir target
    let (result, written) ← (run (directories.workspace s.files (hasTool s))).run []
    let stop ← s.console.milliseconds
    return (result, { written, milliseconds := stop - start })

def generate (s : Surroundings m) (o : Options) : ExceptT Error m ExitCode := do
  let config ← loadConfig s o
  config.unknown.forM fun name => liftM (s.console.report (.unknownField name))
  let toError (fault : Fault) : Error := { fault }
  let request ← ofExcept ((requestOf o config).mapError toError)
  let response ← ExceptT.adapt toError (request.execute Registry.standard (siteOf s request))
  response.outcomes.forM fun outcome => liftM (s.console.print (summary request.outputDir outcome))
  return if response.allSucceeded then .success else .transformationFailed

def run (s : Surroundings m) (arguments : List String) : m ExitCode := do
  match Command.parse arguments with
  | .error fault =>
    s.console.report (.misuse fault)
    return .invalidArguments
  | .ok .help =>
    s.console.print usage
    return .success
  | .ok .version =>
    s.console.print "topology-transform 0.1.0\n"
    return .success
  | .ok .listTargets =>
    (Registry.standard (m := Directories.M m)).names.forM fun name => s.console.print (name ++ "\n")
    return .success
  | .ok (.generate o) =>
    match ← (generate s o).run with
    | .ok code => return code
    | .error e =>
      s.console.report (.failure e)
      return .transformationFailed

end Provision.CommandLine
