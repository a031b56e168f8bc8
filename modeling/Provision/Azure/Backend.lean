import Provision.Azure.Machine
import Provision.Backend.Context
import Provision.Json.Writer

/-! The Azure backend.

A compute becomes a machine on a network that all machines share. The scripts of
software on it are copied and run by one extension of the machine, each with the
environment of its software. The machine opens the ports of all database systems and
web servers that stand on it. -/
namespace Provision.Azure

def target : String := "azure"

/-- A script that a machine runs. -/
structure ScriptStep where
  /-- The name of the copied script. -/
  file : String
  command : String

/-- What a visit has built. -/
structure State where
  machines : OrderedMap ComponentId ResourceTree := .empty
  /-- The scripts that the computes run. -/
  scripts : OrderedMap ComponentId (List ScriptStep) := .empty
  deriving Inhabited

variable {m : Type → Type} [Monad m]

abbrev Step (m : Type → Type) := Build State m

/-! ### Computes -/

def profile (s : Settings) : Profile where
  size := s.optionOr "vm_size" "Standard_B1s"
  adminUsername := s.optionOr "admin_username" "azureuser"
  imagePublisher := s.optionOr "image_publisher" "Canonical"
  imageOffer := s.optionOr "image_offer" "0001-com-ubuntu-server-jammy"
  imageSku := s.optionOr "image_sku" "22_04-lts-gen2"

def network (model : Model) : Resource := virtualNetwork (model.identifier ++ "-vnet")

/-- Adds a component's port, once. -/
def addPort (ports : List UInt16) (c : Component) : Except Fault (List UInt16) := do
  match ← c.servicePort with
  | some p => return if p ∈ ports then ports else ports ++ [p]
  | none => return ports

/-- The ports of what stands on a compute. -/
def exposedPorts (t : Topology) (compute : ComponentId) : Except Fault (List UInt16) :=
  ((t.stackOn compute).map t.component).foldlM addPort []

/-- The name of a compute's machine. -/
def machineName (c : Component) : String := Text.swap '_' '-' c.identifier

def machine (job : Job m) (id : ComponentId) (c : Component) : Except Fault ResourceTree := do
  let publicKey ← c.publicKey
  let ports ← exposedPorts job.model.topology id
  let name := machineName c
  let interface := networkInterface (name ++ "-nic") (network job.model)
    (securityGroup (name ++ "-nsg") ports) (publicAddress (name ++ "-ip"))
  return virtualMachine name interface (profile job.settings) publicKey

def addCompute (job : Job m) (id : ComponentId) (c : Component) : Step m Unit :=
  Build.once id do
    let tree ← ofExcept (machine job id c)
    Build.change fun s => { s with machines := s.machines.insert id tree }

/-! ### Software -/

/-- A value between single quotes, as a shell reads it. -/
def shellQuote (value : String) : String :=
  "'" ++ String.join (value.toList.map fun c => if c = '\'' then "'\\''" else c.toString) ++ "'"

/-- The assignments in front of a command. -/
def assignments (environment : OrderedMap String String) : String :=
  String.join (environment.toList.map fun (name, value) => name ++ "=" ++ shellQuote value ++ " ")

/-- The name under which a script is copied. All scripts of a machine are loaded into one
directory. -/
def scriptFile (c : Component) (a : Artifact) : String := c.identifier ++ "_" ++ a.fileName

/-- Copies a script and adds it to those of a compute. -/
def addScript (job : Job m) (compute : ComponentId) (c : Component)
    (environment : OrderedMap String String) (a : Artifact) : Step m Unit := do
  let file := scriptFile c a
  let text ← Build.lift (job.workspace.read a.value)
  Build.lift (job.workspace.write ("scripts/" ++ file) text)
  let step : ScriptStep := { file, command := assignments environment ++ "sh " ++ file }
  Build.change fun s => { s with scripts := s.scripts.adjust compute (· ++ [step]) }

def addSoftware (job : Job m) (id : ComponentId) (c : Component) : Step m Unit :=
  Build.once id do
    let t := job.model.topology
    match ← ofExcept (t.computeOf id) with
    | none => return ()
    | some compute =>
      Build.change fun s => { s with scripts := s.scripts.insertNew compute [] }
      c.scriptedOperations.forM fun o =>
        o.artifacts.forM (addScript job compute c (t.stackedEnvironment id))

/-! ### The run -/

def visitor (job : Job m) : Visitor (Step m) :=
  .onHosts target (addCompute job) (addSoftware job)

/-- The extension that runs scripts on a compute, if there are any. -/
def extension? (s : State) (scripts : ComponentId × List ScriptStep) : Option ResourceTree :=
  match s.machines.get? scripts.1, scripts.2 with
  | some tree, step :: rest =>
    let steps := step :: rest
    some (.node
      (scriptExtension tree.value (steps.map ScriptStep.file)
        (" && ".intercalate (steps.map ScriptStep.command))) [])
  | _, _ => none

/-- The network, then the machines, then what runs on them. Without a machine there is
nothing. -/
def template (model : Model) (s : State) : Template :=
  if s.machines.isEmpty then .ofTrees []
  else
    .ofTrees ([.node (network model) []] ++ s.machines.values ++
      s.scripts.toList.filterMap (extension? s))

def templateFile (model : Model) : String := model.identifier ++ ".json"

def transform (job : Job m) : ExceptT Fault m Unit := do
  let s ← Build.finish ((visitor job).visitComponents job.model.topology) {}
  job.workspace.write (templateFile job.model) (template job.model s).toJson.pretty

def lifecycle (job : Job m) : Lifecycle m :=
  job.lifecycle (return ()) (return ()) (transform job)

end Provision.Azure
