import Provision.Backend.Context
import Provision.Kubernetes.Stack
import Provision.Output.Derived
import Provision.Yaml.Writer

/-! The Kubernetes backend.

A compute becomes a stack. Software on it adds its scripts, its port and its environment
to the stack. A connection between software of two stacks connects the stacks, and a
stack gets the environment of every stack that it is connected to. -/
namespace Provision.Kubernetes

def target : String := "kubernetes"

/-- What a visit has built. -/
structure State where
  graph : OutputGraph Stack := .empty
  /-- The stack of each compute. -/
  nodeOf : OrderedMap ComponentId NodeId := .empty
  deriving Inhabited

variable {m : Type → Type} [Monad m]

abbrev Step (m : Type → Type) := Build State m

/-! ### Computes -/

/-- The image that a compute's stack starts from. -/
def baseImage (job : Job m) (c : Component) : Except Fault String :=
  match job.settings.option? "base_image" with
  | some image => .ok image
  | none => do return (← c.machineImage).getD "ubuntu" ++ ":latest"

def addCompute (job : Job m) (id : ComponentId) (c : Component) : Step m Unit :=
  Build.once id do
    let baseImage ← ofExcept (baseImage job c)
    let stack : Stack := { name := Stack.label c.identifier, compute := id, baseImage }
    let (node, graph) ← ofExcept ((← Build.built).graph.addNode stack)
    Build.change fun s => { s with graph, nodeOf := s.nodeOf.insert id node }

/-! ### Software -/

/-- The stack that a component belongs to. -/
def stackOf (t : Topology) (s : State) (id : ComponentId) : Except Fault NodeId := do
  let compute ← t.computeOf id
  match compute.bind s.nodeOf.get? with
  | some node => return node
  | none => throw (.missingHost (t.component id).name)

/-- A script to be copied into an image. -/
structure Script where
  operation : String
  source : String
  destination : String

/-- Copies a script into the directory of a stack. -/
def copyScript (job : Job m) (directory : String) (c : Component) (o : Operation) (a : Artifact) :
    ExceptT Fault m Script := do
  let path := c.identifier ++ "/" ++ a.fileName
  let text ← job.workspace.read a.value
  job.workspace.write (directory ++ "/" ++ path) text
  return { operation := o.name, source := path, destination := "/opt/" ++ path }

/-- Copies the scripts of all operations of a component. -/
def copyScripts (job : Job m) (directory : String) (c : Component) :
    ExceptT Fault m (List Script) := do
  let scripts ← c.scriptedOperations.mapM fun o =>
    o.artifacts.mapM (copyScript job directory c o)
  return scripts.flatten

/-- The scripts of the operation `start` are left to the container, all others run when
the image is made. -/
def Stack.add (s : Stack) (script : Script) : Stack :=
  if script.operation = "start" then s.startScript script.source script.destination
  else s.runScript script.source script.destination

/-- What a component adds to its stack. -/
def Stack.host (s : Stack) (c : Component) (port : Option UInt16) (scripts : List Script) : Stack :=
  let s := s.declare c.environment
  let s :=
    match port with
    | some p => s.expose p
    | none => s
  scripts.foldl Stack.add s

def addSoftware (job : Job m) (id : ComponentId) (c : Component) : Step m Unit :=
  Build.once id do
    let s ← Build.built
    let node ← ofExcept (stackOf job.model.topology s id)
    let port ← ofExcept c.servicePort
    let scripts ← Build.lift (copyScripts job (s.graph.nameOf node) c)
    Build.change fun s => { s with graph := s.graph.adjust node fun stack => stack.host c port scripts }

/-! ### Connections -/

/-- Connects the stacks of two components that are not on the same one. -/
def connect (job : Job m) (e : Edge) : Step m Unit := do
  let s ← Build.built
  let source ← ofExcept (stackOf job.model.topology s e.source)
  let target ← ofExcept (stackOf job.model.topology s e.target)
  if source ≠ target then
    let (_, graph) := s.graph.addEdge source target (.relation .connectsTo)
    let (_, graph) := graph.addDependency source target
    Build.change fun s => { s with graph }

/-! ### The run -/

/-- All relations but connections have no counterpart among the stacks. -/
def visitor (job : Job m) : Visitor (Step m) :=
  { Visitor.onHosts target (addCompute job) (addSoftware job) with
    relation?
      | .connectsTo => some (connect job)
      | .generic => some fun _ => return ()
      | _ => none }

/-- Every component has to run on a compute. -/
def checkModel (t : Topology) : Except Fault Unit :=
  t.ids.forM fun id => do
    if (← t.computeOf id).isNone then
      throw (.unsuitableModel target
        ("component '" ++ (t.component id).name ++ "' is not hosted on a compute"))

/-- The variables of a stack and then those of the stacks that it is connected to. -/
def environmentOf (g : OutputGraph Stack) (id : NodeId) : OrderedMap String String :=
  .mergeAll
    [((g.node? id).map Stack.environment).getD .empty, g.collect id .connectsTo Stack.environment]

/-- The files of a stack. -/
def filesOf (s : Stack) (environment : OrderedMap String String) : List (String × String) :=
  [(s.name ++ "/Dockerfile", s.dockerfile),
    (s.name ++ "/" ++ s.deploymentName ++ ".yaml", Yaml.write (s.deployment environment))] ++
    if s.ports.isEmpty then []
    else [(s.name ++ "/" ++ s.serviceName ++ ".yaml", Yaml.write s.service)]

/-- The files of all stacks. -/
def files (g : OutputGraph Stack) : List (String × String) :=
  g.nodes.toList.zipIdx.flatMap fun (s, id) => filesOf s (environmentOf g id)

def transform (job : Job m) : ExceptT Fault m Unit := do
  let s ← Build.finish ((visitor job).visit job.model.topology) {}
  (files s.graph).forM fun (path, text) => job.workspace.write path text

def lifecycle (job : Job m) : Lifecycle m :=
  job.lifecycle (job.requireTools ["docker", "kubectl"])
    (ofExcept (checkModel job.model.topology)) (transform job)

end Provision.Kubernetes
