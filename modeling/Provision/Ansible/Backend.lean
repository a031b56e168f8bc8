import Provision.Ansible.Playbook
import Provision.Backend.Context
import Provision.Yaml.Writer

/-! The Ansible backend.

A compute becomes a play. Every script of software on it is copied and becomes a task of
that play, with the environment of the software on its hosts. A database has to stand on
exactly one database system. -/
namespace Provision.Ansible

def target : String := "ansible"

/-- The plays of the computes. -/
abbrev Plays := OrderedMap ComponentId Play

variable {m : Type → Type} [Monad m]

abbrev Step (m : Type → Type) := Build Plays m

def addCompute (id : ComponentId) (c : Component) : Step m Unit :=
  Build.once id do
    let play : Play := { name := "deploy " ++ c.identifier, hosts := c.identifier }
    Build.change fun plays => plays.insert id play

/-- The path to which a script is copied. -/
def scriptPath (c : Component) (a : Artifact) : String :=
  "files/" ++ c.identifier ++ "/" ++ a.fileName

/-- Copies a script and gives the task that runs it. -/
def taskOf (job : Job m) (c : Component) (environment : OrderedMap String String) (o : Operation)
    (a : Artifact) : ExceptT Fault m Task := do
  let text ← job.workspace.read a.value
  job.workspace.write (scriptPath c a) text
  return {
    name := c.identifier ++ "_" ++ Text.identifier o.name
    script := scriptPath c a
    environment }

/-- The tasks of all operations of a component. -/
def tasksOf (job : Job m) (c : Component) (environment : OrderedMap String String) :
    ExceptT Fault m (List Task) := do
  let tasks ← c.scriptedOperations.mapM fun o => o.artifacts.mapM (taskOf job c environment o)
  return tasks.flatten

def addSoftware (job : Job m) (id : ComponentId) (c : Component) : Step m Unit :=
  Build.once id do
    let t := job.model.topology
    match ← ofExcept (t.computeOf id) with
    | none => return ()
    | some compute =>
      let tasks ← Build.lift (tasksOf job c (t.stackedEnvironment id))
      Build.change fun plays =>
        plays.adjust compute fun p => { p with tasks := p.tasks ++ tasks }

/-! ### The run -/

def visitor (job : Job m) : Visitor (Step m) :=
  .onHosts target addCompute (addSoftware job)

/-- The database systems above a component. -/
def dbmsHosts (t : Topology) (id : ComponentId) : List ComponentId :=
  (t.hostsAbove id).filter fun host => (t.component host).isA .dbms

def checkModel (t : Topology) : Except Fault Unit :=
  t.ids.forM fun id => do
    let n := (dbmsHosts t id).length
    if (t.component id).isA .database && n ≠ 1 then
      throw (.unsuitableModel target ("database '" ++ (t.component id).name ++
        "' must be hosted on exactly one DBMS, found " ++ toString n))

def playbookFile : String := "deployment.yml"

def playbook (plays : Plays) : Json := .array (plays.values.map Play.toJson)

def transform (job : Job m) : ExceptT Fault m Unit := do
  let plays ← Build.finish ((visitor job).visitComponents job.model.topology) .empty
  job.workspace.write playbookFile (Yaml.write (playbook plays))

def lifecycle (job : Job m) : Lifecycle m :=
  job.lifecycle (job.requireTools ["ansible-playbook"]) (ofExcept (checkModel job.model.topology))
    (transform job)

end Provision.Ansible
