import Provision.Backend.Context
import Provision.Heat.Template
import Provision.Output.Derived
import Provision.Yaml.Writer

/-! The OpenStack Heat backend.

A compute becomes a server with a port and a floating address. An operation of software
on it that runs scripts becomes a deployment of its first script to the server. The
deployment gets the environment of the software's hosts, of what it connects to, and its
own, later ones first. -/
namespace Provision.Heat

def target : String := "heat"

/-- What a visit has built. -/
structure State where
  graph : OutputGraph Resource := .empty
  parameters : OrderedMap String Parameter := .empty
  /-- The servers of the computes. -/
  servers : OrderedMap ComponentId NodeId := .empty
  deriving Inhabited

variable {m : Type → Type} [Monad m]

abbrev Step (m : Type → Type) := Build State m

/-! ### Parts -/

def addResource (r : Resource) : Step m NodeId := do
  let (id, graph) ← ofExcept ((← Build.built).graph.addNode r)
  Build.change fun s => { s with graph }
  return id

def addDependency (source target : NodeId) : Step m Unit :=
  Build.change fun s => { s with graph := (s.graph.addDependency source target).2 }

/-- Declares a parameter once. The settings decide its default. -/
def addParameter (job : Job m) (name : String) (fallback : Option String) : Step m Unit :=
  Build.change fun s =>
    { s with parameters := s.parameters.insertNew name ⟨(job.settings.option? name).or fallback⟩ }

/-! ### Computes -/

/-- The parameters that all servers share, with their defaults. -/
def sharedParameters : List (String × Option String) :=
  [("key_name", none), ("image", none), ("flavor", none), ("network", some "default"),
    ("security_group", some "default")]

def portOf (name : String) : Resource :=
  .ofProperties (name ++ "_port") "OS::Neutron::Port"
    [("network", getParam "network"), ("security_groups", .array [getParam "security_group"])]

def serverOf (name : String) : Resource :=
  .ofProperties name "OS::Nova::Server"
    [("key_name", getParam "key_name"), ("image", getParam "image"),
      ("flavor", getParam "flavor"),
      ("networks", .array [.object [("port", getResource (name ++ "_port"))]])]

def floatingIpOf (name : String) : Resource :=
  .ofProperties (name ++ "_floating_ip") "OS::Neutron::FloatingIP"
    [("floating_network", getParam "network"), ("port_id", getResource (name ++ "_port"))]

def associationOf (name : String) : Resource :=
  .ofProperties (name ++ "_floating_ip_association") "OS::Neutron::FloatingIPAssociation"
    [("floatingip_id", getResource (name ++ "_floating_ip")),
      ("port_id", getResource (name ++ "_port"))]

def addCompute (job : Job m) (id : ComponentId) (c : Component) : Step m Unit :=
  Build.once id do
    sharedParameters.forM fun (name, fallback) => addParameter job name fallback
    let name := c.identifier
    let port ← addResource (portOf name)
    let server ← addResource (serverOf name)
    addDependency server port
    let floatingIp ← addResource (floatingIpOf name)
    addDependency floatingIp port
    let association ← addResource (associationOf name)
    addDependency association floatingIp
    addDependency association port
    Build.change fun s => { s with servers := s.servers.insert id server }

/-! ### Software -/

/-- The values that a component's deployments get. -/
def inputValues (t : Topology) (id : ComponentId) : OrderedMap String String :=
  let connected := t.targets id .connectsTo |>.map fun other => (t.component other).environment
  .mergeAll (t.hostEnvironments id ++ [.mergeAll connected] ++ [(t.component id).environment])

def deploymentOf (name server : String) (inputs : OrderedMap String String) : Resource :=
  .ofProperties name "OS::Heat::SoftwareDeployment" <|
    [("config", getResource (name ++ "_config")), ("server", getResource server)] ++
      if inputs.isEmpty then []
      else [("input_values", .sorted (inputs.toList.map fun (k, v) => (k, .string v)))]

def configOf (name script : String) (inputs : OrderedMap String String) : Resource :=
  .ofProperties (name ++ "_config") "OS::Heat::SoftwareConfig" <|
    [("group", .string "script")] ++
      (if inputs.isEmpty then []
        else [("inputs", .array (inputs.keys.map fun k => .object [("name", .string k)]))]) ++
      [("config", .string script)]

/-- Deploys the first script of an operation. -/
def deploy (job : Job m) (c : Component) (server : NodeId) (inputs : OrderedMap String String)
    (o : Operation) (script : Artifact) : Step m Unit := do
  let text ← Build.lift (job.workspace.read script.value)
  Build.change fun s =>
    { s with
      graph := s.graph.adjust server fun r =>
        r.set "user_data_format" (.string "SOFTWARE_CONFIG") }
  let name := c.identifier ++ "_" ++ Text.identifier o.name
  let deployment ← addResource (deploymentOf name ((← Build.built).graph.nameOf server) inputs)
  let config ← addResource (configOf name text inputs)
  addDependency deployment server
  addDependency deployment config

def addSoftware (job : Job m) (id : ComponentId) (c : Component) : Step m Unit :=
  Build.once id do
    let t := job.model.topology
    match ← ofExcept (t.computeOf id) with
    | none => return ()
    | some compute =>
      let some server := (← Build.built).servers.get? compute
        | throw (.invalid ("compute '" ++ (t.component compute).name ++
            "' was not visited before '" ++ c.name ++ "'"))
      let inputs := inputValues t id
      c.scriptedOperations.forM fun o =>
        match o.artifacts with
        | script :: _ => deploy job c server inputs o script
        | [] => return ()

/-! ### The run -/

def visitor (job : Job m) : Visitor (Step m) :=
  .onHosts target (addCompute job) (addSoftware job)

def template (job : Job m) (s : State) : Template :=
  { description := job.model.description, parameters := s.parameters, graph := s.graph }

def templateFile (model : Model) : String := model.identifier ++ ".yaml"

def transform (job : Job m) : ExceptT Fault m Unit := do
  let s ← Build.finish ((visitor job).visitComponents job.model.topology) {}
  job.workspace.write (templateFile job.model) (Yaml.write (template job s).toJson)

def lifecycle (job : Job m) : Lifecycle m :=
  job.lifecycle (return ()) (return ()) (transform job)

end Provision.Heat
