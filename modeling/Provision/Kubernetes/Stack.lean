import Provision.Output.Graph
import Provision.Json.Value
import Provision.Topology.Graph

/-! Container stacks.

A stack is everything that runs on one compute, packaged as one image: a base image, the
scripts that are copied into it and run or started, the ports it exposes and the
environment it declares. The manifests deploy the image and open its ports. -/
namespace Provision.Kubernetes

inductive Instruction where
  | copy (source destination : String)
  | run (script : String)
  deriving DecidableEq, Repr

structure Stack where
  name : String
  compute : ComponentId
  baseImage : String
  environment : OrderedMap String String := .empty
  ports : List UInt16 := []
  instructions : List Instruction := []
  /-- The script that the container runs. -/
  command : Option String := none
  deriving Inhabited

namespace Stack

instance : Named Stack := ⟨Stack.name⟩

/-- The name of the stack of a compute with an identifier. -/
def label (identifier : String) : String := Text.swap '_' '-' identifier

def declare (s : Stack) (added : OrderedMap String String) : Stack :=
  { s with environment := s.environment.merge added }

/-- Exposes a port, once. -/
def expose (s : Stack) (port : UInt16) : Stack :=
  if port ∈ s.ports then s else { s with ports := s.ports ++ [port] }

/-- Copies a script into the image and runs it when the image is made. -/
def runScript (s : Stack) (source destination : String) : Stack :=
  { s with instructions := s.instructions ++ [.copy source destination, .run destination] }

/-- Copies a script into the image and runs it when the container starts. -/
def startScript (s : Stack) (source destination : String) : Stack :=
  { s with
    instructions := s.instructions ++ [.copy source destination]
    command := some destination }

/-! ### The image -/

def instructionLine : Instruction → List String
  | .copy source destination => ["COPY " ++ source ++ " " ++ destination]
  | .run script => ["RUN chmod +x " ++ script ++ " && " ++ script]

/-- The lines of the file that describes the image. -/
def imageLines (s : Stack) : List String :=
  ["FROM " ++ s.baseImage] ++ s.instructions.flatMap instructionLine ++
    s.ports.map (fun p => "EXPOSE " ++ toString p.toNat) ++
    (s.command.map fun c => "CMD [\"" ++ c ++ "\"]").toList

def dockerfile (s : Stack) : String := "\n".intercalate s.imageLines ++ "\n"

/-! ### The manifests -/

def deploymentName (s : Stack) : String := s.name ++ "-deployment"

def serviceName (s : Stack) : String := s.name ++ "-service"

def appLabel (s : Stack) : Json := .object [("app", .string s.name)]

def portNumber (p : UInt16) : Json := .natural p.toNat

def container (s : Stack) (environment : OrderedMap String String) : Json :=
  .sorted
    [("name", .string s.name), ("image", .string (s.name ++ ":latest")),
      ("imagePullPolicy", .string "Never"),
      ("ports", .array (s.ports.map fun p => .object [("containerPort", portNumber p)])),
      ("env", .array (environment.toList.map fun (name, value) =>
        .sorted [("name", .string name), ("value", .string value)]))]

def metadata (s : Stack) (name : String) : Json :=
  .sorted [("name", .string name), ("labels", s.appLabel)]

/-- The manifest that runs the image with an environment. -/
def deployment (s : Stack) (environment : OrderedMap String String) : Json :=
  .sorted
    [("apiVersion", .string "apps/v1"), ("kind", .string "Deployment"),
      ("metadata", s.metadata s.deploymentName),
      ("spec", .sorted
        [("replicas", .natural 1), ("selector", .object [("matchLabels", s.appLabel)]),
          ("template", .sorted
            [("metadata", .object [("labels", s.appLabel)]),
              ("spec", .object [("containers", .array [s.container environment])])])])]

/-- The manifest that opens the ports. -/
def service (s : Stack) : Json :=
  .sorted
    [("apiVersion", .string "v1"), ("kind", .string "Service"),
      ("metadata", s.metadata s.serviceName),
      ("spec", .sorted
        [("type", .string "NodePort"), ("selector", s.appLabel),
          ("ports", .array (s.ports.map fun p =>
            .sorted [("name", .string ("port-" ++ toString p.toNat)), ("port", portNumber p),
              ("targetPort", portNumber p)]))])]

end Stack
end Provision.Kubernetes
