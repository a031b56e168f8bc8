import Provision.Ansible.Backend
import Provision.Azure.Backend
import Provision.Data.Sorting
import Provision.Heat.Backend
import Provision.Kubernetes.Backend

/-! The targets that can be generated. -/
namespace Provision

/-- What makes a lifecycle of a job. -/
abbrev Backend (m : Type → Type) := Job m → Lifecycle m

structure Registry (m : Type → Type) where
  backends : OrderedMap String (Backend m) := .empty

namespace Registry

variable {m : Type → Type}

/-- Puts a backend under a name and says whether another one had it. -/
def register (r : Registry m) (name : String) (backend : Backend m) : Bool × Registry m :=
  (r.backends.contains name, ⟨r.backends.insert name backend⟩)

def contains (r : Registry m) (name : String) : Bool := r.backends.contains name

/-- The names in their order. -/
def names (r : Registry m) : List String :=
  sort (fun a b => !(decide (b < a))) r.backends.keys

def unknown (r : Registry m) (name : String) : Fault := .unknownTarget name r.names

/-- Every name has to be known. -/
def validate (r : Registry m) (targets : List String) : Except Fault Unit :=
  targets.forM fun t => if r.contains t then .ok () else .error (r.unknown t)

def create (r : Registry m) (job : Job m) : Except Fault (Lifecycle m) :=
  match r.backends.get? job.target with
  | some backend => .ok (backend job)
  | none => .error (r.unknown job.target)

/-- All backends there are. -/
def standard [Monad m] : Registry m :=
  ⟨.ofList
    [(Heat.target, Heat.lifecycle), (Kubernetes.target, Kubernetes.lifecycle),
      (Ansible.target, Ansible.lifecycle), (Azure.target, Azure.lifecycle)]⟩

end Registry
end Provision
