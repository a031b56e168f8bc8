import Provision.Deployment.Execution
import Provision.Proofs.Model.Twins

/-! Short and long forms mean the same.

The model is all that the targets know of a document. So what holds of the model holds of every
run: it does not matter in which form the entries of a document are written. -/
namespace Provision
open EntityGraph
open Yaml (Value)

section Requests
variable {m n : Type → Type} [Monad m] {ρ : Type}

/-- A site at which the model that is read is a document. -/
def Site.holding (site : Site m n ρ) (v : Value) : Site m n ρ :=
  { site with
    readModel := fun path => ofExcept ((ofValue true v).mapError (.unreadableModel path)) }

theorem Site.announce_holding (site : Site m n ρ) (v : Value) :
    (site.holding v).announce = site.announce := by
  unfold Site.holding
  rfl

/-- Running a target reads no document. -/
theorem Request.generate_holding [Monad n] (r : Request) (registry : Registry n)
    (site : Site m n ρ) (v : Value) :
    r.generate registry (site.holding v) = r.generate registry site := by
  unfold generate Site.holding
  rfl

variable [LawfulMonad m]

/-- Two steps that can fail and are one behind the other fail like both together. -/
theorem ofExcept_bind {ε α β γ : Type} (x : Except ε α) (f : α → Except ε β)
    (k : β → ExceptT ε m γ) :
    ((ofExcept x : ExceptT ε m α) >>= fun a => ofExcept (f a) >>= k) =
      ofExcept (x >>= f) >>= k := by
  cases x with
  | ok a => exact pure_bind a _
  | error e =>
    show (ofExcept (.error e) >>= fun a => ofExcept (f a) >>= k) = ofExcept (.error e) >>= k
    refine ExceptT.ext ?_
    simp [ofExcept]

/-- A request meets a document only in the model that it gives. -/
theorem Request.loadModel_eq (r : Request) (site : Site m n ρ) {v v' : Value}
    (h : ((ofValue true v).mapError (.unreadableModel r.modelPath) >>= Model.build r.modelName) =
      ((ofValue true v').mapError (.unreadableModel r.modelPath) >>= Model.build r.modelName)) :
    r.loadModel (site.holding v) = r.loadModel (site.holding v') := by
  unfold loadModel Site.holding
  simp only [ofExcept_bind, h]

end Requests

/-- **The form of an entry makes no difference.** However many scalars of a document are written
in a long form, the document gives the same model, or the same fault instead of one; and
whatever is generated from it, for any targets, is the same. -/
theorem unchanged_of_lengthens {v v' : Value} (h : Lengthens .document v v') :
    (∀ builtIn origin name,
      ((ofValue builtIn v).mapError (.unreadableModel origin) >>= Model.build name) =
        ((ofValue builtIn v').mapError (.unreadableModel origin) >>= Model.build name)) ∧
    ∀ (m n : Type → Type) [Monad m] [LawfulMonad m] [Monad n] (ρ : Type) (r : Request)
      (registry : Registry n) (site : Site m n ρ),
      r.execute registry (site.holding v) = r.execute registry (site.holding v') := by
  have hmodel (builtIn : Bool) (origin name : String) :
      ((ofValue builtIn v).mapError (.unreadableModel origin) >>= Model.build name) =
        ((ofValue builtIn v').mapError (.unreadableModel origin) >>= Model.build name) :=
    ((agree_ofValue h builtIn).mapError _).bind_eq fun _ _ htwins => htwins.build_eq name
  refine ⟨hmodel, fun m n _ _ _ ρ r registry site => ?_⟩
  unfold Request.execute
  simp only [r.loadModel_eq site (hmodel true r.modelPath r.modelName), Site.announce_holding,
    Request.generate_holding]

/-- A service with a port and a script of its type, and a greeting, a note, a script and a host
of its own. Its entries are written in some form each. -/
def serviceDocument (property create start relation : Value → Value) : Value :=
  BuiltIn.mapping
    [(Key.componentTypes, BuiltIn.mapping
        [("service", BuiltIn.mapping
            [BuiltIn.refining "software_component",
              (Key.properties, BuiltIn.mapping [("port", property (.integer 80))]),
              (Key.operations, BuiltIn.mapping [("start", start (.string "start.sh"))])])]),
      (Key.components, BuiltIn.mapping
        [("vm", BuiltIn.mapping [(Key.type, .string "compute")]),
          ("app", BuiltIn.mapping
            [(Key.type, .string "service"),
              (Key.properties, BuiltIn.mapping
                [("greeting", property (.string "hello")), ("note", property .null)]),
              (Key.operations, BuiltIn.mapping [("create", create (.string "create.sh"))]),
              (Key.relations, .sequence
                [BuiltIn.mapping [("hosted_on", relation (.string "vm"))]])])])]

/-- The service with short entries only, and with long ones only. -/
def shortService : Value := serviceDocument id id id id

def longService : Value :=
  serviceDocument (wrapped [.field Key.value]) (wrapped [.field Key.artifacts, .item])
    (wrapped [.field Key.artifacts, .item, .field Operation.command])
    (wrapped [.field Key.target])

theorem lengthens_service : Lengthens .document shortService longService := by
  refine .mapping (.change rfl (.mapping (.change rfl ?type .nil))
    (.change rfl (.mapping (.keep _ (.change rfl ?app .nil))) .nil))
  case type =>
    refine .mapping (.keep _ (.change rfl (.mapping (.change rfl ?port .nil))
      (.change rfl (.mapping (.change rfl ?start .nil)) .nil)))
    case port => exact .long (.head _) rfl
    case start => exact .long (.head _) rfl
  case app =>
    refine .mapping (.keep _ (.change rfl (.mapping ?properties)
      (.change rfl (.mapping (.change rfl ?create .nil))
        (.change rfl (.sequence ?relations) .nil))))
    case properties =>
      exact .change rfl (.long (.head _) rfl) (.change rfl (.long (.head _) rfl) .nil)
    case create => exact .long (.tail _ (.head _)) rfl
    case relations => exact .cons (.mapping (.change rfl (.long (.head _) rfl) .nil)) .nil

def serviceRequest : Request :=
  .forModel "service.yaml" "out" ["heat", "kubernetes", "ansible", "azure"]

def serviceSite : Site (StateM (List Notice)) Memory.M Memory.Store :=
  Memory.site { sources := .ofList [("create.sh", "install"), ("start.sh", "serve")] } fun path =>
    .error (.unreadableModel path .missingFile)

theorem unchanged_of_lengthens_service : Lengthens .document shortService longService ∧
    (∃ model,
      ((ofValue true shortService).mapError (.unreadableModel "service.yaml") >>=
        Model.build "service") = .ok model ∧
      ((ofValue true longService).mapError (.unreadableModel "service.yaml") >>=
        Model.build "service") = .ok model ∧
      model.topology.components.toList.flatMap (fun c => c.propertyTexts.toList) =
        [("os_family", "linux"), ("machine_image", "ubuntu"), ("instance_type", "m1.small"),
          ("greeting", "hello"), ("port", "80")] ∧
      model.topology.components.toList.flatMap (fun c => c.scriptedOperations) =
        [{ name := "create", artifacts := [⟨"cmd", "create.sh"⟩] },
          { name := "start", artifacts := [⟨"cmd", "start.sh"⟩] }] ∧
      model.topology.edges.toList.map (fun e => (e.source, e.target, e.kind)) =
        [(1, 0, .hostedOn)]) ∧
    (∃ response notices,
      (serviceRequest.execute .standard (serviceSite.holding shortService)).run.run [] =
        (.ok response, notices) ∧
      (serviceRequest.execute .standard (serviceSite.holding longService)).run.run [] =
        (.ok response, notices) ∧ response.allSucceeded = true) := by
  have hshort : ((ofValue true shortService).mapError (.unreadableModel "service.yaml") >>=
      Model.build "service").map (fun model =>
        (model.topology.components.toList.flatMap (fun c => c.propertyTexts.toList),
        model.topology.components.toList.flatMap (fun c => c.scriptedOperations),
        model.topology.edges.toList.map fun e => (e.source, e.target, e.kind))) =
      .ok ([("os_family", "linux"), ("machine_image", "ubuntu"), ("instance_type", "m1.small"),
          ("greeting", "hello"), ("port", "80")],
        [{ name := "create", artifacts := [⟨"cmd", "create.sh"⟩] },
          { name := "start", artifacts := [⟨"cmd", "start.sh"⟩] }], [(1, 0, .hostedOn)]) := by
    decide +kernel
  have hrun : (((serviceRequest.execute .standard
      (serviceSite.holding shortService)).run.run []).1.toOption.map Response.allSucceeded) =
        some true := by
    decide +kernel
  obtain ⟨hmodels, hruns⟩ := unchanged_of_lengthens lengthens_service
  obtain ⟨model, hmodel, hparts⟩ := map_eq_ok.mp hshort
  obtain ⟨hproperties, hoperations, hedges⟩ : _ ∧ _ ∧ _ := by
    simpa only [Prod.mk.injEq] using hparts
  have hexecute := hruns _ _ _ serviceRequest .standard serviceSite
  refine ⟨lengthens_service, ⟨model, hmodel, (hmodels _ _ _).symm.trans hmodel, hproperties,
    hoperations, hedges⟩, ?_⟩
  rw [← hexecute]
  rcases hresult : (serviceRequest.execute .standard (serviceSite.holding shortService)).run.run []
    with ⟨_ | response, notices⟩
  · rw [hresult] at hrun
    cases hrun
  · rw [hresult] at hrun
    exact ⟨response, notices, rfl, rfl, Option.some.inj hrun⟩

end Provision
