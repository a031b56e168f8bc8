import Provision.Proofs.Azure.References
import Provision.Proofs.Output.Merging

/-! What an Azure template declares.

Expressions refer to parameters and variables, and a template declares exactly those that its
resources require. A resource requires what it refers to, except for the name of the network
and that of the subnet, which the network requires for all. Every name is that of parameters
only or that of variables only. So where requirements of one name meet, one replaces the other
and the name stays declared. -/
namespace Provision

/-! ### What composites collect -/

namespace Composite

variable {α β : Type} {own : α → OrderedMap String β} {c : Composite α}

/-- What is collected comes from the whole or from one of its parts. -/
theorem exists_of_mem_collect {e : String × β} (h : e ∈ (c.collect own).toList) :
    ∃ v ∈ c.postorder, e ∈ (own v).toList := by
  rw [collect_eq_mergeAll] at h
  obtain ⟨m, hm, he⟩ := OrderedMap.exists_of_mem_mergeAll h
  obtain ⟨v, hv, rfl⟩ := List.mem_map.mp hm
  exact ⟨v, (mem_preorder c).mp hv, he⟩

/-- Merging loses no name. -/
theorem mem_keys_collect {k : String} {v : α} (hv : v ∈ c.postorder) (hk : k ∈ (own v).keys) :
    k ∈ (c.collect own).keys := by
  rw [collect_eq_mergeAll, OrderedMap.keys_mergeAll, List.mem_eraseDups]
  exact List.mem_flatMap.mpr ⟨own v, List.mem_map_of_mem ((mem_preorder c).mpr hv), hk⟩

end Composite

namespace Azure
open Build

/-! ### Symbols -/

/-- What expressions can refer to. -/
inductive Symbol where
  | parameter (name : String)
  | variableOf (name : String)
  deriving DecidableEq

/-- What an expression refers to. -/
def Expression.symbols (e : Expression) : List Symbol :=
  e.parameterNames.map .parameter ++ e.variableNames.map .variableOf

/-- What a requirement declares, and how. -/
def Requirement.entry : String × Requirement → Symbol × Content
  | (name, .parameter definition) => (.parameter name, definition)
  | (name, .variableOf value) => (.variableOf name, value)

/-- The names of parameters. No variable has one of them. -/
def parameterKeys : List String :=
  ["location", "vmSize", "adminUsername", "adminPublicKey", "artifactsLocation"]

/-- What a name stands for, whoever requires it. -/
def symbolOf (name : String) : Symbol :=
  if name ∈ parameterKeys then .parameter name else .variableOf name

namespace Resource

/-- What a resource has its template declare. -/
def declarations (r : Resource) : List (Symbol × Content) :=
  r.requirements.toList.map Requirement.entry

/-- The expressions of a resource and of what it has its template declare. -/
def expressions (r : Resource) : List Expression :=
  (r.content :: r.declarations.map Prod.snd).flatMap Content.expressions

/-- A resource that declares what its expressions refer to, unless it is known anyway. -/
structure Supplied (known : List Symbol) (r : Resource) : Prop where
  regular : ∀ e ∈ r.requirements.toList, (Requirement.entry e).1 = symbolOf e.1
  declared : r.expressions.flatMap Expression.symbols ⊆ r.declarations.map Prod.fst ++ known

end Resource

namespace Template

/-- The parameters and variables of a template. -/
def entries (t : Template) : List (Symbol × Content) :=
  t.parameters.toList.map (fun e => (.parameter e.1, e.2)) ++
    t.variableValues.toList.map fun e => (.variableOf e.1, e.2)

/-- The expressions of a template, those of its parameters and variables among them. -/
def expressions (t : Template) : List Expression :=
  (t.parameters.values ++ t.variableValues.values ++ t.resources.map Resource.content).flatMap
    Content.expressions

/-- Whatever the expressions of a template refer to is declared in it. -/
structure SelfContained (t : Template) : Prop where
  parameters : ∀ e ∈ t.expressions, ∀ p ∈ e.parameterNames, p ∈ t.parameters.keys
  variableValues : ∀ e ∈ t.expressions, ∀ v ∈ e.variableNames, v ∈ t.variableValues.keys

/-! ### What a template gains -/

@[simp] theorem mem_entries_parameter {t : Template} {name : String} {c : Content} :
    (.parameter name, c) ∈ t.entries ↔ (name, c) ∈ t.parameters.toList := by
  simp [entries]

@[simp] theorem mem_entries_variableOf {t : Template} {name : String} {c : Content} :
    (.variableOf name, c) ∈ t.entries ↔ (name, c) ∈ t.variableValues.toList := by
  simp [entries]

theorem mem_entries_require {t : Template} {needed : String × Requirement}
    {e : Symbol × Content} : e ∈ (t.require needed).entries ↔
      e = Requirement.entry needed ∨ e.1 ≠ (Requirement.entry needed).1 ∧ e ∈ t.entries := by
  obtain ⟨name, requirement⟩ := needed
  obtain ⟨symbol, c⟩ := e
  cases requirement <;> cases symbol <;>
    simp [require, Requirement.entry, OrderedMap.mem_insert]

/-- Declarations are added. They may replace others of the same symbols. -/
structure Gains (added : List (Symbol × Content)) (t t' : Template) : Prop where
  of_mem : ∀ e ∈ t'.entries, e ∈ added ∨ e ∈ t.entries
  symbols : ∀ e, e ∈ added ∨ e ∈ t.entries → e.1 ∈ t'.entries.map Prod.fst

namespace Gains

variable {t t' t'' : Template} {added added' : List (Symbol × Content)}

theorem refl (t : Template) : Gains [] t t :=
  ⟨fun _ => .inr, fun _ he => List.mem_map_of_mem (he.resolve_left List.not_mem_nil)⟩

theorem trans (h : Gains added t t') (h' : Gains added' t' t'') :
    Gains (added ++ added') t t'' := by
  refine ⟨fun e he => ?_, fun e he => ?_⟩
  · rw [List.mem_append]
    have := h'.of_mem e he
    have := h.of_mem e
    tauto
  · by_cases he' : e ∈ added'
    · exact h'.symbols e (.inl he')
    · have hsymbol := h.symbols e (by rw [List.mem_append] at he; tauto)
      obtain ⟨e', hmem, heq⟩ := List.mem_map.mp hsymbol
      rw [← heq]
      exact h'.symbols e' (.inr hmem)

theorem require (t : Template) (needed : String × Requirement) :
    Gains [Requirement.entry needed] t (t.require needed) := by
  refine ⟨fun e he => ?_, fun e he => ?_⟩
  · rw [List.mem_singleton]
    exact (mem_entries_require.mp he).imp_right And.right
  · by_cases heq : e.1 = (Requirement.entry needed).1
    · rw [heq]
      exact List.mem_map_of_mem (mem_entries_require.mpr (.inl rfl))
    · have hne : e ∉ [Requirement.entry needed] := fun hmem =>
        heq (congrArg Prod.fst (List.mem_singleton.mp hmem))
      exact List.mem_map_of_mem (mem_entries_require.mpr (.inr ⟨heq, he.resolve_left hne⟩))

theorem foldl {α : Type} {step : Template → α → Template} {gain : α → List (Symbol × Content)}
    (hstep : ∀ t a, Gains (gain a) t (step t a)) (l : List α) (t : Template) :
    Gains (l.flatMap gain) t (l.foldl step t) := by
  induction l generalizing t with
  | nil => exact .refl t
  | cons a rest ih => exact (hstep t a).trans (ih (step t a))

end Gains

/-- A template declares what is collected from its resources. -/
theorem gains_ofTrees (trees : List ResourceTree) :
    Gains (trees.flatMap fun tree => tree.requirements.toList.map Requirement.entry) {}
      (ofTrees trees) := by
  refine .foldl (fun t tree => ?_) trees {}
  have hgains := Gains.foldl Gains.require tree.requirements.toList t
  have hmap : (tree.requirements.toList.flatMap fun needed => [Requirement.entry needed]) =
      tree.requirements.toList.map Requirement.entry := List.flatMap_pure_eq_map ..
  rw [hmap] at hgains
  exact ⟨hgains.of_mem, hgains.symbols⟩

/-- What the template gains comes from its resources. -/
theorem exists_of_mem_entries_ofTrees {trees : List ResourceTree} {e : Symbol × Content}
    (he : e ∈ (ofTrees trees).entries) :
    ∃ r ∈ trees.flatMap ResourceTree.flatten, e ∈ r.declarations := by
  have hmem := ((gains_ofTrees trees).of_mem e he).resolve_right List.not_mem_nil
  obtain ⟨tree, htree, hmem⟩ := List.mem_flatMap.mp hmem
  obtain ⟨needed, hneeded, rfl⟩ := List.mem_map.mp hmem
  obtain ⟨r, hr, hneeded⟩ := Composite.exists_of_mem_collect hneeded
  exact ⟨r, List.mem_flatMap.mpr ⟨tree, htree, hr⟩, List.mem_map_of_mem hneeded⟩

/-- The expressions of a template come from its resources. -/
theorem exists_of_mem_expressions {trees : List ResourceTree} {e : Expression}
    (he : e ∈ (ofTrees trees).expressions) :
    ∃ r ∈ trees.flatMap ResourceTree.flatten, e ∈ r.expressions := by
  obtain ⟨c, hc, he⟩ := List.mem_flatMap.mp he
  have hentry {symbol : Symbol} (hc : (symbol, c) ∈ (ofTrees trees).entries) :
      ∃ r ∈ trees.flatMap ResourceTree.flatten, e ∈ r.expressions := by
    obtain ⟨r, hr, hmem⟩ := exists_of_mem_entries_ofTrees hc
    exact ⟨r, hr, List.mem_flatMap.mpr ⟨c, List.mem_cons_of_mem _ (List.mem_map_of_mem hmem), he⟩⟩
  rw [List.mem_append, List.mem_append] at hc
  rcases hc with (hc | hc) | hc
  · obtain ⟨name, hc⟩ := OrderedMap.mem_values.mp hc
    exact hentry (mem_entries_parameter.mpr hc)
  · obtain ⟨name, hc⟩ := OrderedMap.mem_values.mp hc
    exact hentry (mem_entries_variableOf.mpr hc)
  · rw [resources_ofTrees] at hc
    obtain ⟨r, hr, rfl⟩ := List.mem_map.mp hc
    exact ⟨r, hr, List.mem_flatMap.mpr ⟨_, List.mem_cons_self, he⟩⟩

section Supplied
variable {trees : List ResourceTree} {known : List Symbol}
  (hsupplied : ∀ r ∈ trees.flatMap ResourceTree.flatten, r.Supplied known)
include hsupplied

/-- What a resource requires is declared, by whichever resource. -/
theorem mem_entries_ofTrees {r : Resource} (hr : r ∈ trees.flatMap ResourceTree.flatten)
    {e : Symbol × Content} (he : e ∈ r.declarations) :
    e.1 ∈ (ofTrees trees).entries.map Prod.fst := by
  obtain ⟨tree, htree, hr⟩ := List.mem_flatMap.mp hr
  have hregular {r : Resource} (hr : r ∈ tree.flatten) :=
    (hsupplied r (List.mem_flatMap.mpr ⟨tree, htree, hr⟩)).regular
  obtain ⟨needed, hneeded, rfl⟩ := List.mem_map.mp he
  -- The name is collected, perhaps from another resource, but as the same symbol.
  have hkey : needed.1 ∈ tree.requirements.keys :=
    Composite.mem_keys_collect hr (List.mem_map_of_mem hneeded)
  obtain ⟨requirement, hcollected⟩ := OrderedMap.mem_keys.mp hkey
  obtain ⟨r', hr', hmem⟩ := Composite.exists_of_mem_collect hcollected
  have hsymbol : (Requirement.entry needed).1 = (Requirement.entry (needed.1, requirement)).1 :=
    (hregular hr _ hneeded).trans (hregular hr' _ hmem).symm
  rw [hsymbol]
  exact (gains_ofTrees trees).symbols _
    (.inl (List.mem_flatMap.mpr ⟨tree, htree, List.mem_map_of_mem hcollected⟩))

/-- A template of resources that declare what they refer to is self-contained. -/
theorem selfContained_ofTrees (hknown : ∀ symbol ∈ known,
      ∃ r ∈ trees.flatMap ResourceTree.flatten, symbol ∈ r.declarations.map Prod.fst) :
    (ofTrees trees).SelfContained := by
  have hsymbols {e : Expression} (he : e ∈ (ofTrees trees).expressions) {symbol : Symbol}
      (hsymbol : symbol ∈ e.symbols) : symbol ∈ (ofTrees trees).entries.map Prod.fst := by
    obtain ⟨r, hr, he⟩ := exists_of_mem_expressions he
    have hdeclared {r : Resource} (hr : r ∈ trees.flatMap ResourceTree.flatten)
        (hsymbol : symbol ∈ r.declarations.map Prod.fst) :
        symbol ∈ (ofTrees trees).entries.map Prod.fst := by
      obtain ⟨entry, hentry, rfl⟩ := List.mem_map.mp hsymbol
      exact mem_entries_ofTrees hsupplied hr hentry
    rcases List.mem_append.mp
      ((hsupplied r hr).declared (List.mem_flatMap.mpr ⟨e, he, hsymbol⟩)) with h | h
    · exact hdeclared hr h
    · obtain ⟨r', hr', h⟩ := hknown symbol h
      exact hdeclared hr' h
  refine ⟨fun e he p hp => ?_, fun e he v hv => ?_⟩
  · have hsymbol : Symbol.parameter p ∈ e.symbols :=
      List.mem_append_left _ (List.mem_map_of_mem hp)
    obtain ⟨⟨_, c⟩, hentry, rfl⟩ := List.mem_map.mp (hsymbols he hsymbol)
    exact OrderedMap.mem_keys.mpr ⟨c, mem_entries_parameter.mp hentry⟩
  · have hsymbol : Symbol.variableOf v ∈ e.symbols :=
      List.mem_append_right _ (List.mem_map_of_mem hv)
    obtain ⟨⟨_, c⟩, hentry, rfl⟩ := List.mem_map.mp (hsymbols he hsymbol)
    exact OrderedMap.mem_keys.mpr ⟨c, mem_entries_variableOf.mp hentry⟩

end Supplied

end Template

/-! ### Resources that declare what they refer to -/

/-- What all resources require. -/
def location : String × Requirement :=
  ("location", .parameter
    (parameterDefinition "string" (some (.expression (.code "resourceGroup().location")))))

/-- What the network declares for all resources. -/
def shared : List Symbol := [.variableOf "vnetName", .variableOf "subnetName"]

theorem toList_requiring (type apiVersion : String) (name : Term)
    {needed : List (String × Requirement)} (hnew : ("location" :: needed.map Prod.fst).Nodup) :
    ((Resource.start type apiVersion name).requiring needed).requirements.toList =
      location :: needed :=
  OrderedMap.toList_extend hnew

theorem Resource.expressions_content (r : Resource) :
    r.content.expressions = r.name.expressions ++ (.parameterValue "location" ::
      (r.properties.expressions ++ r.dependsOn.flatMap Term.expressions)) := by
  have hitems : Content.expressionsOfItems (r.dependsOn.map .term) =
      r.dependsOn.flatMap Term.expressions := by
    rw [expressionsOfItems_eq, List.flatMap_map]
    rfl
  rw [← hitems]
  have hmembers (members : List (String × Content)) :
      Content.expressionsOfMembers
          ([("type", .text r.type), ("apiVersion", .text r.apiVersion), ("name", .term r.name),
            ("location", .expression (.parameterValue "location")),
            ("properties", r.properties)] ++ members) =
        r.name.expressions ++ (.parameterValue "location" ::
          (r.properties.expressions ++ Content.expressionsOfMembers members)) := rfl
  show Content.expressionsOfMembers _ = _
  rw [hmembers]
  cases r.dependsOn with
  | nil => rfl
  | cons d rest => simp [Content.expressionsOfMembers, Content.expressions]

/-- The location is the same for all resources, so only the rest needs to be looked at. -/
theorem Resource.supplied_of_requirements {r : Resource} {known : List Symbol}
    {needed : List (String × Requirement)} (h : r.requirements.toList = location :: needed)
    (hregular : ∀ e ∈ needed, (Requirement.entry e).1 = symbolOf e.1)
    (hdeclared : (r.name.expressions ++ r.properties.expressions ++
      r.dependsOn.flatMap Term.expressions ++
      needed.flatMap fun e => (Requirement.entry e).2.expressions).flatMap Expression.symbols ⊆
        (needed.map fun e => (Requirement.entry e).1) ++ known) : r.Supplied known := by
  constructor
  · rw [h, List.forall_mem_cons]
    exact ⟨rfl, hregular⟩
  · have hexpressions : r.expressions = r.name.expressions ++ (.parameterValue "location" ::
        (r.properties.expressions ++ r.dependsOn.flatMap Term.expressions)) ++
        (.code "resourceGroup().location" ::
          needed.flatMap fun e => (Requirement.entry e).2.expressions) := by
      rw [Resource.expressions, Resource.declarations, h, List.flatMap_cons, expressions_content,
        List.map_map, List.flatMap_map, List.flatMap_cons]
      rfl
    have hdeclarations : r.declarations.map Prod.fst =
        .parameter "location" :: needed.map fun e => (Requirement.entry e).1 := by
      rw [Resource.declarations, h, List.map_map, List.map_cons]
      rfl
    rw [hexpressions, hdeclarations]
    intro symbol hsymbol
    obtain ⟨e, he, hsymbol⟩ := List.mem_flatMap.mp hsymbol
    have hcases : e = .parameterValue "location" ∨ e = .code "resourceGroup().location" ∨
        e ∈ r.name.expressions ++ r.properties.expressions ++
          r.dependsOn.flatMap Term.expressions ++
          needed.flatMap fun e => (Requirement.entry e).2.expressions := by
      simp only [List.mem_append, List.mem_cons] at he ⊢
      tauto
    rcases hcases with rfl | rfl | he
    · cases List.mem_singleton.mp hsymbol
      exact List.mem_cons_self
    · cases hsymbol
    · exact List.mem_cons_of_mem _ (hdeclared (List.mem_flatMap.mpr ⟨e, he, hsymbol⟩))

theorem supplied_virtualNetwork (name : String) : (virtualNetwork name).Supplied shared := by
  refine Resource.supplied_of_requirements (toList_requiring _ _ _ (by simp)) ?_ ?_
  · simp [Requirement.entry, symbolOf, parameterKeys]
  · show [Symbol.variableOf "vnetName", .variableOf "addressPrefix", .variableOf "subnetName",
        .variableOf "subnetPrefix"] ⊆
      [Symbol.variableOf "vnetName", .variableOf "subnetName", .variableOf "addressPrefix",
        .variableOf "subnetPrefix"] ++ shared
    simp

theorem supplied_publicAddress (name : String) : (publicAddress name).Supplied shared :=
  Resource.supplied_of_requirements rfl (List.forall_mem_nil _) (List.nil_subset _)

theorem supplied_securityGroup (name : String) (ports : List UInt16) :
    (securityGroup name ports).Supplied shared := by
  refine Resource.supplied_of_requirements rfl (List.forall_mem_nil _) ?_
  rw [expressions_securityGroup]
  exact List.nil_subset _

section Machine
variable (name interface group address vnet : String) (ports : List UInt16)

theorem supplied_networkInterface :
    (networkInterface interface (virtualNetwork vnet) (securityGroup group ports)
      (publicAddress address)).value.Supplied shared := by
  refine Resource.supplied_of_requirements (toList_requiring _ _ _ (by simp)) ?_ ?_
  · simp [Requirement.entry, symbolOf, parameterKeys]
  · show [Symbol.variableOf "subnetRef", .variableOf "vnetName", .variableOf "vnetName",
        .variableOf "subnetName"] ⊆ [Symbol.variableOf "subnetRef"] ++ shared
    simp [shared]

theorem supplied_virtualMachine (profile : Profile) (publicKey : Option String) :
    (virtualMachine name (networkInterface interface (virtualNetwork vnet)
      (securityGroup group ports) (publicAddress address)) profile publicKey).value.Supplied
        shared := by
  refine Resource.supplied_of_requirements (toList_requiring _ _ _ (by simp)) ?_ ?_
  · simp [Requirement.entry, symbolOf, parameterKeys]
  · have hsubset : [Symbol.parameter "vmSize", .parameter "adminUsername",
          .parameter "adminUsername", .parameter "adminPublicKey", .variableOf "imagePublisher",
          .variableOf "imageOffer", .variableOf "imageSku"] ⊆
        [Symbol.parameter "vmSize", .parameter "adminUsername", .parameter "adminPublicKey",
          .variableOf "imagePublisher", .variableOf "imageOffer", .variableOf "imageSku"] ++
            shared := by
      simp
    cases publicKey <;> exact hsubset

end Machine

theorem supplied_scriptExtension {machine : Resource} {name : String}
    (hname : machine.name = .text name) (files : List String) (command : String) :
    (scriptExtension machine files command).Supplied shared := by
  refine Resource.supplied_of_requirements (toList_requiring _ _ _ (by simp)) ?_ ?_
  · simp [Requirement.entry, symbolOf, parameterKeys]
  · have hdepends : (scriptExtension machine files command).dependsOn.flatMap Term.expressions =
        [.call "resourceId" [.literal machine.type, .literal name]] := by
      show [Expression.call _ [_, machine.name.asExpression]] = _
      rw [hname]
      rfl
    rw [expressions_scriptExtension, hdepends]
    show ([] ++ files.map scriptLocation ++ [_] ++ []).flatMap Expression.symbols ⊆ _
    rw [List.nil_append, List.append_nil]
    intro symbol hsymbol
    obtain ⟨e, he, hsymbol⟩ := List.mem_flatMap.mp hsymbol
    rcases List.mem_append.mp he with he | he
    · obtain ⟨file, _, rfl⟩ := List.mem_map.mp he
      exact List.mem_append_left _ hsymbol
    · cases List.mem_singleton.mp he
      cases hsymbol

/-! ### The template -/

section Template
variable {σ : Type} {job : Job (StateM σ)} {order : List ComponentId} {s : State}

theorem supplied_machine {c : ComponentId} {component : Component} {tree : ResourceTree}
    (h : machine job c component = .ok tree) : ∀ r ∈ tree.flatten, r.Supplied shared := by
  obtain ⟨ports, publicKey, _, rfl⟩ := exists_eq_of_machine h
  intro r hr
  have hflatten : r ∈ [securityGroup (machineName component ++ "-nsg") ports,
      publicAddress (machineName component ++ "-ip"), _, _] :=
    hr
  simp only [List.mem_cons, List.not_mem_nil, or_false] at hflatten
  rcases hflatten with rfl | rfl | rfl | rfl
  · exact supplied_securityGroup ..
  · exact supplied_publicAddress _
  · exact supplied_networkInterface ..
  · exact supplied_virtualMachine ..

theorem supplied_template (h : ScriptsFor job order s) (hsome : s.machines.isEmpty = false) :
    ∀ r ∈ (template job.model s).resources, r.Supplied shared := by
  intro r hr
  rcases cases_of_mem_template h hsome hr with
    rfl | ⟨_, _, _, _, hmachine, hr⟩ | ⟨_, _, _, _, hmachine, files, command, rfl⟩
  · exact supplied_virtualNetwork _
  · exact supplied_machine hmachine r hr
  · exact supplied_scriptExtension (name_machine hmachine) files command

theorem selfContained_template (h : ScriptsFor job order s) :
    (template job.model s).SelfContained := by
  cases hsome : s.machines.isEmpty with
  | true =>
    rw [template, if_pos hsome]
    exact ⟨fun e he => absurd he List.not_mem_nil, fun e he => absurd he List.not_mem_nil⟩
  | false =>
    have hsupplied := supplied_template h hsome
    have hnetwork : network job.model ∈ (template job.model s).resources := by
      rw [resources_template hsome]
      exact List.mem_append_left _ List.mem_cons_self
    rw [template, hsome, if_neg Bool.false_ne_true] at hsupplied hnetwork ⊢
    rw [Template.resources_ofTrees] at hsupplied hnetwork
    refine Template.selfContained_ofTrees hsupplied fun symbol hsymbol => ⟨_, hnetwork, ?_⟩
    have hdeclarations : (network job.model).declarations.map Prod.fst =
        [.parameter "location", .variableOf "vnetName", .variableOf "subnetName",
          .variableOf "addressPrefix", .variableOf "subnetPrefix"] := rfl
    rw [hdeclarations]
    rcases List.mem_pair.mp hsymbol with rfl | rfl <;> simp

end Template

/-- **A template declares all that it refers to.** A run that succeeds writes a template in which
every expression refers to parameters and variables that the template has. -/
theorem selfContained_of_run {σ : Type} {job : Job (StateM σ)} {name : String} {g : EntityGraph}
    (hbuild : Model.build name g = .ok job.model) {w w' : σ} {p : Progress}
    (h : ((lifecycle job).run .idle).run w = ((.ok (), p), w')) :
    ∃ order s, job.model.topology.hostingOrder = .ok order ∧ ScriptsFor job order s ∧
      (template job.model s).SelfContained ∧
      job.Delivers [(templateFile job.model, (template job.model s).toJson.pretty)] w' := by
  obtain ⟨s, visited, w₁, w₂, w₃, hvisit, hwrite, hrelease⟩ := Job.exists_visit_of_run h
  obtain ⟨order, horder, hscripts⟩ := scriptsFor_of_visit (Model.built_of_build hbuild) hvisit
  exact ⟨order, s, horder, hscripts, selfContained_template hscripts,
    Job.delivers_of_write hwrite hrelease⟩

theorem selfContained_of_run_web : ∃ g model order s w',
    EntityGraph.ofValue true webDocument = .ok g ∧ Model.build "web" g = .ok model ∧
    model.topology.hostingOrder = .ok order ∧ ScriptsFor (webJob model) order s ∧
    (template model s).SelfContained ∧
    (webJob model).Delivers [(templateFile model, (template model s).toJson.pretty)] w' := by
  have hweb : (((EntityGraph.ofValue true webDocument).mapError (.unreadableModel "web.yaml") >>=
      Model.build "web").map (succeeds lifecycle)) = .ok true := by
    decide +kernel
  obtain ⟨model, hm, hazure⟩ := map_eq_ok.mp hweb
  obtain ⟨g, hg, hbuild⟩ := bind_eq_ok.mp hm
  obtain ⟨p, w', hrun⟩ := run_of_succeeds hazure
  have hjob : Model.build "web" g = .ok (webJob model).model := hbuild
  obtain ⟨order, s, horder, hscripts, hcontained, hdelivers⟩ := selfContained_of_run hjob hrun
  exact ⟨g, model, order, s, w', mapError_eq_ok.mp hg, hbuild, horder, hscripts, hcontained,
    hdelivers⟩

end Azure
end Provision
