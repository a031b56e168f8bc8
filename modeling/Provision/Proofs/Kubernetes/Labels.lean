import Provision.Proofs.Names
import Provision.Proofs.Variables

/-! The names of stacks as labels.

Directories, manifests and containers have the name of a stack, which has to be a DNS-1123 label.
It is the name of the compute with letters in lower case and a hyphen for each character that is
neither a letter nor a digit. So only the length and the two ends can be wrong, and they depend on
the compute's name, which nothing checks. -/
namespace Provision.Kubernetes
open Build

variable {σ : Type} {job : Job (StateM σ)}

/-! ### Labels -/

/-- A character that a label may start and end with. -/
def isLabelEnd (c : Char) : Bool := c.isLower || c.isDigit

def isLabelChar (c : Char) : Bool := isLabelEnd c || c == '-'

/-- A DNS-1123 label. -/
structure IsLabel (s : String) : Prop where
  length : 1 ≤ s.length ∧ s.length ≤ 63
  chars : ∀ c ∈ s.toList, isLabelChar c = true
  first : s.toList.head?.all isLabelEnd = true
  last : s.toList.getLast?.all isLabelEnd = true

/-- A name of the model that a label can be made of. -/
structure GivesLabel (name : String) : Prop where
  length : 1 ≤ name.length ∧ name.length ≤ 63
  first : name.toList.head?.all Char.isAlphanum = true
  last : name.toList.getLast?.all Char.isAlphanum = true

instance (name : String) : Decidable (GivesLabel name) :=
  decidable_of_iff (_ ∧ _ ∧ _)
    ⟨fun ⟨length, first, last⟩ => ⟨length, first, last⟩, fun h => ⟨h.length, h.first, h.last⟩⟩

/-- What a character of a name becomes. -/
def labelChar (c : Char) : Char := if c.isAlphanum then c.toLower else '-'

theorem isLabelEnd_toLower (c : Char) : isLabelEnd c.toLower = c.isAlphanum := by
  rw [isLabelEnd, Char.isLower_toLower_eq_isAlpha, Text.isDigit_toLower]
  rfl

theorem isLabelEnd_labelChar (c : Char) : isLabelEnd (labelChar c) = c.isAlphanum := by
  unfold labelChar
  by_cases h : c.isAlphanum = true
  · rw [if_pos h, isLabelEnd_toLower]
  · rw [if_neg h, Bool.eq_false_of_not_eq_true h]
    rfl

theorem isLabelChar_labelChar (c : Char) : isLabelChar (labelChar c) = true := by
  by_cases h : c.isAlphanum = true
  · rw [isLabelChar, isLabelEnd_labelChar, h]
    rfl
  · rw [labelChar, if_neg h]
    rfl

/-- Both replacements, of a name by an identifier and of that by a label, are one. -/
theorem labelChar_eq (c : Char) :
    (if Text.identifierChar c = '_' then '-' else Text.identifierChar c) = labelChar c := by
  have hidentifier : Text.isIdentifierChar c.toLower = (c.isAlphanum || c.toLower == '_') := by
    rw [← isLabelEnd_toLower]
    rfl
  unfold Text.identifierChar labelChar
  by_cases h : c.isAlphanum = true
  · have hsign : c.toLower ≠ '_' := by
      intro heq
      rw [← isLabelEnd_toLower, heq] at h
      cases h
    simp [hidentifier, h, hsign]
  · by_cases hsign : c.toLower = '_' <;> simp [hidentifier, h, hsign]

theorem toList_label (name : String) :
    (Stack.label (Text.identifier name)).toList = name.toList.map labelChar := by
  rw [Stack.label, Text.swap, Text.identifier, String.toList_ofList, String.toList_ofList,
    List.map_map]
  exact List.map_congr_left fun c _ => labelChar_eq c

/-- The name of a stack against that of its compute. -/
structure NamedAfter (name : String) (s : Stack) : Prop where
  letters : s.name.toList = name.toList.map labelChar
  length : s.name.length = name.length
  chars : ∀ c ∈ s.name.toList, isLabelChar c = true
  label : IsLabel s.name ↔ GivesLabel name

theorem namedAfter {name : String} {s : Stack}
    (h : s.name = Stack.label (Text.identifier name)) : NamedAfter name s := by
  have hletters : s.name.toList = name.toList.map labelChar := by rw [h, toList_label]
  have hlength : s.name.length = name.length := by
    rw [h, Stack.label, Text.length_swap, Text.length_identifier]
  have hchars : ∀ c ∈ s.name.toList, isLabelChar c = true := by
    rw [hletters, List.forall_mem_map]
    exact fun c _ => isLabelChar_labelChar c
  -- A character at an end is allowed there exactly if that of the name is a letter or a digit.
  have hend (c? : Option Char) : (c?.map labelChar).all isLabelEnd = c?.all Char.isAlphanum := by
    rw [Option.all_map, funext isLabelEnd_labelChar]
  have hfirst : s.name.toList.head?.all isLabelEnd = name.toList.head?.all Char.isAlphanum := by
    rw [hletters, List.head?_map, hend]
  have hlast :
      s.name.toList.getLast?.all isLabelEnd = name.toList.getLast?.all Char.isAlphanum := by
    rw [hletters, List.getLast?_map, hend]
  refine ⟨hletters, hlength, hchars, fun hlabel => ?_, fun hname => ?_⟩
  · exact ⟨hlength ▸ hlabel.length, hfirst ▸ hlabel.first, hlast ▸ hlabel.last⟩
  · exact ⟨hlength.symm ▸ hname.length, hchars, hfirst.trans hname.first, hlast.trans hname.last⟩

/-- The names of stacks that are named after computes. -/
theorem map_name_of_namedAfter {t : Topology} {l : List ComponentId} {made : List Stack}
    (h : List.Forall₂ (fun c stack => NamedAfter (t.component c).name stack) l made) :
    made.map Stack.name = (l.map fun c => (t.component c).name).map fun n =>
      String.ofList (n.toList.map labelChar) := by
  rw [List.map_map]
  refine (map_eq_of_forall₂ h fun c stack hstack => ?_).symm
  rw [Function.comp_apply, ← hstack.letters, String.ofList_toList]

/-! ### Computes -/

/-- A compute that is new gets its stack if there is an image for it and no stack has the name. -/
theorem addCompute_succeeds_iff {id : ComponentId} {c : Component} {s : Assembly State × σ}
    (hnew : id ∉ s.1.visited.done) :
    (∃ s', Yields (addCompute job id c) s () s') ↔
      (∃ image, baseImage job c = .ok image) ∧
        Stack.label c.identifier ∉ s.1.built.graph.names := by
  simp only [addCompute, yields_once, if_neg hnew, yields_ofExcept_bind, yields_built_bind]
  constructor
  · rintro ⟨s', image, himage, ⟨node, graph⟩, hnode, _⟩
    exact ⟨⟨image, himage⟩, (OutputGraph.addNode_eq_ok.mp hnode).1⟩
  · rintro ⟨⟨image, himage⟩, hname⟩
    exact ⟨_, image, himage, ⟨_, _⟩, OutputGraph.addNode_eq_ok.mpr ⟨hname, rfl, rfl⟩,
      yields_change.mpr rfl⟩

/-- A run that succeeds makes a stack for each compute, named after it. -/
theorem namedAfter_of_run (ht : job.model.topology.Built) {w w' : σ} {p : Progress}
    (h : ((lifecycle job).run .idle).run w = ((.ok (), p), w')) :
    ∃ order graph, job.model.topology.hostingOrder = .ok order ∧
      job.Delivers (files graph) w' ∧
      List.Forall₂ (fun c stack => NamedAfter (job.model.topology.component c).name stack)
        (job.model.topology.computesOf order) graph.nodes.toList := by
  obtain ⟨order, graph, horder, hstacks, hdelivers⟩ := stackFor_of_run ht h
  exact ⟨order, graph, horder, hdelivers, hstacks.imp fun _ _ hstack => namedAfter hstack.name⟩

/-- **A stack is named by a label exactly if one can be made of its compute's name.** A compute
gets its stack under any name that is not taken yet. The name of the stack has as many characters
as that of the compute, all of which a label may have. It is a label if there are 1 to 63 of them
and the compute's name starts and ends with a letter or a digit, and else it is not. So it is with
all stacks that a successful run makes. -/
theorem stacks_labelled {name : String} {g : EntityGraph}
    (hbuild : Model.build name g = .ok job.model) :
    (∀ id (s : Assembly State × σ), id ∉ s.1.visited.done →
      ((∃ s', Yields (addCompute job id (job.model.topology.component id)) s () s') ↔
        (∃ image, baseImage job (job.model.topology.component id) = .ok image) ∧
          Stack.label (job.model.topology.component id).identifier ∉ s.1.built.graph.names) ∧
      ∀ s', Yields (addCompute job id (job.model.topology.component id)) s () s' →
        ∃ stack, s'.1.built.graph.nodes = s.1.built.graph.nodes.push stack ∧
          NamedAfter (job.model.topology.component id).name stack) ∧
    ∀ w w' p, ((lifecycle job).run .idle).run w = ((.ok (), p), w') →
      ∃ order graph, job.model.topology.hostingOrder = .ok order ∧
        job.Delivers (files graph) w' ∧
        List.Forall₂ (fun c stack => NamedAfter (job.model.topology.component c).name stack)
          (job.model.topology.computesOf order) graph.nodes.toList ∧
        ((∀ stack ∈ graph.nodes.toList, IsLabel stack.name) ↔
          ∀ c ∈ job.model.topology.computesOf order,
            GivesLabel (job.model.topology.component c).name) := by
  refine ⟨fun id s hnew => ⟨addCompute_succeeds_iff hnew, fun s' h => ?_⟩, fun w w' p h => ?_⟩
  · obtain ⟨stack, hstack, _, _, hbuilt⟩ := (handles_addCompute id s s' hnew h).1
    exact ⟨stack, congrArg (fun built => built.graph.nodes) hbuilt, namedAfter hstack.name⟩
  · obtain ⟨order, graph, horder, hdelivers, hnamed⟩ :=
      namedAfter_of_run (Model.built_of_build hbuild) h
    exact ⟨order, graph, horder, hdelivers, hnamed,
      forall_mem_iff_of_forall₂ hnamed fun _ _ hstack => hstack.label⟩

/-- A run on machines with names that is computed to succeed. -/
theorem exists_run_machines (names : List String)
    (h : ((EntityGraph.ofValue true (machinesDocument names)).mapError
        (.unreadableModel "machines.yaml") >>= Model.build "machines").map (fun m =>
      (m.topology.hostingOrder.toOption.map fun order =>
        (m.topology.computesOf order).map fun c => (m.topology.component c).name,
      succeeds lifecycle m)) = .ok (some names, true)) :
    ∃ g model order p w', EntityGraph.ofValue true (machinesDocument names) = .ok g ∧
      Model.build "machines" g = .ok model ∧ model.topology.hostingOrder = .ok order ∧
      (model.topology.computesOf order).map (fun c => (model.topology.component c).name) = names ∧
      ((lifecycle (webJob model)).run .idle).run {} = ((.ok (), p), w') := by
  obtain ⟨g, model, hg, hbuild, hall⟩ := exists_model_of_map h
  obtain ⟨hnames, hsucceeds⟩ := Prod.mk.inj hall
  obtain ⟨order, horder, hnames⟩ := Option.map_eq_some_iff.mp hnames
  obtain ⟨p, w', hrun⟩ := run_of_succeeds hsucceeds
  exact ⟨g, model, order, p, w', hg, hbuild, toOption_eq_some.mp horder, hnames, hrun⟩

theorem stacks_labelled_pair : ∃ g model graph w',
    EntityGraph.ofValue true (machinesDocument ["web", "DB (main) 1"]) = .ok g ∧
    Model.build "machines" g = .ok model ∧ (webJob model).Delivers (files graph) w' ∧
    graph.nodes.toList.map Stack.name = ["web", "db--main--1"] ∧
    ∀ stack ∈ graph.nodes.toList, IsLabel stack.name := by
  obtain ⟨g, model, order, p, w', hg, hbuild, horder, hnames, hrun⟩ :=
    exists_run_machines ["web", "DB (main) 1"] (by decide +kernel)
  have hjob : Model.build "machines" g = .ok (webJob model).model := hbuild
  obtain ⟨_, graph, hsame, hdelivers, hnamed, hlabels⟩ := (stacks_labelled hjob).2 _ _ _ hrun
  cases horder.symm.trans hsame
  have hgive : ∀ n ∈ ["web", "DB (main) 1"], GivesLabel n := by decide
  rw [← hnames, List.forall_mem_map] at hgive
  refine ⟨g, model, graph, w', hg, hbuild, hdelivers, ?_, hlabels.mpr hgive⟩
  rw [map_name_of_namedAfter hnamed]
  exact (congrArg _ hnames).trans (by decide)

/-- A compute of which the name ends otherwise gets its stack all the same. -/
theorem stack_ends_in_hyphen : ∃ g model p w' graph,
    EntityGraph.ofValue true (machinesDocument ["web (old)"]) = .ok g ∧
    Model.build "machines" g = .ok model ∧
    ((lifecycle (webJob model)).run .idle).run {} = ((.ok (), p), w') ∧
    (webJob model).Delivers (files graph) w' ∧
    graph.nodes.toList.map Stack.name = ["web--old-"] ∧
    ¬ ∀ stack ∈ graph.nodes.toList, IsLabel stack.name := by
  obtain ⟨g, model, order, p, w', hg, hbuild, horder, hnames, hrun⟩ :=
    exists_run_machines ["web (old)"] (by decide +kernel)
  have ht : model.topology.Built := Model.built_of_build hbuild
  obtain ⟨_, graph, hsame, hdelivers, hnamed⟩ := namedAfter_of_run ht hrun
  cases horder.symm.trans hsame
  have hstacks : graph.nodes.toList.map Stack.name = ["web--old-"] := by
    rw [map_name_of_namedAfter hnamed]
    exact (congrArg _ hnames).trans (by decide)
  refine ⟨g, model, p, w', graph, hg, hbuild, hrun, hdelivers, hstacks, fun hall => ?_⟩
  have hgive : ∀ n ∈ ["web (old)"], GivesLabel n := by
    rw [← hnames, List.forall_mem_map]
    exact (forall_mem_iff_of_forall₂ hnamed fun _ _ hstack => hstack.label).mp hall
  exact absurd hgive (by decide)

end Provision.Kubernetes
