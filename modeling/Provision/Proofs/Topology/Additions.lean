import Provision.Proofs.Topology.Indexed

/-! What a topology shows of the additions that led to it.

Components and relations are added in any order, each relation between components whose numbers
were given out before. A topology says no more and no less than what was added: the first
component of every name, every relation in the order of the additions, and both ends of a relation
see it. Later additions change nothing of that. The same additions to a topology that is kept with
indexes lead to the same numbers and the same answers. -/
namespace Provision.Topology

/-! ### Additions -/

inductive Addition where
  | component (c : Component)
  | relation (source target : ComponentId) (r : Relation)

/-- Topologies are built by additions. Those of components give out numbers. -/
def construction : Construction Topology Addition where
  start := .empty
  known := []
  call t
    | .component c => (some (t.addComponent c).1, (t.addComponent c).2)
    | .relation source target r => (none, (t.addRelation source target r).2)
  refersTo
    | .component _ => []
    | .relation source target _ => [source, target]

def Addition.component? : Addition → Option Component
  | .component c => some c
  | .relation .. => none

def Addition.edge? : Addition → Option Edge
  | .component _ => none
  | .relation source target r => some ⟨source, target, r⟩

/-! ### One addition -/

section
variable {t : Topology} {c : Component}

theorem addComponent_of_find? {id : ComponentId} (h : t.find? c.name = some id) :
    t.addComponent c = (id, t) := by
  rw [addComponent, h]

theorem addComponent_of_new (h : t.find? c.name = none) :
    t.addComponent c = (t.size, { t with components := t.components.push c }) := by
  rw [addComponent, h]

theorem edges_addRelation (t : Topology) (source target : ComponentId) (r : Relation) :
    (t.addRelation source target r).2.edges.toList = t.edges.toList ++ [⟨source, target, r⟩] :=
  Array.toList_push

theorem getElem?_edges_addRelation (t : Topology) (source target : ComponentId) (r : Relation) :
    (t.addRelation source target r).2.edges[(t.addRelation source target r).1]? =
      some ⟨source, target, r⟩ :=
  Array.getElem?_push_size

end

/-- What is there stays where it is, and every name stands for what it stood for. -/
structure Keeps (t t' : Topology) : Prop where
  components : ∀ (id : ComponentId) (c : Component),
    t.components[id]? = some c → t'.components[id]? = some c
  edges : ∀ (n : Nat) (e : Edge), t.edges[n]? = some e → t'.edges[n]? = some e
  names : ∀ name id, t.find? name = some id → t'.find? name = some id

namespace Keeps

theorem refl (t : Topology) : t.Keeps t := ⟨fun _ _ => id, fun _ _ => id, fun _ _ => id⟩

theorem trans (t₁ t₂ t₃ : Topology) (h : t₁.Keeps t₂) (h' : t₂.Keeps t₃) : t₁.Keeps t₃ where
  components id c hc := h'.components id c (h.components id c hc)
  edges n e he := h'.edges n e (h.edges n e he)
  names name id hid := h'.names name id (h.names name id hid)

theorem getElem?_push {α : Type} {a : Array α} {i : Nat} {x : α} (h : a[i]? = some x) (y : α) :
    (a.push y)[i]? = some x := by
  obtain ⟨hi, _⟩ := Array.getElem?_eq_some_iff.mp h
  rw [Array.getElem?_push_lt hi]
  rwa [Array.getElem?_eq_getElem hi] at h

theorem findIdx?_push {α : Type} {a : Array α} {p : α → Bool} {i : Nat}
    (h : a.findIdx? p = some i) (y : α) : (a.push y).findIdx? p = some i := by
  rw [Array.findIdx?_push, h]
  rfl

theorem call (t : Topology) (a : Addition) : t.Keeps (construction.call t a).2 := by
  cases a with
  | component c =>
    show t.Keeps (t.addComponent c).2
    cases hname : t.find? c.name with
    | some id =>
      rw [addComponent_of_find? hname]
      exact refl t
    | none =>
      rw [addComponent_of_new hname]
      exact ⟨fun _ _ h => getElem?_push h c, fun _ _ => id, fun _ _ h => findIdx?_push h c⟩
  | relation source target r =>
    exact ⟨fun _ _ => id, fun _ _ h => getElem?_push h _, fun _ _ => id⟩

end Keeps

/-! ### Many additions -/

/-- A topology has what was added. -/
structure Shows (t : Topology) (additions : List Addition) : Prop where
  components : KeepsFirst Component.name (additions.filterMap Addition.component?) t.components
  edges : t.edges.toList = additions.filterMap Addition.edge?
  built : t.Built

/-- One more addition is shown as well. -/
theorem Shows.call {t : Topology} {additions : List Addition} (h : t.Shows additions)
    (a : Addition) (ha : ∀ id ∈ construction.refersTo a, id < t.size) :
    (construction.call t a).2.Shows (additions ++ [a]) := by
  cases a with
  | component c =>
    refine ⟨?_, ?_, .component c h.built⟩
    · rw [List.filterMap_append]
      show KeepsFirst _ (_ ++ [c]) (t.addComponent c).2.components
      cases hname : t.find? c.name with
      | some id =>
        rw [addComponent_of_find? hname]
        refine h.components.again (Decidable.byContradiction fun hnew => ?_)
        cases hname.symm.trans (KeepsFirst.findIdx?_eq_none.mpr hnew)
      | none =>
        rw [addComponent_of_new hname]
        exact h.components.push (KeepsFirst.findIdx?_eq_none.mp hname)
    · rw [List.filterMap_append, ← h.edges]
      show (t.addComponent c).2.edges.toList = t.edges.toList ++ []
      rw [edges_addComponent, List.append_nil]
  | relation source target r =>
    have hsource := ha source List.mem_cons_self
    have htarget := ha target (List.mem_cons_of_mem _ List.mem_cons_self)
    refine ⟨?_, ?_, .relation r h.built hsource htarget⟩
    · rw [List.filterMap_append]
      show KeepsFirst _ (_ ++ []) t.components
      rw [List.append_nil]
      exact h.components
    · rw [List.filterMap_append, ← h.edges]
      exact edges_addRelation t source target r

/-- The numbers that are given out are those of the components. -/
theorem counts_construction : construction.Counts Topology.size where
  start _ := ⟨fun h => absurd h List.not_mem_nil, fun h => absurd h (Nat.not_lt_zero _)⟩
  call t a id := by
    cases a with
    | relation source target r => exact or_iff_left List.not_mem_nil
    | component c =>
      show _ ∨ id ∈ [(t.addComponent c).1] ↔ id < (t.addComponent c).2.size
      rw [List.mem_singleton]
      cases hname : t.find? c.name with
      | some old =>
        rw [addComponent_of_find? hname]
        exact or_iff_left_of_imp fun h => h ▸ lt_of_find?_eq_some hname
      | none =>
        rw [addComponent_of_new hname]
        show _ ∨ id = t.size ↔ id < (Array.push _ _).size
        rw [Array.size_push, ← Nat.lt_succ_iff_lt_or_eq]
        rfl

theorem shows_run {additions : List Addition} (h : construction.Admissible additions) :
    (construction.run additions).Shows additions :=
  counts_construction.holds_run ⟨.empty, rfl, .empty⟩ (fun _ _ a hshows ha => hshows.call a ha) h

/-! ### Additions with indexes -/

namespace Indexed

/-- Topologies with indexes are built by the same additions. -/
def construction : Construction Indexed Addition where
  start := .empty
  known := []
  call x
    | .component c => (some (x.addComponent c).1, (x.addComponent c).2)
    | .relation source target r => (none, (x.addRelation source target r).2)
  refersTo := Topology.construction.refersTo

theorem InStep.call {x : Indexed} {t : Topology} (h : x.InStep t) (ht : t.Built) (a : Addition) :
    (construction.call x a).1 = (Topology.construction.call t a).1 ∧
      (construction.call x a).2.InStep (Topology.construction.call t a).2 := by
  cases a with
  | component c =>
    obtain ⟨hid, hstep⟩ := h.addComponent ht c
    exact ⟨congrArg some hid, hstep⟩
  | relation source target r => exact ⟨rfl, (h.addRelation source target r).2⟩

/-- The indexes stay in step, and the same numbers are given out. -/
theorem inStep_run {additions : List Addition}
    (h : Topology.construction.Admissible additions) :
    (construction.run additions).InStep (Topology.construction.run additions) ∧
      construction.given additions = Topology.construction.given additions :=
  h.inStep InStep .empty rfl fun _ a _ hbefore hstep => hstep.call (shows_run hbefore).built a

end Indexed

/-! ### What is asked of a topology -/

/-- The answers of a topology are those that the additions give. -/
structure Answers (t : Topology) (additions : List Addition) : Prop where
  nodup_names : (t.components.toList.map Component.name).Nodup
  find?_eq_some : ∀ name id, t.find? name = some id ↔
    ∃ c, t.components[id]? = some c ∧ c.name = name
  /-- The names, in the order in which they were first added. -/
  names : t.components.toList.map Component.name =
    ((additions.filterMap Addition.component?).map Component.name).eraseDups
  /-- Every component is the first one that was added with its name. -/
  first : ∀ c ∈ t.components,
    (additions.filterMap Addition.component?).find? (fun d => d.name == c.name) = some c
  edges : t.edges.toList = additions.filterMap Addition.edge?
  ends_lt : ∀ e ∈ t.edges, e.source < t.size ∧ e.target < t.size
  outgoing : ∀ id,
    t.outgoing id = (additions.filterMap Addition.edge?).filter fun e => e.source == id
  incoming : ∀ id,
    t.incoming id = (additions.filterMap Addition.edge?).filter fun e => e.target == id
  targets : ∀ s d k, d ∈ t.targets s k ↔
    ∃ e ∈ additions.filterMap Addition.edge?, e.source = s ∧ e.target = d ∧ e.isA k
  sources : ∀ s d k, s ∈ t.sources d k ↔
    ∃ e ∈ additions.filterMap Addition.edge?, e.source = s ∧ e.target = d ∧ e.isA k

theorem Shows.answers {t : Topology} {additions : List Addition} (h : t.Shows additions) :
    t.Answers additions where
  nodup_names := h.components.nodup
  find?_eq_some _ _ := h.components.findIdx?_eq_some
  names := h.components.names
  first := h.components.first
  edges := h.edges
  ends_lt := h.built.ends_lt
  outgoing id := by rw [Topology.outgoing, h.edges]
  incoming id := by rw [Topology.incoming, h.edges]
  targets s d k := by
    rw [mem_targets, ← h.edges]
    simp only [Array.mem_toList_iff]
  sources s d k := by
    rw [mem_sources, ← h.edges]
    simp only [Array.mem_toList_iff]

/-- What an addition gave out stands for what was added, whatever is added after it. -/
structure Lasts (additions : List Addition) (t : Topology) : Prop where
  keeps : ∀ before after, additions = before ++ after → (construction.run before).Keeps t
  component : ∀ before c after, additions = before ++ .component c :: after →
    t.find? c.name = some ((construction.run before).addComponent c).1
  relation : ∀ before source target r after,
    additions = before ++ .relation source target r :: after →
      t.edges[((construction.run before).addRelation source target r).1]? =
        some ⟨source, target, r⟩

theorem keeps_run {additions before after : List Addition} (h : additions = before ++ after) :
    (construction.run before).Keeps (construction.run additions) := by
  rw [h]
  exact Construction.rel_run_append Keeps.refl Keeps.trans Keeps.call before after

theorem find?_addComponent (t : Topology) (c : Component) :
    (t.addComponent c).2.find? c.name = some (t.addComponent c).1 := by
  cases hname : t.find? c.name with
  | some id => rw [addComponent_of_find? hname, hname]
  | none =>
    rw [addComponent_of_new hname, find?, Array.findIdx?_push, ← find?, hname]
    simp [size]

theorem lasts_run (additions : List Addition) :
    Lasts additions (construction.run additions) where
  keeps _ _ := keeps_run
  component before c after h := by
    rw [← List.singleton_append, ← List.append_assoc] at h
    refine (keeps_run h).names _ _ ?_
    rw [Construction.run_concat]
    exact find?_addComponent _ c
  relation before source target r after h := by
    rw [← List.singleton_append, ← List.append_assoc] at h
    refine (keeps_run h).edges _ _ ?_
    rw [Construction.run_concat]
    exact getElem?_edges_addRelation _ source target r

/-- **A topology shows what was added to it.** Names are unique and lead to the numbers of their
components, both ends of an edge see it in the order of the additions, a name that is taken is
answered with its number and changes nothing, and nothing that was given out ever changes. So the
components that an edge of a kind leads to and those that it comes from are the same relation,
seen from both sides. With indexes of the names and of both ends of the edges, the numbers and the
answers are the same. -/
theorem additions_shown {additions : List Addition} (h : construction.Admissible additions) :
    (construction.run additions).Answers additions ∧
      Lasts additions (construction.run additions) ∧
      (∀ c id, (construction.run additions).find? c.name = some id →
        (construction.run additions).addComponent c = (id, construction.run additions)) ∧
      (∀ s d k, d ∈ (construction.run additions).targets s k ↔
        s ∈ (construction.run additions).sources d k) ∧
      (Indexed.construction.run additions).Mirrors (construction.run additions) ∧
      Indexed.construction.given additions = construction.given additions := by
  have hanswers := (shows_run h).answers
  obtain ⟨hstep, hgiven⟩ := Indexed.inStep_run h
  refine ⟨hanswers, lasts_run additions, fun _ _ => addComponent_of_find?, fun s d k => ?_,
    hstep.mirrors, hgiven⟩
  rw [hanswers.targets, hanswers.sources]

/-- A name that is added again, two relations between the same components and one that leads back
to where it comes from. -/
def looped : List Addition :=
  [.component { name := "app" }, .component { name := "db" },
    .relation 0 1 { name := "connects_to", kind := .connectsTo, source := "app", target := "db" },
    .component { name := "app", kind := .compute },
    .relation 0 1 { name := "hosted_on", kind := .hostedOn, source := "app", target := "db" },
    .relation 1 1 { name := "depends_on", kind := .dependsOn, source := "db", target := "db" }]

theorem additions_shown_looped : construction.Admissible looped ∧
    (construction.run looped).components.toList.map Component.name = ["app", "db"] ∧
    ((construction.run looped).outgoing 0).map Edge.target = [1, 1] ∧
    (construction.run looped).find? "app" = some 0 ∧
    (construction.run looped).addComponent { name := "app", kind := .compute } =
      (0, construction.run looped) ∧
    1 ∈ (construction.run looped).sources 1 .dependsOn ∧
    ((Indexed.construction.run looped).incomingEdges 1).map Edge.source = [0, 0, 1] := by
  have hadmissible : construction.Admissible looped := by decide +kernel
  obtain ⟨hanswers, hlasts, hagain, hsame, hmirrors, _⟩ := additions_shown hadmissible
  have hfind : (construction.run looped).find? "app" = some 0 :=
    (hlasts.component [] _ _ rfl).trans (by decide +kernel)
  refine ⟨hadmissible, ?_, ?_, hfind, hagain _ 0 hfind, ?_, ?_⟩
  · rw [hanswers.names]
    decide
  · rw [hanswers.outgoing]
    rfl
  · rw [← hsame, hanswers.targets]
    exact ⟨_, .tail _ (.tail _ (.head _)), rfl, rfl, rfl⟩
  · rw [hmirrors.incoming 1 (by decide +kernel), hanswers.incoming]
    rfl

end Provision.Topology
