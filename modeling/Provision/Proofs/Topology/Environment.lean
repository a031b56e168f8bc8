import Provision.Backend.Context
import Provision.Proofs.Data.OrderedMap
import Provision.Proofs.Topology.Placement
import Provision.Proofs.Topology.SameHosting

/-! Environments of stacks.

The software that runs on a compute has variables, and those of all of it together are the
variables of the compute's stack. A connection between software of two stacks hands the
variables of the one to the other. Which stacks are connected is all that counts: one
connection between two stacks is as good as many, a connection within a stack is as good as
none, and what a stack is handed it does not hand on. -/
namespace Provision.Topology

/-- The variables that the software on a compute has, of some components. -/
def ownEnvironment (t : Topology) (l : List ComponentId) (c : ComponentId) :
    OrderedMap String String :=
  .mergeAll ((l.filter fun id => t.placed? id = some c).map fun id => (t.component id).environment)

/-- A connection leads from something on the stack of a compute to something on the stack of
another one. -/
def Connects (t : Topology) (c target : ComponentId) : Prop :=
  ∃ e ∈ t.edges, e.kind = .connectsTo ∧ t.computeOf e.source = .ok (some c) ∧
    t.computeOf e.target = .ok (some target)

instance (t : Topology) (c target : ComponentId) : Decidable (t.Connects c target) :=
  inferInstanceAs (Decidable (∃ e ∈ t.edges, _))

/-- The variables of a compute's own software, and then of the software on each other compute that
it is connected to, in hosting order. -/
def contributions (t : Topology) (order : List ComponentId) (c : ComponentId) :
    List (OrderedMap String String) :=
  t.ownEnvironment order c ::
    ((t.computesOf order).filter fun target => target ≠ c ∧ t.Connects c target).map
      (t.ownEnvironment order)

/-- The environment of a compute's stack: a later value takes the place of an earlier one. -/
def stackEnvironment (t : Topology) (order : List ComponentId) (c : ComponentId) :
    OrderedMap String String :=
  .mergeAll (t.contributions order c)

section Own
variable {t : Topology} {done rest : List ComponentId} {id : ComponentId}

theorem ownEnvironment_append (t : Topology) (l : List ComponentId) (id c : ComponentId) :
    t.ownEnvironment (l ++ [id]) c =
      if t.placed? id = some c then (t.ownEnvironment l c).merge (t.component id).environment
      else t.ownEnvironment l c := by
  unfold ownEnvironment
  by_cases h : t.placed? id = some c
  · rw [if_pos h, ← OrderedMap.mergeAll_concat]
    simp [h]
  · simp [h]

theorem ownEnvironment_append_compute (l : List ComponentId)
    (hid : (t.component id).isA .compute = true) (c : ComponentId) :
    t.ownEnvironment (l ++ [id]) c = t.ownEnvironment l c := by
  rw [ownEnvironment_append, placed?_of_isA hid, if_neg nofun]

/-- A compute has no software before it is there itself. -/
theorem ownEnvironment_next (ht : t.Built) (horder : t.hostingOrder = .ok (done ++ id :: rest)) :
    t.ownEnvironment done id = .empty := by
  rw [ownEnvironment, filter_placed?_next ht horder]
  rfl

end Own

/-- The environment of a stack has each variable once, where it first occurs, with the value that
it was given last. -/
theorem toList_stackEnvironment (t : Topology) (order : List ComponentId) (c : ComponentId) :
    (t.stackEnvironment order c).toList.map Prod.fst =
        ((t.contributions order c).flatMap OrderedMap.keys).eraseDups ∧
      ∀ name value, (name, value) ∈ (t.stackEnvironment order c).toList ↔
        (t.contributions order c).reverse.findSome? (fun m => m.get? name) = some value := by
  refine ⟨OrderedMap.keys_mergeAll _, fun name value => ?_⟩
  rw [← OrderedMap.get?_eq_some, stackEnvironment, OrderedMap.get?_mergeAll]

/-! ### One more connection -/

section Relation
variable {t : Topology} {source target : ComponentId} {r : Relation}

/-- Both ends are on one stack, or something on the same two stacks is connected already. -/
def Redundant (t : Topology) (source target : ComponentId) : Prop :=
  t.computeOf source = t.computeOf target ∨
    ∃ e ∈ t.edges, e.kind = .connectsTo ∧ t.computeOf e.source = t.computeOf source ∧
      t.computeOf e.target = t.computeOf target

theorem filter_outgoing_addRelation (hr : Kind.isA r.kind .hostedOn = false) (id : ComponentId) :
    ((t.addRelation source target r).2.outgoing id).filter (fun e => e.isA .hostedOn) =
      (t.outgoing id).filter fun e => e.isA .hostedOn := by
  have hnew : (⟨source, target, r⟩ : Edge).isA .hostedOn = false := hr
  rw [outgoing, outgoing, addRelation, Array.toList_push, List.filter_append, List.filter_append,
    List.filter_singleton]
  cases source == id <;> simp [hnew]

theorem hostOf?_addRelation (hr : Kind.isA r.kind .hostedOn = false) (id : ComponentId) :
    (t.addRelation source target r).2.hostOf? id = t.hostOf? id := by
  rw [hostOf?, hostOf?, ← List.head?_filter, ← List.head?_filter, filter_outgoing_addRelation hr]

theorem climb_addRelation (hr : Kind.isA r.kind .hostedOn = false) (start : ComponentId)
    (visited : List ComponentId) (room : Nat) (id : ComponentId) :
    (t.addRelation source target r).2.climb start visited room id =
      t.climb start visited room id := by
  have hcomponent : (t.addRelation source target r).2.component = t.component := rfl
  induction room generalizing visited id with
  | zero =>
    unfold climb
    rw [hcomponent, hostOf?_addRelation hr]
    cases t.hostOf? id <;> rfl
  | succ room ih =>
    unfold climb
    rw [hcomponent, hostOf?_addRelation hr]
    cases t.hostOf? id with
    | none => rfl
    | some host => simp only [ih]

/-- A relation that hosts nothing moves nothing to another compute. -/
theorem computeOf_addRelation (hr : Kind.isA r.kind .hostedOn = false) (id : ComponentId) :
    (t.addRelation source target r).2.computeOf id = t.computeOf id :=
  climb_addRelation hr id [] t.size id

/-- Nor does it change the hosting order. -/
theorem hostingOrder_addRelation (hr : Kind.isA r.kind .hostedOn = false) :
    (t.addRelation source target r).2.hostingOrder = t.hostingOrder :=
  (sameHosting_addRelation hr).hostingOrder_eq

theorem ownEnvironment_addRelation (hr : Kind.isA r.kind .hostedOn = false)
    (l : List ComponentId) (c : ComponentId) :
    (t.addRelation source target r).2.ownEnvironment l c = t.ownEnvironment l c := by
  have hplaced (id : ComponentId) :
      (t.addRelation source target r).2.placed? id = t.placed? id := by
    unfold placed?
    rw [computeOf_addRelation hr]
    rfl
  unfold ownEnvironment
  simp only [hplaced]
  rfl

/-- A redundant connection connects no other stacks. -/
theorem connects_addRelation (hr : Kind.isA r.kind .hostedOn = false)
    (h : t.Redundant source target) {c c' : ComponentId} (hne : c' ≠ c) :
    (t.addRelation source target r).2.Connects c c' ↔ t.Connects c c' := by
  unfold Connects
  simp only [computeOf_addRelation hr]
  constructor
  · rintro ⟨e, he, hkind, hsource, htarget⟩
    rcases Array.mem_push.mp he with he | rfl
    · exact ⟨e, he, hkind, hsource, htarget⟩
    · rcases h with hsame | ⟨e, he, hkind, hsource', htarget'⟩
      · have heq := (hsource.symm.trans hsame).trans htarget
        cases heq
        exact absurd rfl hne
      · exact ⟨e, he, hkind, hsource'.trans hsource, htarget'.trans htarget⟩
  · rintro ⟨e, he, hends⟩
    exact ⟨e, Array.mem_push.mpr (.inl he), hends⟩

/-- Repeated connections and connections within a stack change no environment. -/
theorem stackEnvironment_addRelation (hr : Kind.isA r.kind .hostedOn = false)
    (h : t.Redundant source target) (order : List ComponentId) (c : ComponentId) :
    (t.addRelation source target r).2.stackEnvironment order c = t.stackEnvironment order c := by
  have hown : (t.addRelation source target r).2.ownEnvironment = t.ownEnvironment :=
    funext fun l => funext fun c => ownEnvironment_addRelation hr l c
  have hcomputes : (t.addRelation source target r).2.computesOf order = t.computesOf order := rfl
  unfold stackEnvironment contributions
  rw [hown, hcomputes]
  congr 3
  refine List.filter_congr fun c' _ => decide_eq_decide.mpr (and_congr_right fun hne => ?_)
  exact connects_addRelation hr h hne

end Relation

end Provision.Topology
