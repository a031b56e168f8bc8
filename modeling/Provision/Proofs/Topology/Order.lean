import Mathlib.Data.List.Perm.Subperm
import Mathlib.Order.Bounds.Defs
import Provision.Proofs.Topology.Built

/-! The hosting order.

The sweep that makes the order keeps an invariant: a component waits for exactly those of
its hosts that are not yet in the order, and it is in the order or queued when it waits
for none. A component is only settled while it waits, so no count drops below zero. The
sweep ends with an empty queue. What it has not reached by then are the components that
lead into a circle, and the first of them is the one reported. -/
namespace Provision.Topology

theorem ascending_nodup (l : List Nat) : (ascending l).Nodup :=
  (ascending_pairwise l).imp Nat.ne_of_lt

theorem targets_nodup (t : Topology) (id : ComponentId) (k : RelationKind) :
    (t.targets id k).Nodup :=
  ascending_nodup _

theorem sources_nodup (t : Topology) (id : ComponentId) (k : RelationKind) :
    (t.sources id k).Nodup :=
  ascending_nodup _

theorem mem_ids {t : Topology} {id : ComponentId} : id ∈ t.ids ↔ id < t.size :=
  List.mem_range

namespace Sweep

/-- How many hosts of a component are still to come. -/
def waiting (s : Sweep) (id : ComponentId) : Nat := s.pending[id]?.getD 0

/-! ### Settling -/

section Settle
variable (s : Sweep)

theorem size_settle (id : ComponentId) : (s.settle id).pending.size = s.pending.size := by
  simp [settle]

theorem waiting_settle {id : ComponentId} (h : id < s.pending.size) (c : ComponentId) :
    (s.settle id).waiting c = if c = id then s.waiting c - 1 else s.waiting c := by
  by_cases hc : c = id
  · subst hc
    simp [settle, waiting, h]
  · simp [settle, waiting, hc, Array.getElem?_setIfInBounds_ne (Ne.symm hc)]

theorem queue_settle (id : ComponentId) :
    (s.settle id).queue = s.queue ++ [id].filter fun c => s.waiting c - 1 = 0 := by
  by_cases h : s.waiting id - 1 = 0
  · simp only [settle, List.filter_singleton, h]
    rw [if_pos (by exact h)]
    rfl
  · simp only [settle, List.filter_singleton, h]
    rw [if_neg (by exact h)]
    simp

end Settle

/-- Settling some components, each once: those that wait for nothing more are queued. -/
theorem foldl_settle {l : List ComponentId} (hl : l.Nodup) (s : Sweep)
    (hlt : ∀ c ∈ l, c < s.pending.size) :
    (l.foldl settle s).pending.size = s.pending.size ∧
      (l.foldl settle s).order = s.order ∧
      (∀ c, (l.foldl settle s).waiting c = if c ∈ l then s.waiting c - 1 else s.waiting c) ∧
      (l.foldl settle s).queue = s.queue ++ l.filter fun c => s.waiting c - 1 = 0 := by
  induction l generalizing s with
  | nil => simp
  | cons id rest ih =>
    obtain ⟨hid, hrest⟩ := List.nodup_cons.mp hl
    have hsize := s.size_settle id
    have hwaiting := s.waiting_settle (hlt id List.mem_cons_self)
    obtain ⟨h₁, h₂, h₃, h₄⟩ := ih hrest (s.settle id)
      fun c hc => by rw [hsize]; exact hlt c (List.mem_cons_of_mem _ hc)
    refine ⟨h₁.trans hsize, h₂, fun c => ?_, ?_⟩
    · rw [List.foldl_cons, h₃, hwaiting]
      by_cases hc : c = id
      · subst hc
        simp [hid]
      · simp [hc]
    · have hsame : rest.filter (fun c => (s.settle id).waiting c - 1 = 0) =
          rest.filter fun c => s.waiting c - 1 = 0 := by
        refine List.filter_congr fun c hc => ?_
        rw [hwaiting, if_neg (by rintro rfl; exact hid hc)]
      rw [List.foldl_cons, h₄, hsame, queue_settle, List.append_assoc, ← List.filter_append]
      rfl

/-! ### The invariant -/

/-- The hosts of a component that are not in an order. -/
def missing (t : Topology) (order : List ComponentId) (id : ComponentId) : List ComponentId :=
  (t.targets id .hostedOn).filter fun host => host ∉ order

/-- What holds at every point of a sweep. -/
structure Inv (t : Topology) (s : Sweep) : Prop where
  size : s.pending.size = t.size
  nodup : (s.order ++ s.queue).Nodup
  lt : ∀ c ∈ s.order ++ s.queue, c < t.size
  waiting : ∀ c < t.size, s.waiting c = (missing t s.order c).length
  ready : ∀ c < t.size, (c ∈ s.order ++ s.queue ↔ s.waiting c = 0)
  /-- What is in the order comes after its hosts. -/
  hostsFirst : ∀ c ∈ s.order, ∀ host, t.HostedOn c host →
    host ∈ s.order ∧ s.order.idxOf host < s.order.idxOf c

/-- What enters the order is no longer missed by those that stand on it. -/
theorem length_missing_append {t : Topology} {order : List ComponentId} {id : ComponentId}
    (hid : id ∉ order) (c : ComponentId) :
    (missing t (order ++ [id]) c).length =
      if id ∈ t.targets c .hostedOn then (missing t order c).length - 1
      else (missing t order c).length := by
  have hnodup : (missing t order c).Nodup := (t.targets_nodup c _).filter _
  have herase : missing t (order ++ [id]) c = (missing t order c).erase id := by
    rw [hnodup.erase_eq_filter, missing, missing, List.filter_filter]
    refine List.filter_congr fun host _ => Bool.eq_iff_iff.mpr ?_
    simp [and_comm]
  have hmem : id ∈ missing t order c ↔ id ∈ t.targets c .hostedOn := by
    simp [missing, hid]
  rw [herase, List.length_erase]
  simp only [hmem]

theorem inv_start (t : Topology) : Inv t (.start t) where
  size := by simp [start, ids]
  nodup := List.nodup_range.filter _
  lt c hc := by simpa [start, ids] using (List.mem_filter.mp hc).1
  waiting c hc := by simp [start, Sweep.waiting, missing, ids, hc]
  ready c hc := by simp [start, Sweep.waiting, ids, hc]
  hostsFirst c hc := absurd hc (List.not_mem_nil)

section Advance
variable {t : Topology} {s : Sweep} {id : ComponentId} {rest : List ComponentId}

theorem Inv.not_mem_order (hi : Inv t s) (hq : s.queue = id :: rest) : id ∉ s.order := by
  have hnodup : (s.order ++ id :: rest).Nodup := hq ▸ hi.nodup
  exact fun h => (List.nodup_append.mp hnodup).2.2 id h id List.mem_cons_self rfl

/-- What is settled waits for what was taken. -/
theorem Inv.waiting_pos (ht : t.Built) (hi : Inv t s) (hq : s.queue = id :: rest) {c : ComponentId}
    (hc : c ∈ t.sources id .hostedOn) : 0 < s.waiting c := by
  have hhosted : t.HostedOn c id := mem_sources_hostedOn.mp hc
  have hmem : id ∈ missing t s.order c :=
    List.mem_filter.mpr ⟨mem_targets_hostedOn.mpr hhosted, by simpa using hi.not_mem_order hq⟩
  rw [hi.waiting c (ht.lt_of_hostedOn hhosted).1]
  exact List.length_pos_of_mem hmem

/-- What is taken waits for nothing, so its hosts are in the order. -/
theorem Inv.mem_order_of_taken (hi : Inv t s) (hq : s.queue = id :: rest) {host : ComponentId}
    (hhost : t.HostedOn id host) : host ∈ s.order := by
  have hid : id ∈ s.order ++ s.queue := by simp [hq]
  have hlt := hi.lt id hid
  have hzero : (missing t s.order id).length = 0 := by
    rw [← hi.waiting id hlt]
    exact (hi.ready id hlt).mp hid
  have hnone := List.filter_eq_nil_iff.mp (List.eq_nil_of_length_eq_zero hzero) host
    (mem_targets_hostedOn.mpr hhost)
  simpa using hnone

/-- What is taken comes after its hosts, and what was taken before it still does. -/
theorem Inv.hostsFirst_taken (hi : Inv t s) (hq : s.queue = id :: rest) {c host : ComponentId}
    (hc : c ∈ s.order ++ [id]) (hhost : t.HostedOn c host) : host ∈ s.order ++ [id] ∧
      (s.order ++ [id]).idxOf host < (s.order ++ [id]).idxOf c := by
  rcases List.mem_append.mp hc with hc | hc
  · obtain ⟨hm, hbefore⟩ := hi.hostsFirst c hc host hhost
    refine ⟨List.mem_append_left _ hm, ?_⟩
    rwa [List.idxOf_append_of_mem hm, List.idxOf_append_of_mem hc]
  · obtain rfl := List.mem_singleton.mp hc
    have hm := hi.mem_order_of_taken hq hhost
    refine ⟨List.mem_append_left _ hm, ?_⟩
    rw [List.idxOf_append_of_mem hm, List.idxOf_append_of_notMem (hi.not_mem_order hq)]
    exact Nat.lt_of_lt_of_le (List.idxOf_lt_length_of_mem hm) (Nat.le_add_right _ _)

/-- What is settled was neither queued nor done: all of that waits for nothing. -/
theorem Inv.not_mem_of_source (ht : t.Built) (hi : Inv t s) (hq : s.queue = id :: rest)
    {c : ComponentId} (hc : c ∈ t.sources id .hostedOn) : c ∉ s.order ++ id :: rest := by
  intro h
  have hzero := (hi.ready c (ht.lt_of_hostedOn (mem_sources_hostedOn.mp hc)).1).mp (hq ▸ h)
  exact absurd hzero (Nat.ne_of_gt (hi.waiting_pos ht hq hc))

/-- What taking the next component does. -/
theorem Inv.advance_eq (ht : t.Built) (hi : Inv t s) (hq : s.queue = id :: rest) :
    (s.advance t).pending.size = s.pending.size ∧
      (s.advance t).order = s.order ++ [id] ∧
      (∀ c, (s.advance t).waiting c =
        if c ∈ t.sources id .hostedOn then s.waiting c - 1 else s.waiting c) ∧
      (s.advance t).queue =
        rest ++ (t.sources id .hostedOn).filter fun c => s.waiting c - 1 = 0 := by
  have hadvance : s.advance t =
      (t.sources id .hostedOn).foldl settle { s with queue := rest, order := s.order ++ [id] } := by
    simp only [Sweep.advance, hq]
  rw [hadvance]
  refine foldl_settle (t.sources_nodup id _) _ fun c hc => ?_
  rw [show s.pending.size = _ from hi.size]
  exact (ht.lt_of_hostedOn (mem_sources_hostedOn.mp hc)).1

/-- Taking the next component keeps the invariant. -/
theorem Inv.advance (ht : t.Built) (hi : Inv t s) : Inv t (s.advance t) := by
  match hq : s.queue with
  | [] => simpa only [Sweep.advance, hq] using hi
  | id :: rest =>
    obtain ⟨hsize, horder, hwaiting, hqueue⟩ := hi.advance_eq ht hq
    have hnodup : (s.order ++ id :: rest).Nodup := hq ▸ hi.nodup
    have hready : ∀ c < t.size, (c ∈ s.order ++ id :: rest ↔ s.waiting c = 0) := hq ▸ hi.ready
    have hchildren : ∀ c ∈ t.sources id .hostedOn, c < t.size := fun c hc =>
      (ht.lt_of_hostedOn (mem_sources_hostedOn.mp hc)).1
    have hids : (s.advance t).order ++ (s.advance t).queue = (s.order ++ id :: rest) ++
        (t.sources id .hostedOn).filter fun c => s.waiting c - 1 = 0 := by
      rw [horder, hqueue]
      simp
    refine ⟨hsize.trans hi.size, ?nodup, ?lt, fun c hc => ?waiting, fun c hc => ?ready, ?hosts⟩
    case nodup =>
      rw [hids]
      refine List.nodup_append.mpr ⟨hnodup, (t.sources_nodup id _).filter _, fun a ha b hb => ?_⟩
      rintro rfl
      exact hi.not_mem_of_source ht hq (List.mem_filter.mp hb).1 ha
    case lt =>
      rw [hids]
      intro c hc
      rcases List.mem_append.mp hc with hc | hc
      · exact hi.lt c (hq ▸ hc)
      · exact hchildren c (List.mem_filter.mp hc).1
    case waiting =>
      have hsources : c ∈ t.sources id .hostedOn ↔ id ∈ t.targets c .hostedOn :=
        mem_sources_hostedOn.trans mem_targets_hostedOn.symm
      rw [hwaiting, horder, length_missing_append (hi.not_mem_order hq), hi.waiting c hc]
      simp only [hsources]
    case ready =>
      rw [hids, hwaiting, List.mem_append, List.mem_filter, hready c hc]
      by_cases h : c ∈ t.sources id .hostedOn
      · have := hi.waiting_pos ht hq h
        simp only [h, true_and, if_true, decide_eq_true_eq]
        omega
      · simp [h]
    case hosts =>
      rw [horder]
      exact fun c hc host hhost => hi.hostsFirst_taken hq hc hhost

theorem Inv.run (ht : t.Built) (n : Nat) (hi : Inv t s) : Inv t (Sweep.run t n s) := by
  induction n generalizing s with
  | zero => exact hi
  | succ n ih => exact ih (hi.advance ht)

/-- An empty queue stays empty. -/
theorem run_of_queue_eq_nil (hq : s.queue = []) (n : Nat) : Sweep.run t n s = s := by
  induction n with
  | zero => rfl
  | succ n ih =>
    have hstay : s.advance t = s := by simp only [Sweep.advance, hq]
    rw [Sweep.run, hstay, ih]

/-- As many steps as one likes: the queue is empty, or each step took a component. -/
theorem Inv.queue_run (ht : t.Built) (n : Nat) (hi : Inv t s) :
    (Sweep.run t n s).queue = [] ∨ (Sweep.run t n s).order.length = s.order.length + n := by
  induction n generalizing s with
  | zero => exact .inr rfl
  | succ n ih =>
    match hq : s.queue with
    | [] =>
      left
      rw [run_of_queue_eq_nil hq, hq]
    | id :: rest =>
      have horder := (hi.advance_eq ht hq).2.1
      rcases ih (hi.advance ht) with h | h
      · exact .inl h
      · right
        rw [Sweep.run, h, horder, List.length_append, List.length_singleton]
        omega

end Advance

/-! ### The end of the sweep -/

/-- The sweep when it has come to its end. -/
def finished (t : Topology) : Sweep := Sweep.run t t.size (.start t)

theorem inv_finished {t : Topology} (ht : t.Built) : Inv t (finished t) :=
  (inv_start t).run ht t.size

theorem Inv.subperm {t : Topology} {s : Sweep} (hi : Inv t s) :
    (s.order ++ s.queue).Subperm t.ids :=
  hi.nodup.subperm fun c hc => mem_ids.mpr (hi.lt c hc)

/-- There are steps enough for every component to be taken. -/
theorem queue_finished {t : Topology} (ht : t.Built) : (finished t).queue = [] := by
  rcases (inv_start t).queue_run ht t.size with h | h
  · exact h
  · have hle := (inv_finished ht).subperm.length_le
    have hlength : (finished t).order.length = t.size := h.trans (Nat.zero_add _)
    rw [List.length_append, hlength, ids, List.length_range] at hle
    exact List.eq_nil_of_length_eq_zero (by omega)

theorem mem_order_finished {t : Topology} (ht : t.Built) {c : ComponentId} (hc : c < t.size) :
    c ∈ (finished t).order ↔ (finished t).waiting c = 0 := by
  have hready := (inv_finished ht).ready c hc
  rwa [queue_finished ht, List.append_nil] at hready

/-- Nothing that is reached stands, in the end, on itself. -/
theorem Inv.idxOf_lt {t : Topology} {s : Sweep} (hi : Inv t s) {c d : ComponentId}
    (hc : c ∈ s.order) (h : Relation.TransGen t.HostedOn c d) :
    d ∈ s.order ∧ s.order.idxOf d < s.order.idxOf c := by
  induction h with
  | single h => exact hi.hostsFirst c hc _ h
  | tail _ h ih =>
    obtain ⟨hm, hlt⟩ := hi.hostsFirst _ ih.1 _ h
    exact ⟨hm, hlt.trans ih.2⟩

/-- What is left behind is what leads into a circle. -/
theorem not_mem_order_iff {t : Topology} (ht : t.Built) {c : ComponentId} (hc : c < t.size) :
    c ∉ (finished t).order ↔ t.LeadsIntoCircle c := by
  have hi := inv_finished ht
  constructor
  · intro hleft
    refine exists_circle (p := fun c => c < t.size ∧ c ∉ (finished t).order) (fun _ h => h.1)
      (fun c hc => ?_) ⟨hc, hleft⟩
    have hpos : 0 < (missing t (finished t).order c).length := by
      rw [← hi.waiting c hc.1]
      exact Nat.pos_of_ne_zero fun h => hc.2 ((mem_order_finished ht hc.1).mpr h)
    obtain ⟨host, hhost⟩ := List.exists_mem_of_length_pos hpos
    obtain ⟨htarget, hmissing⟩ := List.mem_filter.mp hhost
    have hhosted := mem_targets_hostedOn.mp htarget
    exact ⟨host, ⟨(ht.lt_of_hostedOn hhosted).2, by simpa using hmissing⟩, hhosted⟩
  · rintro ⟨d, hcd, hdd⟩ hm
    have hd : d ∈ (finished t).order := by
      rcases Relation.reflTransGen_iff_eq_or_transGen.mp hcd with rfl | h
      · exact hm
      · exact (hi.idxOf_lt hm h).1
    exact Nat.lt_irrefl _ (hi.idxOf_lt hd hdd).2

/-! ### The order -/

/-- Every component that a sweep settles still waits for a host. -/
def SettlesWaiting (t : Topology) (s : Sweep) : Prop :=
  ∀ id rest before c after, s.queue = id :: rest → t.sources id .hostedOn = before ++ c :: after →
    0 < (before.foldl settle { s with queue := rest, order := s.order ++ [id] }).waiting c

theorem Inv.settlesWaiting {t : Topology} {s : Sweep} (ht : t.Built) (hi : Inv t s) :
    SettlesWaiting t s := by
  intro id rest before c after hq hsources
  have hnodup : (before ++ c :: after).Nodup := hsources ▸ t.sources_nodup id .hostedOn
  have hlt : ∀ d ∈ before, d < s.pending.size := by
    intro d hd
    have hd : d ∈ t.sources id .hostedOn := hsources ▸ List.mem_append_left _ hd
    rw [hi.size]
    exact (ht.lt_of_hostedOn (mem_sources_hostedOn.mp hd)).1
  have hc : c ∉ before := fun h =>
    (List.nodup_append.mp hnodup).2.2 c h c List.mem_cons_self rfl
  rw [(foldl_settle (List.nodup_append.mp hnodup).1
    { s with queue := rest, order := s.order ++ [id] } hlt).2.2.1, if_neg hc]
  exact hi.waiting_pos ht hq (hsources ▸ by simp)

end Sweep

open Sweep

theorem hostingOrder_eq (t : Topology) :
    t.hostingOrder =
      if (finished t).order.length < t.size then
        .error (.hostingCycle
          ((((finished t).stuck? t).map fun id => (t.component id).name).getD ""))
      else .ok (finished t).order :=
  rfl

/-- The order that is found is the one that the sweep ends with. -/
theorem hostingOrder_eq_ok {t : Topology} {order : List ComponentId}
    (h : t.hostingOrder = .ok order) : order = (finished t).order ∧ t.size ≤ order.length := by
  rw [hostingOrder_eq] at h
  split at h
  case isTrue => contradiction
  case isFalse hle =>
    cases h
    exact ⟨rfl, Nat.le_of_not_lt hle⟩

theorem hostingOrder_perm {t : Topology} (ht : t.Built) {order : List ComponentId}
    (h : t.hostingOrder = .ok order) : order.Perm t.ids := by
  obtain ⟨rfl, hle⟩ := hostingOrder_eq_ok h
  have hsub := (inv_finished ht).subperm
  rw [queue_finished ht, List.append_nil] at hsub
  exact hsub.perm_of_length_le (by rwa [ids, List.length_range])

/-- Hosts come before what they host. -/
theorem hostingOrder_hostsFirst {t : Topology} (ht : t.Built) {order : List ComponentId}
    (h : t.hostingOrder = .ok order) {id host : ComponentId} (hh : t.HostedOn id host) :
    order.idxOf host < order.idxOf id := by
  have hid : id ∈ order :=
    (hostingOrder_perm ht h).mem_iff.mpr (mem_ids.mpr (ht.lt_of_hostedOn hh).1)
  obtain ⟨rfl, _⟩ := hostingOrder_eq_ok h
  exact ((inv_finished ht).hostsFirst id hid host hh).2

theorem hostingOrder_eq_error {t : Topology} (ht : t.Built) {f : Fault}
    (h : t.hostingOrder = .error f) :
    ∃ c, f = .hostingCycle (t.component c).name ∧
      IsLeast {c | c < t.size ∧ t.LeadsIntoCircle c} c := by
  have hi := inv_finished ht
  obtain ⟨hlt, hf⟩ : (finished t).order.length < t.size ∧
      f = .hostingCycle
        ((((finished t).stuck? t).map fun id => (t.component id).name).getD "") := by
    rw [hostingOrder_eq] at h
    split at h
    case isTrue hlt => exact ⟨hlt, (Except.error.inj h).symm⟩
    case isFalse => contradiction
  have hwaits {c : ComponentId} (hc : c < t.size) :
      0 < (finished t).waiting c ↔ t.LeadsIntoCircle c := by
    rw [← not_mem_order_iff ht hc, mem_order_finished ht hc, Nat.pos_iff_ne_zero]
  cases hstuck : (finished t).stuck? t with
  | none =>
    -- Then every component is in the order, which is as long as there are components.
    have hall : t.ids ⊆ (finished t).order := fun c hc => by
      have hnone := List.find?_eq_none.mp hstuck c hc
      rw [mem_order_finished ht (mem_ids.mp hc)]
      simpa [Sweep.waiting] using hnone
    have hle := (List.nodup_range.subperm hall).length_le
    rw [List.length_range] at hle
    omega
  | some c =>
    obtain ⟨hpos, hc, hfirst⟩ := List.find?_range_eq_some.mp hstuck
    have hc : c < t.size := List.mem_range.mp hc
    refine ⟨c, by rw [hf, hstuck]; rfl, ⟨hc, (hwaits hc).mp (of_decide_eq_true hpos)⟩, ?_⟩
    rintro d ⟨hd, hcircle⟩
    by_contra hlt
    have hnot := hfirst d (Nat.lt_of_not_le hlt)
    have hpos := (hwaits hd).mpr hcircle
    simp [Sweep.waiting] at hnot hpos
    omega

/-- **The hosting order exists exactly if no component stands, in the end, on itself.** It has
every component once and hosts before what they host. Otherwise the fault names the first
component that leads into a circle. The sweep never settles what waits for nothing, and it
comes to its end. -/
theorem hostingOrder_spec {t : Topology} (ht : t.Built) :
    ((∃ order, t.hostingOrder = .ok order) ↔ ∀ c, ¬ Relation.TransGen t.HostedOn c c) ∧
      (∀ order, t.hostingOrder = .ok order → order.Perm t.ids ∧
        ∀ id host, t.HostedOn id host → order.idxOf host < order.idxOf id) ∧
      (∀ f, t.hostingOrder = .error f → ∃ c, f = .hostingCycle (t.component c).name ∧
        IsLeast {c | c < t.size ∧ t.LeadsIntoCircle c} c) ∧
      (∀ n, SettlesWaiting t (Sweep.run t n (.start t))) ∧
      (Sweep.run t t.size (.start t)).queue = [] := by
  refine ⟨⟨?_, fun hnone => ?_⟩, fun order h => ⟨hostingOrder_perm ht h, fun id host =>
    hostingOrder_hostsFirst ht h⟩, fun f h => hostingOrder_eq_error ht h,
    fun n => ((inv_start t).run ht n).settlesWaiting ht, queue_finished ht⟩
  · rintro ⟨order, h⟩ c hcircle
    obtain ⟨host, hhost, _⟩ := Relation.TransGen.head'_iff.mp hcircle
    have hc : c ∈ order :=
      (hostingOrder_perm ht h).mem_iff.mpr (mem_ids.mpr (ht.lt_of_hostedOn hhost).1)
    obtain ⟨rfl, _⟩ := hostingOrder_eq_ok h
    exact Nat.lt_irrefl _ ((inv_finished ht).idxOf_lt hc hcircle).2
  · cases h : t.hostingOrder with
    | ok order => exact ⟨order, rfl⟩
    | error f =>
      obtain ⟨c, _, ⟨_, d, _, hcircle⟩, _⟩ := hostingOrder_eq_error ht h
      exact absurd hcircle (hnone d)

/-- A database on a machine, declared twice, and an application on both. -/
def stacked : Topology :=
  let hostedOn : Relation := { name := "hosted_on", kind := .hostedOn, source := "", target := "" }
  let t := (Topology.empty.addComponent { name := "app" }).2
  let t := (t.addComponent { name := "db" }).2
  let t := (t.addComponent { name := "vm" }).2
  let t := (t.addRelation 1 2 hostedOn).2
  let t := (t.addRelation 1 2 hostedOn).2
  let t := (t.addRelation 0 2 hostedOn).2
  (t.addRelation 0 1 hostedOn).2

theorem built_stacked : stacked.Built := by
  refine .relation _ (.relation _ (.relation _ (.relation _ (.component _ (.component _
    (.component _ .empty))) ?_ ?_) ?_ ?_) ?_ ?_) ?_ ?_ <;> decide +kernel

theorem hostingOrder_spec_stacked :
    stacked.Built ∧ stacked.hostingOrder = .ok [2, 1, 0] ∧
      ∀ c, ¬ Relation.TransGen stacked.HostedOn c c := by
  have horder : stacked.hostingOrder = .ok [2, 1, 0] := by decide +kernel
  exact ⟨built_stacked, horder, (hostingOrder_spec built_stacked).1.mp ⟨_, horder⟩⟩

end Provision.Topology
