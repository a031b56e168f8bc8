import Provision.Proofs.Model.Build
import Provision.Proofs.Topology.Placement

/-! The stack on a host.

With one host each, components form a forest. Three walks go through it: the sweep over all
components, the descent from a host to what stands on it, and the climb from a component to
its hosts. The sweep and the descent list components level by level: each list is what it
starts with, followed by what stands directly on its own elements. Such a list is determined
by its start, so the stack on a host is exactly what the hosting order has of the components
that stand on the host, and the climb tells which ones these are. -/
namespace Provision.Topology

/-! ### Level by level -/

/-- A list that is some start, followed by the successors of its own elements, is determined by
the start, if successors fall in some rank. -/
theorem eq_of_levels {α : Type} {successors : α → List α} {rank : α → Nat}
    (hrank : ∀ a, ∀ b ∈ successors a, rank b < rank a) {start xs ys : List α}
    (hxs : xs = start ++ xs.flatMap successors) (hys : ys = start ++ ys.flatMap successors)
    {n : Nat} (hxn : ∀ a ∈ xs, rank a < n) (hyn : ∀ a ∈ ys, rank a < n) : xs = ys := by
  -- What follows the start is such a list again, and of a lower rank.
  induction n generalizing start xs ys with
  | zero =>
    have hnone (l : List α) (hl : ∀ a ∈ l, rank a < 0) : l = [] :=
      List.eq_nil_iff_forall_not_mem.mpr fun a ha => Nat.not_lt_zero _ (hl a ha)
    rw [hnone xs hxn, hnone ys hyn]
  | succ n ih =>
    have hagain (l : List α) (hl : l = start ++ l.flatMap successors) : l.flatMap successors =
        start.flatMap successors ++ (l.flatMap successors).flatMap successors := by
      rw [← List.flatMap_append, ← hl]
    have hlower (l : List α) (hl : ∀ a ∈ l, rank a < n + 1) :
        ∀ b ∈ l.flatMap successors, rank b < n := by
      intro b hb
      obtain ⟨a, ha, hab⟩ := List.mem_flatMap.mp hb
      have hfalls := hrank a b hab
      have hbound := hl a ha
      omega
    have hsame : xs.flatMap successors = ys.flatMap successors := by
      apply ih (hagain xs hxs) (hagain ys hys)
      · exact hlower xs hxn
      · exact hlower ys hyn
    rw [hxs, hys, hsame]

/-! ### One host each -/

/-- No component declares two hosts. -/
def SingleHosted (t : Topology) : Prop :=
  ∀ id < t.size, ((t.outgoing id).filter fun e => e.isA .hostedOn).length ≤ 1

section
variable {t : Topology}

/-- The one host of a component is the one that a climb goes to. -/
theorem SingleHosted.hostOf?_eq_some (hsingle : t.SingleHosted) (ht : t.Built)
    {id host : ComponentId} : t.hostOf? id = some host ↔ t.HostedOn id host := by
  refine ⟨hostedOn_of_hostOf?, fun hhost => ?_⟩
  obtain ⟨e, he, rfl, rfl, hkind⟩ := hhost
  have hmem : e ∈ (t.outgoing e.source).filter fun e => e.isA .hostedOn := by
    simp [outgoing, he, hkind]
  have hlength := hsingle e.source (ht.ends_lt e he).1
  rw [hostOf?, ← List.head?_filter]
  rcases hall : (t.outgoing e.source).filter fun e => e.isA .hostedOn with _ | ⟨only, _ | _⟩
  · simp [hall] at hmem
  · rw [hall, List.mem_singleton] at hmem
    rw [hall, hmem]
    rfl
  · rw [hall] at hlength
    simp at hlength

theorem SingleHosted.unique (hsingle : t.SingleHosted) (ht : t.Built)
    {id host host' : ComponentId} (h : t.HostedOn id host) (h' : t.HostedOn id host') :
    host = host' :=
  Option.some.inj
    (((hsingle.hostOf?_eq_some ht).mpr h).symm.trans ((hsingle.hostOf?_eq_some ht).mpr h'))

theorem SingleHosted.length_targets (hsingle : t.SingleHosted) (ht : t.Built) (id : ComponentId) :
    (t.targets id .hostedOn).length ≤ 1 := by
  match htargets : t.targets id .hostedOn with
  | [] => simp
  | host :: rest =>
    have hall : t.targets id .hostedOn ⊆ [host] := fun other hother =>
      List.mem_singleton.mpr <| hsingle.unique ht (mem_targets_hostedOn.mp hother)
        (mem_targets_hostedOn.mp (htargets ▸ List.mem_cons_self))
    rw [← htargets]
    exact ((t.targets_nodup id .hostedOn).subperm hall).length_le

/-- What stands directly on different components is different. -/
theorem SingleHosted.nodup_flatMap_sources (hsingle : t.SingleHosted) (ht : t.Built)
    {l : List ComponentId} (hl : l.Nodup) : (l.flatMap fun id => t.sources id .hostedOn).Nodup := by
  refine List.nodup_flatMap.mpr ⟨fun id _ => t.sources_nodup id .hostedOn, hl.imp ?_⟩
  intro a b hab c hca hcb
  exact hab (hsingle.unique ht (mem_sources_hostedOn.mp hca) (mem_sources_hostedOn.mp hcb))

end

/-! ### The sweep -/

namespace Sweep

/-- What is in the order or queued: what waited for nothing in the beginning, and then what stands
directly on the components in the order. -/
def Levels (t : Topology) (s : Sweep) : Prop :=
  s.order ++ s.queue =
    (start t).queue ++ s.order.flatMap fun id => t.sources id .hostedOn

section
variable {t : Topology} {s : Sweep}

/-- With one host each, whatever stands on a component is ready once that is taken. -/
theorem Inv.levels_advance (ht : t.Built) (hsingle : t.SingleHosted) (hi : Inv t s)
    (h : Levels t s) : Levels t (s.advance t) := by
  match hq : s.queue with
  | [] => simpa only [Sweep.advance, hq] using h
  | id :: rest =>
    obtain ⟨_, horder, _, hqueue⟩ := hi.advance_eq ht hq
    have hready : (t.sources id .hostedOn).filter (fun c => s.waiting c - 1 = 0) =
        t.sources id .hostedOn := by
      refine List.filter_eq_self.mpr fun c hc => ?_
      have hwaiting := hi.waiting c (ht.lt_of_hostedOn (mem_sources_hostedOn.mp hc)).1
      have hmissing := List.length_filter_le (fun host => host ∉ s.order) (t.targets c .hostedOn)
      have hone := hsingle.length_targets ht c
      rw [missing] at hwaiting
      simp
      omega
    unfold Levels at h ⊢
    rw [hq] at h
    rw [horder, hqueue, hready, List.flatMap_append, List.flatMap_singleton, ← List.append_assoc,
      ← List.append_assoc, ← h]
    simp

theorem Inv.levels_run (ht : t.Built) (hsingle : t.SingleHosted) (n : Nat) (hi : Inv t s)
    (h : Levels t s) : Levels t (Sweep.run t n s) := by
  induction n generalizing s with
  | zero => exact h
  | succ n ih => exact ih (hi.advance ht) (hi.levels_advance ht hsingle h)

end

end Sweep

section
variable {t : Topology} {order : List ComponentId}

/-- The hosting order goes level by level, beginning with what has no host. -/
theorem hostingOrder_levels (ht : t.Built) (hsingle : t.SingleHosted)
    (horder : t.hostingOrder = .ok order) :
    order = (Sweep.start t).queue ++ order.flatMap fun id => t.sources id .hostedOn := by
  obtain ⟨rfl, _⟩ := hostingOrder_eq_ok horder
  have hlevels := (Sweep.inv_start t).levels_run ht hsingle t.size (List.append_nil _).symm
  rwa [Sweep.Levels, ← Sweep.finished, Sweep.queue_finished ht, List.append_nil] at hlevels

end

/-! ### The descent -/

namespace Descent

/-- Components that were not met yet are all noted, in order. -/
theorem foldl_meet {host : ComponentId} {l : List ComponentId} {d : Descent}
    (h : (host :: (d.found ++ l)).Nodup) :
    l.foldl (Descent.meet host) d = ⟨d.found ++ l, d.queue ++ l⟩ := by
  induction l generalizing d with
  | nil => simp
  | cons id rest ih =>
    have hmeet : Descent.meet host d id = ⟨d.found ++ [id], d.queue ++ [id]⟩ := by
      have hnew : id ≠ host ∧ id ∉ d.found := by grind
      simp [Descent.meet, hnew]
    rw [List.foldl_cons, hmeet, ih (by simpa using h)]
    simp

/-- What holds at every point of a descent that has looked at some components: they are what was
found first, and what stands directly on them is what was found. -/
structure Inv (t : Topology) (order : List ComponentId) (host : ComponentId)
    (looked : List ComponentId) (d : Descent) : Prop where
  split : looked ++ d.queue = host :: d.found
  found : d.found = looked.flatMap fun id => t.sources id .hostedOn
  nodup : (host :: d.found).Nodup
  after : ∀ c ∈ d.found, c < t.size ∧ order.idxOf host < order.idxOf c

theorem inv_start (t : Topology) (order : List ComponentId) (host : ComponentId) :
    Inv t order host [] { queue := [host] } where
  split := rfl
  found := rfl
  nodup := List.nodup_singleton host
  after _ hc := absurd hc List.not_mem_nil

section
variable {t : Topology} {order looked rest : List ComponentId} {host id : ComponentId}
variable {d : Descent}

/-- What is looked at is the host, or comes after it. -/
theorem Inv.idxOf_le (hi : Inv t order host looked d) (hq : d.queue = id :: rest) :
    order.idxOf host ≤ order.idxOf id := by
  have hid : id ∈ host :: d.found := by
    rw [← hi.split, hq]
    simp
  rcases List.mem_cons.mp hid with rfl | hid
  · exact Nat.le_refl _
  · exact Nat.le_of_lt (hi.after id hid).2

/-- Looking at the next component finds all that stands directly on it. -/
theorem Inv.next (ht : t.Built) (hsingle : t.SingleHosted) (horder : t.hostingOrder = .ok order)
    (hi : Inv t order host looked d) (hq : d.queue = id :: rest) :
    Inv t order host (looked ++ [id])
      ⟨d.found ++ t.sources id .hostedOn, rest ++ t.sources id .hostedOn⟩ := by
  have hsplit : looked ++ id :: rest = host :: d.found := hq ▸ hi.split
  have hfound : d.found ++ t.sources id .hostedOn =
      (looked ++ [id]).flatMap fun id => t.sources id .hostedOn := by
    rw [List.flatMap_append, List.flatMap_singleton, ← hi.found]
  have hafter : ∀ c ∈ t.sources id .hostedOn, c < t.size ∧ order.idxOf host < order.idxOf c := by
    intro c hc
    have hhosted := mem_sources_hostedOn.mp hc
    have hbefore := hostingOrder_hostsFirst ht horder hhosted
    exact ⟨(ht.lt_of_hostedOn hhosted).1, Nat.lt_of_le_of_lt (hi.idxOf_le hq) hbefore⟩
  have hlooked : (looked ++ [id]).Nodup := by
    have hnodup : (looked ++ id :: rest).Nodup := hsplit ▸ hi.nodup
    rw [List.append_cons] at hnodup
    exact (List.nodup_append.mp hnodup).1
  refine ⟨?_, hfound, ?_, ?_⟩
  · rw [← List.cons_append, ← hsplit]
    simp
  · refine List.nodup_cons.mpr ⟨fun hhost => ?_, ?_⟩
    · rcases List.mem_append.mp hhost with hhost | hhost
      · exact (List.nodup_cons.mp hi.nodup).1 hhost
      · exact Nat.lt_irrefl _ (hafter host hhost).2
    · rw [hfound]
      exact hsingle.nodup_flatMap_sources ht hlooked
  · intro c hc
    rcases List.mem_append.mp hc with hc | hc
    · exact hi.after c hc
    · exact hafter c hc

/-- As many steps as one likes: the queue is empty, or each step looked at a component. -/
theorem Inv.descend (ht : t.Built) (hsingle : t.SingleHosted)
    (horder : t.hostingOrder = .ok order) (n : Nat) (hi : Inv t order host looked d) :
    ∃ looked', Inv t order host looked' (t.descend host n d) ∧
      ((t.descend host n d).queue = [] ∨ looked'.length = looked.length + n) := by
  induction n generalizing looked d with
  | zero => exact ⟨looked, hi, .inr rfl⟩
  | succ n ih =>
    match hq : d.queue with
    | [] =>
      have hstay : t.descend host (n + 1) d = d := by simp only [Topology.descend, hq]
      exact ⟨looked, by rwa [hstay], .inl (by rw [hstay, hq])⟩
    | id :: rest =>
      have hnext := hi.next ht hsingle horder hq
      have hstep : t.descend host (n + 1) d = t.descend host n
          ⟨d.found ++ t.sources id .hostedOn, rest ++ t.sources id .hostedOn⟩ := by
        have hmeet := foldl_meet (l := t.sources id .hostedOn) (d := ⟨d.found, rest⟩) hnext.nodup
        simp only [Topology.descend, hq, hmeet]
      rw [hstep]
      obtain ⟨looked', hi', hend⟩ := ih hnext
      refine ⟨looked', hi', hend.imp_right fun hlength => ?_⟩
      rw [hlength, List.length_append, List.length_singleton]
      omega

end

end Descent

section
variable {t : Topology} {order : List ComponentId}

/-- The stack on a host goes level by level, beginning with what stands directly on the host. -/
theorem stackOn_levels (ht : t.Built) (hsingle : t.SingleHosted)
    (horder : t.hostingOrder = .ok order) (host : ComponentId) :
    t.stackOn host = t.sources host .hostedOn ++
      (t.stackOn host).flatMap fun id => t.sources id .hostedOn := by
  obtain ⟨looked, hi, hend⟩ :=
    (Descent.inv_start t order host).descend ht hsingle horder (t.size + 1)
  have hempty : (t.descend host (t.size + 1) { queue := [host] }).queue = [] := by
    rcases hend with hempty | hlength
    · exact hempty
    · -- There are no more components to look at than the host and all others.
      have hall : host :: (t.descend host (t.size + 1) { queue := [host] }).found ⊆
          host :: t.ids :=
        List.cons_subset_cons host fun c hc => mem_ids.mpr (hi.after c hc).1
      have hle := (hi.nodup.subperm hall).length_le
      rw [← hi.split, List.length_append, hlength, List.length_cons, ids, List.length_range,
        List.length_nil] at hle
      exact List.eq_nil_of_length_eq_zero (by omega)
  have hlooked := hi.split
  rw [hempty, List.append_nil] at hlooked
  have hfound := hi.found
  rwa [hlooked, List.flatMap_cons] at hfound

end

/-! ### The climb -/

section
variable {t : Topology} {order : List ComponentId}

/-- What a component stands on is its host or what that stands on. -/
theorem SingleHosted.transGen_iff (hsingle : t.SingleHosted) (ht : t.Built)
    {id other : ComponentId} : Relation.TransGen t.HostedOn id other ↔
      ∃ host, t.hostOf? id = some host ∧
        (other = host ∨ Relation.TransGen t.HostedOn host other) := by
  rw [Relation.TransGen.head'_iff]
  refine exists_congr fun host => and_congr (hsingle.hostOf?_eq_some ht).symm ?_
  rw [Relation.reflTransGen_iff_eq_or_transGen]

/-- A climb meets everything that a component stands on. -/
theorem mem_hostsFrom (ht : t.Built) (hsingle : t.SingleHosted)
    (horder : t.hostingOrder = .ok order) {visited : List ComponentId} {room : Nat}
    {id : ComponentId} (hroom : order.idxOf id ≤ room)
    (hvisited : ∀ v ∈ visited, order.idxOf id ≤ order.idxOf v) (other : ComponentId) :
    other ∈ t.hostsFrom visited room id ↔ Relation.TransGen t.HostedOn id other := by
  induction room generalizing visited id with
  | zero =>
    refine ⟨fun hmem => absurd hmem List.not_mem_nil, fun hreach => ?_⟩
    have := idxOf_lt_of_transGen ht horder hreach
    omega
  | succ room ih =>
    rw [hsingle.transGen_iff ht]
    cases hhost : t.hostOf? id with
    | none => simp [hostsFrom, hhost]
    | some host =>
      have hbefore := hostingOrder_hostsFirst ht horder (hostedOn_of_hostOf? hhost)
      have hnew : host ∉ visited := fun hmem => by
        have := hvisited host hmem
        omega
      have habove : ∀ v ∈ host :: visited, order.idxOf host ≤ order.idxOf v := by
        intro v hv
        rcases List.mem_cons.mp hv with rfl | hv
        · exact Nat.le_refl _
        · have := hvisited v hv
          omega
      simp [hostsFrom, hhost, hnew, ih (by omega) habove]

/-- The hosts above a component are all that it stands on. -/
theorem mem_hostsAbove (ht : t.Built) (hsingle : t.SingleHosted)
    (horder : t.hostingOrder = .ok order) {id host : ComponentId} :
    host ∈ t.hostsAbove id ↔ Relation.TransGen t.HostedOn id host := by
  have hroom : order.idxOf id ≤ t.size := by
    have hlength := (hostingOrder_perm ht horder).length_eq
    rw [ids, List.length_range] at hlength
    exact hlength ▸ List.idxOf_le_length
  apply mem_hostsFrom ht hsingle horder hroom
  intro v hv
  rw [List.mem_singleton.mp hv]

/-- A climb meets the farther hosts later, and the order has them earlier. -/
theorem hostsFrom_pairwise (ht : t.Built) (horder : t.hostingOrder = .ok order)
    (visited : List ComponentId) (room : Nat) (id : ComponentId) :
    (t.hostsFrom visited room id).Pairwise (fun a b => order.idxOf b < order.idxOf a) ∧
      ∀ host ∈ t.hostsFrom visited room id, order.idxOf host < order.idxOf id := by
  induction room generalizing visited id with
  | zero => simp [hostsFrom]
  | succ room ih =>
    cases hhost : t.hostOf? id with
    | none => simp [hostsFrom, hhost]
    | some host =>
      by_cases hseen : host ∈ visited
      · simp [hostsFrom, hhost, hseen]
      · have hbefore := hostingOrder_hostsFirst ht horder (hostedOn_of_hostOf? hhost)
        obtain ⟨hfalling, hbelow⟩ := ih (host :: visited) host
        simp only [hostsFrom, hhost, if_neg hseen, List.pairwise_cons, List.forall_mem_cons]
        exact ⟨⟨hbelow, hfalling⟩, hbefore, fun other hother =>
          Nat.lt_trans (hbelow other hother) hbefore⟩

/-! ### The compute of a component -/

/-- A climb stops at the first compute among the component and its hosts. If there is none, it
leads nowhere where the last of them has no host, and else it has come back. -/
theorem climb_eq {start id : ComponentId} {visited : List ComponentId} {room : Nat}
    (hid : id ∉ visited) (hvisited : ∀ v ∈ visited, (t.component v).isA .compute = false) :
    t.climb start visited room id =
      match (id :: t.hostsFrom (id :: visited) room id).find?
          (fun other => (t.component other).isA .compute) with
      | some c => .ok (some c)
      | none =>
        if t.hostOf? ((t.hostsFrom (id :: visited) room id).getLastD id) = none then .ok none
        else .error (.hostingCycle (t.component start).name) := by
  induction room generalizing visited id with
  | zero =>
    cases hcompute : (t.component id).isA .compute with
    | true => simp [climb_of_compute hcompute, hcompute]
    | false =>
      cases hhost : t.hostOf? id with
      | none => simp [climb_of_end hcompute hid hhost, hostsFrom, hcompute, hhost]
      | some host => simp [climb_zero hcompute hhost, hostsFrom, hcompute, hhost]
  | succ room ih =>
    cases hcompute : (t.component id).isA .compute with
    | true => simp [climb_of_compute hcompute, hcompute]
    | false =>
      have hseen : ∀ v ∈ id :: visited, (t.component v).isA .compute = false :=
        List.forall_mem_cons.mpr ⟨hcompute, hvisited⟩
      cases hhost : t.hostOf? id with
      | none => simp [climb_of_end hcompute hid hhost, hostsFrom, hcompute, hhost]
      | some host =>
        rw [climb_succ hcompute hid hhost]
        by_cases hnew : host ∈ id :: visited
        · -- Where the climb comes back there is no compute.
          have hnone : t.hostsFrom (id :: visited) (room + 1) id = [] := by
            rw [hostsFrom, hhost]
            exact if_pos hnew
          simp [climb_of_visited (hseen host hnew) hnew, hnone, hcompute, hhost]
        · have hrest : t.hostsFrom (id :: visited) (room + 1) id =
              host :: t.hostsFrom (host :: id :: visited) room host := by
            rw [hostsFrom, hhost]
            exact if_neg hnew
          rw [ih hnew hseen, hrest, List.getLastD_cons,
            List.find?_cons_of_neg (a := id) (by simp [hcompute])]

/-- A climb that leads to a compute stops at the first one among the component and its hosts. -/
theorem climb_eq_some_iff {start id c : ComponentId} {visited : List ComponentId} {room : Nat}
    (hid : id ∉ visited)
    (hvisited : ∀ v ∈ visited, (t.component v).isA .compute = false) :
    t.climb start visited room id = .ok (some c) ↔
      (id :: t.hostsFrom (id :: visited) room id).find?
        (fun other => (t.component other).isA .compute) = some c := by
  rw [climb_eq hid hvisited]
  split
  case h_1 _ first hfound => rw [hfound, Except.ok.injEq]
  case h_2 _ hnone =>
    rw [hnone]
    split <;> simp

theorem computeOf_eq_some_iff {id c : ComponentId} :
    t.computeOf id = .ok (some c) ↔
      (id :: t.hostsAbove id).find? (fun other => (t.component other).isA .compute) = some c :=
  climb_eq_some_iff List.not_mem_nil fun _ hv => absurd hv List.not_mem_nil

/-- No compute stands between a component and the compute that it runs on. -/
theorem not_transGen_of_computeOf (ht : t.Built) (hsingle : t.SingleHosted)
    (horder : t.hostingOrder = .ok order) {id c other : ComponentId}
    (h : t.computeOf id = .ok (some c)) (hcompute : (t.component other).isA .compute)
    (hreach : Relation.ReflTransGen t.HostedOn id other) :
    ¬ Relation.TransGen t.HostedOn other c := by
  intro habove
  have hlt := idxOf_lt_of_transGen ht horder habove
  obtain ⟨_, nearer, farther, hsplit, hnone⟩ :=
    List.find?_eq_some_iff_append.mp (computeOf_eq_some_iff.mp h)
  have hfalling : (id :: t.hostsAbove id).Pairwise fun a b => order.idxOf b < order.idxOf a := by
    obtain ⟨hpairwise, hbelow⟩ := hostsFrom_pairwise ht horder [id] t.size id
    exact List.pairwise_cons.mpr ⟨hbelow, hpairwise⟩
  have hother : other ∈ id :: t.hostsAbove id := by
    rw [List.mem_cons, mem_hostsAbove ht hsingle horder]
    exact Relation.reflTransGen_iff_eq_or_transGen.mp hreach
  rw [hsplit] at hother hfalling
  rcases List.mem_append.mp hother with hother | hother
  · have hnot := hnone other hother
    simp [hcompute] at hnot
  · rcases List.mem_cons.mp hother with rfl | hother
    · exact Nat.lt_irrefl _ hlt
    · have hrest := (List.pairwise_append.mp hfalling).2.1
      exact Nat.lt_asymm hlt ((List.pairwise_cons.mp hrest).1 other hother)

/-- What stands on a compute runs on that one, or on one that stands on it. -/
theorem exists_computeOf (ht : t.Built) (hsingle : t.SingleHosted)
    (horder : t.hostingOrder = .ok order) {id c : ComponentId}
    (hcompute : (t.component c).isA .compute) (hreach : Relation.TransGen t.HostedOn id c) :
    ∃ first, t.computeOf id = .ok (some first) ∧ Relation.ReflTransGen t.HostedOn first c := by
  have hmem : c ∈ id :: t.hostsAbove id :=
    List.mem_cons_of_mem _ ((mem_hostsAbove ht hsingle horder).mpr hreach)
  have hsome : ((id :: t.hostsAbove id).find? fun x => (t.component x).isA .compute).isSome :=
    List.find?_isSome.mpr ⟨c, hmem, hcompute⟩
  obtain ⟨first, hfound⟩ := Option.isSome_iff_exists.mp hsome
  have hof := computeOf_eq_some_iff.mpr hfound
  have hunique : Relator.RightUnique t.HostedOn := fun _ _ _ => hsingle.unique ht
  rcases Relation.ReflTransGen.total_of_right_unique hunique (computeOf_eq_some hof).2
    hreach.to_reflTransGen with h | h
  · exact ⟨first, hof, h⟩
  · rcases Relation.reflTransGen_iff_eq_or_transGen.mp h with rfl | h
    · exact ⟨first, hof, .refl⟩
    · exact absurd h
        (not_transGen_of_computeOf ht hsingle horder hof hcompute hreach.to_reflTransGen)

/-! ### The three walks -/

theorem flatMap_filter {α β : Type} (l : List α) (p : α → Bool) (f : α → List β) :
    (l.filter p).flatMap f = l.flatMap fun a => if p a then f a else [] := by
  induction l with
  | nil => rfl
  | cons a rest ih =>
    rw [List.filter_cons, List.flatMap_cons, ← ih]
    split <;> rfl

/-- The components that stand on a host, or all of them with the host: the host comes first. -/
theorem filter_hosted_or_host (ht : t.Built) (hsingle : t.SingleHosted)
    (horder : t.hostingOrder = .ok order) {host : ComponentId} (hhost : host ∈ order) :
    (order.filter fun c => c = host || host ∈ t.hostsAbove c) =
      host :: order.filter fun c => host ∈ t.hostsAbove c := by
  obtain ⟨before, after, rfl⟩ := List.append_of_mem hhost
  have hbefore : ∀ c ∈ before, ¬ (c = host ∨ host ∈ t.hostsAbove c) := by
    rintro c hc (rfl | habove)
    · exact next_not_mem ht horder hc
    · have hlt := idxOf_lt_of_transGen ht horder ((mem_hostsAbove ht hsingle horder).mp habove)
      rw [idxOf_next ht horder, List.idxOf_append_of_mem hc] at hlt
      have := List.idxOf_lt_length_of_mem hc
      omega
  have hafter : ∀ c ∈ after, c ≠ host := by
    rintro c hc rfl
    have hnodup := (List.nodup_append.mp (hostingOrder_nodup ht horder)).2.1
    exact (List.nodup_cons.mp hnodup).1 hc
  have hself : host ∉ t.hostsAbove host := fun habove =>
    Nat.lt_irrefl _ (idxOf_lt_of_transGen ht horder ((mem_hostsAbove ht hsingle horder).mp habove))
  have hall : before.filter (fun c => c = host || host ∈ t.hostsAbove c) = [] :=
    List.filter_eq_nil_iff.mpr fun c hc => by simpa using hbefore c hc
  have hsome : before.filter (fun c => host ∈ t.hostsAbove c) = [] :=
    List.filter_eq_nil_iff.mpr fun c hc => by simpa using fun h => hbefore c hc (.inr h)
  have hrest : after.filter (fun c => c = host || host ∈ t.hostsAbove c) =
      after.filter fun c => host ∈ t.hostsAbove c :=
    List.filter_congr fun c hc => by simp [hafter c hc]
  simp [List.filter_append, hall, hsome, hrest, hself]

/-- The components that stand on a host, level by level. -/
theorem filter_hosted_levels (ht : t.Built) (hsingle : t.SingleHosted)
    (horder : t.hostingOrder = .ok order) {host : ComponentId} (hhost : host < t.size) :
    (order.filter fun c => host ∈ t.hostsAbove c) =
      t.sources host .hostedOn ++
        (order.filter fun c => host ∈ t.hostsAbove c).flatMap fun id => t.sources id .hostedOn := by
  have hmem : host ∈ order := (hostingOrder_perm ht horder).mem_iff.mpr (mem_ids.mpr hhost)
  have hstart : (Sweep.start t).queue.filter (fun c => host ∈ t.hostsAbove c) = [] := by
    refine List.filter_eq_nil_iff.mpr fun c hc habove => ?_
    have hreach := (mem_hostsAbove ht hsingle horder).mp (of_decide_eq_true habove)
    obtain ⟨next, hnext, _⟩ := Relation.TransGen.head'_iff.mp hreach
    have hempty := List.isEmpty_iff.mp (List.mem_filter.mp hc).2
    rw [← mem_targets_hostedOn, hempty] at hnext
    cases hnext
  have hsteps (id : ComponentId) :
      (t.sources id .hostedOn).filter (fun c => host ∈ t.hostsAbove c) =
        if id = host || host ∈ t.hostsAbove id then t.sources id .hostedOn else [] := by
    have hiff : ∀ c ∈ t.sources id .hostedOn,
        (host ∈ t.hostsAbove c ↔ id = host ∨ host ∈ t.hostsAbove id) := by
      intro c hc
      rw [mem_hostsAbove ht hsingle horder, mem_hostsAbove ht hsingle horder,
        hsingle.transGen_iff ht,
        (hsingle.hostOf?_eq_some ht).mpr (mem_sources_hostedOn.mp hc)]
      simp [eq_comm]
    by_cases hid : id = host ∨ host ∈ t.hostsAbove id
    · rw [if_pos (by simpa using hid), List.filter_eq_self.mpr]
      exact fun c hc => decide_eq_true ((hiff c hc).mpr hid)
    · rw [if_neg (by simpa using hid), List.filter_eq_nil_iff.mpr]
      exact fun c hc habove => hid ((hiff c hc).mp (of_decide_eq_true habove))
  calc (order.filter fun c => host ∈ t.hostsAbove c)
      = ((Sweep.start t).queue ++ order.flatMap fun id => t.sources id .hostedOn).filter
          (fun c => host ∈ t.hostsAbove c) := by
        rw [← hostingOrder_levels ht hsingle horder]
    _ = (order.filter fun c => c = host || host ∈ t.hostsAbove c).flatMap
          fun id => t.sources id .hostedOn := by
        rw [List.filter_append, hstart, List.nil_append, List.filter_flatMap, flatMap_filter]
        simp only [hsteps]
    _ = _ := by
        rw [filter_hosted_or_host ht hsingle horder hmem, List.flatMap_cons]

/-- The stack on a host is what the order has of the components that stand on the host. -/
theorem stackOn_eq_filter (ht : t.Built) (hsingle : t.SingleHosted)
    (horder : t.hostingOrder = .ok order) {host : ComponentId} (hhost : host < t.size) :
    t.stackOn host = order.filter fun c => host ∈ t.hostsAbove c := by
  have hrank : ∀ id, ∀ c ∈ t.sources id .hostedOn,
      order.length - order.idxOf c < order.length - order.idxOf id := by
    intro id c hc
    have hbefore := hostingOrder_hostsFirst ht horder (mem_sources_hostedOn.mp hc)
    have := List.idxOf_le_length (a := c) (l := order)
    omega
  apply eq_of_levels hrank (stackOn_levels ht hsingle horder host)
    (filter_hosted_levels ht hsingle horder hhost) (n := order.length + 1)
  · intro c _
    omega
  · intro c _
    omega

/-- The stack on a host is all that stands on it. -/
theorem mem_stackOn (ht : t.Built) (hsingle : t.SingleHosted)
    (horder : t.hostingOrder = .ok order) {host : ComponentId} (hhost : host < t.size)
    {id : ComponentId} : id ∈ t.stackOn host ↔ Relation.TransGen t.HostedOn id host := by
  rw [stackOn_eq_filter ht hsingle horder hhost, List.mem_filter, decide_eq_true_iff,
    mem_hostsAbove ht hsingle horder, and_iff_right_iff_imp]
  intro hreach
  obtain ⟨_, hfirst, _⟩ := Relation.TransGen.head'_iff.mp hreach
  exact (hostingOrder_perm ht horder).mem_iff.mpr (mem_ids.mpr (ht.lt_of_hostedOn hfirst).1)

/-- The hosts of a component, the farthest first, are what the order has of the components whose
stack it is part of. -/
theorem reverse_hostsAbove_eq_filter (ht : t.Built) (hsingle : t.SingleHosted)
    (horder : t.hostingOrder = .ok order) {id : ComponentId} (hid : id < t.size) :
    (t.hostsAbove id).reverse = order.filter fun host => id ∈ t.stackOn host := by
  have hrising : (t.hostsAbove id).reverse.Pairwise fun a b => order.idxOf a < order.idxOf b :=
    List.pairwise_reverse.mpr (hostsFrom_pairwise ht horder _ _ _).1
  have hordered : (order.filter fun host => id ∈ t.stackOn host).Pairwise
      fun a b => order.idxOf a < order.idxOf b :=
    (hostingOrder_pairwise ht horder).filter _
  have hmem (host : ComponentId) : host ∈ (t.hostsAbove id).reverse ↔
      host ∈ order.filter fun host => id ∈ t.stackOn host := by
    have horder_mem {c : ComponentId} : c ∈ order ↔ c < t.size :=
      (hostingOrder_perm ht horder).mem_iff.trans mem_ids
    rw [List.mem_reverse, List.mem_filter, decide_eq_true_iff, horder_mem]
    constructor
    · intro habove
      have hlt : host < t.size := by
        obtain ⟨_, _, hlast⟩ := Relation.TransGen.tail'_iff.mp
          ((mem_hostsAbove ht hsingle horder).mp habove)
        exact (ht.lt_of_hostedOn hlast).2
      rw [stackOn_eq_filter ht hsingle horder hlt, List.mem_filter, horder_mem]
      exact ⟨hlt, hid, decide_eq_true habove⟩
    · rintro ⟨hlt, hstack⟩
      rw [stackOn_eq_filter ht hsingle horder hlt, List.mem_filter] at hstack
      exact of_decide_eq_true hstack.2
  exact eq_of_rising hrising hordered hmem

end

/-- In the topology of a model, no component has two hosts. -/
theorem singleHosted_of_build {name : String} {g : EntityGraph} {m : Model}
    (h : Model.build name g = .ok m) : m.topology.SingleHosted := by
  obtain ⟨_, _, h⟩ := bind_eq_ok.mp h
  obtain ⟨_, _, h⟩ := bind_eq_ok.mp h
  obtain ⟨_, hhosts, h⟩ := bind_eq_ok.mp h
  cases h
  exact Model.checkHosts_eq_ok.mp hhosts

/-- **The stack on a host, the hosting order and the chains of hosts agree, in what they have and
in its order.** The stack on a component is the part of the hosting order that stands on it, and
the hosts above a component, the farthest first, are the part of the hosting order that it stands
on. All this holds where no component has two hosts, as in every model, and none stands in a
circle. -/
theorem stacks_agree :
    (∀ {t : Topology}, t.Built → t.SingleHosted →
      (∀ c, ¬ Relation.TransGen t.HostedOn c c) → ∃ order, t.hostingOrder = .ok order ∧
        (∀ host < t.size, t.stackOn host = order.filter fun c => host ∈ t.hostsAbove c) ∧
        ∀ id < t.size, (t.hostsAbove id).reverse = order.filter fun host => id ∈ t.stackOn host) ∧
    ∀ {name : String} {g : EntityGraph} {m : Model}, Model.build name g = .ok m →
      m.topology.Built ∧ m.topology.SingleHosted := by
  refine ⟨fun {t} ht hsingle hflat => ?_, fun h =>
    ⟨Model.built_of_build h, singleHosted_of_build h⟩⟩
  cases horder : t.hostingOrder with
  | error f =>
    obtain ⟨_, _, ⟨_, c, _, hcircle⟩, _⟩ := hostingOrder_eq_error ht horder
    exact absurd hcircle (hflat c)
  | ok order =>
    exact ⟨order, rfl, fun host => stackOn_eq_filter ht hsingle horder,
      fun id => reverse_hostsAbove_eq_filter ht hsingle horder⟩

/-- Two machines, one with an agent, the other with two stacks on it. -/
def forest : Topology :=
  let hostedOn : Relation := { name := "hosted_on", kind := .hostedOn, source := "", target := "" }
  let t := ["shop", "db", "tomcat", "dbms", "vm", "spare", "agent"].foldl
    (fun t name => (t.addComponent { name }).2) Topology.empty
  [(0, 2), (1, 3), (2, 4), (3, 4), (6, 5)].foldl
    (fun t e => (t.addRelation e.1 e.2 hostedOn).2) t

theorem built_forest : forest.Built := by
  refine .relation _ (.relation _ (.relation _ (.relation _ (.relation _ (.component _ (.component _
    (.component _ (.component _ (.component _ (.component _ (.component _ .empty)))))))
    ?_ ?_) ?_ ?_) ?_ ?_) ?_ ?_) ?_ ?_ <;> decide +kernel

theorem stacks_agree_forest :
    forest.Built ∧ forest.SingleHosted ∧ (∀ c, ¬ Relation.TransGen forest.HostedOn c c) ∧
      forest.hostingOrder = .ok [4, 5, 2, 3, 6, 0, 1] ∧
      forest.stackOn 4 = [4, 5, 2, 3, 6, 0, 1].filter (fun c => 4 ∈ forest.hostsAbove c) ∧
      forest.stackOn 4 = [2, 3, 0, 1] ∧
      (forest.hostsAbove 1).reverse =
        [4, 5, 2, 3, 6, 0, 1].filter (fun host => 1 ∈ forest.stackOn host) := by
  have horder : forest.hostingOrder = .ok [4, 5, 2, 3, 6, 0, 1] := by decide +kernel
  have hsingle : forest.SingleHosted := by
    unfold SingleHosted
    decide +kernel
  have hflat : ∀ c, ¬ Relation.TransGen forest.HostedOn c c := fun c hcircle =>
    Nat.lt_irrefl _ (idxOf_lt_of_transGen built_forest horder hcircle)
  obtain ⟨order, hfound, hstack, habove⟩ := stacks_agree.1 built_forest hsingle hflat
  cases horder.symm.trans hfound
  exact ⟨built_forest, hsingle, hflat, horder, hstack 4 (by decide +kernel), by decide +kernel,
    habove 1 (by decide +kernel)⟩

end Provision.Topology
