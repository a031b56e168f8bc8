import Provision.Proofs.Topology.Stack

/-! The chain of hosts above a component.

Two walks go from a component to its host, from that to its host, and so on. One lists what
it meets and ends before a component that it has listed. The other looks for a compute, ends
at the first one, and calls it a cycle if it comes back. A component may have several hosts,
of which the walks take the first, and hosts may lead back to any of the components on the
way: to the first one, or to one above it, so that the chain runs into a circle that it did
not begin in. Among finitely many components a chain without repetitions ends, so neither
walk needs more steps than there are components. -/
namespace Provision.Topology

section
variable {t : Topology} {visited : List ComponentId} {room : Nat} {id : ComponentId}

/-! ### A chain without repetitions -/

/-- A walk goes on from the host, if that is new. -/
theorem hostsFrom_succ {host : ComponentId} (hhost : t.hostOf? id = some host)
    (hnew : host ∉ visited) :
    t.hostsFrom visited (room + 1) id = host :: t.hostsFrom (host :: visited) room host := by
  rw [hostsFrom, hhost]
  exact if_neg hnew

/-- A walk ends where the host was seen before. -/
theorem hostsFrom_of_seen (h : ∀ host, t.hostOf? id = some host → host ∈ visited) :
    t.hostsFrom visited room id = [] := by
  cases room with
  | zero => rfl
  | succ room =>
    cases hhost : t.hostOf? id with
    | none => rw [hostsFrom, hhost]
    | some host =>
      rw [hostsFrom, hhost]
      exact if_pos (h host hhost)

/-- Each component of the chain is the host of the one before. -/
theorem isChain_hostsFrom (t : Topology) (visited : List ComponentId) (room : Nat)
    (id : ComponentId) :
    (id :: t.hostsFrom visited room id).IsChain fun below host => t.hostOf? below = some host := by
  induction room generalizing visited id with
  | zero => exact .singleton id
  | succ room ih =>
    by_cases h : ∀ host, t.hostOf? id = some host → host ∈ visited
    · rw [hostsFrom_of_seen h]
      exact .singleton id
    · push Not at h
      obtain ⟨host, hhost, hnew⟩ := h
      rw [hostsFrom_succ hhost hnew]
      exact .cons_cons hhost (ih (host :: visited) host)

/-- The chain meets no component twice, and none that was seen before. -/
theorem nodup_hostsFrom (t : Topology) (visited : List ComponentId) (room : Nat)
    (id : ComponentId) :
    (t.hostsFrom visited room id).Nodup ∧ (t.hostsFrom visited room id).Disjoint visited := by
  induction room generalizing visited id with
  | zero => exact ⟨.nil, List.disjoint_nil_left _⟩
  | succ room ih =>
    by_cases h : ∀ host, t.hostOf? id = some host → host ∈ visited
    · rw [hostsFrom_of_seen h]
      exact ⟨.nil, List.disjoint_nil_left _⟩
    · push Not at h
      obtain ⟨host, hhost, hnew⟩ := h
      obtain ⟨hnodup, hdisjoint⟩ := ih (host :: visited) host
      obtain ⟨hhostNew, hrest⟩ := List.disjoint_cons_right.mp hdisjoint
      rw [hostsFrom_succ hhost hnew]
      exact ⟨hnodup.cons hhostNew, List.disjoint_cons_left.mpr ⟨hnew, hrest⟩⟩

theorem nodup_hostsAbove (t : Topology) (id : ComponentId) : (id :: t.hostsAbove id).Nodup := by
  obtain ⟨hnodup, hdisjoint⟩ := t.nodup_hostsFrom [id] t.size id
  exact hnodup.cons (List.disjoint_singleton.mp hdisjoint)

/-! ### Enough steps -/

/-- What a walk has seen of a topology in a number of steps: no component twice, and with the steps
that are left no fewer than there are. -/
structure Covers (t : Topology) (visited : List ComponentId) (room : Nat) : Prop where
  nodup : visited.Nodup
  lt : ∀ seen ∈ visited, seen < t.size
  enough : t.size ≤ visited.length + room

theorem covers_start (hid : id < t.size) : t.Covers [id] t.size where
  nodup := List.nodup_singleton id
  lt _ hseen := List.mem_singleton.mp hseen ▸ hid
  enough := Nat.le_add_left _ _

theorem Covers.next {host : ComponentId} (h : t.Covers visited (room + 1)) (hhost : host < t.size)
    (hnew : host ∉ visited) : t.Covers (host :: visited) room where
  nodup := h.nodup.cons hnew
  lt := List.forall_mem_cons.mpr ⟨hhost, h.lt⟩
  enough := by
    have := h.enough
    rw [List.length_cons]
    omega

/-- Without a step left, all components were seen. -/
theorem Covers.mem {host : ComponentId} (h : t.Covers visited 0) (hhost : host < t.size) :
    host ∈ visited := by
  have hsub : visited ⊆ t.ids := fun seen hseen => mem_ids.mpr (h.lt seen hseen)
  have hlength : t.ids.length ≤ visited.length := by
    rw [ids, List.length_range]
    exact h.enough
  have hperm := (h.nodup.subperm hsub).perm_of_length_le hlength
  exact hperm.mem_iff.mpr (mem_ids.mpr hhost)

/-- A host is always a component. -/
theorem Built.hostOf?_lt (ht : t.Built) {host : ComponentId} (h : t.hostOf? id = some host) :
    host < t.size :=
  (ht.lt_of_hostedOn (hostedOn_of_hostOf? h)).2

/-- More steps than there are components lead no farther. -/
theorem hostsFrom_of_covers (ht : t.Built) (hcovers : t.Covers visited room) {more : Nat}
    (hmore : room ≤ more) : t.hostsFrom visited more id = t.hostsFrom visited room id := by
  induction room generalizing visited more id with
  | zero =>
    exact hostsFrom_of_seen fun host hhost => hcovers.mem (ht.hostOf?_lt hhost)
  | succ room ih =>
    obtain ⟨more, rfl⟩ : ∃ n, more = n + 1 := ⟨more - 1, by omega⟩
    by_cases h : ∀ host, t.hostOf? id = some host → host ∈ visited
    · rw [hostsFrom_of_seen h, hostsFrom_of_seen h]
    · push Not at h
      obtain ⟨host, hhost, hnew⟩ := h
      rw [hostsFrom_succ hhost hnew, hostsFrom_succ hhost hnew,
        ih (hcovers.next (ht.hostOf?_lt hhost) hnew) (by omega)]

/-- The chain ends only where the last component has no host, or where it comes back. -/
theorem mem_of_hostOf?_getLastD (ht : t.Built) (hcovers : t.Covers visited room)
    {host : ComponentId}
    (h : t.hostOf? ((t.hostsFrom visited room id).getLastD id) = some host) :
    host ∈ visited ∨ host ∈ t.hostsFrom visited room id := by
  induction room generalizing visited id with
  | zero => exact .inl (hcovers.mem (ht.hostOf?_lt h))
  | succ room ih =>
    by_cases hseen : ∀ host, t.hostOf? id = some host → host ∈ visited
    · rw [hostsFrom_of_seen hseen] at h
      exact .inl (hseen host h)
    · push Not at hseen
      obtain ⟨first, hfirst, hnew⟩ := hseen
      rw [hostsFrom_succ hfirst hnew] at h ⊢
      rw [List.getLastD_cons] at h
      rcases ih (hcovers.next (ht.hostOf?_lt hfirst) hnew) h with hmem | hmem
      · rcases List.mem_cons.mp hmem with rfl | hmem
        · exact .inr List.mem_cons_self
        · exact .inl hmem
      · exact .inr (List.mem_cons_of_mem _ hmem)

end

/-! ### Agreement -/

/-- **The search for the compute of a component and the list of its hosts agree on every
topology.** A compute runs on itself. Any other component runs on the first compute in the list of
its hosts. If there is none, it runs on nothing where the last of them, or the component itself
without any, has no host, and otherwise the search fails with a hosting cycle of the component:
the host is then one that the chain has been at. The list follows the hosts one after another, has
none twice and not the component itself. Both walks end of their own: more steps than there are
components change nothing. -/
theorem computeOf_agrees_hostsAbove {t : Topology} (ht : t.Built) {id : ComponentId}
    (hid : id < t.size) :
    ((t.component id).isA .compute → t.computeOf id = .ok (some id)) ∧
    ((t.component id).isA .compute = false →
      (∀ c, (t.hostsAbove id).find? (fun host => (t.component host).isA .compute) = some c →
        t.computeOf id = .ok (some c)) ∧
      ((∀ host ∈ t.hostsAbove id, (t.component host).isA .compute = false) →
        (t.hostOf? ((t.hostsAbove id).getLastD id) = none → t.computeOf id = .ok none) ∧
        ∀ host, t.hostOf? ((t.hostsAbove id).getLastD id) = some host →
          t.computeOf id = .error (.hostingCycle (t.component id).name) ∧
            host ∈ id :: t.hostsAbove id)) ∧
    (id :: t.hostsAbove id).Nodup ∧
    ((id :: t.hostsAbove id).IsChain fun below host => t.hostOf? below = some host) ∧
    (∀ host, t.hostOf? ((t.hostsAbove id).getLastD id) = some host →
      host ∈ id :: t.hostsAbove id) ∧
    ∀ room ≥ t.size,
      t.hostsFrom [id] room id = t.hostsAbove id ∧ t.climb id [] room id = t.computeOf id := by
  have hcovers := covers_start hid
  have hclimb (room : Nat) := @climb_eq t id id [] room List.not_mem_nil
    fun _ hv => absurd hv List.not_mem_nil
  have hback (host : ComponentId)
      (h : t.hostOf? ((t.hostsAbove id).getLastD id) = some host) :
      host ∈ id :: t.hostsAbove id := by
    rcases mem_of_hostOf?_getLastD ht hcovers h with hmem | hmem
    · exact List.mem_singleton.mp hmem ▸ List.mem_cons_self
    · exact List.mem_cons_of_mem _ hmem
  refine ⟨climb_of_compute, fun hcompute => ⟨fun c hfound => ?_, fun hnone => ?_⟩,
    t.nodup_hostsAbove id, t.isChain_hostsFrom _ _ _, hback, fun room hroom => ?_⟩
  · exact computeOf_eq_some_iff.mpr (by rwa [List.find?_cons_of_neg (by simp [hcompute])])
  · have hfind : (id :: t.hostsAbove id).find? (fun host => (t.component host).isA .compute) =
        none :=
      List.find?_eq_none.mpr fun host hhost => by
        rcases List.mem_cons.mp hhost with rfl | hhost
        · simp [hcompute]
        · simp [hnone host hhost]
    have hends := hclimb t.size
    rw [hostsAbove] at hfind
    simp only [hfind] at hends
    exact ⟨fun hend => hends.trans (if_pos hend), fun host hhost =>
      ⟨hends.trans (if_neg (by rw [← hostsAbove, hhost]; exact Option.some_ne_none host)),
        hback host hhost⟩⟩
  · have hmore : t.hostsFrom [id] room id = t.hostsAbove id := hostsFrom_of_covers ht hcovers hroom
    refine ⟨hmore, ?_⟩
    rw [computeOf, hclimb, hclimb, hmore, hostsAbove]

/-- An application whose hosts run into a circle above it, a tool and a machine that stand on each
other, and an agent with two hosts, the first of which stands on nothing. -/
def circling : Topology :=
  let hostedOn : Relation := { name := "hosted_on", kind := .hostedOn, source := "", target := "" }
  let t := [("app", .generic), ("web", .generic), ("db", .generic), ("tool", .generic),
      ("vm", .compute), ("agent", .generic), ("spare", .generic)].foldl
    (fun t (name, kind) => (t.addComponent { name, kind }).2) Topology.empty
  [(0, 1), (1, 2), (2, 1), (3, 4), (4, 3), (5, 6), (5, 4)].foldl
    (fun t e => (t.addRelation e.1 e.2 hostedOn).2) t

theorem built_circling : circling.Built := by
  refine .relation _ (.relation _ (.relation _ (.relation _ (.relation _ (.relation _ (.relation _
    (.component _ (.component _ (.component _ (.component _ (.component _ (.component _
      (.component _ .empty))))))) ?_ ?_) ?_ ?_) ?_ ?_) ?_ ?_) ?_ ?_) ?_ ?_) ?_ ?_ <;>
    decide +kernel

theorem computeOf_agrees_hostsAbove_circling :
    circling.Built ∧ 0 < circling.size ∧ 3 < circling.size ∧ 5 < circling.size ∧
      circling.hostsAbove 0 = [1, 2] ∧
      circling.computeOf 0 = .error (.hostingCycle "app") ∧
      circling.hostsAbove 3 = [4] ∧ circling.computeOf 3 = .ok (some 4) ∧
      circling.hostsAbove 5 = [6] ∧ circling.computeOf 5 = .ok none := by
  obtain ⟨h0, h3, h5⟩ : 0 < circling.size ∧ 3 < circling.size ∧ 5 < circling.size := by
    decide +kernel
  have hname : (circling.component 0).name = "app" := by decide +kernel
  have hcircle := ((computeOf_agrees_hostsAbove built_circling h0).2.1 (by decide +kernel)).2
    (by decide +kernel)
  have hfound := ((computeOf_agrees_hostsAbove built_circling h3).2.1 (by decide +kernel)).1 4
    (by decide +kernel)
  have hends := ((computeOf_agrees_hostsAbove built_circling h5).2.1 (by decide +kernel)).2
    (by decide +kernel)
  exact ⟨built_circling, h0, h3, h5, by decide +kernel,
    hname ▸ (hcircle.2 1 (by decide +kernel)).1, by decide +kernel, hfound, by decide +kernel,
    hends.1 (by decide +kernel)⟩

end Provision.Topology
