import Provision.Output.Graph

/-! Nodes of output graphs. -/
namespace Provision.OutputGraph

variable {ν : Type}

theorem toList_nodes_adjust (g : OutputGraph ν) (id : NodeId) (f : ν → ν) :
    (g.adjust id f).nodes.toList = g.nodes.toList.modify id f := by
  rw [adjust, Array.toList_modify]

/-- What a change of a node keeps, it keeps of all nodes. -/
theorem map_nodes_adjust {γ : Type} (g : OutputGraph ν) {id : NodeId} {f : ν → ν} {view : ν → γ}
    (h : ∀ n, g.node? id = some n → view (f n) = view n) :
    (g.adjust id f).nodes.toList.map view = g.nodes.toList.map view := by
  refine List.ext_getElem? fun k => ?_
  rw [toList_nodes_adjust, List.getElem?_map, List.getElem?_map, List.getElem?_modify]
  cases hk : g.nodes.toList[k]? with
  | none => rfl
  | some n =>
    by_cases hid : id = k
    · subst hid
      simpa using h n (by rw [node?, ← Array.getElem?_toList, hk])
    · simp [hid]

theorem nodes_addEdge (g : OutputGraph ν) (source target : NodeId) (label : EdgeLabel) :
    (g.addEdge source target label).2.nodes = g.nodes := by
  unfold addEdge
  dsimp only
  split <;> rfl

theorem mem_edges_addEdge {g : OutputGraph ν} {source target : NodeId} {label : EdgeLabel}
    {e : OutputEdge} :
    e ∈ (g.addEdge source target label).2.edges ↔ e ∈ g.edges ∨ e = ⟨source, target, label⟩ := by
  unfold addEdge
  dsimp only
  split
  case isTrue hold => exact ⟨.inl, fun h => h.elim id fun h => h ▸ hold⟩
  case isFalse => rw [List.mem_append, List.mem_singleton]

/-- The ends of all edges are nodes. -/
def InRange (g : OutputGraph ν) : Prop := ∀ e ∈ g.edges, e.source < g.size ∧ e.target < g.size

theorem InRange.push {g : OutputGraph ν} (hg : g.InRange) (node : ν) :
    ({ g with nodes := g.nodes.push node } : OutputGraph ν).InRange := by
  intro e he
  obtain ⟨hsource, htarget⟩ := hg e he
  simp only [size, Array.size_push]
  exact ⟨Nat.lt_succ_of_lt hsource, Nat.lt_succ_of_lt htarget⟩

theorem InRange.addEdge {g : OutputGraph ν} (hg : g.InRange) {source target : NodeId}
    (hsource : source < g.size) (htarget : target < g.size) (label : EdgeLabel) :
    (g.addEdge source target label).2.InRange := by
  intro e he
  rw [size, nodes_addEdge]
  rcases mem_edges_addEdge.mp he with he | rfl
  · exact hg e he
  · exact ⟨hsource, htarget⟩

theorem InRange.adjust {g : OutputGraph ν} (hg : g.InRange) (id : NodeId) (f : ν → ν) :
    (g.adjust id f).InRange := by
  intro e he
  rw [size, OutputGraph.adjust, Array.size_modify]
  exact hg e he

theorem mem_dependencies {g : OutputGraph ν} {id target : NodeId} :
    target ∈ g.dependencies id ↔ ⟨id, target, .dependency⟩ ∈ g.edges := by
  simp only [dependencies, List.mem_map, List.mem_filter, Bool.and_eq_true, beq_iff_eq]
  constructor
  · rintro ⟨⟨source, target, label⟩, ⟨he, rfl, rfl⟩, rfl⟩
    exact he
  · intro he
    exact ⟨_, ⟨he, rfl, rfl⟩, rfl⟩

theorem mem_targets {g : OutputGraph ν} {id target : NodeId} {k : RelationKind} :
    target ∈ g.targets id k ↔
      ∃ label : EdgeLabel, label.isRelation k = true ∧ ⟨id, target, label⟩ ∈ g.edges := by
  simp only [targets, mem_ascending, List.mem_map, List.mem_filter, Bool.and_eq_true, beq_iff_eq]
  constructor
  · rintro ⟨⟨source, target, label⟩, ⟨he, rfl, hlabel⟩, rfl⟩
    exact ⟨label, hlabel, he⟩
  · rintro ⟨label, hlabel, he⟩
    exact ⟨_, ⟨he, rfl, hlabel⟩, rfl⟩

theorem dependencies_addDependency {g : OutputGraph ν} {source target : NodeId}
    (hnew : target ∉ g.dependencies source) (id : NodeId) :
    (g.addDependency source target).2.dependencies id =
      if id = source then g.dependencies id ++ [target] else g.dependencies id := by
  have hedges : (g.addDependency source target).2.edges =
      g.edges ++ [⟨source, target, .dependency⟩] := by
    rw [addDependency, addEdge, if_neg (mt mem_dependencies.mpr hnew)]
  rw [dependencies, hedges, List.filter_append, List.map_append]
  by_cases hid : id = source
  · subst hid
    simp [dependencies]
  · simp [dependencies, hid, Ne.symm hid]

theorem node?_push (g : OutputGraph ν) (node : ν) (id : NodeId) :
    ({ g with nodes := g.nodes.push node } : OutputGraph ν).node? id =
      if id = g.size then some node else g.node? id :=
  Array.getElem?_push

theorem node?_adjust (g : OutputGraph ν) (id : NodeId) (f : ν → ν) (k : NodeId) :
    (g.adjust id f).node? k = if id = k then (g.node? k).map f else g.node? k :=
  Array.getElem?_modify

variable [Named ν]

/-- The names of the nodes, in order. -/
def names (g : OutputGraph ν) : List String := g.nodes.toList.map Named.name

theorem names_push (g : OutputGraph ν) (node : ν) :
    ({ g with nodes := g.nodes.push node } : OutputGraph ν).names =
      g.names ++ [Named.name node] := by
  simp [names]

theorem map_name_zipIdx (g : OutputGraph ν) :
    (g.nodes.toList.zipIdx.map fun e => Named.name e.1) = g.names := by
  rw [names, ← List.zipIdx_map_fst 0 g.nodes.toList, List.map_map, List.zipIdx_map_fst]
  rfl

/-- A node is added under a name that is not taken, and is the last one. -/
theorem addNode_eq_ok {g g' : OutputGraph ν} {node : ν} {id : NodeId} :
    g.addNode node = .ok (id, g') ↔ Named.name node ∉ g.names ∧ id = g.size ∧
      g' = { g with nodes := g.nodes.push node } := by
  have hfind : g.find? (Named.name node) = none ↔ Named.name node ∉ g.names := by
    simp [find?, names, Array.findIdx?_eq_none_iff]
  unfold addNode
  cases h : g.find? (Named.name node) with
  | none =>
    rw [h] at hfind
    simp [hfind.mp rfl, eq_comm]
  | some found =>
    have htaken : ¬ Named.name node ∉ g.names := fun hnew => by simp [hfind.mpr hnew] at h
    simp [htaken]

/-! ### Nodes with their dependencies -/

/-- The nodes, each with the names of those that it depends on. -/
def listing (g : OutputGraph ν) : List (ν × List String) :=
  g.nodes.toList.zipIdx.map fun (n, id) => (n, g.dependencyNames id)

section Listing
variable {g : OutputGraph ν}

theorem getElem?_listing (g : OutputGraph ν) (id : NodeId) :
    g.listing[id]? = (g.node? id).map fun n => (n, g.dependencyNames id) := by
  rw [listing, List.getElem?_map, List.getElem?_zipIdx, Array.getElem?_toList, node?,
    Option.map_map, Nat.zero_add]
  rfl

theorem length_listing (g : OutputGraph ν) : g.listing.length = g.size := by
  simp [listing, size]

theorem nameOf_push {node : ν} {id : NodeId} (hid : id < g.size) :
    ({ g with nodes := g.nodes.push node } : OutputGraph ν).nameOf id = g.nameOf id := by
  rw [nameOf, nameOf, node?_push, if_neg (Nat.ne_of_lt hid)]

/-- A new node depends on nothing. -/
theorem listing_push (hg : g.InRange) (node : ν) :
    ({ g with nodes := g.nodes.push node } : OutputGraph ν).listing =
      g.listing ++ [(node, [])] := by
  have hdependencies (id : NodeId) :
      ({ g with nodes := g.nodes.push node } : OutputGraph ν).dependencyNames id =
        g.dependencyNames id :=
    List.map_congr_left fun target htarget => nameOf_push (hg _ (mem_dependencies.mp htarget)).2
  have hnew : g.dependencyNames g.size = [] := by
    refine List.map_eq_nil_iff.mpr (List.eq_nil_iff_forall_not_mem.mpr fun target htarget => ?_)
    exact Nat.lt_irrefl _ (hg _ (mem_dependencies.mp htarget)).1
  refine List.ext_getElem? fun id => ?_
  rw [getElem?_listing, hdependencies, List.getElem?_append, length_listing, getElem?_listing,
    node?_push]
  by_cases hid : id = g.size
  · simp [hid, hnew]
  · rw [if_neg hid]
    split
    case isTrue => rfl
    case isFalse hlt =>
      have hnone : g.node? id = none := Array.getElem?_eq_none (Nat.le_of_not_lt hlt)
      rw [hnone, List.getElem?_eq_none (by simp; omega)]
      rfl

theorem nameOf_addEdge (source target : NodeId) (label : EdgeLabel) (id : NodeId) :
    (g.addEdge source target label).2.nameOf id = g.nameOf id := by
  rw [nameOf, nameOf, node?, node?, nodes_addEdge]

/-- A dependency that is new by name is listed last. -/
theorem listing_addDependency {before after : List (ν × List String)} {n : ν}
    {names : List String} {target : NodeId} (hlisting : g.listing = before ++ (n, names) :: after)
    (hnew : g.nameOf target ∉ names) :
    (g.addDependency before.length target).2.listing =
      before ++ (n, names ++ [g.nameOf target]) :: after := by
  have hsource : g.listing[before.length]? = some (n, names) := by
    rw [hlisting, List.getElem?_append_right (Nat.le_refl _), Nat.sub_self]
    rfl
  have hnot : target ∉ g.dependencies before.length := by
    intro htarget
    rw [getElem?_listing] at hsource
    obtain ⟨_, _, heq⟩ := Option.map_eq_some_iff.mp hsource
    cases heq
    exact hnew (List.mem_map.mpr ⟨target, htarget, rfl⟩)
  have hnames (id : NodeId) : (g.addDependency before.length target).2.dependencyNames id =
      if id = before.length then g.dependencyNames id ++ [g.nameOf target]
      else g.dependencyNames id := by
    have hname : (g.addDependency before.length target).2.nameOf = g.nameOf :=
      funext fun id => nameOf_addEdge _ _ _ _
    rw [dependencyNames, hname, dependencies_addDependency hnot]
    split
    · exact List.map_append
    · rfl
  have hnode (id : NodeId) : (g.addDependency before.length target).2.node? id = g.node? id := by
    rw [node?, node?, addDependency, nodes_addEdge]
  have hall : (g.addDependency before.length target).2.listing =
      g.listing.modify before.length fun e => (e.1, e.2 ++ [g.nameOf target]) := by
    refine List.ext_getElem? fun id => ?_
    rw [List.getElem?_modify, getElem?_listing, getElem?_listing, hnode, hnames]
    cases g.node? id with
    | none => simp
    | some n =>
      by_cases hid : before.length = id
      · simp [hid]
      · simp [hid, Ne.symm hid]
  rw [hall, hlisting, List.modify_eq_take_drop, List.take_left, List.drop_left]
  rfl

theorem nameOf_adjust {id : NodeId} {f : ν → ν} (hf : ∀ n, Named.name (f n) = Named.name n)
    (k : NodeId) : (g.adjust id f).nameOf k = g.nameOf k := by
  rw [nameOf, nameOf, node?_adjust]
  split
  · rw [Option.map_map]
    exact congrArg (fun name => (Option.map name (g.node? k)).getD "") (funext hf)
  · rfl

/-- A change that keeps the name of a node leaves all dependencies alone. -/
theorem listing_adjust {id : NodeId} {f : ν → ν} (hf : ∀ n, Named.name (f n) = Named.name n) :
    (g.adjust id f).listing = g.listing.modify id fun e => (f e.1, e.2) := by
  have hnames (k : NodeId) : (g.adjust id f).dependencyNames k = g.dependencyNames k :=
    List.map_congr_left fun target _ => nameOf_adjust hf target
  refine List.ext_getElem? fun k => ?_
  rw [List.getElem?_modify, getElem?_listing, getElem?_listing, node?_adjust, hnames]
  cases g.node? k with
  | none => simp
  | some n =>
    by_cases hk : id = k
    · simp [hk]
    · simp [hk]

end Listing

end Provision.OutputGraph
