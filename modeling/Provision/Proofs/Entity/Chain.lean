import Provision.Entity.Inheritance
import Provision.Proofs.Entity.Found
import Provision.Proofs.Entity.Types

/-! Chains of types.

Inside a namespace, `extends` leads from a type to another one, and from there on: to a type
without parent, to a name that no type has, back to a type that was passed, or forever upwards
as far as a chain may go. `Line` says which types are passed until then, each of them once. A
chain is the line that cannot be continued, if it has at most 64 types; a line of 65 types is
too long, whatever comes after it. -/
namespace Provision
namespace EntityGraph

/-! ### Parents -/

/-- A type names a parent: the text of its `extends` without the blanks around it, unless that is
nothing, `null` or `~`. -/
def NamesParent (g : EntityGraph) (t : EntityId) (name : String) : Prop :=
  ∃ text, g.childText? t Key.supertype = some text ∧ Text.trim text = name ∧
    name ∉ ["", "null", "~"]

/-- A type extends another one of a namespace. -/
def Extends (g : EntityGraph) (space : TypeSpace) (t parent : EntityId) : Prop :=
  ∃ name, g.NamesParent t name ∧ space.find? g name = some parent

theorem parentName?_eq_some {g : EntityGraph} {t : EntityId} {name : String} :
    g.parentName? t = some name ↔ g.NamesParent t name := by
  simp [parentName?, NamesParent, Option.filter_eq_some_iff, ← and_assoc]

theorem parentName?_eq_none {g : EntityGraph} {t : EntityId} :
    g.parentName? t = none ↔ ∀ name, ¬ g.NamesParent t name := by
  simp only [Option.eq_none_iff_forall_ne_some, ne_eq, parentName?_eq_some]

/-- What is found in a namespace has its name there, and its parent in the namespace. -/
theorem Builder.entity_of_find? {b : Builder} (hb : b.Grown) {space : TypeSpace} {name : String}
    {t : EntityId} (ht : space.find? b.build name = some t) : (b.build.entity t).name = name ∧
      ∀ other, b.build.typeLike? t other = space.find? b.build other := by
  obtain ⟨p, hp, ht⟩ := exists_namespace_of_find? ht
  rw [OrderedMap.get?_eq_some, ← children_build] at ht
  rw [child?, OrderedMap.get?_eq_some, ← children_build] at hp
  obtain ⟨_, hname, hparent⟩ := hb.isTree_build _ _ _ ht
  obtain ⟨_, hspace, _⟩ := hb.isTree_build _ _ _ hp
  refine ⟨hname, fun other => ?_⟩
  unfold typeLike?
  simp only [hparent, hspace]
  cases space <;> rfl

/-! ### Lines -/

section Lines
variable {g : EntityGraph} {space : TypeSpace} {start : EntityId}

/-- From a first type upwards, each type once: the types that are passed, and the one after
them. -/
inductive Line (g : EntityGraph) (space : TypeSpace) (start : EntityId) :
    List EntityId → EntityId → Prop where
  | start : Line g space start [] start
  | up {before : List EntityId} {last parent : EntityId} : Line g space start before last →
      g.Extends space last parent → parent ∉ before ++ [last] →
      Line g space start (before ++ [last]) parent

/-- A line is not continued: its last type names no parent, or one that the line has passed. -/
def Closes (g : EntityGraph) (space : TypeSpace) (before : List EntityId) (last : EntityId) :
    Prop :=
  (∀ name, ¬ g.NamesParent last name) ∨ ∃ t ∈ before ++ [last], g.Extends space last t

theorem NamesParent.unique {t : EntityId} {name name' : String} (h : g.NamesParent t name)
    (h' : g.NamesParent t name') : name = name' :=
  Option.some.inj ((parentName?_eq_some.mpr h).symm.trans (parentName?_eq_some.mpr h'))

theorem Extends.unique {t p q : EntityId} (hp : g.Extends space t p) (hq : g.Extends space t q) :
    p = q := by
  obtain ⟨name, hname, hp⟩ := hp
  obtain ⟨name', hname', hq⟩ := hq
  cases hname.unique hname'
  exact Option.some.inj (hp.symm.trans hq)

namespace Line
variable {before before' : List EntityId} {last last' : EntityId}

theorem nodup (h : Line g space start before last) : (before ++ [last]).Nodup := by
  induction h with
  | start => exact List.nodup_singleton _
  | up _ _ hnew ih =>
    rw [List.nodup_append]
    exact ⟨ih, List.nodup_singleton _, fun a ha b hb hab =>
      hnew (List.mem_singleton.mp hb ▸ hab ▸ ha)⟩

theorem notMem_reverse (h : Line g space start before last) : last ∉ before.reverse := fun hlast =>
  (List.nodup_append.mp h.nodup).2.2 last (List.mem_reverse.mp hlast) last List.mem_cons_self rfl

/-- All types of a line are in the namespace of the first one. -/
theorem found {name : String} (hstart : space.find? g name = some start)
    (h : Line g space start before last) :
    ∀ t ∈ before ++ [last], ∃ name, space.find? g name = some t := by
  induction h with
  | start =>
    intro t ht
    rw [List.mem_singleton.mp ht]
    exact ⟨name, hstart⟩
  | up _ hparent _ ih =>
    intro t ht
    rcases List.mem_append.mp ht with ht | ht
    · exact ih t ht
    · obtain ⟨name, _, hfound⟩ := hparent
      rw [List.mem_singleton.mp ht]
      exact ⟨name, hfound⟩

/-- Lines of one length are the same. -/
theorem unique (h : Line g space start before last) (h' : Line g space start before' last')
    (hlength : before.length = before'.length) : before = before' ∧ last = last' := by
  induction h generalizing before' last' with
  | start =>
    cases h' with
    | start => exact ⟨rfl, rfl⟩
    | up => simp at hlength
  | up _ hparent _ ih =>
    cases h' with
    | start => simp at hlength
    | up h' hparent' _ =>
      obtain ⟨rfl, rfl⟩ := ih h' (by simpa using hlength)
      exact ⟨rfl, hparent.unique hparent'⟩

/-- Up to any type but its last one, a line is a line that goes on. -/
theorem initial (h : Line g space start before last) {n : Nat} (hn : n < before.length) :
    ∃ before' last' parent, before'.length = n ∧ Line g space start before' last' ∧
      g.Extends space last' parent ∧ parent ∉ before' ++ [last'] := by
  induction h with
  | start => simp at hn
  | @up before last parent h hparent hnew ih =>
    rw [List.length_append, List.length_singleton] at hn
    rcases Nat.lt_succ_iff_lt_or_eq.mp hn with hn | rfl
    · exact ih hn
    · exact ⟨before, last, parent, rfl, h, hparent, hnew⟩

/-- A line that does not go on is the longest one. -/
theorem length_le (h : Line g space start before last)
    (hstops : ∀ parent, g.Extends space last parent → parent ∈ before ++ [last])
    (h' : Line g space start before' last') : before'.length ≤ before.length := by
  by_contra hlt
  obtain ⟨_, _, parent, hlength, hline, hparent, hnew⟩ := h'.initial (Nat.lt_of_not_le hlt)
  obtain ⟨rfl, rfl⟩ := hline.unique h hlength
  exact hnew (hstops parent hparent)

/-- So two lines that do not go on are the same. -/
theorem eq_of_stops (h : Line g space start before last)
    (hstops : ∀ parent, g.Extends space last parent → parent ∈ before ++ [last])
    (h' : Line g space start before' last')
    (hstops' : ∀ parent, g.Extends space last' parent → parent ∈ before' ++ [last']) :
    before = before' ∧ last = last' :=
  h.unique h' (Nat.le_antisymm (h'.length_le hstops' h) (h.length_le hstops h'))

end Line

theorem Closes.stops {before : List EntityId} {last : EntityId}
    (h : g.Closes space before last) (parent : EntityId) (hparent : g.Extends space last parent) :
    parent ∈ before ++ [last] := by
  rcases h with hnone | ⟨t, ht, hlast⟩
  · obtain ⟨name, hname, _⟩ := hparent
    exact absurd hname (hnone name)
  · rwa [hparent.unique hlast]

section Unknown
variable {before : List EntityId} {last : EntityId} {name : String}
  (hname : g.NamesParent last name) (hunknown : space.find? g name = none)
include hname hunknown

/-- A name that no type has leads nowhere. -/
theorem not_extends_of_unknown (parent : EntityId) : ¬ g.Extends space last parent := by
  rintro ⟨name', hname', hfound⟩
  cases hname.unique hname'
  cases hunknown.symm.trans hfound

theorem stops_of_unknown (parent : EntityId) (hparent : g.Extends space last parent) :
    parent ∈ before ++ [last] :=
  absurd hparent (not_extends_of_unknown hname hunknown parent)

theorem not_closes_of_unknown : ¬ g.Closes space before last := by
  rintro (hnone | ⟨t, _, hlast⟩)
  · exact hnone name hname
  · exact not_extends_of_unknown hname hunknown t hlast

end Unknown

/-! ### What a chain comes to -/

/-- What can be found out about the chain of a type: that a line closes, that it leads to a name
that no type has, or that it is too long. -/
inductive Verdict (g : EntityGraph) (space : TypeSpace) (start : EntityId) :
    Except Fault (List EntityId) → Prop where
  | closed {before : List EntityId} {last : EntityId} : Line g space start before last →
      before.length < chainLimit → g.Closes space before last →
      Verdict g space start (.ok (before ++ [last]))
  | unknown {before : List EntityId} {last : EntityId} {name : String} :
      Line g space start before last → before.length < chainLimit → g.NamesParent last name →
      space.find? g name = none →
      Verdict g space start (.error (.unresolvableType (g.entity last).name (some name)))
  | tooDeep {before : List EntityId} {last : EntityId} : Line g space start before last →
      before.length = chainLimit →
      Verdict g space start (.error (.inheritanceTooDeep (g.entity start).name chainLimit))

/-- The types of a namespace have their parents in it. -/
def Sheltered (g : EntityGraph) (space : TypeSpace) : Prop :=
  ∀ name t, space.find? g name = some t → ∀ other, g.typeLike? t other = space.find? g other

section Steps
variable {visited : List EntityId} {room : Nat} {t : EntityId}

theorem chainFrom_again (ht : t ∈ visited) : g.chainFrom start visited room t = .ok [] := by
  cases room <;> rw [chainFrom, if_pos ht]

theorem chainFrom_full (ht : t ∉ visited) : g.chainFrom start visited 0 t =
    .error (.inheritanceTooDeep (g.entity start).name chainLimit) := by
  rw [chainFrom, if_neg ht]

theorem chainFrom_last (ht : t ∉ visited) (hname : ∀ name, ¬ g.NamesParent t name) :
    g.chainFrom start visited (room + 1) t = .ok [t] := by
  rw [chainFrom, if_neg ht, parentType?, parentName?_eq_none.mpr hname]
  rfl

theorem chainFrom_unknown {name : String} (ht : t ∉ visited) (hname : g.NamesParent t name)
    (hunknown : g.typeLike? t name = none) : g.chainFrom start visited (room + 1) t =
      .error (.unresolvableType (g.entity t).name (some name)) := by
  rw [chainFrom, if_neg ht, parentType?, parentName?_eq_some.mpr hname]
  simp only [hunknown]
  rfl

theorem chainFrom_next {name : String} {parent : EntityId} (ht : t ∉ visited)
    (hname : g.NamesParent t name) (hparent : g.typeLike? t name = some parent) :
    g.chainFrom start visited (room + 1) t =
      (t :: ·) <$> g.chainFrom start (t :: visited) room parent := by
  rw [chainFrom, if_neg ht, parentType?, parentName?_eq_some.mpr hname]
  simp only [hparent]
  rfl

end Steps

/-- Where a line has come to, the rest of the chain is found out from its last type on. -/
theorem Line.verdict (hspace : g.Sheltered space) {name : String}
    (hstart : space.find? g name = some start) {room : Nat} {before : List EntityId}
    {t : EntityId} (h : Line g space start before t) (hroom : before.length + room = chainLimit) :
    Verdict g space start ((before ++ ·) <$> g.chainFrom start before.reverse room t) := by
  induction room generalizing before t with
  | zero =>
    rw [chainFrom_full h.notMem_reverse]
    exact .tooDeep h hroom
  | succ room ih =>
    have hlength : before.length < chainLimit := by omega
    obtain ⟨own, hown⟩ := h.found hstart t (List.mem_append_right _ (List.mem_singleton_self t))
    by_cases hnames : ∃ parentName, g.NamesParent t parentName
    · obtain ⟨parentName, hname⟩ := hnames
      have hlike := hspace own t hown parentName
      cases hfound : space.find? g parentName with
      | none =>
        rw [chainFrom_unknown h.notMem_reverse hname (hlike.trans hfound)]
        exact .unknown h hlength hname hfound
      | some parent =>
        have hparent : g.Extends space t parent := ⟨parentName, hname, hfound⟩
        rw [chainFrom_next h.notMem_reverse hname (hlike.trans hfound)]
        by_cases hmem : parent ∈ before ++ [t]
        · rw [chainFrom_again (by simpa [or_comm] using hmem)]
          exact .closed h hlength (.inr ⟨parent, hmem, hparent⟩)
        · have hrest := ih (.up h hparent hmem)
            (by rw [List.length_append, List.length_singleton]; omega)
          rw [List.reverse_append] at hrest
          simpa [Functor.map_map, List.append_assoc] using hrest
    · have hnone := not_exists.mp hnames
      rw [chainFrom_last h.notMem_reverse hnone]
      exact .closed h hlength (.inl hnone)

/-- Nothing else can be found out. -/
theorem Verdict.unique {r r' : Except Fault (List EntityId)} (h : Verdict g space start r)
    (h' : Verdict g space start r') : r = r' := by
  cases h with
  | closed hline hlength hcloses =>
    cases h' with
    | closed hline' _ hcloses' =>
      obtain ⟨rfl, rfl⟩ := hline.eq_of_stops hcloses.stops hline' hcloses'.stops
      rfl
    | unknown hline' _ hname hunknown =>
      obtain ⟨rfl, rfl⟩ := hline.eq_of_stops hcloses.stops hline' (stops_of_unknown hname hunknown)
      exact absurd hcloses (not_closes_of_unknown hname hunknown)
    | tooDeep hline' hlength' =>
      have hle := hline.length_le hcloses.stops hline'
      omega
  | @unknown before last _ hline hlength hname hunknown =>
    have hstops : ∀ parent, g.Extends space last parent → parent ∈ before ++ [last] :=
      stops_of_unknown hname hunknown
    cases h' with
    | closed hline' _ hcloses =>
      obtain ⟨rfl, rfl⟩ := hline.eq_of_stops hstops hline' hcloses.stops
      exact absurd hcloses (not_closes_of_unknown hname hunknown)
    | unknown hline' _ hname' hunknown' =>
      obtain ⟨rfl, rfl⟩ := hline.eq_of_stops hstops hline' (stops_of_unknown hname' hunknown')
      rw [hname.unique hname']
    | tooDeep hline' hlength' =>
      have hle := hline.length_le hstops hline'
      omega
  | tooDeep hline hlength =>
    cases h' with
    | closed hline' hlength' hcloses =>
      have hle := hline'.length_le hcloses.stops hline
      omega
    | unknown hline' hlength' hname hunknown =>
      have hle := hline'.length_le (stops_of_unknown hname hunknown) hline
      omega
    | tooDeep => rfl

end Lines

section Typed
variable {b : Builder} (hb : b.Grown) {space : TypeSpace} {name : String} {start : EntityId}
  (hstart : space.find? b.build name = some start)
include hb hstart

theorem verdict_typeChain : Verdict b.build space start (b.build.typeChain start) := by
  have hspace : b.build.Sheltered space := fun _ _ ht => (Builder.entity_of_find? hb ht).2
  rw [typeChain]
  simpa using Line.start.verdict hspace hstart (Nat.zero_add chainLimit)

/-- All types of a chain are types of the namespace. -/
theorem found_of_typeChain {types : List EntityId} (h : b.build.typeChain start = .ok types) :
    ∀ t ∈ types, ∃ own, space.find? b.build own = some t := by
  have hverdict := verdict_typeChain hb hstart
  rw [h] at hverdict
  cases hverdict with
  | closed hline => exact hline.found hstart

end Typed

/-- **A chain is the longest line of types, if that has at most 64.** The chain of a type of a
namespace is found exactly if the line of its ancestors closes within 64 types, and is that line.
If a type among the first 64 names a parent that the namespace does not have, that is the fault;
if there are 65 types in a line, that is. All types of a chain are types of the namespace. -/
theorem typeChain_spec {b : Builder} (hb : b.Grown) {space : TypeSpace} {name : String}
    {start : EntityId} (hstart : space.find? b.build name = some start) :
    (∀ types, b.build.typeChain start = .ok types ↔ ∃ before last,
      types = before ++ [last] ∧ Line b.build space start before last ∧ types.length ≤ 64 ∧
        b.build.Closes space before last) ∧
    (∀ entity parent, b.build.typeChain start = .error (.unresolvableType entity parent) ↔
      ∃ before last unknown, Line b.build space start before last ∧
        (before ++ [last]).length ≤ 64 ∧ b.build.NamesParent last unknown ∧
        space.find? b.build unknown = none ∧ entity = (b.build.entity last).name ∧
        parent = some unknown) ∧
    (∀ type limit, b.build.typeChain start = .error (.inheritanceTooDeep type limit) ↔
      (∃ before last, Line b.build space start before last ∧ (before ++ [last]).length = 65) ∧
        type = name ∧ limit = 64) ∧
    (∀ f, b.build.typeChain start = .error f →
      (∃ entity parent, f = .unresolvableType entity parent) ∨
        ∃ type limit, f = .inheritanceTooDeep type limit) ∧
    ∀ types, b.build.typeChain start = .ok types →
      types.Nodup ∧ ∀ t ∈ types, ∃ own, space.find? b.build own = some t := by
  have hname := (Builder.entity_of_find? hb hstart).1
  have hverdict := verdict_typeChain hb hstart
  have hshort (before : List EntityId) (last : EntityId) :
      (before ++ [last]).length ≤ 64 ↔ before.length < chainLimit := by
    rw [List.length_append, List.length_singleton, Nat.add_one_le_iff, chainLimit]
  have hlong (before : List EntityId) (last : EntityId) :
      (before ++ [last]).length = 65 ↔ before.length = chainLimit := by
    rw [List.length_append, List.length_singleton, Nat.add_one_inj (b := 64), chainLimit]
  refine ⟨fun types => ⟨fun h => ?_, ?_⟩, fun entity parent => ⟨fun h => ?_, ?_⟩,
    fun type limit => ⟨fun h => ?_, ?_⟩, fun f h => ?_, fun types h => ?_⟩
  · rw [h] at hverdict
    cases hverdict with
    | closed hline hlt hcloses => exact ⟨_, _, rfl, hline, (hshort _ _).mpr hlt, hcloses⟩
  · rintro ⟨before, last, rfl, hline, hle, hcloses⟩
    exact hverdict.unique (.closed hline ((hshort _ _).mp hle) hcloses)
  · rw [h] at hverdict
    cases hverdict with
    | unknown hline hlt hparent hunknown =>
      exact ⟨_, _, _, hline, (hshort _ _).mpr hlt, hparent, hunknown, rfl, rfl⟩
  · rintro ⟨before, last, unknown, hline, hle, hparent, hunknown, rfl, rfl⟩
    exact hverdict.unique (.unknown hline ((hshort _ _).mp hle) hparent hunknown)
  · rw [h] at hverdict
    cases hverdict with
    | tooDeep hline heq => exact ⟨⟨_, _, hline, (hlong _ _).mpr heq⟩, hname, rfl⟩
  · rintro ⟨⟨before, last, hline, heq⟩, rfl, rfl⟩
    rw [← hname]
    exact hverdict.unique (.tooDeep hline ((hlong _ _).mp heq))
  · rw [h] at hverdict
    cases hverdict with
    | unknown => exact .inl ⟨_, _, rfl⟩
    | tooDeep => exact .inr ⟨_, _, rfl⟩
  · rw [h] at hverdict
    cases hverdict with
    | closed hline => exact ⟨hline.nodup, found_of_typeChain hb hstart h⟩

/-- Two types that extend each other, and a third one whose parent is missing. -/
def looped : Builder :=
  let b := (Builder.start.add root Key.componentTypes none).2
  let b := (b.add 1 "front" none).2
  let b := (b.add 2 Key.supertype (some (.string " back "))).2
  let b := (b.add 1 "back" none).2
  let b := (b.add 4 Key.supertype (some (.string "front"))).2
  let b := (b.add 1 "lost" none).2
  (b.add 6 Key.supertype (some (.string "nowhere"))).2

theorem grown_looped : looped.Grown := by
  refine .add _ _ (.add _ _ (.add _ _ (.add _ _ (.add _ _ (.add _ _ (.add _ _ .start ?_) ?_) ?_)
    ?_) ?_) ?_) ?_ <;> decide

theorem typeChain_spec_looped :
    TypeSpace.component.find? looped.build "front" = some 2 ∧
    TypeSpace.component.find? looped.build "lost" = some 6 ∧
    (∃ before last, [2, 4] = before ++ [last] ∧
      Line looped.build .component 2 before last ∧ looped.build.Closes .component before last) ∧
    ∃ before last, Line looped.build .component 6 before last ∧
      looped.build.NamesParent last "nowhere" := by
  have hfront : TypeSpace.component.find? looped.build "front" = some 2 := by decide
  have hlost : TypeSpace.component.find? looped.build "lost" = some 6 := by decide
  obtain ⟨hclosed, _⟩ := typeChain_spec grown_looped hfront
  obtain ⟨_, hunknown, _⟩ := typeChain_spec grown_looped hlost
  obtain ⟨before, last, heq, hline, _, hcloses⟩ := (hclosed [2, 4]).mp (by decide +kernel)
  obtain ⟨before', last', _, hline', _, hname, _, _, hnowhere⟩ :=
    (hunknown "lost" (some "nowhere")).mp (by decide +kernel)
  cases hnowhere
  exact ⟨hfront, hlost, ⟨before, last, heq, hline, hcloses⟩, before', last', hline', hname⟩

end EntityGraph
end Provision
