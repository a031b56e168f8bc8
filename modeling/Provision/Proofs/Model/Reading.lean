import Provision.Proofs.Model.Build
import Provision.Proofs.Number.Numeral

/-! Typed readings of properties.

A scalar may be quoted in a document or not; then it is a string or what its text spells. Readings
as integers, ports and truth values take both for the same value. Reading a property has three
outcomes once the types of the entity resolve: nothing where the property is absent or has no
value, the value, or a mismatch, which is told with the text of the value. A component reads its
properties as its entity does. -/
namespace Provision

/-- A scalar as it is read when it is quoted: the string of its text. -/
def Scalar.quoted (s : Scalar) : Scalar := .string s.text

namespace Reading

variable {α : Type}

/-! ### Quotes -/

/-- Quotes around a scalar make no difference to what is read. -/
def IgnoresQuotes (as : Reading α) : Prop := ∀ s x, as.read s = some x → as.read s.quoted = some x

theorem int64?_quoted {s : Scalar} {i : Int64} (h : int64? s = some i) :
    int64? s.quoted = some i := by
  cases s with
  | string s => exact h
  | integer j =>
    cases h
    rw [Scalar.quoted, Scalar.text, int64?, Numeral.trimChars_toString, Numeral.int64?_toString]
  | float x => cases h
  | boolean b => cases h

theorem ignoresQuotes_integer : integer.IgnoresQuotes := fun _ _ => int64?_quoted

theorem port_read_eq_bind (s : Scalar) : port.read s = (integer.read s).bind fun i =>
    if 0 ≤ i.toInt && i.toInt < 65536 then some (UInt16.ofNat i.toInt.toNat) else none := rfl

theorem ignoresQuotes_port : port.IgnoresQuotes := by
  intro s p h
  rw [port_read_eq_bind] at h ⊢
  obtain ⟨i, hi, hp⟩ := Option.bind_eq_some_iff.mp h
  rw [ignoresQuotes_integer s i hi, Option.bind_some, hp]

theorem ignoresQuotes_boolean : boolean.IgnoresQuotes := by
  intro s x h
  cases s with
  | string s => exact h
  | integer i => cases h
  | float x => cases h
  | boolean b =>
    cases h
    cases x <;> decide

/-- What is read as a port is the integer that is read, which neither wraps nor is cut off. -/
theorem port_read_eq_some {s : Scalar} {p : UInt16} :
    port.read s = some p ↔ ∃ i, integer.read s = some i ∧ i.toInt = p.toNat := by
  rw [port_read_eq_bind, Option.bind_eq_some_iff]
  refine exists_congr fun i => and_congr_right fun _ => ?_
  have hp := p.toNat_lt
  constructor
  · intro h
    split at h
    case isTrue hrange =>
      obtain ⟨hlow, hhigh⟩ := Bool.and_eq_true_iff.mp hrange
      have hlow := of_decide_eq_true hlow
      have hhigh := of_decide_eq_true hhigh
      cases h
      rw [UInt16.toNat_ofNat_of_lt' (by rw [UInt16.size]; omega)]
      omega
    case isFalse => cases h
  · intro h
    have hrange : 0 ≤ i.toInt ∧ i.toInt < 65536 := by omega
    have hnat : i.toInt.toNat = p.toNat := by omega
    simp only [hrange, decide_true, Bool.and_self, if_true, hnat, UInt16.ofNat_toNat]

theorem isSome_port_read {s : Scalar} : (port.read s).isSome ↔
    ∃ i, integer.read s = some i ∧ 0 ≤ i.toInt ∧ i.toInt ≤ 65535 := by
  rw [Option.isSome_iff_exists]
  simp only [port_read_eq_some]
  constructor
  · rintro ⟨p, i, hi, hp⟩
    have := p.toNat_lt
    exact ⟨i, hi, by omega, by omega⟩
  · rintro ⟨i, hi, hlow, hhigh⟩
    refine ⟨UInt16.ofNat i.toInt.toNat, i, hi, ?_⟩
    rw [UInt16.toNat_ofNat_of_lt' (by rw [UInt16.size]; omega)]
    omega

end Reading

/-! ### Properties of entities -/

namespace EntityGraph

variable {α : Type} {g : EntityGraph} {id : EntityId} {property : String} {as : Reading α}

/-- An entity whose types resolve has a property with a value, be it assigned or a default. -/
def HasValue (g : EntityGraph) (id : EntityId) (property : String) (v : Scalar) : Prop :=
  ∃ properties p, g.properties id = .ok properties ∧ properties.get? property = some p ∧
    p.value = some v

/-- What the reading of a property comes to if the types of the entity resolve. -/
structure ReadsProperty (g : EntityGraph) (id : EntityId) (property : String) (as : Reading α) :
    Prop where
  mismatch : ∀ entity name expected found,
    g.propertyAs id property as = .error (.typeMismatch entity name expected found) ↔
      ∃ v, g.HasValue id property v ∧ as.read v = none ∧ entity = (g.entity id).name ∧
        name = property ∧ expected = as.expected ∧ found = v.text
  value : ∀ x, g.propertyAs id property as = .ok (some x) ↔
    ∃ v, g.HasValue id property v ∧ as.read v = some x
  nothing : g.propertyAs id property as = .ok none ↔
    (∃ properties, g.properties id = .ok properties) ∧ ∀ v, ¬ g.HasValue id property v

/-- A chain of types that does not resolve is told as such. -/
theorem chainFrom_ne_typeMismatch {start : EntityId} {visited : List EntityId} {room : Nat}
    {t : EntityId} {entity name expected found : String} :
    g.chainFrom start visited room t ≠ .error (.typeMismatch entity name expected found) := by
  induction room generalizing visited t with
  | zero =>
    unfold chainFrom
    split <;> simp
  | succ room ih =>
    intro h
    unfold chainFrom at h
    split at h
    · cases h
    · rcases bind_eq_error.mp h with h | ⟨parent?, _, h⟩
      · unfold parentType? at h
        split at h
        · cases h
        · split at h <;> cases h
      · cases parent? with
        | none => cases h
        | some parent =>
          rcases bind_eq_error.mp h with h | ⟨_, _, h⟩
          · exact ih h
          · cases h

theorem properties_ne_typeMismatch {entity name expected found : String} :
    g.properties id ≠ .error (.typeMismatch entity name expected found) := by
  intro h
  rcases bind_eq_error.mp h with h | ⟨_, _, h⟩
  · unfold chainOf at h
    split at h
    · exact chainFrom_ne_typeMismatch h
    · cases h
  · cases h

theorem hasValue_iff {properties : OrderedMap String Property}
    (h : g.properties id = .ok properties) {v : Scalar} :
    g.HasValue id property v ↔ (properties.get? property).bind Property.value = some v := by
  rw [Option.bind_eq_some_iff]
  constructor
  · rintro ⟨_, p, hproperties, hp, hv⟩
    cases h.symm.trans hproperties
    exact ⟨p, hp, hv⟩
  · rintro ⟨p, hp, hv⟩
    exact ⟨properties, p, h, hp, hv⟩

theorem propertyAs_of_properties {properties : OrderedMap String Property}
    (h : g.properties id = .ok properties) : g.propertyAs id property as =
      readProperty (g.entity id).name properties property as := by
  rw [EntityGraph.propertyAs, h]
  rfl

/-- An entity that is a component reads its properties as the component does. -/
theorem propertyAs_ofEntity {c : Component} (h : Component.ofEntity g id = .ok c) :
    g.propertyAs id property as = c.read property as := by
  obtain ⟨types, htypes, h⟩ := bind_eq_ok.mp h
  cases h
  exact propertyAs_of_properties (bind_eq_ok.mpr ⟨types, htypes, rfl⟩)

/-- Where the types of an entity do not resolve, no property has a value and that is told. -/
theorem readsProperty_of_error {f : Fault} (h : g.properties id = .error f) :
    g.ReadsProperty id property as := by
  have hread : g.propertyAs id property as = .error f := by
    rw [EntityGraph.propertyAs, h]
    rfl
  have hvalue (v : Scalar) : ¬ g.HasValue id property v := by
    rintro ⟨_, _, hproperties, _⟩
    cases h.symm.trans hproperties
  refine ⟨fun entity name expected found => ?_, by simp [hread, hvalue], by simp [hread, h]⟩
  rw [hread]
  constructor
  · intro heq
    cases heq
    exact absurd h properties_ne_typeMismatch
  · rintro ⟨v, hv, _⟩
    exact absurd hv (hvalue v)

theorem readsProperty_of_none {properties : OrderedMap String Property}
    (h : g.properties id = .ok properties)
    (hnone : (properties.get? property).bind Property.value = none) :
    g.ReadsProperty id property as := by
  have hread : g.propertyAs id property as = .ok none := by
    rw [propertyAs_of_properties h, readProperty, hnone]
  have hvalue (v : Scalar) : ¬ g.HasValue id property v := by simp [hasValue_iff h, hnone]
  exact ⟨by simp [hread, hvalue], by simp [hread, hvalue], by simp [hread, hvalue, h]⟩

theorem readsProperty_of_some {properties : OrderedMap String Property} {v : Scalar}
    (h : g.properties id = .ok properties)
    (hsome : (properties.get? property).bind Property.value = some v) :
    g.ReadsProperty id property as := by
  have hvalue (w : Scalar) : g.HasValue id property w ↔ w = v := by
    rw [hasValue_iff h, hsome, Option.some.injEq, eq_comm]
  cases has : as.read v with
  | none =>
    have hread : g.propertyAs id property as =
        .error (.typeMismatch (g.entity id).name property as.expected v.text) := by
      rw [propertyAs_of_properties h, readProperty, hsome]
      simp only [has]
    refine ⟨fun entity name expected found => ?_, by simp [hread, hvalue, has],
      by simp [hread, hvalue]⟩
    simp only [hread, hvalue, exists_eq_left, has, Except.error.injEq, Fault.typeMismatch.injEq,
      true_and, @eq_comm String]
  | some x =>
    have hread : g.propertyAs id property as = .ok (some x) := by
      rw [propertyAs_of_properties h, readProperty, hsome]
      simp only [has]
    exact ⟨by simp [hread, hvalue, has], by simp [hread, hvalue, has], by simp [hread, hvalue]⟩

theorem readsProperty (g : EntityGraph) (id : EntityId) (property : String) (as : Reading α) :
    g.ReadsProperty id property as := by
  cases h : g.properties id with
  | error f => exact readsProperty_of_error h
  | ok properties =>
    cases hv : (properties.get? property).bind Property.value with
    | none => exact readsProperty_of_none h hv
    | some v => exact readsProperty_of_some h hv

end EntityGraph

/-- **Typed readings ignore quotes, and only a value that is there can be of the wrong type.**
Integers, ports and truth values are read from their texts as from themselves. A port is read
exactly if the integer is one from 0 to 65535, and is that number. Reading a property of an entity
is a mismatch exactly if the property has a value there that is not read. -/
theorem typed_readings :
    Reading.integer.IgnoresQuotes ∧ Reading.port.IgnoresQuotes ∧ Reading.boolean.IgnoresQuotes ∧
      (∀ s, (Reading.port.read s).isSome ↔
        ∃ i, Reading.integer.read s = some i ∧ 0 ≤ i.toInt ∧ i.toInt ≤ 65535) ∧
      (∀ s p, Reading.port.read s = some p →
        ∃ i, Reading.integer.read s = some i ∧ i.toInt = p.toNat) ∧
      ∀ {α : Type} (as : Reading α) (g : EntityGraph) (id : EntityId) (property : String),
        g.ReadsProperty id property as ∧
          ∀ c, Component.ofEntity g id = .ok c → g.propertyAs id property as = c.read property as :=
  ⟨Reading.ignoresQuotes_integer, Reading.ignoresQuotes_port, Reading.ignoresQuotes_boolean,
    fun _ => Reading.isSome_port_read, fun _ _ => Reading.port_read_eq_some.mp,
    fun as g id property => ⟨g.readsProperty id property as, fun _ => EntityGraph.propertyAs_ofEntity⟩⟩

theorem typed_readings_extremes :
    Reading.integer.read (.string "-9223372036854775808") = some (-9223372036854775808) ∧
      Reading.port.read (.string "65535") = some 65535 ∧
      Reading.boolean.read (.string "false") = some false ∧
      ¬ (Reading.port.read (.integer 65536)).isSome := by
  obtain ⟨hinteger, hport, hboolean, hrange, _⟩ := typed_readings
  refine ⟨?_, ?_, ?_, ?_⟩
  · exact hinteger (.integer (-9223372036854775808)) _ rfl
  · exact hport (.integer 65535) 65535 (by decide)
  · exact hboolean (.boolean false) _ rfl
  · rw [hrange]
    rintro ⟨i, hi, _, hhigh⟩
    cases hi
    exact absurd hhigh (by decide)

example : Reading.integer.read (.string " +7\n") = some 7 ∧
    Reading.integer.read (.string "9223372036854775808") = none := by decide +kernel

end Provision
