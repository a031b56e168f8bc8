import Provision.Proofs.Azure.Commands
import Provision.Proofs.Model.Precedence

/-! The variables of a component.

A component's variable for a property is named by both, reduced to identifiers and in capitals.
Of several properties of which the names are reduced to one, only the value of the last is left. A
name can be that of a variable unless the component's starts with a digit. -/
namespace Provision
open Shell (isName isNameChar isNameStart)

/-! ### Capitals -/

namespace Text

theorem isDigit_of_isAlpha {c : Char} (h : c.isAlpha = true) : c.isDigit = false := by
  simp only [Char.isDigit, Char.isAlpha, Char.isUpper, Char.isLower, UInt32.le_iff_toNat_le,
    ge_iff_le, Bool.or_eq_true, Bool.and_eq_true, decide_eq_true_eq, Bool.and_eq_false_iff,
    decide_eq_false_iff_not] at h ⊢
  simp at h ⊢
  omega

theorem isDigit_toLower (c : Char) : c.toLower.isDigit = c.isDigit := by
  by_cases h : c.isUpper
  · have halpha : c.isAlpha = true := by simp [Char.isAlpha, h]
    rw [isDigit_of_isAlpha halpha, isDigit_of_isAlpha (by simpa using halpha)]
  · rw [Char.toLower_eq_of_not_isUpper h]

theorem isDigit_toUpper (c : Char) : c.toUpper.isDigit = c.isDigit := by
  by_cases h : c.isLower
  · have halpha : c.isAlpha = true := by simp [Char.isAlpha, h]
    rw [isDigit_of_isAlpha halpha, isDigit_of_isAlpha (by simpa using halpha)]
  · rw [Char.toUpper_eq_of_not_isLower h]

theorem toLower_identifierChar (c : Char) : (identifierChar c).toLower = identifierChar c := by
  unfold identifierChar
  split
  · exact Char.toLower_toLower_eq_toLower c
  · rfl

theorem isDigit_identifierChar (c : Char) : (identifierChar c).isDigit = c.isDigit := by
  unfold identifierChar
  split
  case isTrue => exact isDigit_toLower c
  case isFalse h =>
    have hdigit : c.isDigit = false := by
      rw [← isDigit_toLower, ← Bool.not_eq_true]
      exact fun hdigit => h (by simp [isIdentifierChar, hdigit])
    exact hdigit.symm

/-- Capitals take nothing away from an identifier. -/
theorem lower_upper_identifier (s : String) : lower (upper (identifier s)) = identifier s := by
  simp [lower, upper, identifier, Function.comp_def, toLower_identifierChar]

theorem isNameChar_toUpper {c : Char} (h : isNameChar c = true) :
    isNameChar c.toUpper = true := by
  simp only [isNameChar, Char.isAlphanum, Bool.or_eq_true, Char.isAlpha_toUpper_eq_isAlpha,
    isDigit_toUpper] at h ⊢
  refine h.imp_right fun h => ?_
  rw [beq_iff_eq.mp h]
  rfl

end Text

/-- A name cannot start with a digit. -/
theorem isNameStart_eq {c : Char} (h : isNameChar c = true) : isNameStart c = !c.isDigit := by
  simp only [isNameChar, Char.isAlphanum, Bool.or_eq_true, beq_iff_eq] at h
  rcases h with (halpha | hdigit) | rfl
  · simp [isNameStart, halpha, Text.isDigit_of_isAlpha halpha]
  · have halpha : c.isAlpha = false := by
      rw [← Bool.not_eq_true]
      intro halpha
      simp [Text.isDigit_of_isAlpha halpha] at hdigit
    have hsign : c ≠ '_' := by
      rintro rfl
      cases hdigit
    simp [isNameStart, halpha, hdigit, hsign]
  · rfl

theorem isName_eq_isNameStart {c : Char} {cs : List Char}
    (h : (c :: cs).all isNameChar = true) : isName (c :: cs) = isNameStart c := by
  rw [List.all_cons, Bool.and_eq_true] at h
  simp [isName, h.2]

namespace Component

theorem toList_variableName (c : Component) (property : String) :
    (c.variableName property).toList =
      c.identifier.toList.map Char.toUpper ++
        '_' :: (Text.identifier property).toList.map Char.toUpper := by
  simp [variableName, Text.upper]

/-- Two properties share a variable exactly if their names are reduced to one identifier. -/
theorem variableName_eq_iff (c : Component) (p q : String) :
    c.variableName p = c.variableName q ↔ Text.identifier p = Text.identifier q := by
  constructor
  · intro h
    have hupper : Text.upper (Text.identifier p) = Text.upper (Text.identifier q) := by
      have hchars := congrArg String.toList h
      rw [toList_variableName, toList_variableName, List.append_cancel_left_eq,
        List.cons.injEq] at hchars
      exact congrArg String.ofList hchars.2
    rw [← Text.lower_upper_identifier p, hupper, Text.lower_upper_identifier]
  · intro h
    rw [variableName, variableName, h]

theorem isNameChar_variableName (c : Component) (property : String) :
    (c.variableName property).toList.all isNameChar = true := by
  have hpart (name : String) :
      ((Text.identifier name).toList.map Char.toUpper).all isNameChar = true := by
    rw [List.all_map, List.all_eq_true]
    exact fun d hd => Text.isNameChar_toUpper (Azure.isNameChar_of_mem_identifier d hd)
  have hsign : isNameChar '_' = true := by decide
  rw [toList_variableName, List.all_append, List.all_cons, identifier, hpart, hpart, hsign]
  rfl

/-- A name can be that of a variable unless the component's starts with a digit. -/
theorem isName_variableName (c : Component) (property : String) :
    isName (c.variableName property).toList = true ↔
      ∀ d ∈ c.name.toList.head?, d.isDigit = false := by
  have hall := c.isNameChar_variableName property
  rw [toList_variableName, identifier, Text.identifier, String.toList_ofList] at hall ⊢
  cases hname : c.name.toList with
  | nil =>
    rw [hname] at hall
    rw [List.map_nil, List.map_nil, List.nil_append] at hall ⊢
    rw [isName_eq_isNameStart hall]
    simp [isNameStart]
  | cons d ds =>
    rw [hname] at hall
    rw [List.map_cons, List.map_cons, List.cons_append] at hall ⊢
    rw [isName_eq_isNameStart hall, isNameStart_eq (List.all_eq_true.mp hall _ List.mem_cons_self),
      Text.isDigit_toUpper, Text.isDigit_identifierChar]
    simp

/-- The values of properties that have one. -/
theorem mem_propertyTexts (c : Component) (name value : String) :
    (name, value) ∈ c.propertyTexts.toList ↔
      ∃ p v, c.properties.get? name = some p ∧ p.value = some v ∧ v.text = value :=
  Property.mem_propertyTexts c.properties name value

theorem toList_environment (c : Component) :
    c.environment.toList = c.propertyTexts.toList.map (fun p => (c.variableName p.1, p.2)) ↔
      (c.propertyTexts.keys.map Text.identifier).Nodup := by
  have hkeys : ((c.propertyTexts.toList.map fun p => (c.variableName p.1, p.2)).map
      Prod.fst).Nodup ↔ (c.propertyTexts.keys.map Text.identifier).Nodup := by
    rw [OrderedMap.keys, List.map_map, List.map_map]
    simp only [List.Nodup, List.pairwise_map, Function.comp_apply, ne_eq, variableName_eq_iff]
    rfl
  rw [← hkeys]
  refine ⟨fun h => ?_, fun h => OrderedMap.toList_ofList h⟩
  rw [← h]
  exact c.environment.nodup

theorem keys_environment (c : Component) :
    c.environment.keys = (c.propertyTexts.keys.map c.variableName).eraseDups := by
  rw [environment, OrderedMap.keys_ofList, List.map_map, OrderedMap.keys, List.map_map]
  rfl

/-- The variables can be set unless the component's name starts with a digit. -/
theorem isName_of_mem_environment (c : Component) :
    (∀ key ∈ c.environment.keys, isName key.toList = true) ↔
      c.propertyTexts.keys = [] ∨ ∀ d ∈ c.name.toList.head?, d.isDigit = false := by
  rw [keys_environment]
  simp only [List.mem_eraseDups, List.forall_mem_map, isName_variableName]
  cases c.propertyTexts.keys with
  | nil => simp
  | cons name rest =>
    exact ⟨fun h => .inr (h name List.mem_cons_self), fun h _ _ => h.resolve_left nofun⟩

/-- The last element of a list is the one that it is split at, or behind that one. -/
theorem concat_eq_append_cons {α : Type} {l before after : List α} {x a : α} :
    l ++ [x] = before ++ a :: after ↔
      (after = [] ∧ l = before ∧ x = a) ∨
        ∃ rest, after = rest ++ [x] ∧ l = before ++ a :: rest := by
  rcases List.eq_nil_or_concat' after with rfl | ⟨rest, y, rfl⟩
  · simp
  · rw [← List.cons_append, ← List.append_assoc, List.append_singleton_inj]
    constructor
    · rintro ⟨rfl, rfl⟩
      exact .inr ⟨rest, rfl, rfl⟩
    · rintro (⟨hnil, _⟩ | ⟨rest', hrest, rfl⟩)
      · simp at hnil
      · obtain ⟨rfl, rfl⟩ := List.append_singleton_inj.mp hrest
        exact ⟨rfl, rfl⟩

/-- A variable has the value of the last of its properties. -/
theorem get?_environment (c : Component) (key value : String) :
    c.environment.get? key = some value ↔ ∃ before name after,
      c.propertyTexts.toList = before ++ (name, value) :: after ∧ c.variableName name = key ∧
        ∀ e ∈ after, c.variableName e.1 ≠ key := by
  rw [environment, OrderedMap.get?_ofList]
  induction c.propertyTexts.toList using List.reverseRecOn with
  | nil => simp [OrderedMap.lookup]
  | append_singleton l x ih =>
    rw [List.map_append, List.reverse_append, List.map_singleton, List.reverse_singleton,
      List.singleton_append, OrderedMap.lookup]
    simp only [concat_eq_append_cons]
    by_cases hx : c.variableName x.1 = key
    · rw [if_pos hx, Option.some.injEq]
      constructor
      · rintro rfl
        exact ⟨l, x.1, [], .inl ⟨rfl, rfl, rfl⟩, hx, fun _ he => absurd he List.not_mem_nil⟩
      · rintro ⟨before, name, after, ⟨_, _, rfl⟩ | ⟨rest, rfl, _⟩, _, hafter⟩
        · rfl
        · exact absurd hx (hafter x (by simp))
    · rw [if_neg hx, ih]
      constructor
      · rintro ⟨before, name, after, hsplit, hname, hafter⟩
        refine ⟨before, name, after ++ [x], .inr ⟨after, rfl, hsplit⟩, hname, fun e he => ?_⟩
        rcases List.mem_append.mp he with he | he
        · exact hafter e he
        · rwa [List.mem_singleton.mp he]
      · rintro ⟨before, name, after, ⟨_, _, rfl⟩ | ⟨rest, rfl, hsplit⟩, hname, hafter⟩
        · exact absurd hname hx
        · exact ⟨before, name, rest, hsplit, hname, fun e he =>
            hafter e (List.mem_append_left _ he)⟩

/-- **Each property that has a value has a variable of its own exactly if no two of their names
are reduced to one identifier, and all variables can be set exactly if the component's name does
not start with a digit.** A variable has the value of the last of its properties. -/
theorem environment_encoded (c : Component) :
    (∀ name value, (name, value) ∈ c.propertyTexts.toList ↔
      ∃ p v, c.properties.get? name = some p ∧ p.value = some v ∧ v.text = value) ∧
    c.environment.keys = (c.propertyTexts.keys.map c.variableName).eraseDups ∧
    (∀ key value, c.environment.get? key = some value ↔ ∃ before name after,
      c.propertyTexts.toList = before ++ (name, value) :: after ∧ c.variableName name = key ∧
        ∀ e ∈ after, c.variableName e.1 ≠ key) ∧
    (∀ p q, c.variableName p = c.variableName q ↔ Text.identifier p = Text.identifier q) ∧
    (c.environment.toList = c.propertyTexts.toList.map (fun e => (c.variableName e.1, e.2)) ↔
      (c.propertyTexts.keys.map Text.identifier).Nodup) ∧
    (∀ p, (c.variableName p).toList.all isNameChar = true) ∧
    ((∀ key ∈ c.environment.keys, isName key.toList = true) ↔
      c.propertyTexts.keys = [] ∨ ∀ d ∈ c.name.toList.head?, d.isDigit = false) := by
  exact ⟨c.mem_propertyTexts, c.keys_environment, c.get?_environment, c.variableName_eq_iff,
    c.toList_environment, c.isNameChar_variableName, c.isName_of_mem_environment⟩

end Component

/-- An application whose name starts with a digit, with two properties that have one variable. -/
def firstDocument : Yaml.Value :=
  BuiltIn.mapping
    [(Key.components, BuiltIn.mapping
        [("vm", BuiltIn.mapping [(Key.type, .string "compute")]),
          ("1st", BuiltIn.mapping
            [(Key.type, .string "software_component"),
              (Key.properties, BuiltIn.mapping
                [("db-url", .string "a"), ("db_url", .string "b")]),
              (Key.operations, BuiltIn.mapping [("start", .string "start.sh")]),
              (Key.relations, .sequence [BuiltIn.mapping [("hosted_on", .string "vm")]])])])]

/-- One of two values is lost, and the other one's variable is taken for a program. -/
theorem variable_lost : ∃ g model, ∃ template : Azure.Template, ∃ p w',
    EntityGraph.ofValue true firstDocument = .ok g ∧ Model.build "first" g = .ok model ∧
    ((Azure.lifecycle (webJob model)).run .idle).run {} = ((.ok (), p), w') ∧
    (webJob model).Delivers [(Azure.templateFile model, template.toJson.pretty)] w' ∧
    (model.topology.component 1).propertyTexts.toList = [("db-url", "a"), ("db_url", "b")] ∧
    (model.topology.component 1).environment.toList = [("1ST_DB_URL", "b")] ∧
    isName "1ST_DB_URL".toList = false ∧
    ∃ command,
      some command ∈ (template.resources.filter Azure.isExtension).map Azure.commandOf? ∧
      Shell.read? command =
        some [("", ⟨machineVariables, ["1ST_DB_URL=b", "sh", "1st_start.sh"]⟩)] := by
  have hfirst : (((EntityGraph.ofValue true firstDocument).mapError
      (.unreadableModel "first.yaml") >>= Model.build "first").map fun m =>
        [succeeds Azure.lifecycle m, m.topology.hostingOrder.toOption = some [0, 1],
          m.topology.computesOf [0, 1] = [0], m.topology.scriptsOn [0, 1] 0 ≠ [],
          (m.topology.component 1).propertyTexts.toList = [("db-url", "a"), ("db_url", "b")],
          (m.topology.component 1).environment.toList = [("1ST_DB_URL", "b")],
          Shell.read? (" && ".intercalate ((m.topology.scriptsOn [0, 1] 0).map
            (Azure.commandFor m.topology))) =
              some [("", ⟨machineVariables, ["1ST_DB_URL=b", "sh", "1st_start.sh"]⟩)]]) =
      .ok (List.replicate 7 true) := by
    decide +kernel
  obtain ⟨g, model, hg, hbuild, hall⟩ := exists_model_of_map hfirst
  simp only [List.replicate, List.cons.injEq, decide_eq_true_eq, toOption_eq_some, and_true]
    at hall
  obtain ⟨hsucceeds, horder, hcomputes, hsome, htexts, henvironment, hread⟩ := hall
  have hjob : Model.build "first" g = .ok (webJob model).model := hbuild
  obtain ⟨template, p, w', hrun, hdelivers, hextensions⟩ :=
    Azure.exists_template hjob horder hsucceeds
  exact ⟨g, model, template, p, w', hg, hbuild, hrun, hdelivers, htexts, henvironment,
    by decide +kernel, _, hextensions.commandsFor.mem (by simp [webJob, hcomputes]) hsome, hread⟩

end Provision
