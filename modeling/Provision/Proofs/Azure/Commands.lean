import Provision.Proofs.Inputs
import Provision.Proofs.Shell.Plain

/-! The commands of an extension, as a shell reads them.

A value stands between single quotes. Each quote in it ends the quoted part, comes by itself
behind a backslash, and starts another one, so that a value is one word whatever it consists of,
and the variables of a script are set and nothing else happens. The name of a script is not
quoted: a script whose name leaves a quote open makes the next one's values end where they
should begin. -/
namespace Provision.Azure
open Shell

/-! ### Values -/

/-- A character of a value between single quotes. -/
def quotedChar (c : Char) : List Char := if c = '\'' then ['\'', '\\', '\'', '\''] else [c]

theorem toList_shellQuote (value : String) :
    (shellQuote value).toList = '\'' :: (value.toList.flatMap quotedChar ++ ['\'']) := by
  have hchar (c : Char) :
      (if c = '\'' then "'\\''" else c.toString).toList = quotedChar c := by
    unfold quotedChar
    split <;> simp
  simp only [shellQuote, String.toList_append, String.toList_join, List.flatMap_map, hchar]
  rfl

/-- Quotes and all, each character of a value becomes one letter. -/
theorem scan_quotedChars (cs : List Char) (letters : Word) :
    State.scan { place := .word letters (some .single) } (cs.flatMap quotedChar) =
      some ([], { place := .word (letters ++ quoted cs) (some .single) }) := by
  induction cs generalizing letters with
  | nil => simp [scanBy, quoted]
  | cons c cs ih =>
    have hchar : State.scan { place := .word letters (some .single) } (quotedChar c) =
        some ([], { place := .word (letters ++ [⟨c, true⟩]) (some .single) }) := by
      unfold quotedChar
      split
      case isTrue heq =>
        subst heq
        simp [scanBy, State.step, State.bareStep, State.escapedStep]
      case isFalse hne =>
        simp [scanBy, State.step, hne]
    rw [List.flatMap_cons, State.scan_append_of_scan hchar, ih]
    simp [quoted]

/-- A value goes on with the word that it stands in. -/
theorem scan_shellQuote {s : Shell.State} (hs : s.Open) (value : String) :
    s.scan (shellQuote value).toList = some (s.spell (quoted value.toList) none) := by
  have hopen : s.scan ['\''] = some (s.spell [] (some .single)) := by
    have hstep : s.step '\'' = some (s.spell [] (some .single)) := State.step_of_open hs '\''
    simp [scanBy, hstep]
  have hclose (letters : Word) : State.scan { place := .word letters (some .single) } ['\''] =
      some ([], { place := .word letters none }) := by
    simp [scanBy, State.step]
  rw [toList_shellQuote, ← List.singleton_append, State.scan_append_of_scan hopen, State.spell,
    State.scan_append_of_scan (scan_quotedChars _ _), hclose]
  simp

/-! ### Variables -/

/-- A name and the sign behind it start a word. -/
theorem scan_name {name : String} (h : isName name.toList = true) :
    Shell.State.scan {} (name ++ "=").toList =
      some ([], { place := .word (bare name.toList ++ [⟨'=', false⟩]) none }) := by
  cases hchars : name.toList with
  | nil =>
    rw [hchars] at h
    cases h
  | cons c cs =>
    rw [hchars] at h
    have hrest : ∀ d ∈ cs ++ ['='], isOrdinary d = true := by
      intro d hd
      rcases List.mem_append.mp hd with hd | hd
      · exact isOrdinary_of_isNameChar (isNameChar_of_isName h d (List.mem_cons_of_mem _ hd))
      · cases List.mem_singleton.mp hd
        decide
    have hscan := State.scan_start (s := {}) ⟨rfl, trivial⟩
      (startsWord_of_isNameChar (isNameChar_of_isName h c List.mem_cons_self)) hrest
    rw [String.toList_append, hchars, show "=".toList = ['='] by decide, List.cons_append, hscan]
    simp [bare]

theorem scan_assignment {e : String × String} (h : isName e.1.toList = true) :
    State.scan {} (e.1 ++ "=" ++ shellQuote e.2 ++ " ").toList =
      some ([.word (assignmentWord e)], {}) := by
  have hvalue := scan_shellQuote
    (s := { place := .word (bare e.1.toList ++ [⟨'=', false⟩]) none }) ⟨rfl, trivial⟩ e.2
  have hblank := State.scan_blank (s := { place := .word (assignmentWord e) none }) ⟨rfl, trivial⟩
  have hword : bare e.1.toList ++ [⟨'=', false⟩] ++ quoted e.2.toList = assignmentWord e := by
    simp [assignmentWord]
  rw [State.spell_word, hword] at hvalue
  rw [String.toList_append, String.toList_append, List.append_assoc,
    State.scan_append_of_scan (scan_name h), State.scan_append_of_scan hvalue,
    show " ".toList = [' '] by decide, hblank]
  rfl

/-- What is put in front of a command sets its variables and is nothing else. -/
theorem scan_assignments {environment : OrderedMap String String}
    (h : ∀ e ∈ environment.toList, isName e.1.toList = true) :
    State.scan {} (assignments environment).toList =
      some (environment.toList.map (.word ∘ assignmentWord), {}) := by
  unfold assignments
  generalize environment.toList = values at h ⊢
  induction values with
  | nil => rfl
  | cons e rest ih =>
    obtain ⟨he, hrest⟩ := List.forall_mem_cons.mp h
    rw [List.map_cons, String.join_cons, String.toList_append,
      State.scan_append_of_scan (scan_assignment he), ih hrest]
    rfl

/-- **The variables that are put in front of a text are those of its first command.** -/
theorem read?_assignments {environment : OrderedMap String String}
    (h : ∀ e ∈ environment.toList, isName e.1.toList = true) (text : String) :
    read? (assignments environment ++ text) =
      (read? text).map (assigning environment.toList) :=
  read?_assigning (scan_assignments h) h text

/-! ### Scripts -/

section Scripts
variable {t : Topology}

/-- The command of a script without its variables. -/
def callOf (t : Topology) (s : PlacedScript) : String :=
  "sh " ++ scriptFile (t.component s.component) s.artifact

/-- The variables of a script have names that a shell can set. -/
def Settable (t : Topology) (s : PlacedScript) : Prop :=
  ∀ e ∈ (t.stackedEnvironment s.component).toList, isName e.1.toList = true

/-- The characters of the name of a copy stand for themselves. -/
def Plain (t : Topology) (s : PlacedScript) : Prop :=
  ∀ c ∈ (scriptFile (t.component s.component) s.artifact).toList, isOrdinary c = true

/-- What a shell should do for a script. -/
def scriptCommand (t : Topology) (s : PlacedScript) : Command where
  assignments := (t.stackedEnvironment s.component).toList
  words := ["sh", scriptFile (t.component s.component) s.artifact]

theorem commandFor_eq (t : Topology) (s : PlacedScript) :
    commandFor t s = assignments (t.stackedEnvironment s.component) ++ callOf t s :=
  String.append_assoc

/-- The name of a component can be a part of the name of a variable. -/
theorem isNameChar_of_mem_identifier {name : String} :
    ∀ c ∈ (Text.identifier name).toList, isNameChar c = true := by
  unfold Text.identifier
  rw [String.toList_ofList]
  refine List.forall_mem_map.mpr fun c _ => ?_
  have hidentifier := Text.isIdentifierChar_identifierChar c
  simp only [Text.isIdentifierChar, isNameChar, Char.isAlphanum, Char.isAlpha,
    Bool.or_eq_true] at hidentifier ⊢
  tauto

theorem toList_scriptFile (c : Component) (a : Artifact) :
    (scriptFile c a).toList = c.identifier.toList ++ '_' :: a.fileName.toList := by
  simp [scriptFile]

/-- The name of a copy starts with the component's name or with the sign behind it. -/
theorem exists_toList_scriptFile (c : Component) (a : Artifact) :
    ∃ d ds, (scriptFile c a).toList = d :: ds ∧ isNameChar d = true := by
  rw [toList_scriptFile]
  cases hname : c.identifier.toList with
  | nil => exact ⟨'_', _, rfl, by decide⟩
  | cons d ds => exact ⟨d, _, rfl, isNameChar_of_mem_identifier d (hname ▸ List.mem_cons_self)⟩

theorem read?_callOf (t : Topology) (s : PlacedScript) :
    read? (callOf t s) = some [("", { words := (scriptCommand t s).words })] ↔ Plain t s := by
  obtain ⟨c, cs, hfile, hc⟩ :=
    exists_toList_scriptFile (t.component s.component) s.artifact
  exact read?_plain hfile (startsWord_of_isNameChar hc)

theorem closed_callOf {s : PlacedScript} (h : Plain t s) : Closed (callOf t s) := by
  obtain ⟨c, cs, hfile, hc⟩ :=
    exists_toList_scriptFile (t.component s.component) s.artifact
  exact ⟨_, _, scan_plain hfile (startsWord_of_isNameChar hc) h, rfl, trivial⟩

theorem closed_commandFor {s : PlacedScript} (hset : Settable t s) (h : Closed (callOf t s)) :
    Closed (commandFor t s) := by
  obtain ⟨tokens, last, hscan, hopen⟩ := h
  rw [commandFor_eq]
  unfold Closed
  rw [String.toList_append, State.scan_append_of_scan (scan_assignments hset), hscan]
  exact ⟨_, last, rfl, hopen⟩

/-- Scripts whose names leave nothing open are read one by one, each with its variables. -/
theorem read?_commandsFor {scripts : List PlacedScript} (hne : scripts ≠ [])
    (hset : ∀ s ∈ scripts, Settable t s)
    (hclosed : ∀ s ∈ scripts.dropLast, Closed (callOf t s)) :
    read? (conjunction.intercalate (scripts.map (commandFor t))) =
      (scripts.mapM fun s => (read? (callOf t s)).map
        (assigning (t.stackedEnvironment s.component).toList)).map joined := by
  have hnone : scripts.map (commandFor t) ≠ [] := by simpa using hne
  have hclosed : ∀ text ∈ (scripts.map (commandFor t)).dropLast, Closed text := by
    rw [← List.map_dropLast]
    refine List.forall_mem_map.mpr fun s hs => ?_
    exact closed_commandFor (hset s (List.mem_of_mem_dropLast hs)) (hclosed s hs)
  have hread : ∀ s ∈ scripts, read? (commandFor t s) = (read? (callOf t s)).map
      (assigning (t.stackedEnvironment s.component).toList) := fun s hs => by
    rw [commandFor_eq, read?_assignments (hset s hs)]
  rw [read?_intercalate hnone hclosed, List.mapM_map, Function.comp_def, mapM_congr hread]

/-- Scripts with plain names are run one after the other, each with its variables. -/
theorem read?_commandsFor_plain {scripts : List PlacedScript} (hne : scripts ≠ [])
    (hset : ∀ s ∈ scripts, Settable t s) (hplain : ∀ s ∈ scripts, Plain t s) :
    read? (conjunction.intercalate (scripts.map (commandFor t))) =
      some (joined (scripts.map fun s => [("", scriptCommand t s)])) := by
  have hread : ∀ s ∈ scripts, (read? (callOf t s)).map
      (assigning (t.stackedEnvironment s.component).toList) =
        some [("", scriptCommand t s)] := fun s hs => by
    rw [(read?_callOf t s).mpr (hplain s hs)]
    simp [assigning, Command.assigning, scriptCommand]
  rw [read?_commandsFor hne hset fun s hs => closed_callOf (hplain s (List.mem_of_mem_dropLast hs)),
    mapM_congr hread]
  exact congrArg _ List.mapM_pure

end Scripts

/-! ### The run -/

section Run
variable {σ : Type} {job : Job (StateM σ)}

/-- How a shell reads the command for some scripts whose variables have names that can be set. -/
structure ReadFor (t : Topology) (scripts : List PlacedScript) (command : String) : Prop where
  /-- Only the name of a script can let the next one's values be read as anything else. -/
  apart : (∀ s ∈ scripts.dropLast, Closed (callOf t s)) →
    read? command = (scripts.mapM fun s => (read? (callOf t s)).map
      (assigning (t.stackedEnvironment s.component).toList)).map joined
  plain : (∀ s ∈ scripts, Plain t s) →
    read? command = some (joined (scripts.map fun s => [("", scriptCommand t s)]))

/-- **A value is read as one word that is equal to it, and the variables in front of a command are
set in their order, whatever their values are.** In a run that succeeds the commands of an
extension are read one by one, each with its own variables, if the names of the scripts leave no
quote open. With plain names the commands are exactly those of the scripts, and each needs the
one before it. -/
theorem values_read_whole {name : String} {g : EntityGraph}
    (hbuild : Model.build name g = .ok job.model) :
    (∀ value, tokens? (shellQuote value) = some [.word (quoted value.toList)]) ∧
    (∀ environment : OrderedMap String String,
      (∀ e ∈ environment.toList, isName e.1.toList = true) → ∀ text,
        read? (assignments environment ++ text) =
          (read? text).map (assigning environment.toList)) ∧
    ∀ w w' p, ((lifecycle job).run .idle).run w = ((.ok (), p), w') →
      ∃ order template, job.model.topology.hostingOrder = .ok order ∧
        CommandsFor job.model.topology order template ∧
        job.Delivers [(templateFile job.model, template.toJson.pretty)] w' ∧
        ∀ c ∈ job.model.topology.computesOf order,
          let scripts := job.model.topology.scriptsOn order c
          scripts ≠ [] → (∀ s ∈ scripts, Settable job.model.topology s) →
            ReadFor job.model.topology scripts
              (" && ".intercalate (scripts.map (commandFor job.model.topology))) := by
  refine ⟨fun value => ?_, fun environment h => read?_assignments h, fun w w' p h => ?_⟩
  · exact tokens?_of_scan (scan_shellQuote ⟨rfl, trivial⟩ value) ⟨rfl, trivial⟩
  · obtain ⟨order, template, horder, hextensions, hdelivers⟩ :=
      extensionsFor_of_run (Model.built_of_build hbuild) h
    exact ⟨order, template, horder, hextensions.commandsFor, hdelivers, fun c _ hne hset =>
      ⟨read?_commandsFor hne hset, read?_commandsFor_plain hne hset⟩⟩

theorem CommandsFor.mem {t : Topology} {order : List ComponentId} {template : Template}
    (h : CommandsFor t order template) {c : ComponentId} (hc : c ∈ t.computesOf order)
    (hne : t.scriptsOn order c ≠ []) :
    some (" && ".intercalate ((t.scriptsOn order c).map (commandFor t))) ∈
      (template.resources.filter isExtension).map commandOf? :=
  h.mem_iff.mpr (List.mem_map.mpr ⟨c, List.mem_filter.mpr ⟨hc, decide_eq_true hne⟩, rfl⟩)

/-- What a run in memory leaves behind that is computed to succeed. -/
theorem exists_template {job : Job Memory.M} {name : String} {g : EntityGraph}
    {order : List ComponentId} (hbuild : Model.build name g = .ok job.model)
    (horder : job.model.topology.hostingOrder = .ok order)
    (hok : (((lifecycle job).run .idle).run {}).1.1.isOk = true) :
    ∃ template : Template, ∃ p w', ((lifecycle job).run .idle).run {} = ((.ok (), p), w') ∧
      job.Delivers [(templateFile job.model, template.toJson.pretty)] w' ∧
      ExtensionsFor job order template := by
  obtain ⟨p, w', hrun⟩ := exists_run hok
  obtain ⟨_, template, hsame, hextensions, hdelivers⟩ :=
    extensionsFor_of_run (Model.built_of_build hbuild) hrun
  cases horder.symm.trans hsame
  exact ⟨template, p, w', hrun, hdelivers, hextensions⟩

/-- An application with one property, some scripts and a machine. -/
def scriptedDocument (value : String) (scripts : List (String × String)) : Yaml.Value :=
  BuiltIn.mapping
    [(Key.components, BuiltIn.mapping
        [("vm", BuiltIn.mapping [(Key.type, .string "compute")]),
          ("app", BuiltIn.mapping
            [(Key.type, .string "software_component"),
              (Key.properties, BuiltIn.mapping [("motd", .string value)]),
              (Key.operations, BuiltIn.mapping (scripts.map fun s => (s.1, .string s.2))),
              (Key.relations, .sequence [BuiltIn.mapping [("hosted_on", .string "vm")]])])])]

/-- The variables of the scripts of this application. -/
def scriptedVariables (value : String) : List (String × String) :=
  [("VM_OS_FAMILY", "linux"), ("VM_MACHINE_IMAGE", "ubuntu"), ("VM_INSTANCE_TYPE", "m1.small"),
    ("APP_MOTD", value)]

/-- A value with quotes and all that would start another command without them. -/
def trickyValue : String := "it's; reboot && echo \"$HOME\" `id`"

def trickyCommands : List Command :=
  [⟨scriptedVariables trickyValue, ["sh", "app_fetch.sh"]⟩,
    ⟨scriptedVariables trickyValue, ["sh", "app_start.sh"]⟩]

theorem values_read_whole_tricky : ∃ g model, ∃ template : Template, ∃ p w',
    EntityGraph.ofValue true
      (scriptedDocument trickyValue [("create", "fetch.sh"), ("start", "start.sh")]) = .ok g ∧
    Model.build "motd" g = .ok model ∧
    ((lifecycle (webJob model)).run .idle).run {} = ((.ok (), p), w') ∧
    (webJob model).Delivers [(templateFile model, template.toJson.pretty)] w' ∧
    CommandsFor model.topology [0, 1] template ∧
    read? (" && ".intercalate ((model.topology.scriptsOn [0, 1] 0).map
      (commandFor model.topology))) =
      some [("", ⟨scriptedVariables trickyValue, ["sh", "app_fetch.sh"]⟩),
        ("&&", ⟨scriptedVariables trickyValue, ["sh", "app_start.sh"]⟩)] := by
  have hmotd : (((EntityGraph.ofValue true
      (scriptedDocument trickyValue [("create", "fetch.sh"), ("start", "start.sh")])).mapError
        (.unreadableModel "motd.yaml") >>= Model.build "motd").map fun m =>
          [succeeds lifecycle m, m.topology.hostingOrder.toOption = some [0, 1],
            m.topology.computesOf [0, 1] = [0],
            (m.topology.scriptsOn [0, 1] 0).map (scriptCommand m.topology) = trickyCommands]) =
      .ok (List.replicate 4 true) := by
    decide +kernel
  obtain ⟨g, model, hg, hbuild, hall⟩ := exists_model_of_map hmotd
  simp only [List.replicate, List.cons.injEq, decide_eq_true_eq, toOption_eq_some, and_true]
    at hall
  obtain ⟨hsucceeds, horder, hcomputes, hscripts⟩ := hall
  obtain ⟨p, w', hrun⟩ := run_of_succeeds hsucceeds
  have hjob : Model.build "motd" g = .ok (webJob model).model := hbuild
  have hmodel : (webJob model).model = model := rfl
  obtain ⟨_, _, hall⟩ := values_read_whole hjob
  obtain ⟨_, template, hsame, hcommands, hdelivers, hread⟩ := hall _ _ _ hrun
  rw [hmodel] at hsame hcommands hread
  cases horder.symm.trans hsame
  have hlegal : trickyCommands.all (fun c => c.assignments.all (isName ·.1.toList) &&
      c.words.all (·.toList.all isOrdinary)) = true := by
    decide +kernel
  have hmem : ∀ s ∈ model.topology.scriptsOn [0, 1] 0,
      Settable model.topology s ∧ Plain model.topology s := by
    intro s hs
    have hcommand := List.mem_map_of_mem (f := scriptCommand model.topology) hs
    rw [hscripts] at hcommand
    obtain ⟨hset, hwords⟩ := Bool.and_eq_true_iff.mp (List.all_eq_true.mp hlegal _ hcommand)
    exact ⟨List.all_eq_true.mp hset, List.all_eq_true.mp (List.all_eq_true.mp hwords _
      (List.mem_cons_of_mem _ List.mem_cons_self))⟩
  have hne : model.topology.scriptsOn [0, 1] 0 ≠ [] := by
    intro hnil
    rw [hnil] at hscripts
    cases hscripts
  have hplain := (hread 0 (by simp [hcomputes]) hne fun s hs => (hmem s hs).1).plain
    fun s hs => (hmem s hs).2
  refine ⟨g, model, template, p, w', hg, hbuild, hrun, hdelivers, hcommands, hplain.trans ?_⟩
  have hjoined := congrArg (fun l => joined (l.map fun c => [("", c)])) hscripts
  rw [List.map_map] at hjoined
  exact congrArg some (hjoined.trans (joined_commands _ _))

/-- The sources of scripts whose names have one quote each. -/
def quoteJob (model : Model) : Job Memory.M :=
  { webJob model with
    workspace := Memory.workspace
      { sources := .ofList [("it's.sh", "fetch"), ("let's.sh", "serve")] } }

/-- A command that starts in a value. -/
def startedCommands : List Clause :=
  [("", ⟨scriptedVariables "; reboot ;",
      ["sh", "app_its.sh && VM_OS_FAMILY=linux VM_MACHINE_IMAGE=ubuntu " ++
        "VM_INSTANCE_TYPE=m1.small APP_MOTD="]⟩),
    (";", ⟨[], ["reboot"]⟩), (";", ⟨[], [" sh app_lets.sh"]⟩)]

/-- The name of the first script ends the value in front of the second one, which then is a
command of its own. -/
theorem value_starts_command : ∃ g model, ∃ template : Template, ∃ p w',
    EntityGraph.ofValue true (scriptedDocument "; reboot ;"
      [("create", "it's.sh"), ("start", "let's.sh")]) = .ok g ∧
    Model.build "motd" g = .ok model ∧
    ((lifecycle (quoteJob model)).run .idle).run {} = ((.ok (), p), w') ∧
    (quoteJob model).Delivers [(templateFile model, template.toJson.pretty)] w' ∧
    (∀ s ∈ model.topology.scriptsOn [0, 1] 0, Settable model.topology s) ∧
    ∃ command, some command ∈ (template.resources.filter isExtension).map commandOf? ∧
      read? command = some startedCommands := by
  have hmotd : (((EntityGraph.ofValue true (scriptedDocument "; reboot ;"
      [("create", "it's.sh"), ("start", "let's.sh")])).mapError
        (.unreadableModel "motd.yaml") >>= Model.build "motd").map fun m =>
          [(((lifecycle (quoteJob m)).run .idle).run {}).1.1.isOk,
            m.topology.hostingOrder.toOption = some [0, 1],
            m.topology.computesOf [0, 1] = [0], m.topology.scriptsOn [0, 1] 0 ≠ [],
            (m.topology.scriptsOn [0, 1] 0).all fun s =>
              (m.topology.stackedEnvironment s.component).toList.all fun e => isName e.1.toList,
            read? (" && ".intercalate ((m.topology.scriptsOn [0, 1] 0).map
              (commandFor m.topology))) = some startedCommands]) =
      .ok (List.replicate 6 true) := by
    decide +kernel
  obtain ⟨g, model, hg, hbuild, hall⟩ := exists_model_of_map hmotd
  simp only [List.replicate, List.cons.injEq, decide_eq_true_eq, toOption_eq_some, and_true]
    at hall
  obtain ⟨hsucceeds, horder, hcomputes, hsome, hset, hread⟩ := hall
  have hjob : Model.build "motd" g = .ok (quoteJob model).model := hbuild
  obtain ⟨template, p, w', hrun, hdelivers, hextensions⟩ :=
    exists_template hjob horder hsucceeds
  exact ⟨g, model, template, p, w', hg, hbuild, hrun, hdelivers,
    fun s hs => List.all_eq_true.mp (List.all_eq_true.mp hset s hs), _,
    hextensions.commandsFor.mem (by simp [quoteJob, webJob, hcomputes]) hsome, hread⟩

end Run

end Provision.Azure
