import Provision.Proofs.Azure.Commands
import Provision.Proofs.Copies

/-! The scripts of an extension, where they are referred to.

A script is copied under a name that is written in two languages: into an expression that says
where it is loaded from, between single quotes, and into a command, without any. In an expression
two quotes stand for one and a single one ends the literal. The reading of expressions here is
that of a `concat` of literals and values of parameters. A name is referred to as it is only as
long as neither language takes one of its characters for something else. -/
namespace Provision
open Shell (isOrdinary read?)

namespace Azure

/-! ### Expressions as they are read -/

inductive Lexeme where
  | literal (text : List Char)
  | name (text : List Char)
  | mark (c : Char)
  deriving DecidableEq

/-- What a reader is in the middle of. -/
inductive Reader where
  | between
  | name (text : List Char)
  | literal (text : List Char)
  /-- Behind a quote in a literal, which ends there if no other quote follows. -/
  | ending (text : List Char)
  deriving DecidableEq

namespace Reader

def done : Reader → List Lexeme
  | .name text => [.name text]
  | .ending text => [.literal text]
  | _ => []

/-- A character out of literals. -/
def outerStep (s : Reader) (c : Char) : Option (List Lexeme × Reader) :=
  if c = '\'' then some (s.done, .literal [])
  else if c ∈ ['[', ']', '(', ')', ','] then some (s.done ++ [.mark c], .between)
  else if c = ' ' then some (s.done, .between)
  else if c.isAlphanum then
    match s with
    | .name text => some ([], .name (text ++ [c]))
    | _ => some (s.done, .name [c])
  else none

def step (s : Reader) (c : Char) : Option (List Lexeme × Reader) :=
  match s with
  | .literal text => some ([], if c = '\'' then .ending text else .literal (text ++ [c]))
  | .ending text => if c = '\'' then some ([], .literal (text ++ ['\''])) else s.outerStep c
  | _ => s.outerStep c

abbrev scan (s : Reader) (cs : List Char) : Option (List Lexeme × Reader) := scanBy step s cs

def finish? : Reader → Option (List Lexeme)
  | .literal _ => none
  | s => some s.done

/-- What is read of characters up to the end. -/
def lexemes? (s : Reader) (cs : List Char) : Option (List Lexeme) :=
  (s.scan cs).bind fun r => r.2.finish?.map (r.1 ++ ·)

end Reader

/-- An argument of a `concat`. -/
inductive Piece where
  | text (s : String)
  | parameter (name : String)
  deriving DecidableEq

/-- The arguments up to the end of an expression. -/
def arguments? : List Lexeme → Option (List Piece)
  | [.literal text, .mark ')', .mark ']'] => some [.text (String.ofList text)]
  | .literal text :: .mark ',' :: rest =>
    (arguments? rest).map (.text (String.ofList text) :: ·)
  | .name function :: .mark '(' :: .literal name :: .mark ')' :: .mark ',' :: rest =>
    if String.ofList function = "parameters" then
      (arguments? rest).map (.parameter (String.ofList name) :: ·)
    else none
  | [.name function, .mark '(', .literal name, .mark ')', .mark ')', .mark ']'] =>
    if String.ofList function = "parameters" then some [.parameter (String.ofList name)] else none
  | _ => none

/-- The arguments of an expression that is a `concat`. -/
def pieces? : List Lexeme → Option (List Piece)
  | .mark '[' :: .name function :: .mark '(' :: rest =>
    if String.ofList function = "concat" then arguments? rest else none
  | _ => none

/-- What a piece stands for where parameters have some values. -/
def Piece.value? (values : List (String × String)) : Piece → Option String
  | .text s => some s
  | .parameter name => OrderedMap.lookup name values

/-- What an expression stands for where parameters have some values. -/
def denoted? (values : List (String × String)) (text : String) : Option String :=
  ((Reader.between.lexemes? text.toList).bind pieces?).bind fun pieces =>
    (pieces.mapM (Piece.value? values)).map String.join

/-! ### Literals -/

/-- The number of characters of a literal. -/
@[simp]
def Lexeme.size : Lexeme → Nat
  | .literal text => text.length
  | _ => 0

namespace Reader

@[simp]
def size : Reader → Nat
  | .literal text | .ending text => text.length
  | _ => 0

abbrev characters (r : List Lexeme × Reader) : Nat := weigh Lexeme.size size r

theorem characters_outerStep {s : Reader} {c : Char} {r : List Lexeme × Reader}
    (hs : (s.done.map Lexeme.size).sum = s.size) (h : s.outerStep c = some r) :
    characters r = s.size := by
  unfold outerStep at h
  split_ifs at h with hquote hmark hblank hname
  · cases h
    simp [weigh, hs]
  · cases h
    simp [weigh, hs]
  · cases h
    simp [weigh, hs]
  · cases s <;> cases h <;> simp_all [weigh, done]

/-- A character adds at most one to the literals. -/
theorem characters_step {s : Reader} {c : Char} {r : List Lexeme × Reader}
    (h : s.step c = some r) : characters r ≤ s.size + 1 := by
  cases s with
  | literal text =>
    cases h
    split <;> simp [weigh]
  | ending text =>
    unfold step at h
    split_ifs at h with hquote
    · cases h
      simp [weigh]
    · exact Nat.le_succ_of_le (characters_outerStep (by simp [done]) h).le
  | between => exact Nat.le_succ_of_le (characters_outerStep (by simp [done]) h).le
  | name text => exact Nat.le_succ_of_le (characters_outerStep (by simp [done]) h).le

/-- In a literal a single quote is lost. -/
theorem characters_scan_lt {text cs : List Char} {r : List Lexeme × Reader}
    (h : (Reader.literal text).scan cs = some r) (hcs : '\'' ∈ cs) :
    characters r < text.length + cs.length := by
  refine weigh_scanBy_lt (p := fun s => ∃ text, s = .literal text) (q := (· ≠ '\''))
    (fun _ _ _ => characters_step) ?kept ?lost ⟨text, rfl⟩ h fun hall => hall _ hcs rfl
  case kept =>
    rintro _ c r ⟨text, rfl⟩ hc hstep
    cases hstep
    exact ⟨_, if_neg hc⟩
  case lost =>
    rintro _ c r ⟨text, rfl⟩ hc hstep
    cases hstep
    simp [weigh, not_not.mp hc]

theorem scan_append_of_scan {s s₁ : Reader} {a : List Char} {lexemes : List Lexeme}
    (h : s.scan a = some (lexemes, s₁)) (b : List Char) :
    s.scan (a ++ b) = (s₁.scan b).map fun rest => (lexemes ++ rest.1, rest.2) :=
  scanBy_append_of_scanBy h b

theorem scan_literal {cs : List Char} (hcs : '\'' ∉ cs) (text : List Char) :
    (Reader.literal text).scan cs = some ([], .literal (text ++ cs)) := by
  induction cs generalizing text with
  | nil => simp [scanBy]
  | cons c cs ih =>
    obtain ⟨hc, hcs⟩ : '\'' ≠ c ∧ '\'' ∉ cs := by simpa using hcs
    simp [scanBy, step, Ne.symm hc, ih hcs]

theorem lexemes?_append {s s₁ : Reader} {a : List Char} {first : List Lexeme}
    (h : s.scan a = some (first, s₁)) (b : List Char) :
    s.lexemes? (a ++ b) = (s₁.lexemes? b).map (first ++ ·) := by
  unfold lexemes?
  rw [scan_append_of_scan h]
  simp only [Option.bind_map, Option.map_bind, Function.comp_def, Option.map_map,
    List.append_assoc]

/-- What ends an expression whose last argument is a literal. -/
theorem lexemes?_end (text : List Char) : (Reader.literal text).lexemes? ['\'', ')', ']'] =
    some [.literal text, .mark ')', .mark ']'] := by
  simp [lexemes?, finish?, scanBy, step, outerStep, done]

/-- The last quote can only end a literal. -/
theorem exists_literal_of_end {s : Reader} {cs : List Char} {lexemes : List Lexeme}
    (h : s.lexemes? (cs ++ ['\'', ')', ']']) = some lexemes) :
    ∃ before text, s.scan cs = some (before, .literal text) ∧
      lexemes = before ++ [.literal text, .mark ')', .mark ']'] := by
  cases hscan : s.scan cs with
  | none => simp [lexemes?, scanBy_append, hscan] at h
  | some r =>
    obtain ⟨before, last⟩ := r
    rw [lexemes?_append hscan] at h
    cases last with
    | literal text =>
      rw [lexemes?_end] at h
      cases h
      exact ⟨before, text, rfl, rfl⟩
    | between | name text | ending text =>
      simp [lexemes?, finish?, scanBy, step, outerStep] at h

end Reader

/-! ### Expressions for scripts -/

/-- Where parameters have no content only the literals of the arguments have some. -/
theorem length_le_of_arguments? {lexemes : List Lexeme} {pieces : List Piece}
    {values : List String} (h : arguments? lexemes = some pieces)
    (hvalues : pieces.mapM (Piece.value? [("artifactsLocation", "")]) = some values) :
    (String.join values).length ≤ (lexemes.map Lexeme.size).sum := by
  have hparameter {name s : String}
      (h : Piece.value? [("artifactsLocation", "")] (.parameter name) = some s) : s = "" := by
    simp only [Piece.value?, OrderedMap.lookup] at h
    grind
  fun_induction arguments? lexemes generalizing pieces values with
  | case1 text =>
    cases h
    cases hvalues
    simp
  | case2 text rest ih =>
    obtain ⟨others, hothers, rfl⟩ := Option.map_eq_some_iff.mp h
    obtain ⟨s, ss, hs, hss, rfl⟩ := Shell.mapM_cons_eq_some.mp hvalues
    cases hs
    simpa using ih hothers hss
  | case3 function name rest _ ih =>
    obtain ⟨others, hothers, rfl⟩ := Option.map_eq_some_iff.mp h
    obtain ⟨s, ss, hs, hss, rfl⟩ := Shell.mapM_cons_eq_some.mp hvalues
    rw [hparameter hs]
    simpa using Nat.le_add_left_of_le (ih hothers hss)
  | case5 function name =>
    cases h
    obtain ⟨s, ss, hs, hss, rfl⟩ := Shell.mapM_cons_eq_some.mp hvalues
    cases hss
    simp [hparameter hs]
  | case4 | case6 | case7 => cases h

/-- What is read of an expression for a script in front of its name. -/
def opening : List Lexeme :=
  [.mark '[', .name "concat".toList, .mark '(', .name "parameters".toList, .mark '(',
    .literal "artifactsLocation".toList, .mark ')', .mark ',']

theorem pieces?_opening (rest : List Lexeme) :
    pieces? (opening ++ rest) =
      (arguments? rest).map (.parameter "artifactsLocation" :: ·) := by
  simp [pieces?, opening, arguments?]

theorem lexemes?_scriptLocation (file : String) :
    Reader.between.lexemes? (Term.expression (scriptLocation file)).render.toList =
      ((Reader.literal ['/']).lexemes? (file.toList ++ ['\'', ')', ']'])).map (opening ++ ·) := by
  have hfirst : Reader.between.scan "[concat(parameters('artifactsLocation'), '/".toList =
      some (opening, .literal ['/']) := by
    decide +kernel
  have hrender : (Term.expression (scriptLocation file)).render.toList =
      "[concat(parameters('artifactsLocation'), '/".toList ++
        (file.toList ++ ['\'', ')', ']']) := by
    simp [Term.render, scriptLocation, Expression.render, Expression.renderAll, Expression.quote]
  rw [hrender, Reader.lexemes?_append hfirst]

/-- **An expression for a script stands for its name exactly if there is no quote in it.** -/
theorem denoted?_scriptLocation (file : String) :
    (∀ location, denoted? [("artifactsLocation", location)]
      (Term.expression (scriptLocation file)).render = some (location ++ "/" ++ file)) ↔
      '\'' ∉ file.toList := by
  unfold denoted?
  rw [lexemes?_scriptLocation]
  constructor
  · intro h hquote
    obtain ⟨pieces, hpieces, h⟩ := Option.bind_eq_some_iff.mp (h "")
    obtain ⟨all, hall, hjoin⟩ := Option.map_eq_some_iff.mp h
    obtain ⟨lexemes, hlexemes, hpieces⟩ := Option.bind_eq_some_iff.mp hpieces
    obtain ⟨rest, hrest, rfl⟩ := Option.map_eq_some_iff.mp hlexemes
    rw [pieces?_opening] at hpieces
    obtain ⟨others, hothers, rfl⟩ := Option.map_eq_some_iff.mp hpieces
    obtain ⟨first, values, hfirst, hvalues, rfl⟩ := Shell.mapM_cons_eq_some.mp hall
    cases hfirst
    obtain ⟨before, text, hname, rfl⟩ := Reader.exists_literal_of_end hrest
    -- All the characters of the name have to be there again.
    have hlt := Reader.characters_scan_lt hname hquote
    have hle := length_le_of_arguments? hothers hvalues
    have hlength := congrArg String.length hjoin
    have hslash : "/".length = 1 := rfl
    simp only [weigh, List.map_append, List.sum_append, List.map_cons, List.map_nil,
      List.sum_cons, List.sum_nil, Lexeme.size, Reader.size, List.length_cons, List.length_nil,
      String.length_toList, String.join_cons, String.length_append, String.length_empty, hslash]
      at hlt hle hlength
    omega
  · intro hquote location
    rw [Reader.lexemes?_append (Reader.scan_literal hquote _), Reader.lexemes?_end]
    simp [pieces?_opening, arguments?, Piece.value?, OrderedMap.lookup, String.append_assoc]

/-! ### References -/

/-- The name under which a script is copied. -/
def nameFor (t : Topology) (s : PlacedScript) : String :=
  scriptFile (t.component s.component) s.artifact

def uriFor (t : Topology) (s : PlacedScript) : String :=
  (Term.expression (scriptLocation (nameFor t s))).render

/-- A text of a template as it is written. -/
def Content.written? : Content → Option String
  | .term t => some t.render
  | _ => none

/-- What an extension says about where its scripts are loaded from. -/
def urisOf? (extension : Resource) : Option (List String) := do
  match ← (← extension.properties.member? "settings").member? "fileUris" with
  | .array items => items.mapM Content.written?
  | _ => none

theorem urisOf?_extensionFor {σ : Type} (job : Job (StateM σ)) (c : ComponentId)
    (scripts : List PlacedScript) :
    urisOf? (extensionFor job c scripts) = some (scripts.map (uriFor job.model.topology)) := by
  show (((scripts.map (stepFor job.model.topology)).map ScriptStep.file).map fun f =>
    Content.expression (scriptLocation f)).mapM Content.written? = _
  rw [List.mapM_map, List.mapM_map, List.mapM_map]
  exact List.mapM_pure

/-- What the extension of a script's compute shows of it. -/
structure ReferredTo (t : Topology) (files : Files) (s : PlacedScript) : Prop where
  copied : ∃ text, files ("scripts/" ++ nameFor t s) = some text
  /-- It is loaded from under its name exactly if the artifact's one has no quote. -/
  loaded : (∀ location, denoted? [("artifactsLocation", location)] (uriFor t s) =
      some (location ++ "/" ++ nameFor t s)) ↔ '\'' ∉ s.artifact.fileName.toList
  /-- A shell is given its name exactly if all characters of the artifact's one are ordinary. -/
  called : read? (callOf t s) = some [("", { words := ["sh", nameFor t s] })] ↔
    ∀ c ∈ s.artifact.fileName.toList, isOrdinary c = true

theorem quote_notMem_scriptFile (c : Component) (a : Artifact) :
    '\'' ∉ (scriptFile c a).toList ↔ '\'' ∉ a.fileName.toList := by
  have hidentifier : '\'' ∉ c.identifier.toList := Text.notMem_identifier rfl _
  simp [toList_scriptFile, hidentifier]

theorem plain_iff (t : Topology) (s : PlacedScript) :
    Plain t s ↔ ∀ c ∈ s.artifact.fileName.toList, isOrdinary c = true := by
  have hidentifier : ∀ c ∈ (t.component s.component).identifier.toList, isOrdinary c = true :=
    fun c hc => Shell.isOrdinary_of_isNameChar (isNameChar_of_mem_identifier c hc)
  have hsign : isOrdinary '_' = true := by decide
  unfold Plain
  rw [toList_scriptFile, List.forall_mem_append, List.forall_mem_cons]
  exact ⟨fun h => h.2.2, fun h => ⟨hidentifier, hsign, h⟩⟩

end Azure

/-! ### The run -/

section Run
variable {σ : Type} {job : Job (StateM σ)} {source? : Files} {file? : σ → Files}

/-- **A script is loaded under the name of its copy exactly if the name of the artifact has no
quote, and that name is given to the shell exactly if each character of the artifact's one stands
for itself there.** In a run that succeeds the extension of a compute has an expression and a
command for each of its scripts, which are copied. -/
theorem scripts_referred {name : String} {g : EntityGraph}
    (hbuild : Model.build name g = .ok job.model) (hkeeps : job.workspace.Keeps source? file?)
    {w w' : σ} {p : Progress} (h : ((Azure.lifecycle job).run .idle).run w = ((.ok (), p), w')) :
    ∃ order template, job.model.topology.hostingOrder = .ok order ∧
      Azure.ExtensionsFor job order template ∧
      job.Delivers [(Azure.templateFile job.model, template.toJson.pretty)] w' ∧
      ∀ c ∈ job.model.topology.computesOf order,
        let scripts := job.model.topology.scriptsOn order c
        Azure.urisOf? (Azure.extensionFor job c scripts) =
          some (scripts.map (Azure.uriFor job.model.topology)) ∧
        Azure.commandOf? (Azure.extensionFor job c scripts) =
          some (" && ".intercalate (scripts.map (Azure.commandFor job.model.topology))) ∧
        ∀ s ∈ scripts, Azure.ReferredTo job.model.topology (file? w') s := by
  obtain ⟨order, template, horder, hextensions, hdelivers, hkept⟩ :=
    Azure.kept_of_run hkeeps (Model.built_of_build hbuild) h
  refine ⟨order, template, horder, hextensions, hdelivers, fun c _ =>
    ⟨Azure.urisOf?_extensionFor job c _, Azure.commandOf?_extensionFor job c _, fun s hs => ?_⟩⟩
  have hin := (Topology.mem_scriptsIn order).mpr ⟨c, hs⟩
  obtain ⟨before, last, after, hsplit, _, _, hheld⟩ := hkept.last s hin
  obtain ⟨text, htext⟩ := hkept.found last (hsplit ▸ by simp)
  refine ⟨⟨text, hheld.trans htext⟩, ?_, ?_⟩
  · rw [← Azure.quote_notMem_scriptFile (job.model.topology.component s.component)]
    exact Azure.denoted?_scriptLocation _
  · rw [← Azure.plain_iff]
    exact Azure.read?_callOf _ s

theorem scripts_referred_web : ∃ g model order p w', EntityGraph.ofValue true webDocument = .ok g ∧
    Model.build "web" g = .ok model ∧
    ((Azure.lifecycle (webJob model)).run .idle).run {} = ((.ok (), p), w') ∧
    model.topology.hostingOrder = .ok order ∧
    (model.topology.scriptsOn order 1).map (Azure.nameFor model.topology) =
      ["app_fetch.sh", "app_unpack.sh", "app_start.sh"] ∧
    ∀ s ∈ model.topology.scriptsOn order 1,
      (∃ text, w'.file? ("scripts/" ++ Azure.nameFor model.topology s) = some text) ∧
      (∀ location, Azure.denoted? [("artifactsLocation", location)]
        (Azure.uriFor model.topology s) =
          some (location ++ "/" ++ Azure.nameFor model.topology s)) ∧
      read? (Azure.callOf model.topology s) =
        some [("", { words := ["sh", Azure.nameFor model.topology s] })] := by
  have hweb : (((EntityGraph.ofValue true webDocument).mapError (.unreadableModel "web.yaml") >>=
      Model.build "web").map fun m =>
        [succeeds Azure.lifecycle m, m.topology.hostingOrder.toOption = some [1, 0],
          m.topology.computesOf [1, 0] = [1],
          (m.topology.scriptsOn [1, 0] 1).map (Azure.nameFor m.topology) =
            ["app_fetch.sh", "app_unpack.sh", "app_start.sh"],
          (m.topology.scriptsOn [1, 0] 1).all (·.artifact.fileName.toList.all isOrdinary)]) =
      .ok (List.replicate 5 true) := by
    decide +kernel
  obtain ⟨g, model, hg, hbuild, hall⟩ := exists_model_of_map hweb
  simp only [List.replicate, List.cons.injEq, decide_eq_true_eq, toOption_eq_some, and_true]
    at hall
  obtain ⟨hsucceeds, horder, hcomputes, hnames, hplain⟩ := hall
  obtain ⟨p, w', hrun⟩ := run_of_succeeds hsucceeds
  have hjob : Model.build "web" g = .ok (webJob model).model := hbuild
  have hkeeps : (webJob model).workspace.Keeps webSetup.source? Memory.Store.file? :=
    Memory.keeps webSetup
  obtain ⟨order, _, hsame, _, _, hreferred⟩ := scripts_referred hjob hkeeps hrun
  have hmodel : (webJob model).model = model := rfl
  rw [hmodel] at hsame hreferred
  cases horder.symm.trans hsame
  obtain ⟨_, _, hreferred⟩ := hreferred 1 (by simp [hcomputes])
  refine ⟨g, model, _, p, w', hg, hbuild, hrun, horder, hnames, fun s hs => ?_⟩
  have hordinary := List.all_eq_true.mp (List.all_eq_true.mp hplain s hs)
  have hquote : '\'' ∉ s.artifact.fileName.toList := fun hmem => by
    have hsingle := hordinary _ hmem
    revert hsingle
    decide
  exact ⟨(hreferred s hs).copied, (hreferred s hs).loaded.mpr hquote,
    (hreferred s hs).called.mpr hordinary⟩

/-- A source with quotes and a blank in its name. -/
def sayJob (model : Model) : Job Memory.M :=
  { webJob model with
    workspace := Memory.workspace { sources := .ofList [("say ''hi''.sh", "say")] } }

/-- The copy `app_say ''hi''.sh` is loaded under another name, and the shell is given two. -/
theorem script_renamed : ∃ g model, ∃ template : Azure.Template, ∃ p w', ∃ r command,
    EntityGraph.ofValue true
      (Azure.scriptedDocument "" [("start", "say ''hi''.sh")]) = .ok g ∧
    Model.build "say" g = .ok model ∧
    ((Azure.lifecycle (sayJob model)).run .idle).run {} = ((.ok (), p), w') ∧
    w'.file? "scripts/app_say ''hi''.sh" = some "say" ∧
    (sayJob model).Delivers [(Azure.templateFile model, template.toJson.pretty)] w' ∧
    r ∈ template.resources ∧
    Azure.urisOf? r = some ["[concat(parameters('artifactsLocation'), '/app_say ''hi''.sh')]"] ∧
    Azure.denoted? [("artifactsLocation", "store")]
      "[concat(parameters('artifactsLocation'), '/app_say ''hi''.sh')]" =
      some "store/app_say 'hi'.sh" ∧
    Azure.commandOf? r = some command ∧
    read? command =
      some [("", ⟨Azure.scriptedVariables "", ["sh", "app_say", "hi.sh"]⟩)] := by
  have hsay : (((EntityGraph.ofValue true
      (Azure.scriptedDocument "" [("start", "say ''hi''.sh")])).mapError
        (.unreadableModel "say.yaml") >>= Model.build "say").map fun m =>
          [(((Azure.lifecycle (sayJob m)).run .idle).run {}).1.1.isOk,
            (((Azure.lifecycle (sayJob m)).run .idle).run {}).2.file?
              "scripts/app_say ''hi''.sh" = some "say",
            m.topology.hostingOrder.toOption = some [0, 1],
            m.topology.computesOf [0, 1] = [0],
            (m.topology.scriptsOn [0, 1] 0).map (Azure.uriFor m.topology) =
              ["[concat(parameters('artifactsLocation'), '/app_say ''hi''.sh')]"],
            read? (" && ".intercalate ((m.topology.scriptsOn [0, 1] 0).map
              (Azure.commandFor m.topology))) =
                some [("", ⟨Azure.scriptedVariables "", ["sh", "app_say", "hi.sh"]⟩)]]) =
      .ok (List.replicate 6 true) := by
    decide +kernel
  obtain ⟨g, model, hg, hbuild, hall⟩ := exists_model_of_map hsay
  simp only [List.replicate, List.cons.injEq, decide_eq_true_eq, toOption_eq_some, and_true]
    at hall
  obtain ⟨hsucceeds, hcopied, horder, hcomputes, huris, hread⟩ := hall
  have hjob : Model.build "say" g = .ok (sayJob model).model := hbuild
  obtain ⟨template, p, w', hrun, hdelivers, hextensions⟩ :=
    Azure.exists_template hjob horder hsucceeds
  rw [hrun] at hcopied
  have hsome : model.topology.scriptsOn [0, 1] 0 ≠ [] := fun hnil => by
    rw [hnil] at huris
    cases huris
  have hmem : Azure.extensionFor (sayJob model) 0 (model.topology.scriptsOn [0, 1] 0) ∈
      template.resources.filter Azure.isExtension :=
    hextensions.extensions.mem_iff.mpr
      (List.mem_map.mpr ⟨0, by simp [sayJob, webJob, hcomputes, hsome], rfl⟩)
  exact ⟨g, model, template, p, w', _, _, hg, hbuild, hrun, hcopied, hdelivers,
    (List.mem_filter.mp hmem).1, (Azure.urisOf?_extensionFor _ _ _).trans (congrArg some huris),
    by decide +kernel, Azure.commandOf?_extensionFor _ _ _, hread⟩

end Run

end Provision
