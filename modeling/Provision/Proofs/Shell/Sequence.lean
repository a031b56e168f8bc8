import Provision.Proofs.Shell.Reading

/-! Texts one after the other.

What a shell reads of a text that is put together: commands of which each needs the one before
it, and variables in front of a command. -/
namespace Provision.Shell

/-! ### Texts one after the other -/

/-- A text that ends out of quotes and comments, so that what follows it is read as it would be
by itself. -/
def Closed (text : String) : Prop :=
  ∃ tokens s, State.scan {} text.toList = some (tokens, s) ∧ s.Open

theorem State.finish?_of_open {s : State} (hs : s.Open) : s.finish? = some s.close := by
  obtain ⟨place, escaped⟩ := s
  obtain ⟨rfl, hplace⟩ := hs
  match place with
  | .between | .operator _ | .word _ none => rfl

/-- A text that leaves the shell between two tokens gives its tokens to what follows. -/
theorem tokens?_append {first : String} {tokens : List Token}
    (h : State.scan {} first.toList = some (tokens, {})) (text : String) :
    tokens? (first ++ text) = (tokens? text).map (tokens ++ ·) := by
  unfold tokens?
  rw [String.toList_append, State.scan_append_of_scan h]
  rcases State.scan {} text.toList with _ | ⟨rest, s⟩
  · rfl
  · cases hfinish : s.finish? <;> simp [hfinish]

theorem tokens?_of_scan {text : String} {tokens : List Token} {s : State}
    (h : State.scan {} text.toList = some (tokens, s)) (hs : s.Open) :
    tokens? text = some (tokens ++ s.close) := by
  simp [tokens?, h, State.finish?_of_open hs]

/-- The sign between commands of which each needs the one before it. -/
def conjunction : String := " && "

theorem scan_conjunction {first : String} (h : Closed first) : ∃ tokens,
    tokens? first = some tokens ∧
      State.scan {} (first ++ conjunction).toList =
        some (tokens ++ [.operator ['&', '&']], {}) := by
  obtain ⟨tokens, s, hscan, hs⟩ := h
  refine ⟨tokens ++ s.close, tokens?_of_scan hscan hs, ?_⟩
  have hsign : State.scan {} "&& ".toList = some ([.operator ['&', '&']], {}) := by
    decide +kernel
  have hrest : s.scan conjunction.toList = some (s.close ++ [.operator ['&', '&']], {}) := by
    rw [show conjunction.toList = [' '] ++ "&& ".toList by decide,
      State.scan_append_of_scan (State.scan_blank hs), hsign]
    rfl
  rw [String.toList_append, State.scan_append_of_scan hscan, hrest]
  simp

/-! ### Commands one after the other -/

/-- A command behind another operator. -/
def behind (operator : String) (clauses : List Clause) : List Clause :=
  clauses.modifyHead fun c => (operator, c.2)

/-- A command for which more variables are set. -/
def Command.assigning (c : Command) (values : List (String × String)) : Command :=
  { c with assignments := values ++ c.assignments }

def assigning (values : List (String × String)) (clauses : List Clause) : List Clause :=
  clauses.modifyHead fun c => (c.1, c.2.assigning values)

theorem segments?_words (operator : String) (ws words : List Word) (tokens : List Token) :
    segments? operator ws (words.map .word ++ tokens) =
      segments? operator (ws ++ words) tokens := by
  induction words generalizing ws with
  | nil => simp
  | cons w words ih => simp [segments?, ih]

/-- What stands in front of the first command changes nothing else. -/
theorem segments?_head (k : String → String) (operator : String) (ws ws' : List Word)
    (tokens : List Token) :
    segments? (k operator) (ws' ++ ws) tokens =
      (segments? operator ws tokens).map
        (List.modifyHead fun segment => (k segment.1, ws' ++ segment.2)) := by
  induction tokens generalizing ws with
  | nil => simp [segments?]
  | cons token tokens ih =>
    cases token with
    | word w =>
      simp only [segments?, List.append_assoc]
      exact ih (ws ++ [w])
    | operator o =>
      simp only [segments?]
      split
      · simp [Option.map_map, Function.comp_def]
      · rfl

theorem segments?_append {o : List Char} (ho : isConnector (String.ofList o) = true)
    (operator : String) (ws : List Word) (first second : List Token) :
    segments? operator ws (first ++ .operator o :: second) =
      (segments? operator ws first).bind fun x =>
        (segments? (String.ofList o) [] second).map (x ++ ·) := by
  induction first generalizing operator ws with
  | nil => simp [segments?, ho]
  | cons token first ih =>
    cases token with
    | word w => exact ih operator (ws ++ [w])
    | operator o' =>
      simp only [List.cons_append, segments?]
      split
      · rw [ih]
        simp [Option.map_bind, Option.bind_map, Function.comp_def]
      · rfl

theorem mapM_congr {α β : Type} {f g : α → Option β} {l : List α} (h : ∀ a ∈ l, f a = g a) :
    l.mapM f = l.mapM g := by
  simpa only [List.mapM_map, Function.id_comp] using
    congrArg (List.mapM id) (List.map_congr_left h)

theorem mapM_cons_eq_some {α β : Type} {f : α → Option β} {a : α} {l : List α} {bs : List β} :
    (a :: l).mapM f = some bs ↔ ∃ b rest, f a = some b ∧ l.mapM f = some rest ∧ b :: rest = bs := by
  simp only [List.mapM_cons, Option.bind_eq_bind, Option.bind_eq_some_iff, Option.pure_def,
    Option.some.injEq, exists_and_left]

theorem mapM_modifyHead {α β : Type} {f : α → Option β} {g : α → α} {k : β → β}
    (h : ∀ a, f (g a) = (f a).map k) (l : List α) :
    (l.modifyHead g).mapM f = (l.mapM f).map (List.modifyHead k) := by
  cases l with
  | nil => rfl
  | cons a l =>
    cases ha : f a <;> cases hl : l.mapM f <;> simp [List.mapM_cons, h, ha, hl]

theorem clauses?_conjunction (first second : List Token) :
    clauses? (first ++ .operator ['&', '&'] :: second) =
      (clauses? first).bind fun x => (clauses? second).map fun y => x ++ behind "&&" y := by
  have hclause (segment : String × List Word) :
      clause? ("&&", segment.2) = (clause? segment).map fun c => ("&&", c.2) := by
    simp [clause?, Option.map_map, Function.comp_def]
  have hhead := segments?_head (fun _ => "&&") "" [] [] second
  have hsecond : (segments? "&&" [] second).bind (List.mapM clause?) =
      (clauses? second).map (behind "&&") := by
    rw [show segments? "&&" [] second = _ from hhead]
    simp only [Option.bind_map, Function.comp_def, List.nil_append, mapM_modifyHead hclause]
    exact Option.map_bind.symm
  unfold clauses?
  rw [segments?_append (by decide)]
  cases segments? "" [] first with
  | none => rfl
  | some x =>
    show (((segments? "&&" [] second).map (x ++ ·)).bind (List.mapM clause?)) =
      (x.mapM clause?).bind fun x => (clauses? second).map fun y => x ++ behind "&&" y
    simp only [Option.bind_map, Function.comp_def, List.mapM_append, Option.bind_eq_bind,
      Option.pure_def]
    rw [Option.bind_comm]
    congr 1
    funext y
    calc (segments? "&&" [] second).bind (fun z => (z.mapM clause?).bind fun w => some (y ++ w))
        = ((segments? "&&" [] second).bind (List.mapM clause?)).map (y ++ ·) := by
          rw [Option.map_eq_bind, Option.bind_assoc]
          rfl
      _ = (clauses? second).map (fun w => y ++ behind "&&" w) := by
          rw [hsecond, Option.map_map]
          rfl

/-- Of two commands with the sign between them each is read as by itself. -/
theorem read?_conjunction {first : String} (h : Closed first) (second : String) :
    read? (first ++ conjunction ++ second) =
      (read? first).bind fun x => (read? second).map fun y => x ++ behind "&&" y := by
  obtain ⟨tokens, htokens, hscan⟩ := scan_conjunction h
  unfold read?
  rw [tokens?_append hscan, htokens]
  cases tokens? second with
  | none => simp
  | some rest => simp [clauses?_conjunction]

/-- The commands of texts with the sign between them. -/
def joined : List (List Clause) → List Clause
  | [] => []
  | x :: rest => x ++ behind "&&" (joined rest)

theorem read?_intercalate {texts : List String} (hne : texts ≠ [])
    (h : ∀ t ∈ texts.dropLast, Closed t) :
    read? (conjunction.intercalate texts) = (texts.mapM read?).map joined := by
  induction texts with
  | nil => exact absurd rfl hne
  | cons t texts ih =>
    cases texts with
    | nil =>
      rw [String.intercalate_singleton]
      cases ht : read? t <;> simp [ht, joined, behind]
    | cons u texts =>
      rw [List.dropLast_cons_cons, List.forall_mem_cons] at h
      rw [String.intercalate_cons_cons, List.mapM_cons, read?_conjunction h.1, ih (by simp) h.2]
      cases read? t with
      | none => rfl
      | some x => cases (u :: texts).mapM read? <;> rfl

theorem joined_commands (c : Command) (commands : List Command) :
    joined ((c :: commands).map fun c => [("", c)]) =
      ("", c) :: commands.map (("&&", ·)) := by
  induction commands generalizing c with
  | nil => rfl
  | cons d commands ih =>
    rw [List.map_cons, joined, ih]
    rfl

/-! ### Variables in front of a command -/

/-- The word that sets a variable, its value between quotes. -/
def assignmentWord (e : String × String) : Word :=
  bare e.1.toList ++ ⟨'=', false⟩ :: quoted e.2.toList

theorem isNameChar_of_isNameStart {c : Char} (h : isNameStart c = true) :
    isNameChar c = true := by
  simp only [isNameStart, isNameChar, Char.isAlphanum, Bool.or_eq_true] at h ⊢
  exact h.imp_left .inl

theorem isNameChar_of_isName {cs : List Char} (h : isName cs = true) :
    ∀ c ∈ cs, isNameChar c = true := by
  cases cs with
  | nil => exact fun _ hc => absurd hc List.not_mem_nil
  | cons c cs =>
    obtain ⟨hc, hcs⟩ := Bool.and_eq_true_iff.mp h
    exact List.forall_mem_cons.mpr ⟨isNameChar_of_isNameStart hc, List.all_eq_true.mp hcs⟩

theorem isOrdinary_of_isNameChar {c : Char} (h : isNameChar c = true) : isOrdinary c = true := by
  have hspecial : specials.all (!isNameChar ·) = true := by decide +kernel
  refine isOrdinary_iff.mpr fun hmem => ?_
  simpa [h] using List.all_eq_true.mp hspecial c hmem

theorem startsWord_of_isNameChar {c : Char} (h : isNameChar c = true) : startsWord c = true := by
  have hmarks : ['#', '~'].all (!isNameChar ·) = true := by decide +kernel
  refine Bool.and_eq_true_iff.mpr ⟨isOrdinary_of_isNameChar h, decide_eq_true fun hmem => ?_⟩
  simpa [h] using List.all_eq_true.mp hmarks c hmem

theorem textOf_bare (s : String) : textOf (bare s.toList) = s := by
  simp [textOf, bare, Function.comp_def]

theorem textOf_quoted (s : String) : textOf (quoted s.toList) = s := by
  simp [textOf, quoted, Function.comp_def]

theorem assignment?_assignmentWord {e : String × String} (h : isName e.1.toList = true) :
    assignment? (assignmentWord e) = some (e.1, quoted e.2.toList) := by
  have hname : ∀ l ∈ bare e.1.toList, decide (l ≠ ⟨'=', false⟩) = true := by
    intro l hl
    obtain ⟨c, hc, rfl⟩ := List.mem_map.mp hl
    have hchar := isNameChar_of_isName h c hc
    refine decide_eq_true fun heq => ?_
    rw [Letter.mk.injEq] at heq
    rw [heq.1] at hchar
    revert hchar
    decide
  have hall : (bare e.1.toList).all (!·.quoted) = true := by simp [bare]
  have hchars : (bare e.1.toList).map Letter.char = e.1.toList := by simp [bare, Function.comp_def]
  unfold assignment? assignmentWord
  rw [List.dropWhile_append_of_pos hname, List.takeWhile_append_of_pos hname]
  simp [hall, hchars, h, textOf_bare]

theorem commandOf?_assigning {values : List (String × String)}
    (h : ∀ e ∈ values, isName e.1.toList = true) (words : List Word) :
    commandOf? (values.map assignmentWord ++ words) =
      (commandOf? words).map (·.assigning values) := by
  induction values with
  | nil => simp [Command.assigning]
  | cons e values ih =>
    obtain ⟨he, hvalues⟩ := List.forall_mem_cons.mp h
    have hhome : (⟨'~', false⟩ : Letter) ∉ quoted e.2.toList := by simp [quoted]
    rw [List.map_cons, List.cons_append, commandOf?, assignment?_assignmentWord he]
    simp only [hhome, if_false, ih hvalues, textOf_quoted, Option.map_map]
    rfl

/-- Variables that are set in front of a text are those of its first command. -/
theorem read?_assigning {first : String} {values : List (String × String)}
    (hscan : State.scan {} first.toList = some (values.map (.word ∘ assignmentWord), {}))
    (h : ∀ e ∈ values, isName e.1.toList = true) (text : String) :
    read? (first ++ text) = (read? text).map (assigning values) := by
  have hclause (segment : String × List Word) :
      clause? (segment.1, values.map assignmentWord ++ segment.2) =
        (clause? segment).map fun c => (c.1, c.2.assigning values) := by
    simp [clause?, commandOf?_assigning h, Option.map_map, Function.comp_def]
  unfold read? clauses?
  rw [tokens?_append hscan, ← List.map_map]
  cases tokens? text with
  | none => rfl
  | some tokens =>
    have hhead := segments?_head id "" [] (values.map assignmentWord) tokens
    rw [List.append_nil, id] at hhead
    simp only [Option.map_some, Option.bind_some, segments?_words, List.nil_append, hhead, id,
      Option.bind_map, Function.comp_def, mapM_modifyHead hclause]
    exact Option.map_bind.symm

end Provision.Shell
