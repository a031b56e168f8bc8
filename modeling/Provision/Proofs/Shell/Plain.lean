import Provision.Proofs.Shell.Sequence

/-! Words without quotes.

A character becomes at most one letter of a word, so a text in which one of them is lost is not
read as it is. -/
namespace Provision.Shell

/-! ### Letters -/

/-- The number of letters of a token. -/
@[simp]
def Token.size : Token → Nat
  | .word letters => letters.length
  | .operator _ => 0

namespace State

/-- The number of letters of the word so far. A backslash between double quotes may be one. -/
def size (s : State) : Nat :=
  s.pending.length + if s.escaped ∧ s.place matches .word _ (some .double) then 1 else 0

/-- How many letters there are after a step. -/
abbrev letters (r : List Token × State) : Nat := weigh Token.size size r

@[simp]
theorem letters_word (ls : Word) (quote : Option Quote) :
    letters ([], { place := .word ls quote }) = ls.length := by
  simp [weigh, size, pending]

variable (s : State)

theorem letters_spell (ls : Word) (quote : Option Quote) :
    letters (s.spell ls quote) = s.pending.length + ls.length := by
  obtain ⟨place, escaped⟩ := s
  cases place <;> simp [weigh, spell, ended, size, pending]

theorem letters_close {next : State} (h : next.size = 0) :
    letters (s.close, next) = s.pending.length := by
  obtain ⟨place, escaped⟩ := s
  cases place <;> simp [weigh, close, ended, pending, h]

theorem letters_operate (c : Char) : letters (s.operate c) = s.pending.length := by
  obtain ⟨place, escaped⟩ := s
  cases place <;> simp [weigh, operate, close, ended, size, pending]
  split <;> simp

variable {s} {c : Char} {r : List Token × State}

/-- Out of quotes only ordinary characters become letters. -/
theorem letters_bareStep (h : s.bareStep c = some r) (hs : s.Open) :
    letters r ≤ s.pending.length + if isOrdinary c then 1 else 0 := by
  unfold bareStep at h
  split_ifs at h with hbackslash hsingle hdouble hexpanding hoperator hblank hword hcomment
    <;> cases h
  · obtain ⟨place, escaped⟩ := s
    obtain ⟨_, hplace⟩ := hs
    match place with
    | .between | .operator _ | .word _ none => simp [weigh, size, pending]
  · simp [letters_spell]
  · simp [letters_spell]
  · simp [letters_operate]
  · simp [letters_close, size, pending]
  · have hordinary : isOrdinary c = true := by simp_all [isOrdinary]
    simp [letters_spell, hordinary]
  · simp [letters_close, size, pending]
  · have hordinary : isOrdinary c = true := by simp_all [isOrdinary]
    simp [letters_spell, hordinary]

theorem letters_doubleStep {ls : Word}
    (h : doubleStep { place := .word ls (some .double) } c = some r) :
    letters r ≤ ls.length + 1 := by
  unfold doubleStep at h
  split_ifs at h <;> cases h <;> simp [weigh, size, pending]

theorem letters_escapedStep (place : Place) (c : Char) :
    letters (escapedStep { place, escaped := true } c) ≤ size { place, escaped := true } + 1 := by
  unfold escapedStep
  by_cases hc : c = '\n'
  · rw [if_pos hc]
    have hless : size { place, escaped := false } ≤ size { place, escaped := true } := by
      simp [size, pending]
    simpa [weigh] using Nat.le_succ_of_le hless
  · rw [if_neg hc]
    cases place with
    | between | comment | operator _ => simp [letters_spell, size, pending]
    | word ls quote =>
      rcases quote with _ | _ | _
      · simp [size, pending]
      · simp [size, pending]
      · dsimp only
        split <;> simp [size, pending]

/-- A character becomes at most one letter. -/
theorem letters_step (h : s.step c = some r) : letters r ≤ s.size + 1 := by
  obtain ⟨place, escaped⟩ := s
  cases escaped with
  | true =>
    cases h
    exact letters_escapedStep place c
  | false =>
    match place with
    | .comment =>
      cases h
      split
      · simp [letters_operate, size, pending]
      · simp [weigh]
    | .word ls (some .single) =>
      cases h
      split <;> simp [size, pending]
    | .word ls (some .double) => simpa [size, pending] using letters_doubleStep h
    | .between | .operator _ | .word _ none =>
      have hbare := letters_bareStep h ⟨rfl, trivial⟩
      have hone : (if isOrdinary c then 1 else 0) ≤ 1 := by split <;> decide
      simp only [size]
      omega

/-- Of a word without quotes a character that is not ordinary is lost. -/
theorem letters_scan_lt {ls : Word} {cs : List Char}
    (h : scan { place := .word ls none } cs = some r)
    (hcs : ¬ ∀ c ∈ cs, isOrdinary c = true) : letters r < ls.length + cs.length := by
  refine weigh_scanBy_lt (p := fun s => ∃ ls, s = { place := .word ls none })
    (fun _ _ _ => letters_step) ?kept ?lost ⟨ls, rfl⟩ h hcs
  case kept =>
    rintro _ c r ⟨ls, rfl⟩ hc hstep
    rw [step_of_open ⟨rfl, trivial⟩, bareStep_of_ordinary hc (.inl rfl)] at hstep
    cases hstep
    exact ⟨_, rfl⟩
  case lost =>
    rintro _ c r ⟨ls, rfl⟩ hc hstep
    simpa [hc, size] using letters_bareStep hstep ⟨rfl, trivial⟩

theorem sizes_finish? {tokens : List Token} (h : s.finish? = some tokens) :
    (tokens.map Token.size).sum = s.size := by
  obtain ⟨place, escaped⟩ := s
  cases escaped with
  | true => match place with
    | .between | .comment | .operator _ | .word _ none | .word _ (some _) => cases h
  | false =>
    match place with
    | .between | .comment | .operator _ | .word _ none =>
      cases h
      simp [close, ended, size, pending]
    | .word _ (some _) => cases h

end State

/-! ### Plain words -/

theorem segments?_ne_nil {operator : String} {ws : List Word} {tokens : List Token} :
    segments? operator ws tokens ≠ some [] := by
  induction tokens generalizing ws with
  | nil => simp [segments?]
  | cons token tokens ih =>
    cases token with
    | word w => exact ih
    | operator o =>
      rw [segments?]
      split <;> simp

/-- There is only one command if there is no operator. -/
theorem words_of_segments? {operator : String} {ws : List Word} {tokens : List Token}
    {segment : String × List Word} (h : segments? operator ws tokens = some [segment]) :
    ∃ words, tokens = words.map .word ∧ segment = (operator, ws ++ words) := by
  induction tokens generalizing ws with
  | nil =>
    cases h
    exact ⟨[], rfl, by simp⟩
  | cons token tokens ih =>
    cases token with
    | word w =>
      obtain ⟨words, rfl, rfl⟩ := ih h
      exact ⟨w :: words, rfl, by simp⟩
    | operator o =>
      rw [segments?] at h
      split at h
      · obtain ⟨rest, hrest, heq⟩ := Option.map_eq_some_iff.mp h
        obtain rfl : rest = [] := (List.cons.inj heq).2
        exact absurd hrest segments?_ne_nil
      · cases h

theorem commandOf?_words {ws : List Word} {words : List String}
    (h : commandOf? ws = some { words }) : ws.map textOf = words := by
  cases ws with
  | nil =>
    cases h
    rfl
  | cons w ws =>
    rw [commandOf?] at h
    split at h
    · cases h
      rfl
    · split at h
      · cases h
      · obtain ⟨c, _, hc⟩ := Option.map_eq_some_iff.mp h
        cases congrArg Command.assignments hc

theorem words_of_clauses? {tokens : List Token} {words : List String}
    (h : clauses? tokens = some [("", { words })]) :
    ∃ ws : List Word, tokens = ws.map .word ∧ ws.map textOf = words := by
  obtain ⟨segments, hsegments, h⟩ := Option.bind_eq_some_iff.mp h
  match segments with
  | [] => cases h
  | segment :: rest =>
    obtain ⟨clause, others, hclause, hrest, heq⟩ := mapM_cons_eq_some.mp h
    cases heq
    obtain rfl : rest = [] := by
      cases rest with
      | nil => rfl
      | cons segment rest =>
        obtain ⟨_, _, _, _, heq⟩ := mapM_cons_eq_some.mp hrest
        cases heq
    obtain ⟨ws, htokens, rfl⟩ := words_of_segments? hsegments
    obtain ⟨command, hcommand, heq⟩ := Option.map_eq_some_iff.mp hclause
    cases heq
    exact ⟨ws, htokens, commandOf?_words hcommand⟩

theorem sizes_words (ws : List Word) :
    ((ws.map Token.word).map Token.size).sum = ((ws.map textOf).map String.length).sum := by
  simp [textOf, Function.comp_def]

theorem scan_program : State.scan {} "sh ".toList = some ([.word (bare ['s', 'h'])], {}) := by
  decide +kernel

/-- A word of ordinary characters behind the name of a program. -/
theorem scan_plain {word : String} {c : Char} {cs : List Char} (hword : word.toList = c :: cs)
    (hc : startsWord c = true) (h : ∀ d ∈ word.toList, isOrdinary d = true) :
    State.scan {} ("sh " ++ word).toList =
      some ([.word (bare ['s', 'h'])], { place := .word (bare word.toList) none }) := by
  rw [String.toList_append, State.scan_append_of_scan scan_program, hword,
    State.scan_start ⟨rfl, trivial⟩ hc (List.forall_mem_cons.mp (hword ▸ h)).2]
  rfl

/-- **A word behind the name of a program is read as it is exactly if all its characters are
ordinary.** Any other character ends the word, is lost or asks for something else. -/
theorem read?_plain {word : String} {c : Char} {cs : List Char}
    (hword : word.toList = c :: cs) (hc : startsWord c = true) :
    read? ("sh " ++ word) = some [("", { words := ["sh", word] })] ↔
      ∀ d ∈ word.toList, isOrdinary d = true := by
  constructor
  · intro h
    rw [read?, tokens?_append scan_program] at h
    obtain ⟨tokens, htokens, h⟩ := Option.bind_eq_some_iff.mp h
    obtain ⟨rest, hrest, rfl⟩ := Option.map_eq_some_iff.mp htokens
    obtain ⟨ws, htokens, hws⟩ := words_of_clauses? h
    have hall : (rest.map Token.size).sum = word.length := by
      have hsh : "sh".length = 2 := rfl
      have hsizes := sizes_words ws
      rw [← htokens, hws] at hsizes
      simpa [bare, hsh] using hsizes
    -- All the characters of the word are there again as letters.
    obtain ⟨r, hscan, hfinish⟩ := Option.bind_eq_some_iff.mp hrest
    obtain ⟨last, hlast, hrest⟩ := Option.bind_eq_some_iff.mp hfinish
    cases hrest
    have hstart : State.scan {} [c] = some ([], { place := .word (bare [c]) none }) :=
      State.scan_start ⟨rfl, trivial⟩ hc (by simp)
    rw [hword, ← List.singleton_append, State.scan_append_of_scan hstart] at hscan
    obtain ⟨behindFirst, hbehind, rfl⟩ := Option.map_eq_some_iff.mp hscan
    rw [hword, List.forall_mem_cons]
    refine ⟨(Bool.and_eq_true_iff.mp hc).1, not_not.mp fun hcs => ?_⟩
    have hlt := State.letters_scan_lt hbehind hcs
    have hsize := State.sizes_finish? hlast
    have hlength : word.length = 1 + cs.length := by
      rw [← String.length_toList, hword, List.length_cons, Nat.add_comm]
    simp only [weigh, bare, List.nil_append, List.map_append, List.map_cons, List.sum_append,
      List.length_cons, List.length_nil, List.map_nil] at hall hlt hsize
    omega
  · intro h
    have hsh : assignment? (bare ['s', 'h']) = none := by decide
    have htext : textOf (bare ['s', 'h']) = "sh" := by decide
    rw [read?, tokens?_of_scan (scan_plain hword hc h) ⟨rfl, trivial⟩]
    simp [clauses?, segments?, clause?, commandOf?, State.close, hsh, htext, textOf_bare]

end Provision.Shell
