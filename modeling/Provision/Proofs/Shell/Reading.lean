import Provision.Proofs.Data.Scanner
import Mathlib.Data.List.Basic

/-! What a shell reads.

A shell takes a text apart into words and operators, character by character, before it runs
anything. A character that is quoted stands for itself. Of the others some end a word, some
make operators, and for some the shell puts something else. The reading here is that of a text
for which nothing has to be put in: it has no result if there is an unquoted character that asks
for it, nor for groups, redirections and quotes that do not end. Reserved words are words as any
other. -/
namespace Provision.Shell

/-! ### Words and operators -/

/-- A character of a word. -/
structure Letter where
  char : Char
  quoted : Bool
  deriving DecidableEq

abbrev Word := List Letter

inductive Token where
  | word (letters : Word)
  | operator (text : List Char)
  deriving DecidableEq

def bare (cs : List Char) : Word := cs.map (⟨·, false⟩)

def quoted (cs : List Char) : Word := cs.map (⟨·, true⟩)

def textOf (w : Word) : String := String.ofList (w.map Letter.char)

inductive Quote where
  | single
  | double
  deriving DecidableEq

/-- What a shell is in the middle of. -/
inductive Place where
  | between
  | comment
  | operator (text : List Char)
  | word (letters : Word) (quote : Option Quote)
  deriving DecidableEq

structure State where
  place : Place := .between
  /-- The next character stands behind a backslash. -/
  escaped : Bool := false
  deriving DecidableEq

/-- The operators, each of which starts with other ones. -/
def operators : List String :=
  ["&", "&&", "|", "||", ";", ";;", "(", ")", "\n", "<", "<<", "<<-", "<&", "<>", ">", ">>",
    ">&", ">|"]

def isOperator (cs : List Char) : Bool := cs ∈ operators.map String.toList

/-- Characters for which a shell puts something else, wherever they are in a word: the value of
a variable, what a command prints, the names of files. -/
def isExpanding (c : Char) : Bool := c ∈ ['$', '`', '*', '?', '[']

namespace State

/-- The letters of the word so far. -/
def pending (s : State) : Word :=
  match s.place with
  | .word letters _ => letters
  | _ => []

def inWord (s : State) : Bool := s.place matches .word ..

/-- What ends where a letter comes. -/
def ended (s : State) : List Token :=
  match s.place with
  | .operator text => [.operator text]
  | _ => []

/-- What ends where no more letters come. -/
def close (s : State) : List Token :=
  match s.place with
  | .word letters _ => [.word letters]
  | _ => s.ended

/-- Adds letters to the word, which starts here if there is none. -/
def spell (s : State) (letters : Word) (quote : Option Quote) : List Token × State :=
  (s.ended, { place := .word (s.pending ++ letters) quote })

/-- A character of an operator, which starts here if it does not go on with it. -/
def operate (s : State) (c : Char) : List Token × State :=
  match s.place with
  | .operator text =>
    if isOperator (text ++ [c]) then ([], { place := .operator (text ++ [c]) })
    else ([.operator text], { place := .operator [c] })
  | _ => (s.close, { place := .operator [c] })

/-- A character out of quotes. -/
def bareStep (s : State) (c : Char) : Option (List Token × State) :=
  if c = '\\' then some ([], { s with escaped := true })
  else if c = '\'' then some (s.spell [] (some .single))
  else if c = '"' then some (s.spell [] (some .double))
  else if isExpanding c then none
  else if isOperator [c] then some (s.operate c)
  else if c = ' ' ∨ c = '\t' then some (s.close, {})
  else if s.inWord then some (s.spell [⟨c, false⟩] none)
  else if c = '#' then some (s.close, { place := .comment })
  -- At the start of a word a tilde is the home of a user.
  else if c = '~' then none
  else some (s.spell [⟨c, false⟩] none)

def doubleStep (s : State) (c : Char) : Option (List Token × State) :=
  if c = '"' then some (s.spell [] none)
  else if c = '\\' then some ([], { s with escaped := true })
  else if c = '$' ∨ c = '`' then none
  else some (s.spell [⟨c, true⟩] (some .double))

/-- A character behind a backslash. A line goes on behind one at its end. -/
def escapedStep (s : State) (c : Char) : List Token × State :=
  if c = '\n' then ([], { s with escaped := false })
  else
    match s.place with
    | .word _ (some .double) =>
      if c ∈ ['$', '`', '"', '\\'] then s.spell [⟨c, true⟩] (some .double)
      else s.spell [⟨'\\', true⟩, ⟨c, true⟩] (some .double)
    | _ => s.spell [⟨c, true⟩] none

/-- The tokens that end with a character, and what comes then. -/
def step (s : State) (c : Char) : Option (List Token × State) :=
  if s.escaped then some (s.escapedStep c)
  else
    match s.place with
    | .comment => some (if c = '\n' then s.operate c else ([], s))
    | .word _ (some .single) =>
      some (if c = '\'' then s.spell [] none else s.spell [⟨c, true⟩] (some .single))
    | .word _ (some .double) => s.doubleStep c
    | _ => s.bareStep c

abbrev scan (s : State) (cs : List Char) : Option (List Token × State) := scanBy step s cs

/-- What is left at the end of a text. -/
def finish? (s : State) : Option (List Token) :=
  match s.place with
  | .word _ (some _) => none
  | _ => if s.escaped then none else some s.close

end State

/-- The words and operators of a text. -/
def tokens? (text : String) : Option (List Token) := do
  let (tokens, s) ← State.scan {} text.toList
  return tokens ++ (← s.finish?)

/-! ### Commands -/

structure Command where
  /-- The variables that are set for the command. -/
  assignments : List (String × String) := []
  words : List String := []
  deriving DecidableEq

/-- A command with the operator in front of it, if there is one. -/
abbrev Clause := String × Command

def isNameStart (c : Char) : Bool := c.isAlpha || c == '_'

def isNameChar (c : Char) : Bool := c.isAlphanum || c == '_'

/-- The name of a variable: `[A-Za-z_][A-Za-z0-9_]*`. -/
def isName : List Char → Bool
  | [] => false
  | c :: cs => isNameStart c && cs.all isNameChar

/-- The name and the value of a word that sets a variable. -/
def assignment? (w : Word) : Option (String × Word) :=
  match w.dropWhile (· ≠ ⟨'=', false⟩) with
  | [] => none
  | _ :: value =>
    let name := w.takeWhile (· ≠ ⟨'=', false⟩)
    if name.all (!·.quoted) && isName (name.map Letter.char) then some (textOf name, value)
    else none

/-- The command of some words. In the value of a variable, too, a tilde may be a home. -/
def commandOf? : List Word → Option Command
  | [] => some {}
  | w :: rest =>
    match assignment? w with
    | none => some { words := (w :: rest).map textOf }
    | some (name, value) =>
      if ⟨'~', false⟩ ∈ value then none
      else (commandOf? rest).map fun c =>
        { c with assignments := (name, textOf value) :: c.assignments }

/-- The operators between commands. -/
def isConnector (operator : String) : Bool := operator ∈ ["&&", "||", ";", "&", "|", "\n"]

/-- The words of each command. `operator` and `words` are those of the first one so far. -/
def segments? (operator : String) (words : List Word) :
    List Token → Option (List (String × List Word))
  | [] => some [(operator, words)]
  | .word w :: rest => segments? operator (words ++ [w]) rest
  | .operator o :: rest =>
    if isConnector (String.ofList o) then
      (segments? (String.ofList o) [] rest).map ((operator, words) :: ·)
    else none

def clause? (segment : String × List Word) : Option Clause :=
  (commandOf? segment.2).map (segment.1, ·)

def clauses? (tokens : List Token) : Option (List Clause) :=
  (segments? "" [] tokens).bind fun segments => segments.mapM clause?

/-- The commands that a text is read as. -/
def read? (text : String) : Option (List Clause) := (tokens? text).bind clauses?

/-! ### Scanning -/

namespace State

@[simp]
theorem spell_word (before letters : Word) (quote next : Option Quote) (escaped : Bool) :
    spell { place := .word before quote, escaped } letters next =
      ([], { place := .word (before ++ letters) next }) := rfl

@[simp]
theorem spell_between (letters : Word) (quote : Option Quote) :
    spell {} letters quote = ([], { place := .word letters quote }) := rfl

theorem scan_append_of_scan {s s₁ : State} {a : List Char} {tokens : List Token}
    (h : s.scan a = some (tokens, s₁)) (b : List Char) :
    s.scan (a ++ b) = (s₁.scan b).map fun rest => (tokens ++ rest.1, rest.2) :=
  scanBy_append_of_scanBy h b

/-- Neither in quotes nor in a comment nor behind a backslash. -/
def Open (s : State) : Prop :=
  s.escaped = false ∧ match s.place with
    | .comment | .word _ (some _) => False
    | _ => True

theorem step_of_open {s : State} (h : s.Open) (c : Char) : s.step c = s.bareStep c := by
  obtain ⟨place, escaped⟩ := s
  obtain ⟨rfl, hplace⟩ := h
  match place with
  | .between | .operator _ | .word _ none => rfl

end State

/-- A character that stands for itself in a word without quotes. -/
def isOrdinary (c : Char) : Bool :=
  c ∉ ['\\', '\'', '"', ' ', '\t'] && !isExpanding c && !isOperator [c]

/-- The characters that are not ordinary. -/
def specials : List Char :=
  ['\\', '\'', '"', ' ', '\t', '$', '`', '*', '?', '[', '&', '|', ';', '(', ')', '\n', '<', '>']

theorem isOrdinary_iff {c : Char} : isOrdinary c = true ↔ c ∉ specials := by
  simp [isOrdinary, isExpanding, isOperator, operators, specials, and_assoc]

/-- A character with which a word of ordinary characters can start. -/
def startsWord (c : Char) : Bool := isOrdinary c && c ∉ ['#', '~']

namespace State

theorem bareStep_of_ordinary {s : State} {c : Char} (hc : isOrdinary c = true)
    (hs : s.inWord = true ∨ startsWord c = true) :
    s.bareStep c = some (s.spell (bare [c]) none) := by
  simp only [isOrdinary, List.mem_cons, List.not_mem_nil, not_or, or_false, Bool.and_eq_true,
    decide_eq_true_eq, Bool.not_eq_true'] at hc
  obtain ⟨⟨⟨hbackslash, hsingle, hdouble, hspace, htab⟩, hexpanding⟩, hoperator⟩ := hc
  rcases hs with hs | hs
  · simp [bareStep, bare, hbackslash, hsingle, hdouble, hspace, htab, hexpanding, hoperator, hs]
  · have hfirst : c ≠ '#' ∧ c ≠ '~' := by simpa [startsWord] using (Bool.and_eq_true_iff.mp hs).2
    simp [bareStep, bare, hbackslash, hsingle, hdouble, hspace, htab, hexpanding, hoperator, hfirst]

/-- Ordinary characters are letters of one word. -/
theorem scan_word {cs : List Char} (hcs : ∀ c ∈ cs, isOrdinary c = true) (letters : Word) :
    scan { place := .word letters none } cs =
      some ([], { place := .word (letters ++ bare cs) none }) := by
  induction cs generalizing letters with
  | nil => simp [scanBy, bare]
  | cons c cs ih =>
    obtain ⟨hc, hcs⟩ := List.forall_mem_cons.mp hcs
    have hstep : step { place := .word letters none } c =
        some ([], { place := .word (letters ++ bare [c]) none }) :=
      (step_of_open ⟨rfl, trivial⟩ c).trans (bareStep_of_ordinary hc (.inl rfl))
    simp [scanBy, hstep, ih hcs, bare]

theorem scan_start {s : State} (hs : s.Open) {c : Char} {cs : List Char}
    (hc : startsWord c = true) (hcs : ∀ d ∈ cs, isOrdinary d = true) :
    s.scan (c :: cs) = some (s.spell (bare (c :: cs)) none) := by
  have hstep : s.step c = some (s.spell (bare [c]) none) :=
    (step_of_open hs c).trans
      (bareStep_of_ordinary (Bool.and_eq_true_iff.mp hc).1 (.inr hc))
  have hrest := scan_word hcs (s.pending ++ [⟨c, false⟩])
  simp [scanBy, hstep, spell, hrest, bare]

theorem scan_blank {s : State} (hs : s.Open) : s.scan [' '] = some (s.close, {}) := by
  have hstep : s.step ' ' = some (s.close, {}) := step_of_open hs ' '
  simp [scanBy, hstep]

end State

end Provision.Shell
