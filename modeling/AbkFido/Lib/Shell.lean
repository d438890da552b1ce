/-
The token recognition of a POSIX shell.

The lexer reads a character at a time. A word is kept as its characters with
how each is quoted; a word that an expansion could still change has no value
(`Part.literal`). Where the next character alone does not tell what is read, in
a substitution, a parameter in braces, a here-document, the lexer gives up.
-/
import Mathlib.Data.List.Basic

namespace Shell

def nul : Char := Char.ofNat 0

def singleQuote : Char := Char.ofNat 39

def doubleQuote : Char := Char.ofNat 34

def backquote : Char := Char.ofNat 96

/-- A character of a word. -/
inductive Part
  | bare (c : Char)
  /-- After a backslash, or in single quotes. -/
  | quoted (c : Char)
  /-- In double quotes. -/
  | double (c : Char)
  deriving DecidableEq

/-- What the character is after expansion, if none touches it. -/
def Part.literal : Part → Option Char
  | bare c => if c ∈ ['$', '*', '?', '[', '~', '{'] then none else some c
  | quoted c => some c
  | double c => if c = '$' then none else some c

def Part.isDigit : Part → Bool
  | bare c => c.isDigit
  | _ => false

/-- The one field that the word expands to. -/
def value (parts : List Part) : Option (List Char) := parts.mapM Part.literal

inductive Token
  | word (parts : List Part)
  | ioNumber (digits : List Part)
  | operator (cs : List Char)
  | newline
  deriving DecidableEq

def operators : List (List Char) :=
  [['&'], ['|'], [';'], ['<'], ['>'], ['('], [')'], ['&', '&'], ['|', '|'], [';', ';'], ['>', '>'], ['<', '&'], ['>', '&'],
    ['<', '>'], ['>', '|']]

/-- The token in progress. -/
inductive Pending
  | none
  | word (parts : List Part)
  | operator (cs : List Char)
  deriving DecidableEq

namespace Pending

/-- The token, once it is known to be complete. Digits before a redirection are
its file descriptor. -/
def emit (redirects : Bool) : Pending → List Token
  | none => []
  | word parts =>
    if redirects && !parts.isEmpty && parts.all Part.isDigit then
      [.ioNumber parts]
    else [.word parts]
  | operator cs => [.operator cs]

/-- The word goes on with these characters, or begins with them. -/
def add (more : List Part) : Pending → Pending × List Token
  | none => (word more, [])
  | word parts => (word (parts ++ more), [])
  | operator cs => (word more, [.operator cs])

/-- The word ends in a dollar sign that is not quoted. -/
def dollar : Pending → Bool
  | word parts => parts.getLast? == some (.bare '$') || parts.getLast? == some (.double '$')
  | _ => false

def isWord : Pending → Bool
  | word _ => true
  | _ => false

/-- An operator is as long as its characters allow. -/
def operate (c : Char) : Pending → Option (Pending × List Token)
  | operator cs =>
    if cs = ['<'] ∧ c = '<' then Option.none
    else if cs ++ [c] ∈ operators then some (operator (cs ++ [c]), [])
    else some (operator [c], [.operator cs])
  | pending => some (operator [c], pending.emit (c = '<' ∨ c = '>'))

end Pending

inductive Mode
  | bare
  | escape
  | single
  | double
  | doubleEscape
  | comment
  deriving DecidableEq

structure State where
  mode : Mode
  pending : Pending
  deriving DecidableEq

/-- Between tokens. -/
def gap : State := ⟨.bare, .none⟩

def bareStep (pending : Pending) (c : Char) : Option (State × List Token) :=
  -- a backslash may continue the line, so it ends no token
  if c = '\\' then some (⟨.escape, pending⟩, [])
  else if c = backquote then none
  else if pending.dollar && c ∈ ['(', '{', singleQuote, doubleQuote] then none
  else if c = singleQuote then some (⟨.single, (pending.add []).1⟩, (pending.add []).2)
  else if c = doubleQuote then some (⟨.double, (pending.add []).1⟩, (pending.add []).2)
  else if c = '\n' then some (gap, pending.emit false ++ [.newline])
  else if c = ' ' ∨ c = '\t' then some (gap, pending.emit false)
  else if [c] ∈ operators then (pending.operate c).map fun p => (⟨.bare, p.1⟩, p.2)
  else if c = '#' ∧ ¬ pending.isWord then some (⟨.comment, .none⟩, pending.emit false)
  else some (⟨.bare, (pending.add [.bare c]).1⟩, (pending.add [.bare c]).2)

def step (s : State) (c : Char) : Option (State × List Token) :=
  if c = nul then none
  else match s.mode with
  | .bare => bareStep s.pending c
  | .escape =>
    if c = '\n' then some (⟨.bare, s.pending⟩, [])
    else some (⟨.bare, (s.pending.add [.quoted c]).1⟩, (s.pending.add [.quoted c]).2)
  | .single =>
    if c = singleQuote then some (⟨.bare, s.pending⟩, [])
    else some (⟨.single, (s.pending.add [.quoted c]).1⟩, [])
  | .double =>
    if c = doubleQuote then some (⟨.bare, s.pending⟩, [])
    else if c = '\\' then some (⟨.doubleEscape, s.pending⟩, [])
    else if c = backquote ∨ s.pending.dollar && c ∈ ['(', '{'] then none
    else some (⟨.double, (s.pending.add [.double c]).1⟩, [])
  | .doubleEscape =>
    if c = '\n' then some (⟨.double, s.pending⟩, [])
    else if c ∈ ['$', backquote, doubleQuote, '\\'] then some (⟨.double, (s.pending.add [.quoted c]).1⟩, [])
    else some (⟨.double, (s.pending.add [.quoted '\\', .double c]).1⟩, [])
  | .comment => if c = '\n' then some (gap, [.newline]) else some (s, [])

/-- The tokens that are complete after these characters. -/
def run : State → List Char → Option (State × List Token)
  | s, [] => some (s, [])
  | s, c :: cs => (step s c).bind fun p => (run p.1 cs).map fun q => (q.1, p.2 ++ q.2)

/-- At the end of the input no quotation may be open. -/
def finish (s : State) : Option (List Token) :=
  if s.mode = .bare ∨ s.mode = .comment then some (s.pending.emit false) else none

/-- The tokens of a text that is read from `s` on. -/
def lexFrom (s : State) (cs : List Char) : Option (List Token) :=
  (run s cs).bind fun p => (finish p.1).map (p.2 ++ ·)

def lex (cs : List Char) : Option (List Token) := lexFrom gap cs

/-! ## Runs -/

variable {s s' s'' : State} {cs more : List Char} {tokens tokens' : List Token}

theorem run_append_eq (s : State) (cs more : List Char) :
    run s (cs ++ more) = (run s cs).bind fun p => (run p.1 more).map fun q => (q.1, p.2 ++ q.2) := by
  induction cs generalizing s with
  | nil => simp [run]
  | cons c cs ih =>
    rw [List.cons_append, run, run]
    cases step s c with
    | none => rfl
    | some p =>
      rw [Option.bind_some, Option.bind_some, ih]
      cases run p.1 cs with
      | none => rfl
      | some q =>
        rw [Option.bind_some, Option.map_some, Option.bind_some, Option.map_map]
        simp only [Function.comp_def, List.append_assoc]

theorem run_append (h : run s cs = some (s', tokens)) (hmore : run s' more = some (s'', tokens')) :
    run s (cs ++ more) = some (s'', tokens ++ tokens') := by
  rw [run_append_eq, h, Option.bind_some, hmore]
  rfl

theorem run_nil (s : State) : run s [] = some (s, []) := rfl

theorem run_cons {c : Char} (hstep : step s c = some (s', tokens)) (hmore : run s' cs = some (s'', tokens')) :
    run s (c :: cs) = some (s'', tokens ++ tokens') := by
  rw [run, hstep, Option.bind_some, hmore]
  rfl

theorem lexFrom_append (h : run s cs = some (s', tokens)) (more : List Char) :
    lexFrom s (cs ++ more) = (lexFrom s' more).map (tokens ++ ·) := by
  rw [lexFrom, run_append_eq, h, Option.bind_some, lexFrom]
  cases run s' more with
  | none => rfl
  | some q =>
    rw [Option.map_some, Option.bind_some, Option.bind_some, Option.map_map]
    simp only [Function.comp_def, List.append_assoc]

theorem lex_of_run {pending : Pending} (h : run gap cs = some (⟨.bare, pending⟩, tokens)) :
    lex cs = some (tokens ++ pending.emit false) := by
  have hlex := lexFrom_append h []
  rwa [List.append_nil] at hlex

/-- In single quotes nothing but the quote is special. -/
theorem step_single {parts : List Part} {c : Char} (hquote : c ≠ singleQuote) (hnul : c ≠ nul) :
    step ⟨.single, .word parts⟩ c = some (⟨.single, .word (parts ++ [.quoted c])⟩, []) := by
  rw [step, if_neg hnul]
  exact if_neg hquote

/-- The characters that do not stand for themselves where nothing is quoted. -/
def special : List Char :=
  [nul, '\\', backquote, '(', ')', '{', '#', '&', '|', ';', '<', '>', ' ', '\t', '\n', singleQuote, doubleQuote]

theorem step_bare {c : Char} (pending : Pending) (hc : c ∉ special) :
    step ⟨.bare, pending⟩ c = some (⟨.bare, (pending.add [.bare c]).1⟩, (pending.add [.bare c]).2) := by
  have hne : ∀ d ∈ special, c ≠ d := fun d hd hcd => hc (hcd ▸ hd)
  simp only [special, List.forall_mem_cons] at hne
  obtain ⟨hnul, hback, hbackquote, hopen, hclose, hbrace, hhash, hand, hor, hsemi, hless, hmore, hspace, htab, hnl, hsingle,
    hdouble, _⟩ := hne
  have hop : [c] ∉ operators := by
    simp [operators, hopen, hclose, hand, hor, hsemi, hless, hmore]
  have hexpand : c ∉ ['(', '{', singleQuote, doubleQuote] := by
    simp [hopen, hbrace, hsingle, hdouble]
  rw [step, if_neg hnul]
  simp [bareStep, hback, hbackquote, hexpand, hsingle, hdouble, hnl, hspace, htab, hop, hhash]

theorem run_bare {parts : List Part} (h : ∀ c ∈ cs, c ∉ special) :
    run ⟨.bare, .word parts⟩ cs = some (⟨.bare, .word (parts ++ cs.map .bare)⟩, []) := by
  induction cs generalizing parts with
  | nil => simp [run]
  | cons c cs ih =>
    obtain ⟨hc, hcs⟩ := List.forall_mem_cons.mp h
    have hrun := run_cons (step_bare (.word parts) hc) (ih hcs)
    simpa [List.append_assoc, Pending.add] using hrun

/-- Between tokens such characters begin a word. -/
theorem run_gap_bare (h : ∀ c ∈ cs, c ∉ special) (hne : cs ≠ []) :
    run gap cs = some (⟨.bare, .word (cs.map .bare)⟩, []) := by
  cases cs with
  | nil => exact absurd rfl hne
  | cons c cs =>
    obtain ⟨hc, hcs⟩ := List.forall_mem_cons.mp h
    exact run_cons (step_bare .none hc) (run_bare hcs)

theorem value_quoted (cs : List Char) : value (cs.map .quoted) = some cs := by
  induction cs with
  | nil => rfl
  | cons c cs ih =>
    rw [value] at ih ⊢
    rw [List.map_cons, List.mapM_cons, ih]
    rfl

/-! ## A word between tokens -/

/-- What ends a word. -/
def Delimits (c : Char) : Prop := c = ' ' ∨ c = '\t' ∨ c = '\n' ∨ [c] ∈ operators

theorem emit_quoted (cs : List Char) (redirects : Bool) :
    (Pending.word (cs.map .quoted)).emit redirects = [.word (cs.map .quoted)] := by
  cases cs <;> simp [Pending.emit, Part.isDigit]

theorem dollar_quoted (cs : List Char) : (Pending.word (cs.map .quoted)).dollar = false := by
  simp only [Pending.dollar, List.getLast?_map]
  cases cs.getLast? <;> simp

section
variable {pending : Pending} {c : Char}

theorem step_blank (h : c = ' ' ∨ c = '\t') : step ⟨.bare, pending⟩ c = some (gap, pending.emit false) := by
  rcases h with rfl | rfl <;> simp +decide [step, bareStep]

theorem run_spaces (n : Nat) (cs : List Char) : run gap (List.replicate n ' ' ++ cs) = run gap cs := by
  induction n with
  | zero => rfl
  | succ n ih =>
    have hspace : step gap ' ' = some (gap, []) := step_blank (.inl rfl)
    rw [List.replicate_succ, List.cons_append, run, hspace, Option.bind_some, ih]
    simp

theorem step_newline : step ⟨.bare, pending⟩ '\n' = some (gap, pending.emit false ++ [.newline]) := by
  simp +decide [step, bareStep]

theorem step_operator (h : [c] ∈ operators) (hdollar : pending.dollar = false) :
    step ⟨.bare, pending⟩ c = (pending.operate c).map fun p => (⟨.bare, p.1⟩, p.2) := by
  have hmem : c ∈ ['&', '|', ';', '<', '>', '(', ')'] := by
    revert h
    simp [operators]
  have hnot : ∀ d ∈ ['&', '|', ';', '<', '>', '(', ')'], d ≠ nul ∧ d ≠ '\\' ∧ d ≠ backquote ∧ d ≠ singleQuote ∧
      d ≠ doubleQuote ∧ d ≠ '\n' ∧ ¬ (d = ' ' ∨ d = '\t') := by simp [nul, backquote, singleQuote, doubleQuote]
  obtain ⟨hnul, hback, hbackquote, hsingle, hdouble, hnl, hblank⟩ := hnot c hmem
  rw [step, if_neg hnul]
  simp only [bareStep, hback, hbackquote, hsingle, hdouble, hnl, hblank, if_false, hdollar, Bool.false_and, h, if_true,
    Bool.false_eq_true]

end

/-- A word is complete at a delimiter, which is then read as after none. -/
theorem step_delimiter {c : Char} (hc : Delimits c) (cs : List Char) :
    ∃ next tokens, step gap c = some (next, tokens) ∧
      step ⟨.bare, .word (cs.map .quoted)⟩ c = some (next, .word (cs.map .quoted) :: tokens) := by
  rcases hc with hblank | hblank | rfl | hop
  · exact ⟨gap, [], step_blank (.inl hblank), by rw [step_blank (.inl hblank), emit_quoted]⟩
  · exact ⟨gap, [], step_blank (.inr hblank), by rw [step_blank (.inr hblank), emit_quoted]⟩
  · exact ⟨gap, [.newline], step_newline, by rw [step_newline, emit_quoted]; rfl⟩
  · refine ⟨⟨.bare, .operator [c]⟩, [], step_operator hop rfl, ?_⟩
    rw [step_operator hop (dollar_quoted cs), Pending.operate, emit_quoted]
    · rfl
    · exact nofun

/-- The words and operators before end where the text does. -/
def State.Between (s : State) : Prop := s.mode = .bare ∧ s.pending.isWord = false

/-- The text is one word, wherever a token may begin. -/
def OneWord (text value : List Char) : Prop :=
  ∀ pending : Pending, pending.isWord = false →
    run ⟨.bare, pending⟩ text = some (⟨.bare, .word (value.map .quoted)⟩, pending.emit false)

/-- A text that is one word adds just that word to the tokens of what stands
before it and after it. -/
theorem OneWord.added {text value before after : List Char} (h : OneWord text value)
    (hbefore : run gap before = some (s, tokens)) (hs : s.Between) (hafter : ∀ c ∈ after.head?, Delimits c) :
    ∃ first, lex before = some first ∧
      lex (before ++ (text ++ after)) = (lex after).map fun last => first ++ .word (value.map .quoted) :: last := by
  obtain ⟨mode, pending⟩ := s
  obtain ⟨rfl, hpending⟩ := hs
  refine ⟨_, lex_of_run hbefore, ?_⟩
  rw [lex, ← List.append_assoc, lexFrom_append (run_append hbefore (h pending hpending))]
  cases after with
  | nil =>
    have hlast : lexFrom ⟨.bare, .word (value.map .quoted)⟩ [] = some ((Pending.word (value.map .quoted)).emit false) := rfl
    rw [hlast, emit_quoted]
    rfl
  | cons c after =>
    obtain ⟨next, delimited, hgap, hword⟩ := step_delimiter (hafter c rfl) value
    have hcons : ∀ {s : State} {tokens : List Token}, step s c = some (next, tokens) →
        lexFrom s (c :: after) = (lexFrom next after).map (tokens ++ ·) := by
      intro s tokens hstep
      have happend := lexFrom_append (run_cons hstep (run_nil next)) after
      rwa [List.append_nil] at happend
    rw [hcons hword, lex, hcons hgap, Option.map_map, Option.map_map]
    simp only [Function.comp_def, List.append_assoc, List.cons_append]

end Shell
