/-
`auth_decision`: the user's answer on its way back, as a text.

`FidoKernelBridge` writes `allow` or `deny` and the id of the request it has
read; a script of the root shell carries the text, and `auth_decision_store`
scans it with `sscanf`. `answer_arrives` puts the three together: the answer
is taken if and only if the prompt whose id was read is still the one that
waits, whatever has happened since, as long as the ids have not gone round.
-/
import AbkFido.App.ContextFacts
import AbkFido.App.RootScripts
import Mathlib.Tactic.IntervalCases

namespace AbkFido

open Utf8

/-! ## The driver's side -/

/-- The kernel's `isspace`. -/
def isspace (b : UInt8) : Bool := (9 ≤ b && b ≤ 13) || b == 32 || b == 0xa0

def isdigit (b : UInt8) : Bool := 48 ≤ b && b ≤ 57

/-- `sysfs_streq`: one newline at the end of either does not matter. -/
def sysfsStreq (s t : List UInt8) : Bool := s == t || s ++ [10] == t || s == t ++ [10]

/-- `sscanf(s, "word %u", ..)`, with the number taken modulo 2^32. -/
def scanU (word s : List UInt8) : Option UInt32 :=
  if word <+: s then
    let digits := ((s.drop word.length).dropWhile isspace).takeWhile isdigit
    if digits = [] then none else some (.ofNat (digits.foldl (fun n b => 10 * n + (b.toNat - 48)) 0))
  else none

/-- What a text decides, and for which request. -/
def scanDecision (s : List UInt8) : Option (Bool × Option UInt32) :=
  if sysfsStreq s (text "allow") then some (true, none)
  else if sysfsStreq s (text "deny") then some (false, none)
  else
    match scanU (text "allow") s with
    | some requestId => some (true, some requestId)
    | none => (scanU (text "deny") s).map fun requestId => (false, some requestId)

/-- `auth_decision_store`; the buffer ends at its first NUL. -/
def Device.authDecisionStore (buf : List UInt8) (d : Device) : Except Errno Nat × Device :=
  match scanDecision (cstr buf) with
  | none => (.error .einval, d)
  | some (allow, id) => ((authDecideLocked allow id d.auth).1.map fun _ => buf.length, d.authDecide allow id)

/-! ## The companion's side -/

/-- `AUTH_DECISION_PATH` -/
def authDecisionPath : List Char := "/sys/kernel/abk_fido_key/auth_decision".toList

/-- What `allow` and `deny` write. -/
def decisionText (allow : Bool) (requestId : Int) : List Char :=
  (if allow then "allow " else "deny ").toList ++ (toString requestId).toList ++ ['\n']

/-! ## A number that is printed and scanned -/

theorem isdigit_ofNat {c : Char} (h : c.isDigit = true) : isdigit (.ofNat c.toNat) = true ∧ isspace (.ofNat c.toNat) = false ∧
    (UInt8.ofNat c.toNat).toNat = c.toNat := by
  obtain ⟨hlow, hhigh⟩ : 48 ≤ c.toNat ∧ c.toNat ≤ 57 := Char.isDigit_iff_toNat.mp h
  generalize c.toNat = n at hlow hhigh
  interval_cases n <;> decide

theorem encode_digits {s : List Char} (h : ∀ c ∈ s, c.isDigit = true) : encode s = s.map fun c => UInt8.ofNat c.toNat := by
  induction s with
  | nil => rfl
  | cons c s ih =>
    rw [List.forall_mem_cons] at h
    have hlt : c.toNat < 128 := lt_of_le_of_lt (Char.isDigit_iff_toNat.mp h.1).2 (by decide)
    rw [encode_cons, utf8EncodeChar_ascii hlt, ih h.2]
    rfl

/-- The value the scanner adds up is the one the digits stand for. -/
theorem foldl_digits {s : List Char} (h : ∀ c ∈ s, c.isDigit = true) (n : Nat) :
    (encode s).foldl (fun n b => 10 * n + (b.toNat - 48)) n = Nat.ofDigitChars 10 s n := by
  rw [encode_digits h, Nat.ofDigitChars_eq_foldl, List.foldl_map]
  induction s generalizing n with
  | nil => rfl
  | cons c s ih =>
    rw [List.forall_mem_cons] at h
    rw [List.foldl_cons, List.foldl_cons, (isdigit_ofNat h.1).2.2]
    exact ih h.2 _

theorem scanU_printed (word : List UInt8) (n : Nat) : scanU word (word ++ (32 :: (printU n ++ [10]))) = some (.ofNat n) := by
  have hdigits : ∀ b ∈ printU n, isdigit b = true ∧ isspace b = false := by
    intro b hb
    rw [printU, encode_digits fun c => Kotlin.isDigit_toDigits, List.mem_map] at hb
    obtain ⟨c, hc, rfl⟩ := hb
    exact ⟨(isdigit_ofNat (Kotlin.isDigit_toDigits hc)).1, (isdigit_ofNat (Kotlin.isDigit_toDigits hc)).2.1⟩
  have hne : printU n ≠ [] := by
    rw [printU, encode_digits fun c => Kotlin.isDigit_toDigits]
    exact List.map_eq_nil_iff.not.mpr Nat.toDigits_ne_nil
  have hskip : (32 :: (printU n ++ [10])).dropWhile isspace = printU n ++ [10] := by
    rw [List.dropWhile_cons_of_pos (by decide)]
    obtain ⟨b, bs, hb⟩ := List.exists_cons_of_ne_nil hne
    rw [hb, List.cons_append, List.dropWhile_cons_of_neg (by simp [hdigits b (hb ▸ List.mem_cons_self)])]
  have htake : (printU n ++ [10]).takeWhile isdigit = printU n := by
    rw [List.takeWhile_append_of_pos fun b hb => (hdigits b hb).1]
    simp +decide
  simp only [scanU, List.prefix_append, if_true, List.drop_left, hskip, htake, if_neg hne]
  rw [printU, foldl_digits (fun c => Kotlin.isDigit_toDigits), Nat.ofDigitChars_toDigits (by decide) (by decide)]

theorem sysfsStreq_space {s t : List UInt8} (hs : 32 ∈ s) (ht : 32 ∉ t) : sysfsStreq s t = false := by
  simp only [sysfsStreq, Bool.or_eq_false_iff, beq_eq_false_iff_ne]
  refine ⟨⟨?_, ?_⟩, ?_⟩ <;> rintro rfl
  · exact ht hs
  · exact ht (List.mem_append_left _ hs)
  · rcases List.mem_append.mp hs with h | h
    · exact ht h
    · exact absurd h (by decide)

theorem encode_decisionText (allow : Bool) (n : Nat) :
    encode (decisionText allow n) = text (if allow then "allow" else "deny") ++ (32 :: (printU n ++ [10])) := by
  have hdigits : (toString (n : Int)).toList = Nat.toDigits 10 n := by
    rw [show toString (n : Int) = Nat.repr n from rfl, Nat.toList_repr]
  rw [decisionText, hdigits, encode_append, encode_append]
  cases allow <;> rfl

theorem scanDecision_text (allow : Bool) (n : Nat) : scanDecision (encode (decisionText allow n)) = some (allow, some (.ofNat n)) := by
  rw [encode_decisionText]
  have hspace : ∀ w, 32 ∈ text w ++ (32 :: (printU n ++ [10])) := fun w => List.mem_append_right _ List.mem_cons_self
  rw [scanDecision, sysfsStreq_space (hspace _) (by decide), sysfsStreq_space (hspace _) (by decide)]
  cases allow with
  | true => simp only [Bool.false_eq_true, if_false, if_true, scanU_printed]
  | false =>
    have hnone : scanU (text "allow") (text "deny" ++ (32 :: (printU n ++ [10]))) = none := if_neg (by
      rintro ⟨t, ht⟩
      exact absurd (congrArg List.head? ht) (by simp +decide [text]))
    simp only [Bool.false_eq_true, if_false, hnone, scanU_printed, Option.map_some]

/-! ## Through the shell -/

theorem decisionText_plain (allow : Bool) (requestId : Int) : '\r' ∉ decisionText allow requestId ∧
    Shell.nul ∉ decisionText allow requestId := by
  have hword : ∀ d : Char, d = '\r' ∨ d = Shell.nul → d ∉ (if allow then "allow " else "deny ").toList ∧ d ≠ '\n' := by
    rintro d (rfl | rfl) <;> cases allow <;> decide
  have hnumber : ∀ d : Char, d = '\r' ∨ d = Shell.nul → d ∉ (toString requestId).toList := by
    intro d hd hmem
    have hplain := RootShell.not_mem_plain (fun c hc => RootShell.mem_toString (n := requestId) c hc)
    rcases hd with rfl | rfl
    · exact hplain '\r' (by simp) hmem
    · rcases RootShell.mem_toString _ hmem with h | h
      · rcases h with h | h | h <;> revert h <;> decide
      · exact absurd h (by decide)
  have hall : ∀ d : Char, d = '\r' ∨ d = Shell.nul → d ∉ decisionText allow requestId := by
    intro d hd hmem
    simp only [decisionText, List.mem_append, List.mem_singleton] at hmem
    rcases hmem with (h | h) | h
    · exact (hword d hd).1 h
    · exact hnumber d hd h
    · exact (hword d hd).2 h
  exact ⟨hall _ (.inl rfl), hall _ (.inr rfl)⟩

/-- The shell writes the text as it is: its newline stands before the end of
the script's line, so nothing is trimmed. -/
theorem lex_decisionText (allow : Bool) (requestId : Int) :
    Shell.lex (RootShell.writeScript authDecisionPath (decisionText allow requestId)) =
      some (RootShell.writeTokens authDecisionPath (decisionText allow requestId)) := by
  have hpath : Shell.nul ∉ authDecisionPath ∧ '\r' ∉ authDecisionPath := by decide
  obtain ⟨hreturn, hnul⟩ := decisionText_plain allow requestId
  obtain ⟨m, hlex, hkeeps⟩ := RootShell.writeScript_tokens hpath.1 hnul
  have hflush : Indent.Flush '\n' Kotlin.isWhitespace (decisionText allow requestId) := ⟨_, [], rfl, nofun⟩
  obtain ⟨hp, ht⟩ := hkeeps.mpr ⟨by simp [hpath.2, hreturn], .inr ⟨_, List.mem_pair.mpr (.inr rfl), hflush⟩⟩
  rw [hlex, hp, ht]

/-! ## Which prompt it reaches -/

namespace Device

variable {P : Platform} {d d' : Device} {a : Action}

/-- How many prompts have been opened. -/
def prompts (d : Device) : Nat := d.log.countP fun e => match e.2 with | .opened .. => true | _ => false

theorem prompts_concluded (t : Transport) (io : Io) (rest : Rest) : (d.conclude P t io rest).prompts = d.prompts := by
  rw [conclude_eq, prompts, List.countP_append, List.countP_reverse, List.countP_map, List.countP_eq_zero.mpr, Nat.zero_add]
  · rfl
  intro e he
  rcases List.mem_append.mp he with h | h
  · obtain ⟨_, _, rfl⟩ := List.mem_map.mp h
    exact Bool.false_ne_true
  · split at h
    · rw [List.mem_singleton.mp h]
      exact Bool.false_ne_true
    · cases h

theorem prompts_step (h : d.step P a = some d') : (d'.prompts = d.prompts ∧ d.auth.SameRequest d'.auth) ∨
    (d'.prompts = d.prompts + 1 ∧ d'.auth.requestId = d.auth.requestId + 1) := by
  by_cases hopens : d.OpensPrompt P a
  · obtain ⟨t, io, rfl, hreply⟩ := hopens
    simp only [step] at h
    split at h <;> cases h
    next cmd hw =>
    rcases enter_reply (P := P) hw io with ⟨_, _, _, hsome, _⟩ | ⟨_, _, _, _, ⟨_, hsome, _⟩ | ⟨_, hsome, _⟩ | ⟨_, _, heq⟩⟩
    · cases hsome.symm.trans hreply
    · cases hsome.symm.trans hreply
    · cases hsome.symm.trans hreply
    · rw [heq]
      exact .inr ⟨by simp [prompts, setWorker, note], rfl⟩
  refine .inl ⟨?_, sameRequest_step hopens h⟩
  cases a with
  | tick | blobRead | blobWrite | restore | persist | pinReset =>
    cases h
    rfl
  | receive t msg allocOk =>
    simp only [step] at h
    split at h
    · split at h <;> cases h <;> rfl
    · cases h
  | enter t io =>
    simp only [step] at h
    split at h <;> cases h
    next cmd hw =>
    rcases enter_reply (P := P) hw io with ⟨_, _, _, _, heq⟩ | ⟨_, _, _, _, ⟨_, _, heq⟩ | ⟨_, _, heq⟩ | ⟨_, hnone, _⟩⟩
    · rw [heq]
      rfl
    · rw [heq]
      rfl
    · rw [heq, prompts_concluded]
      rfl
    · exact absurd ⟨t, io, rfl, hnone⟩ hopens
  | wake t | expire t =>
    simp only [step] at h
    split at h
    · split at h <;> cases h
      rfl
    · cases h
  | resume t io =>
    simp only [step] at h
    split at h <;> cases h
    next r first timedOut rest hw =>
    obtain ⟨a, _, ⟨_, heq⟩ | ⟨_, heq⟩⟩ := resume_cases (P := P) t io r first timedOut rest d
    · rw [heq, prompts_concluded]
      rfl
    · rw [heq]
      rfl
  | decide allow id =>
    cases h
    rcases authDecide_cases allow id d with ⟨_, heq⟩ | ⟨_, heq⟩ <;> rw [heq]
    rfl

/-- The request on record changes with each prompt that opens, and then only. -/
theorem prompts_run {as : List Action} (h : Runs (step P) (fun _ _ => True) d as d') :
    ∃ n, d'.prompts = d.prompts + n ∧ d'.auth.requestId = d.auth.requestId + .ofNat n ∧
      (n = 0 → d.auth.SameRequest d'.auth) := by
  refine h.invariant (I := fun t => ∃ n, t.prompts = d.prompts + n ∧ t.auth.requestId = d.auth.requestId + .ofNat n ∧
    (n = 0 → d.auth.SameRequest t.auth)) ?_ ⟨0, rfl, by simp, fun _ => .refl _⟩
  rintro s a t ⟨n, hn, hid, hsame⟩ - hstep
  rcases prompts_step hstep with ⟨hcount, hs⟩ | ⟨hcount, hnext⟩
  · exact ⟨n, hcount.trans hn, hs.requestId.trans hid, fun h => (hsame h).trans hs⟩
  · refine ⟨n + 1, by omega, ?_, nofun⟩
    rw [hnext, hid, UInt32.add_assoc]
    congr 1
    simp

/-- What the driver makes of the answer to a request. -/
theorem authDecisionStore_text (allow : Bool) (n : Nat) (d : Device) :
    d.authDecisionStore (encode (decisionText allow n)) =
      if d.auth.pending = false then (.error .enoent, d)
      else if d.auth.requestId = .ofNat n then
        (.ok (encode (decisionText allow n)).length, d.authDecide allow (some d.auth.requestId))
      else (.error .estale, d) := by
  have hnul : ∀ b ∈ encode (decisionText allow n), b ≠ 0 := by
    rintro b hb rfl
    exact (decisionText_plain allow n).2 ((mem_encode (c := Shell.nul) (by decide)).mp hb)
  rw [authDecisionStore, cstr_of_nul_free hnul, scanDecision_text]
  simp only [authDecide, authDecideLocked, Bool.not_eq_true', Option.any_some, bne_iff_ne, ne_eq]
  split
  · rfl
  by_cases hid : d.auth.requestId = .ofNat n
  · rw [← hid]
    simp [Except.map]
  · rw [if_pos (Ne.symm hid), if_neg hid]
    rfl

/-- The id that is read is the one on record. -/
theorem requestId_of_read {T : TextReader} {a b c : Auth} {p : PendingAuthRequest}
    (h : T.readPendingAuthRequest a b c = some p) : p.requestId = (b.requestId.toNat : Int) := by
  cases hpending : a.pending with
  | true =>
    rw [Auth.read_eq T hpending] at h
    obtain ⟨r, hr, rfl⟩ := Option.map_eq_some_iff.mp h
    unfold toIntOrNull at hr
    split at hr <;> cases hr
    rfl
  | false =>
    have hzero : Kotlin.trim (T.stdout a.authPendingShow) = ['0'] := by
      have hshow : a.authPendingShow = encode (['0'] ++ ['\n']) := by rw [Auth.authPendingShow, hpending]; rfl
      rw [hshow, T.plain _ (by decide)]
      decide
    simp [TextReader.readPendingAuthRequest, AbkFido.readPendingAuthRequest, hzero] at h

/-- **An answer reaches the prompt it was given to, or no prompt.** It goes
through the shell as it is. The driver takes it if and only if the prompt whose
id was read still waits, and that prompt is for what it was for then. -/
theorem answer_arrives (T : TextReader) {d₁ d₂ d₃ d : Device} {as : List Action} {p : PendingAuthRequest}
    (hread : T.readPendingAuthRequest d₁.auth d₂.auth d₃.auth = some p) (hrun : Runs (step P) (fun _ _ => True) d₂ as d)
    (hfew : d.prompts < d₂.prompts + 2 ^ 32) (allow : Bool) :
    Shell.lex (RootShell.writeScript authDecisionPath (decisionText allow p.requestId)) =
        some (RootShell.writeTokens authDecisionPath (decisionText allow p.requestId)) ∧
      if d.auth.pending = true ∧ d.prompts = d₂.prompts then
        d₂.auth.SameRequest d.auth ∧ d.authDecisionStore (encode (decisionText allow p.requestId)) =
          (.ok (encode (decisionText allow p.requestId)).length, d.authDecide allow (some d.auth.requestId))
      else ∃ e, d.authDecisionStore (encode (decisionText allow p.requestId)) = (.error e, d) := by
  refine ⟨lex_decisionText allow p.requestId, ?_⟩
  have hid := requestId_of_read hread
  obtain ⟨n, hn, hnext, hsame⟩ := prompts_run hrun
  have hsame_id : d.auth.requestId = .ofNat d₂.auth.requestId.toNat ↔ n = 0 := by
    rw [hnext, UInt32.ofNat_toNat, UInt32.add_eq_left, ← UInt32.toNat_inj, UInt32.toNat_ofNat',
      Nat.mod_eq_of_lt (by omega)]
    rfl
  rw [hid, authDecisionStore_text]
  split
  · next h =>
    have hzero : n = 0 := by omega
    exact ⟨hsame hzero, by rw [if_neg (by simp [h.1]), if_pos (hsame_id.mpr hzero)]⟩
  · next h =>
    by_cases hpending : d.auth.pending = true
    · have hne : n ≠ 0 := fun hzero => h ⟨hpending, by omega⟩
      exact ⟨.estale, by rw [if_neg (by simp [hpending]), if_neg (hsame_id.not.mpr hne)]⟩
    · exact ⟨.enoent, by rw [if_pos (by simpa using hpending)]⟩

/-- A prompt that waits is read, and allowed a moment later. -/
theorem answer_promptRun : ∃ d d' p, Runs (step .volatile) (fun _ _ => True) (boot none 0) (promptRun (text "a")) d ∧
    Runs (step .volatile) (fun _ _ => True) d [.tick 5] d' ∧ lineReader.readPendingAuthRequest d.auth d.auth d.auth = some p ∧
    d'.authDecisionStore (encode (decisionText true p.requestId)) =
      (.ok (encode (decisionText true p.requestId)).length, d'.authDecide true (some d'.auth.requestId)) := by
  have h : (Runs.exec (step .volatile) (fun _ _ => true) (boot none 0) (promptRun (text "a"))).map
      (fun d => (lineReader.readPendingAuthRequest d.auth d.auth d.auth, d.auth.pending)) =
      some (some ⟨1, "makeCredential".toList, "a".toList, false, false⟩, true) := by decide +kernel
  obtain ⟨d, hd, hread⟩ := Option.map_eq_some_iff.mp h
  simp only [Prod.mk.injEq] at hread
  obtain ⟨hread, hpending⟩ := hread
  have htick : Runs (step .volatile) (fun _ _ => True) d [.tick 5] { d with clock := d.clock + 5 } :=
    .cons trivial rfl (.nil _)
  have harrives := answer_arrives lineReader hread htick (Nat.lt_add_of_pos_right (by decide)) true
  rw [if_pos ⟨hpending, rfl⟩] at harrives
  exact ⟨d, _, _, Runs.of_exec (fun _ _ _ => trivial) hd, htick, hread, harrives.2.2⟩

end Device

end AbkFido
