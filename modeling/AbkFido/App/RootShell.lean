/-
`RootShell`: the scripts that carry texts of others into a shell that runs as
root, and what becomes of such a text.

It is quoted, and then stands in a script on which `trimIndent` is called; so
the text's own lines are trimmed as well (`kept`).
-/
import AbkFido.App.Kotlin
import AbkFido.Lib.Shell

namespace AbkFido

open Shell

namespace RootShell

def escape (c : Char) : List Char := if c = singleQuote then [singleQuote, '\\', singleQuote, singleQuote] else [c]

def shellQuote (value : List Char) : List Char := singleQuote :: (value.flatMap escape ++ [singleQuote])

/-- The script of `writeTextFile`. -/
def writeScript (path payload : List Char) : List Char :=
  Kotlin.trimIndent ("\n            set -e\n            dst=".toList ++ shellQuote path ++
    "\n            printf '%s' ".toList ++ shellQuote payload ++ " > \"$dst\"\n            ".toList)

/-- The script of `writeFileBase64`. -/
def writeBase64Script (path payloadBase64 : List Char) : List Char :=
  Kotlin.trimIndent ("\n            set -e\n            dst=".toList ++ shellQuote path ++
    "\n            printf '%s' ".toList ++ shellQuote payloadBase64 ++
    " | base64 -d > \"$dst\"\n            chmod 0600 \"$dst\" 2>/dev/null || true\n            ".toList ++
    "restorecon \"$dst\" 2>/dev/null || true\n            ".toList)

/-- The script of `launchFidoAuthPromptActivity`. -/
def launchScript (packageName : List Char) (requestId : Int) (command rpId : List Char) : List Char :=
  Kotlin.trimIndent ("\n            am start -n '".toList ++ shellQuote packageName ++
    "/com.abk.extension.fido.FidoAuthPromptActivity' \\\n              --ei 'request_id' ".toList ++
    (toString requestId).toList ++ " \\\n              --es 'command' ".toList ++ shellQuote command ++
    " \\\n              --es 'rp_id' ".toList ++ shellQuote rpId ++ "\n            ".toList)

/-! ## A quoted text is one word -/

section
variable {value : List Char}

theorem run_escape (hnul : nul ∉ value) (parts : List Part) : run ⟨.single, .word parts⟩ (value.flatMap escape ++ [singleQuote]) =
    some (⟨.bare, .word (parts ++ value.map .quoted)⟩, []) := by
  induction value generalizing parts with
  | nil => simp +decide [run, step]
  | cons c value ih =>
    rw [List.mem_cons, not_or] at hnul
    have hvalue := ih hnul.2 (parts ++ [.quoted c])
    rw [List.append_assoc, List.singleton_append] at hvalue
    rw [List.flatMap_cons, List.append_assoc, escape, List.map_cons]
    by_cases hc : c = singleQuote
    · -- out of the quotes, the quote after a backslash, and in again
      subst hc
      rw [if_pos rfl]
      have hout : run ⟨.single, .word parts⟩ [singleQuote, '\\', singleQuote, singleQuote] =
          some (⟨.single, .word (parts ++ [.quoted singleQuote])⟩, []) := by
        simp +decide [run, step, bareStep, Pending.add, Pending.dollar]
      exact run_append hout hvalue
    · rw [if_neg hc]
      exact run_cons (step_single hc (Ne.symm hnul.1)) hvalue

theorem step_quote {pending : Pending} (hdollar : pending.dollar = false) :
    step ⟨.bare, pending⟩ singleQuote = some (⟨.single, (pending.add []).1⟩, (pending.add []).2) := by
  simp +decide [step, bareStep, hdollar]

theorem run_shellQuote_word (hnul : nul ∉ value) {parts : List Part} (hdollar : (Pending.word parts).dollar = false) :
    run ⟨.bare, .word parts⟩ (shellQuote value) = some (⟨.bare, .word (parts ++ value.map .quoted)⟩, []) := by
  have hquote := step_quote hdollar
  simp only [Pending.add, List.append_nil] at hquote
  exact run_cons hquote (run_escape hnul parts)

theorem oneWord_shellQuote (hnul : nul ∉ value) : OneWord (shellQuote value) value := by
  intro pending hword
  cases pending with
  | none => exact run_cons (step_quote rfl) (run_escape hnul [])
  | operator cs =>
    have hrun := run_cons (@step_quote (.operator cs) rfl) (run_escape hnul [])
    exact hrun
  | word parts => cases hword

end

/-! ## What `trimIndent` makes of it -/

section
open Kotlin
variable {s t : List Char}

theorem lineFeeds_cons {c : Char} (hc : c ≠ '\r') (s : List Char) : lineFeeds (c :: s) = c :: lineFeeds s := by
  rw [lineFeeds, if_neg hc]
  rintro s rfl
  exact absurd rfl hc

theorem lineFeeds_return (h : s.head? ≠ some '\n') : lineFeeds ('\r' :: s) = '\n' :: lineFeeds s := by
  rw [lineFeeds, if_pos rfl]
  rintro s _ rfl
  exact absurd rfl h

theorem lineFeeds_append (h : '\r' ∉ s) (t : List Char) : lineFeeds (s ++ t) = s ++ lineFeeds t := by
  induction s with
  | nil => rfl
  | cons c s ih =>
    rw [List.mem_cons, not_or] at h
    rw [List.cons_append, lineFeeds_cons (Ne.symm h.1), ih h.2, List.cons_append]

theorem not_mem_lineFeeds (s : List Char) : '\r' ∉ lineFeeds s := by
  induction s using lineFeeds.induct with
  | case1 => exact List.not_mem_nil
  | case2 s ih =>
    rw [lineFeeds, List.mem_cons, not_or]
    exact ⟨by decide, ih⟩
  | case3 c s hnot ih =>
    rw [lineFeeds, List.mem_cons, not_or]
    · refine ⟨?_, ih⟩
      split_ifs with hc
      · decide
      · exact Ne.symm hc
    · exact hnot

theorem mem_lineFeeds {s : List Char} : ∀ c ∈ lineFeeds s, c = '\n' ∨ c ∈ s := by
  induction s using lineFeeds.induct with
  | case1 => simp [lineFeeds]
  | case2 s ih =>
    intro c hc
    rw [lineFeeds, List.mem_cons] at hc
    rcases hc with rfl | hc
    · exact .inl rfl
    · exact (ih c hc).imp_right fun h => by simp [h]
  | case3 d s hnot ih =>
    intro c hc
    rw [lineFeeds, List.mem_cons] at hc
    · rcases hc with rfl | hc
      · split_ifs
        · exact .inl rfl
        · exact .inr List.mem_cons_self
      · exact (ih c hc).imp_right (List.mem_cons_of_mem d)
    · exact hnot

theorem head_escape (s : List Char) : (s.flatMap escape ++ [singleQuote]).head? = (s ++ [singleQuote]).head? := by
  cases s with
  | nil => rfl
  | cons c s =>
    rw [List.flatMap_cons, escape]
    split_ifs with hc
    · rw [hc]
      rfl
    · rfl

theorem lineFeeds_escape (s t : List Char) :
    lineFeeds (s.flatMap escape ++ [singleQuote] ++ t) = (lineFeeds s).flatMap escape ++ [singleQuote] ++ lineFeeds t := by
  induction s using lineFeeds.induct with
  | case1 => exact lineFeeds_cons (by decide) t
  | case2 s ih =>
    have hescape : ('\r' :: '\n' :: s).flatMap escape = '\r' :: '\n' :: s.flatMap escape := rfl
    have hfeed : ('\n' :: lineFeeds s).flatMap escape = '\n' :: (lineFeeds s).flatMap escape := rfl
    rw [hescape, lineFeeds, hfeed, List.cons_append, List.cons_append, List.cons_append, List.cons_append, lineFeeds, ih]
    rfl
  | case3 c s hnot ih =>
    by_cases hreturn : c = '\r'
    · subst hreturn
      have hhead : (s.flatMap escape ++ [singleQuote] ++ t).head? ≠ some '\n' := by
        rw [List.head?_append_of_ne_nil _ (by simp), head_escape]
        cases s with
        | nil => decide
        | cons d s =>
          intro hd
          exact hnot s rfl (by rw [Option.some.inj hd])
      have hs : s.head? ≠ some '\n' := by
        intro hd
        obtain ⟨rest, hrest⟩ := List.head?_eq_some_iff.mp hd
        exact hnot rest rfl hrest
      have hescape : ('\r' :: s).flatMap escape = '\r' :: s.flatMap escape := rfl
      have hfeed : ('\n' :: lineFeeds s).flatMap escape = '\n' :: (lineFeeds s).flatMap escape := rfl
      rw [hescape, lineFeeds_return hs, hfeed, List.cons_append, List.cons_append, lineFeeds_return hhead, ih]
      rfl
    · have hplain : '\r' ∉ escape c := by
        rw [escape]
        split_ifs
        · decide
        · simpa using Ne.symm hreturn
      rw [lineFeeds_cons hreturn, List.flatMap_cons, List.flatMap_cons, List.append_assoc, List.append_assoc,
        lineFeeds_append hplain, ← List.append_assoc, ih, List.append_assoc, List.append_assoc, List.append_assoc]

theorem lineFeeds_shellQuote (s t : List Char) : lineFeeds (shellQuote s ++ t) = shellQuote (lineFeeds s) ++ lineFeeds t := by
  rw [shellQuote, List.cons_append, lineFeeds_cons (by decide), lineFeeds_escape, shellQuote, List.cons_append]

end

section
open Indent
variable {s t : List Char} {m k : Nat}

theorem cut_escape (h : Spaced '\n' Kotlin.isWhitespace m k (s.flatMap escape ++ [singleQuote])) :
    cut '\n' m k (s.flatMap escape ++ [singleQuote]) = (cut '\n' m k s).flatMap escape ++ [singleQuote] ∧
      left '\n' m k s = 0 ∧ left '\n' m k (s.flatMap escape ++ [singleQuote]) = 0 := by
  have hquote : ¬ singleQuote = '\n' := by decide
  have hspace : ¬ Kotlin.isWhitespace singleQuote = true := by decide
  -- a quote is no space, so nothing is left to drop before one
  have hzero : ∀ {k t}, Spaced '\n' Kotlin.isWhitespace m k (singleQuote :: t) → k = 0 := by
    intro k t h
    by_contra hk
    rw [Spaced, if_neg hquote, if_neg hk] at h
    exact hspace h.1
  induction s generalizing k with
  | nil =>
    obtain rfl := hzero h
    exact ⟨rfl, rfl, rfl⟩
  | cons c s ih =>
    rw [List.flatMap_cons, List.append_assoc] at h ⊢
    by_cases hc : c = singleQuote
    · subst hc
      have hescape : escape singleQuote = [singleQuote, '\\', singleQuote, singleQuote] := if_pos rfl
      rw [hescape] at h ⊢
      obtain rfl := hzero h
      rw [spaced_append] at h
      obtain ⟨hcut, hleft, hleft'⟩ := ih h.2
      rw [cut_append, left_append]
      refine ⟨?_, hleft, hleft'⟩
      have hline : cut '\n' m 0 [singleQuote, '\\', singleQuote, singleQuote] = [singleQuote, '\\', singleQuote, singleQuote] :=
        cut_line (by decide)
      have hcons : cut '\n' m 0 (singleQuote :: s) = singleQuote :: cut '\n' m 0 s := by
        rw [cut, if_neg hquote, if_pos rfl]
      rw [hline, hcons, List.flatMap_cons, hescape, List.append_assoc]
      exact congrArg _ hcut
    have hescape : escape c = [c] := if_neg hc
    rw [hescape, List.singleton_append] at h ⊢
    rw [Spaced] at h
    rw [cut, cut, left, left]
    split_ifs at h ⊢ with hnl hk
    · obtain ⟨hcut, hleft, hleft'⟩ := ih h
      exact ⟨by rw [hcut, List.flatMap_cons, hescape]; rfl, hleft, hleft'⟩
    · subst hk
      obtain ⟨hcut, hleft, hleft'⟩ := ih h
      exact ⟨by rw [hcut, List.flatMap_cons, hescape]; rfl, hleft, hleft'⟩
    · exact ih h.2

theorem flush_escape (start : Bool) (s : List Char) :
    flush '\n' Kotlin.isWhitespace start (s.flatMap escape ++ [singleQuote]) =
        flush '\n' Kotlin.isWhitespace start (s ++ [singleQuote]) ∧
      atStart '\n' start (s.flatMap escape ++ [singleQuote]) = false := by
  induction s generalizing start with
  | nil => exact ⟨rfl, rfl⟩
  | cons c s ih =>
    rw [List.flatMap_cons, List.append_assoc, flush_append, atStart_append, List.cons_append, flush]
    by_cases hc : c = singleQuote
    · subst hc
      have hescape : escape singleQuote = [singleQuote, '\\', singleQuote, singleQuote] := if_pos rfl
      rw [hescape]
      have hstart : flush '\n' Kotlin.isWhitespace start [singleQuote, '\\', singleQuote, singleQuote] = start := by
        cases start <;> decide
      rw [hstart]
      cases start with
      | true => exact ⟨rfl, (ih false).2⟩
      | false => exact ih false
    · have hescape : escape c = [c] := if_neg hc
      rw [hescape, (ih _).1]
      exact ⟨by simp [flush, atStart], (ih _).2⟩

theorem cut_shellQuote (h : Spaced '\n' Kotlin.isWhitespace m 0 (shellQuote s)) :
    cut '\n' m 0 (shellQuote s) = shellQuote (cut '\n' m 0 s) ∧ left '\n' m 0 s = 0 ∧ left '\n' m 0 (shellQuote s) = 0 := by
  obtain ⟨hcut, hleft, hleft'⟩ := cut_escape (s := s) h
  exact ⟨congrArg (singleQuote :: ·) hcut, hleft, hleft'⟩

theorem flush_shellQuote (s : List Char) : flush '\n' Kotlin.isWhitespace false (shellQuote s) =
      flush '\n' Kotlin.isWhitespace false (s ++ [singleQuote]) ∧ atStart '\n' false (shellQuote s) = false :=
  flush_escape false s

end

/-! ## Which values are kept -/

section
open Indent

/-- What `trimIndent` leaves of a value, where `m` is dropped of each line. -/
def kept (m : Nat) (value : List Char) : List Char := cut '\n' m 0 (Kotlin.lineFeeds value)

/-- Nothing of the values is lost: no carriage return, and if there is a line
feed, then one before something that is not indented. -/
def Keeps (values : List (List Char)) : Prop :=
  (∀ v ∈ values, '\r' ∉ v) ∧ ((∀ v ∈ values, '\n' ∉ v) ∨ ∃ v ∈ values, Flush '\n' Kotlin.isWhitespace v)

variable {m : Nat} {values : List (List Char)}

theorem all_kept_iff (hleft : ∀ v ∈ values, left '\n' m 0 (Kotlin.lineFeeds v) = 0)
    (hzero : m = 0 ↔ ∃ v ∈ values, Flush '\n' Kotlin.isWhitespace (Kotlin.lineFeeds v)) :
    (∀ v ∈ values, kept m v = v) ↔ Keeps values := by
  have hfeeds : ∀ {v : List Char}, '\r' ∉ v → Kotlin.lineFeeds v = v := by
    intro v hv
    have happend := lineFeeds_append hv []
    rwa [List.append_nil, Kotlin.lineFeeds, List.append_nil] at happend
  constructor
  · intro hkept
    have hreturn : ∀ v ∈ values, '\r' ∉ v := by
      intro v hv hmem
      rw [← hkept v hv] at hmem
      exact not_mem_lineFeeds v ((cut_sublist m 0 _).mem hmem)
    refine ⟨hreturn, ?_⟩
    rcases Nat.eq_zero_or_pos m with hm | hm
    · obtain ⟨v, hv, hflush⟩ := hzero.mp hm
      rw [hfeeds (hreturn v hv)] at hflush
      exact .inr ⟨v, hv, hflush⟩
    · left
      intro v hv
      have hself := hkept v hv
      have hnothing := hleft v hv
      rw [kept, hfeeds (hreturn v hv)] at hself
      rw [hfeeds (hreturn v hv)] at hnothing
      exact ((cut_eq_self hm hnothing).mp hself).1
  · rintro ⟨hreturn, hline⟩ v hv
    rw [kept, hfeeds (hreturn v hv)]
    rcases hline with hline | ⟨w, hw, hflush⟩
    · exact cut_line (hline v hv)
    · rw [hzero.mpr ⟨w, hw, by rwa [hfeeds (hreturn w hw)]⟩, cut_zero]

/-- The body of a script, between a blank line and the last one. -/
theorem trimIndent_body {s body last : List Char} (hs : Kotlin.lineFeeds s = '\n' :: (body ++ '\n' :: last))
    (hlast : Kotlin.isBlank last = true) (hline : '\n' ∉ last) :
    Kotlin.trimIndent s = cut '\n' (common Kotlin.isWhitespace (body.splitOn '\n'))
      (common Kotlin.isWhitespace (body.splitOn '\n')) body := by
  have hlines : Kotlin.lines s = [] :: (body.splitOn '\n' ++ [last]) := by
    have hfirst := List.splitOn_append_cons_self_of_not_mem (List.not_mem_nil (a := '\n')) (body ++ '\n' :: last)
    rw [Kotlin.lines, hs, ← List.nil_append ('\n' :: _), hfirst, List.splitOn_append_cons_self,
      List.splitOn_eq_singleton hline]
  have hcommon : common Kotlin.isWhitespace ([] :: (body.splitOn '\n' ++ [last])) =
      common Kotlin.isWhitespace (body.splitOn '\n') := by
    have hblank : (!last.all Kotlin.isWhitespace) = false := by
      rw [Bool.not_eq_false']
      exact hlast
    simp [common, List.filter_append, hblank]
  have hbody : body.splitOn '\n' = (lines '\n' body).1 :: (lines '\n' body).2 := splitOn_eq body
  have hdropped : (([] :: (body.splitOn '\n' ++ [last])).tail).getLastD [] = last := by simp
  have hhead : Kotlin.isBlank (([] :: (body.splitOn '\n' ++ [last])).headD []) = true := rfl
  simp only [Kotlin.trimIndent, hlines, hcommon]
  rw [if_pos hhead, hdropped, if_pos hlast, List.tail_cons, List.dropLast_concat]
  generalize common Kotlin.isWhitespace (body.splitOn '\n') = m
  rw [hbody, List.map_cons]
  exact cut_lines m m body

end

end RootShell

end AbkFido
