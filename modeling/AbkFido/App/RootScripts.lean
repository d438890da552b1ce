/-
The scripts of `RootShell` as the shell reads them.

Each has two values between fixed text (`Template`). `trimIndent` drops the same
number of characters from each line, at most twelve, and only spaces; so the
fixed text keeps its tokens, and the values are what `kept` says.
-/
import AbkFido.App.RootShell

namespace AbkFido

open Shell

namespace RootShell

/-! ## A script with two values -/

section
open Indent

/-- No line ends in it. -/
def OneLine (s : List Char) : Prop := '\n' ∉ s ∧ '\r' ∉ s

/-- A fixed part of a script, at the start of a line or within one, has no line
indented by less than twelve, and ends within a line. -/
structure Fixed (start : Bool) (s : List Char) : Prop where
  returns : '\r' ∉ s
  left : ∀ m ≤ 12, left '\n' m (if start then m else 0) s = 0
  flush : flush '\n' Kotlin.isWhitespace start s = false
  atStart : atStart '\n' start s = false

def indent (n : Nat) (s : List Char) : List Char := List.replicate n ' ' ++ s

/-- A backslash at the end of the line, and what the next line begins with. -/
def continued (s : List Char) : List Char := ' ' :: '\\' :: '\n' :: indent 14 s

namespace Fixed

variable {start : Bool} {n : Nat} {s t : List Char}

theorem line (h : OneLine s) : Fixed false s where
  returns := h.2
  left _ _ := left_line h.1
  flush := (flush_line Kotlin.isWhitespace h.1).1
  atStart := (flush_line Kotlin.isWhitespace h.1).2

theorem append (hs : Fixed start s) (ht : Fixed false t) : Fixed start (s ++ t) where
  returns := by
    rw [List.mem_append, not_or]
    exact ⟨hs.returns, ht.returns⟩
  left m hm := by
    rw [left_append, hs.left m hm]
    exact ht.left m hm
  flush := by rw [flush_append, hs.flush, hs.atStart, ht.flush, Bool.or_self]
  atStart := by rw [atStart_append, hs.atStart, ht.atStart]

theorem indent (hn : 12 ≤ n) (h : Fixed false s) : Fixed true (indent n s) := by
  have hspaces : ∀ {n : Nat}, Indent.flush '\n' Kotlin.isWhitespace false (List.replicate n ' ') = false ∧
      Indent.atStart '\n' false (List.replicate n ' ') = false := by
    intro n
    refine flush_line Kotlin.isWhitespace fun hmem => ?_
    exact absurd (List.eq_of_mem_replicate hmem) (by decide)
  obtain ⟨n, rfl⟩ := Nat.exists_eq_add_of_le' hn
  refine ⟨?_, fun m hm => ?_, ?_, ?_⟩
  · rw [RootShell.indent, List.mem_append, not_or]
    refine ⟨fun hmem => ?_, h.returns⟩
    exact absurd (List.eq_of_mem_replicate hmem) (by decide)
  · rw [RootShell.indent, if_pos rfl, left_replicate (by decide) (hm.trans hn)]
    exact h.left m hm
  · have hstart : Indent.flush '\n' Kotlin.isWhitespace true (List.replicate (n + 12) ' ') = false := hspaces.1
    have hend : Indent.atStart '\n' true (List.replicate (n + 12) ' ') = false := hspaces.2
    rw [RootShell.indent, flush_append, hstart, hend, h.flush, Bool.or_self]
  · have hend : Indent.atStart '\n' true (List.replicate (n + 12) ' ') = false := hspaces.2
    rw [RootShell.indent, atStart_append, hend, h.atStart]

theorem next (hs : OneLine s) (ht : Fixed true t) : Fixed false (s ++ '\n' :: t) := by
  have hline : Fixed false ('\n' :: t) := by
    refine ⟨?_, fun m hm => ht.left m hm, ht.flush, ht.atStart⟩
    rw [List.mem_cons, not_or]
    exact ⟨by decide, ht.returns⟩
  exact (line hs).append hline

theorem continued (h : OneLine s) : Fixed false (continued s) := by
  have hbackslash : OneLine [' ', '\\'] := ⟨by decide, by decide⟩
  exact next hbackslash ((line h).indent (by decide))

end Fixed

/-- The fixed parts of a script, of which the first begins with a line that is
indented by twelve. -/
structure Template (head middle tail : List Char) : Prop where
  first : ∃ c rest, head = indent 12 (c :: rest) ∧ Kotlin.isWhitespace c = false ∧ c ≠ '\n'
  head : Fixed true head
  middle : Fixed false middle
  tail : Fixed false tail

namespace Template

variable {head middle tail : List Char}

def body (head middle tail v w : List Char) : List Char :=
  head ++ (shellQuote v ++ (middle ++ (shellQuote w ++ tail)))

theorem flush_body (h : Template head middle tail) (v w : List Char) :
    Indent.flush '\n' Kotlin.isWhitespace true (body head middle tail v w) = true ↔
      Flush '\n' Kotlin.isWhitespace v ∨ Flush '\n' Kotlin.isWhitespace w := by
  have hvalue : ∀ v : List Char, Indent.flush '\n' Kotlin.isWhitespace false (v ++ [singleQuote]) = true ↔
      Flush '\n' Kotlin.isWhitespace v := by
    intro v
    rw [flush_iff (by decide) (by decide)]
    simp
  rw [body, flush_append true head, h.head.flush, h.head.atStart, flush_append false (shellQuote v), (flush_shellQuote v).1,
    (flush_shellQuote v).2, flush_append false middle, h.middle.flush, h.middle.atStart, flush_append false (shellQuote w),
    (flush_shellQuote w).1, (flush_shellQuote w).2, h.tail.flush]
  simp only [Bool.false_or, Bool.or_false, Bool.or_eq_true, hvalue]

theorem cut_body (h : Template head middle tail) {v w : List Char} {m : Nat} (hm : m ≤ 12)
    (hspaced : Spaced '\n' Kotlin.isWhitespace m m (body head middle tail v w)) :
    cut '\n' m m (body head middle tail v w) =
        cut '\n' m m head ++ (shellQuote (cut '\n' m 0 v) ++
          (cut '\n' m 0 middle ++ (shellQuote (cut '\n' m 0 w) ++ cut '\n' m 0 tail))) ∧
      Indent.left '\n' m 0 v = 0 ∧ Indent.left '\n' m 0 w = 0 := by
  have hhead : Indent.left '\n' m m head = 0 := h.head.left m hm
  have hmiddle : Indent.left '\n' m 0 middle = 0 := h.middle.left m hm
  rw [body, spaced_append, hhead, spaced_append] at hspaced
  obtain ⟨_, hv, hspaced⟩ := hspaced
  obtain ⟨hcutv, hleftv, hleftv'⟩ := cut_shellQuote hv
  rw [hleftv', spaced_append, hmiddle, spaced_append] at hspaced
  obtain ⟨hcutw, hleftw, hleftw'⟩ := cut_shellQuote hspaced.2.1
  refine ⟨?_, hleftv, hleftw⟩
  rw [body, cut_append, hhead, cut_append, hcutv, hleftv', cut_append, hmiddle, cut_append, hcutw, hleftw']

theorem common_body (h : Template head middle tail) (v w : List Char) :
    common Kotlin.isWhitespace ((body head middle tail v w).splitOn '\n') ≤ 12 ∧
      (common Kotlin.isWhitespace ((body head middle tail v w).splitOn '\n') = 0 ↔
        Indent.flush '\n' Kotlin.isWhitespace true (body head middle tail v w) = true) := by
  obtain ⟨c, rest, hhead, hc, hne⟩ := h.first
  have hfirst : ∃ line, (lines '\n' (body head middle tail v w)).1 = List.replicate 12 ' ' ++ c :: line := by
    rw [body, hhead, indent, List.append_assoc, lines_append (by decide), List.cons_append, lines, if_neg hne]
    exact ⟨_, rfl⟩
  obtain ⟨line, hline⟩ := hfirst
  have hmem : List.replicate 12 ' ' ++ c :: line ∈ (body head middle tail v w).splitOn '\n' := by
    rw [splitOn_eq, hline]
    exact List.mem_cons_self
  have hblank : (List.replicate 12 ' ' ++ c :: line).all Kotlin.isWhitespace = false := by
    rw [List.all_append, List.all_cons, hc, Bool.false_and, Bool.and_false]
  have hwidth : width Kotlin.isWhitespace (List.replicate 12 ' ' ++ c :: line) = 12 := width_append (by decide) hc
  refine ⟨?_, ?_⟩
  · have hle := common_le hmem hblank
    rwa [hwidth] at hle
  · rw [common_eq_zero hmem hblank, flush_lines (by decide), splitOn_eq, List.exists_mem_cons_iff]
    simp

/-- What the shell gets of a script: its values as they are kept, and they are
all kept just if `Keeps` holds. -/
theorem trimmed (h : Template head middle tail) (v w : List Char) : ∃ m ≤ 12,
    Kotlin.trimIndent ('\n' :: (body head middle tail v w ++ '\n' :: List.replicate 12 ' ')) =
      cut '\n' m m head ++ (shellQuote (kept m v) ++
        (cut '\n' m 0 middle ++ (shellQuote (kept m w) ++ cut '\n' m 0 tail))) ∧
    (kept m v = v ∧ kept m w = w ↔ Keeps [v, w]) := by
  have hhead := h.head.returns
  have hmiddle := h.middle.returns
  have htail := h.tail.returns
  have hfeeds : Kotlin.lineFeeds ('\n' :: (body head middle tail v w ++ '\n' :: List.replicate 12 ' ')) =
      '\n' :: (body head middle tail (Kotlin.lineFeeds v) (Kotlin.lineFeeds w) ++ '\n' :: List.replicate 12 ' ') := by
    have hlast : Kotlin.lineFeeds ('\n' :: List.replicate 12 ' ') = '\n' :: List.replicate 12 ' ' := by decide
    rw [lineFeeds_cons (by decide)]
    simp only [body, List.append_assoc]
    rw [lineFeeds_append hhead, lineFeeds_shellQuote, lineFeeds_append hmiddle, lineFeeds_shellQuote, lineFeeds_append htail,
      hlast]
  obtain ⟨hle, hzero⟩ := h.common_body (Kotlin.lineFeeds v) (Kotlin.lineFeeds w)
  have htrim := trimIndent_body hfeeds (by decide) (by decide)
  obtain ⟨hcut, hleftv, hleftw⟩ := h.cut_body hle (spaced_common _ _ _)
  refine ⟨_, hle, htrim.trans hcut, ?_⟩
  rw [h.flush_body] at hzero
  have hkept : (∀ x ∈ [v, w], kept _ x = x) ↔ Keeps [v, w] :=
    all_kept_iff (by simpa using ⟨hleftv, hleftw⟩) (by simpa using hzero)
  simpa using hkept

end Template

end

/-! ## The tokens of the scripts -/

/-- A word of which nothing is quoted. -/
def bareWord (s : String) : Token := .word (s.toList.map .bare)

def quotedWord (value : List Char) : Token := .word (value.map .quoted)

/-- `"$dst"` -/
def dst : Token := .word ("$dst".toList.map .double)

/-- What both writers begin with. -/
def printfTokens (path payload : List Char) (rest : List Token) : List Token :=
  [bareWord "set", bareWord "-e", .newline,
    .word ("dst=".toList.map .bare ++ path.map .quoted), .newline,
    bareWord "printf", quotedWord "%s".toList, quotedWord payload] ++ rest

def writeTokens (path payload : List Char) : List Token := printfTokens path payload [.operator ['>'], dst]

/-- `2>/dev/null || true` -/
def quietly : List Token :=
  [.ioNumber [.bare '2'], .operator ['>'], bareWord "/dev/null", .operator ['|', '|'], bareWord "true"]

def writeBase64Tokens (path payloadBase64 : List Char) : List Token :=
  printfTokens path payloadBase64 ([.operator ['|'], bareWord "base64", bareWord "-d", .operator ['>'], dst, .newline,
    bareWord "chmod", bareWord "0600", dst] ++ quietly ++ [.newline, bareWord "restorecon", dst] ++ quietly)

def launchTokens (packageName : List Char) (requestId : Int) (command rpId : List Char) : List Token :=
  [bareWord "am", bareWord "start", bareWord "-n",
    .word (packageName.map .bare ++ "/com.abk.extension.fido.FidoAuthPromptActivity".toList.map .quoted),
    bareWord "--ei", quotedWord "request_id".toList, .word ((toString requestId).toList.map .bare),
    bareWord "--es", quotedWord "command".toList, quotedWord command,
    bareWord "--es", quotedWord "rp_id".toList, quotedWord rpId]

section
open Indent
variable {m : Nat} {s : State} {tokens : List Token} {parts : List Part} {rest : List Char}

theorem emit_word (parts : List Part) : (Pending.word parts).emit false = [.word parts] := by simp [Pending.emit]

theorem run_space (h : run gap (cut '\n' m 0 rest) = some (s, tokens)) :
    run ⟨.bare, .word parts⟩ (cut '\n' m 0 (' ' :: rest)) = some (s, .word parts :: tokens) := by
  have hspace : step ⟨.bare, .word parts⟩ ' ' = some (gap, (Pending.word parts).emit false) := step_blank (.inl rfl)
  rw [emit_word] at hspace
  exact run_cons hspace h

theorem run_line (h : run gap (cut '\n' m m rest) = some (s, tokens)) :
    run ⟨.bare, .word parts⟩ (cut '\n' m 0 ('\n' :: rest)) = some (s, .word parts :: .newline :: tokens) := by
  have hline : step ⟨.bare, .word parts⟩ '\n' = some (gap, (Pending.word parts).emit false ++ [.newline]) := step_newline
  rw [emit_word] at hline
  exact run_cons hline h

/-- A line of the script, of whose indentation no more is dropped than it has. -/
theorem run_indent {n : Nat} (hm : m ≤ n) {line : List Char} (hline : '\n' ∉ line) (h : run gap line = some (s, tokens)) :
    run gap (cut '\n' m m (indent n line)) = some (s, tokens) := by
  rw [indent, cut_replicate (by decide) hm, run_spaces, cut_line hline, h]

theorem run_next {line : List Char} (hline : '\n' ∉ line) {more : List Token}
    (h : run gap line = some (⟨.bare, .word parts⟩, tokens)) (hrest : run gap (cut '\n' m m rest) = some (s, more)) :
    run gap (cut '\n' m 0 (line ++ '\n' :: rest)) = some (s, tokens ++ .word parts :: .newline :: more) := by
  rw [cut_append, cut_line hline, left_line hline]
  exact run_append h (run_line hrest)

/-- The same as for one line, if another line follows. -/
theorem run_indent_next {n : Nat} (hm : m ≤ n) {line : List Char} (hline : '\n' ∉ line) {more : List Token}
    (h : run gap line = some (⟨.bare, .word parts⟩, tokens)) (hrest : run gap (cut '\n' m m rest) = some (s, more)) :
    run gap (cut '\n' m m (indent n (line ++ '\n' :: rest))) = some (s, tokens ++ .word parts :: .newline :: more) := by
  rw [indent, cut_replicate (by decide) hm, run_spaces]
  exact run_next hline h hrest

/-- A backslash before the end of the line is no token, and neither is the end. -/
theorem run_continued (hm : m ≤ 12) {line : List Char} (hline : '\n' ∉ line) (h : run gap line = some (s, tokens)) :
    run ⟨.bare, .word parts⟩ (cut '\n' m 0 (continued line)) = some (s, .word parts :: tokens) := by
  have hbackslash : run gap ['\\', '\n'] = some (gap, []) := by decide
  have hnext : run gap (cut '\n' m m (indent 14 line)) = some (s, tokens) := run_indent (hm.trans (by decide)) hline h
  have hcut : cut '\n' m 0 ('\\' :: '\n' :: indent 14 line) = ['\\', '\n'] ++ cut '\n' m m (indent 14 line) := rfl
  refine run_space ?_
  rw [hcut]
  exact run_append hbackslash hnext

end

/-! ### writeTextFile, writeFileBase64 -/

section
open Indent

def writeHead : List Char := indent 12 ("set -e".toList ++ '\n' :: indent 12 "dst=".toList)

def writeMiddle : List Char := '\n' :: indent 12 "printf '%s' ".toList

def writeTail : List Char := "> \"$dst\"".toList

def writeBase64Tail : List Char :=
  "| base64 -d > \"$dst\"".toList ++ '\n' :: indent 12 ("chmod 0600 \"$dst\" 2>/dev/null || true".toList ++ '\n' ::
    indent 12 "restorecon \"$dst\" 2>/dev/null || true".toList)

/-- The texts of the scripts' lines. -/
theorem oneLine_texts : ∀ s ∈ ["set -e", "dst=", "printf '%s' ", "> \"$dst\"", "| base64 -d > \"$dst\"",
    "chmod 0600 \"$dst\" 2>/dev/null || true", "restorecon \"$dst\" 2>/dev/null || true", "am start -n '",
    "--ei 'request_id' ", "--es 'command' ", "--es 'rp_id' "], OneLine s.toList := by
  simp only [List.forall_mem_cons, OneLine]
  repeat rw [String.toList_ofList]
  simp

theorem run_texts :
    run gap "set -e".toList = some (⟨.bare, .word ("-e".toList.map .bare)⟩, [bareWord "set"]) ∧
    run gap "dst=".toList = some (⟨.bare, .word ("dst=".toList.map .bare)⟩, []) ∧
    run gap "printf '%s' ".toList = some (gap, [bareWord "printf", quotedWord "%s".toList]) ∧
    run gap "> \"$dst\"".toList = some (⟨.bare, .word ("$dst".toList.map .double)⟩, [.operator ['>']]) := by
  unfold bareWord quotedWord
  repeat rw [String.toList_ofList]
  decide +kernel

theorem run_base64_texts :
    run gap "| base64 -d > \"$dst\"".toList = some (⟨.bare, .word ("$dst".toList.map .double)⟩,
      [.operator ['|'], bareWord "base64", bareWord "-d", .operator ['>']]) ∧
    run gap "chmod 0600 \"$dst\" 2>/dev/null || true".toList = some (⟨.bare, .word ("true".toList.map .bare)⟩,
      [bareWord "chmod", bareWord "0600", dst] ++ quietly.dropLast) ∧
    run gap "restorecon \"$dst\" 2>/dev/null || true".toList = some (⟨.bare, .word ("true".toList.map .bare)⟩,
      [bareWord "restorecon", dst] ++ quietly.dropLast) := by
  unfold quietly dst bareWord
  repeat rw [String.toList_ofList]
  decide +kernel

theorem writeTemplate {tail : List Char} (htail : Fixed false tail) : Template writeHead writeMiddle (' ' :: tail) where
  first := by
    have hset : "set -e".toList = 's' :: "et -e".toList := by simp
    rw [writeHead, hset]
    exact ⟨_, _, rfl, by decide, by decide⟩
  head := by
    have hassign : Fixed true (indent 12 "dst=".toList) := (Fixed.line (oneLine_texts _ (by simp))).indent (Nat.le_refl 12)
    exact (Fixed.next (oneLine_texts _ (by simp)) hassign).indent (Nat.le_refl 12)
  middle := .next ⟨List.not_mem_nil, List.not_mem_nil⟩ ((Fixed.line (oneLine_texts _ (by simp))).indent (Nat.le_refl 12))
  tail := by
    have hspace : OneLine [' '] := ⟨by decide, by decide⟩
    exact (Fixed.line hspace).append htail

/-- The literals of the two scripts. -/
theorem writeParts_eq : "\n            set -e\n            dst=".toList = '\n' :: writeHead ∧
    "\n            printf '%s' ".toList = writeMiddle ∧
    " > \"$dst\"\n            ".toList = ' ' :: writeTail ++ '\n' :: List.replicate 12 ' ' ∧
    " | base64 -d > \"$dst\"\n            chmod 0600 \"$dst\" 2>/dev/null || true\n            ".toList ++
      "restorecon \"$dst\" 2>/dev/null || true\n            ".toList =
        ' ' :: writeBase64Tail ++ '\n' :: List.replicate 12 ' ' := by
  unfold writeHead writeMiddle writeTail writeBase64Tail indent
  repeat rw [String.toList_ofList]
  exact ⟨rfl, rfl, rfl, rfl⟩

theorem writeScript_eq (path payload : List Char) : writeScript path payload = Kotlin.trimIndent
    ('\n' :: (Template.body writeHead writeMiddle (' ' :: writeTail) path payload ++ '\n' :: List.replicate 12 ' ')) := by
  obtain ⟨hhead, hmiddle, htail, _⟩ := writeParts_eq
  rw [writeScript, hhead, hmiddle, htail, Template.body]
  simp only [List.cons_append, List.append_assoc]

theorem writeBase64Script_eq (path payload : List Char) : writeBase64Script path payload = Kotlin.trimIndent
    ('\n' :: (Template.body writeHead writeMiddle (' ' :: writeBase64Tail) path payload ++ '\n' :: List.replicate 12 ' ')) := by
  obtain ⟨hhead, hmiddle, _, htail⟩ := writeParts_eq
  rw [writeBase64Script, List.append_assoc _ (String.toList _) (String.toList _), htail, hhead, hmiddle, Template.body]
  simp only [List.cons_append, List.append_assoc]

theorem lex_write {m : Nat} (hm : m ≤ 12) {path payload tail : List Char} {pending : Pending} {tokens : List Token}
    (hpath : nul ∉ path) (hpayload : nul ∉ payload) (htail : run gap (cut '\n' m 0 tail) = some (⟨.bare, pending⟩, tokens)) :
    lex (cut '\n' m m writeHead ++ (shellQuote path ++ (cut '\n' m 0 writeMiddle ++ (shellQuote payload ++
      cut '\n' m 0 (' ' :: tail))))) = some (printfTokens path payload (tokens ++ pending.emit false)) := by
  obtain ⟨hset, hassign, hprintf, _⟩ := run_texts
  have hline : '\n' ∉ "set -e".toList ∧ '\n' ∉ "dst=".toList ∧ '\n' ∉ "printf '%s' ".toList :=
    ⟨(oneLine_texts _ (by simp)).1, (oneLine_texts _ (by simp)).1, (oneLine_texts _ (by simp)).1⟩
  have hhead := run_indent_next hm hline.1 hset (run_indent hm hline.2.1 hassign)
  have hdst : (Pending.word ("dst=".toList.map .bare)).dollar = false := by simp [Pending.dollar]
  have hwrote := run_append (run_shellQuote_word hpath hdst) (run_append (run_line (run_indent hm hline.2.2 hprintf))
    (run_append (oneWord_shellQuote hpayload .none rfl) (run_space htail)))
  exact lex_of_run (run_append hhead hwrote)

theorem nul_kept {m : Nat} {v : List Char} (h : nul ∉ v) : nul ∉ kept m v := by
  intro hmem
  rcases mem_lineFeeds nul ((cut_sublist m 0 _).mem hmem) with hnl | hnul
  · exact absurd hnl (by decide)
  · exact h hnul

theorem writeScript_tokens {path payload : List Char} (hpath : nul ∉ path) (hpayload : nul ∉ payload) : ∃ m,
    lex (writeScript path payload) = some (writeTokens (kept m path) (kept m payload)) ∧
      (kept m path = path ∧ kept m payload = payload ↔ Keeps [path, payload]) := by
  have hline : OneLine writeTail := oneLine_texts _ (by simp)
  obtain ⟨m, hm, htrim, hkeeps⟩ := (writeTemplate (.line hline)).trimmed path payload
  have htail : run gap (cut '\n' m 0 writeTail) = some (⟨.bare, .word ("$dst".toList.map .double)⟩, [.operator ['>']]) := by
    rw [cut_line hline.1]
    exact run_texts.2.2.2
  refine ⟨m, ?_, hkeeps⟩
  rw [writeScript_eq, htrim, lex_write hm (nul_kept hpath) (nul_kept hpayload) htail]
  rfl

theorem writeBase64Script_tokens {path payload : List Char} (hpath : nul ∉ path) (hpayload : nul ∉ payload) : ∃ m,
    lex (writeBase64Script path payload) = some (writeBase64Tokens (kept m path) (kept m payload)) ∧
      (kept m path = path ∧ kept m payload = payload ↔ Keeps [path, payload]) := by
  have hline : OneLine "| base64 -d > \"$dst\"".toList := oneLine_texts _ (by simp)
  have hline' : OneLine "chmod 0600 \"$dst\" 2>/dev/null || true".toList := oneLine_texts _ (by simp)
  have hline'' : OneLine "restorecon \"$dst\" 2>/dev/null || true".toList := oneLine_texts _ (by simp)
  have hfixed : Fixed false writeBase64Tail :=
    .next hline ((Fixed.next hline' ((Fixed.line hline'').indent (Nat.le_refl 12))).indent (Nat.le_refl 12))
  obtain ⟨m, hm, htrim, hkeeps⟩ := (writeTemplate hfixed).trimmed path payload
  have htail : run gap (cut '\n' m 0 writeBase64Tail) = some (⟨.bare, .word ("true".toList.map .bare)⟩,
      [.operator ['|'], bareWord "base64", bareWord "-d", .operator ['>']] ++ dst :: .newline ::
        ([bareWord "chmod", bareWord "0600", dst] ++ quietly.dropLast ++ bareWord "true" :: .newline ::
          ([bareWord "restorecon", dst] ++ quietly.dropLast))) := by
    obtain ⟨hbase64, hchmod, hrestorecon⟩ := run_base64_texts
    exact run_next hline.1 hbase64 (run_indent_next hm hline'.1 hchmod (run_indent hm hline''.1 hrestorecon))
  refine ⟨m, ?_, hkeeps⟩
  have htrue : Token.word ("true".toList.map .bare) = bareWord "true" := rfl
  rw [writeBase64Script_eq, htrim, lex_write hm (nul_kept hpath) (nul_kept hpayload) htail, emit_word, htrue,
    writeBase64Tokens, quietly]
  simp only [List.dropLast, List.cons_append, List.nil_append]

end

/-! ### launchFidoAuthPromptActivity -/

section
open Indent

def launchStart : List Char := indent 12 "am start -n '".toList

def activity : List Char := "/com.abk.extension.fido.FidoAuthPromptActivity".toList

def launchActivity : List Char := activity ++ singleQuote :: continued "--ei 'request_id' ".toList

def launchCommand : List Char := continued "--es 'command' ".toList

def launchHead (packageName : List Char) (requestId : Int) : List Char :=
  launchStart ++ (shellQuote packageName ++ (launchActivity ++ ((toString requestId).toList ++ launchCommand)))

def launchMiddle : List Char := continued "--es 'rp_id' ".toList

/-- The characters of a package name. -/
def PackageChar (c : Char) : Prop := c.isAlphanum = true ∨ c = '_' ∨ c = '.'

/-- None of them is special, and neither is the sign of a number. -/
theorem not_mem_plain {s : List Char} (h : ∀ c ∈ s, PackageChar c ∨ c = '-') : ∀ d ∈ '\r' :: '$' :: special, d ∉ s := by
  have hnone : ('\r' :: '$' :: special).all (fun d => !(d.isAlphanum || d = '_' || d = '.' || d = '-')) = true := by
    decide +kernel
  have hnot : ∀ d ∈ '\r' :: '$' :: special, ¬ (PackageChar d ∨ d = '-') := fun d hd => by
    simpa [PackageChar, and_assoc] using List.all_eq_true.mp hnone d hd
  exact fun d hd hmem => hnot d hd (h d hmem)

theorem mem_toString {n : Int} : ∀ c ∈ (toString n).toList, PackageChar c ∨ c = '-' := by
  have hdigits : ∀ {n : Nat}, ∀ c ∈ n.repr.toList, PackageChar c := by
    intro n c hc
    rw [Nat.toList_repr] at hc
    have hdigit := Nat.isDigit_of_mem_toDigits (by decide) (by decide) hc
    exact .inl (by rw [Char.isAlphanum, hdigit, Bool.or_true])
  show ∀ c ∈ (Int.repr n).toList, _
  rw [Int.repr_eq_if]
  split_ifs
  · exact fun c hc => .inl (hdigits c hc)
  · rw [String.toList_append]
    intro c hc
    rcases List.mem_append.mp hc with hminus | hc
    · exact .inr (List.mem_singleton.mp hminus)
    · exact .inl (hdigits c hc)

variable {packageName : List Char} {requestId : Int}

theorem oneLine_number (requestId : Int) : OneLine (toString requestId).toList := by
  have hplain := not_mem_plain (@mem_toString requestId)
  exact ⟨hplain '\n' (by decide), hplain '\r' (by decide)⟩

theorem shellQuote_package (h : ∀ c ∈ packageName, PackageChar c) :
    shellQuote packageName = singleQuote :: (packageName ++ [singleQuote]) ∧ OneLine (shellQuote packageName) := by
  have hnot := not_mem_plain fun c hc => .inl (h c hc)
  have hescape : packageName.flatMap escape = packageName := by
    have heq : ∀ c ∈ packageName, escape c = [c] := by
      intro c hc
      refine if_neg fun hquote => hnot c ?_ hc
      rw [hquote]
      decide
    rw [List.flatMap_congr heq, List.flatMap_singleton']
  have hnl := hnot '\n' (by decide)
  have hreturn := hnot '\r' (by decide)
  have hline : '\n' ≠ singleQuote ∧ '\r' ≠ singleQuote := by decide
  rw [shellQuote, hescape, OneLine]
  simp [hnl, hreturn, hline]

theorem activity_plain : activity.flatMap escape = activity ∧ nul ∉ activity ∧ OneLine (activity ++ [singleQuote]) := by
  unfold activity OneLine
  repeat rw [String.toList_ofList]
  decide +kernel

theorem launchActivity_eq : launchActivity = activity ++ [singleQuote] ++ continued "--ei 'request_id' ".toList := by
  rw [launchActivity, List.append_assoc]
  rfl

theorem fixed_launchActivity : Fixed false launchActivity := by
  rw [launchActivity_eq]
  exact (Fixed.line activity_plain.2.2).append (.continued (oneLine_texts _ (by simp)))

theorem fixed_launchStart : Fixed true launchStart := (Fixed.line (oneLine_texts _ (by simp))).indent (Nat.le_refl 12)

theorem launchTemplate (requestId : Int) (h : ∀ c ∈ packageName, PackageChar c) :
    Template (launchHead packageName requestId) launchMiddle [] where
  first := by
    have hstart : "am start -n '".toList = 'a' :: "m start -n '".toList := by simp
    rw [launchHead, launchStart, hstart, indent, List.append_assoc]
    exact ⟨_, _, rfl, by decide, by decide⟩
  head := fixed_launchStart.append ((Fixed.line (shellQuote_package h).2).append
    (fixed_launchActivity.append ((Fixed.line (oneLine_number requestId)).append (.continued (oneLine_texts _ (by simp))))))
  middle := .continued (oneLine_texts _ (by simp))
  tail := .line ⟨List.not_mem_nil, List.not_mem_nil⟩

theorem run_launch_texts :
    run gap "am start -n '".toList = some (⟨.single, .word []⟩, [bareWord "am", bareWord "start", bareWord "-n"]) ∧
    run gap "--ei 'request_id' ".toList = some (gap, [bareWord "--ei", quotedWord "request_id".toList]) ∧
    run gap "--es 'command' ".toList = some (gap, [bareWord "--es", quotedWord "command".toList]) ∧
    run gap "--es 'rp_id' ".toList = some (gap, [bareWord "--es", quotedWord "rp_id".toList]) := by
  unfold bareWord quotedWord
  repeat rw [String.toList_ofList]
  decide +kernel

theorem run_plain {s : List Char} (h : ∀ c ∈ s, PackageChar c ∨ c = '-') :
    run ⟨.bare, .word []⟩ s = some (⟨.bare, .word (s.map .bare)⟩, []) := by
  have hnot := not_mem_plain h
  exact run_bare fun c hc hspecial => hnot c (by simp [hspecial]) hc

theorem run_number (requestId : Int) :
    run gap (toString requestId).toList = some (⟨.bare, .word ((toString requestId).toList.map .bare)⟩, []) := by
  have hspecial := not_mem_plain (@mem_toString requestId)
  refine run_gap_bare (fun c hc hmem => hspecial c (by simp [hmem]) hc) ?_
  show (Int.repr requestId).toList ≠ []
  rw [Int.repr_eq_if]
  split_ifs
  · exact fun h => Nat.repr_ne_empty (String.toList_eq_nil_iff.mp h)
  · rw [String.toList_append]
    exact fun h => absurd (List.append_eq_nil_iff.mp h).1 (by decide)

theorem run_package (h : ∀ c ∈ packageName, PackageChar c) :
    run ⟨.single, .word []⟩ (shellQuote packageName) = some (⟨.single, .word (packageName.map .bare)⟩, []) := by
  have hplain : ∀ c ∈ packageName, PackageChar c ∨ c = '-' := fun c hc => .inl (h c hc)
  have hdollar : (Pending.word (packageName.map .bare)).dollar = false := by
    have hmem := not_mem_plain hplain '$' (by decide)
    simp only [Pending.dollar, List.getLast?_map]
    cases hlast : packageName.getLast? with
    | none => rfl
    | some c =>
      have hc : c ≠ '$' := fun hc => hmem (hc ▸ List.mem_of_getLast? hlast)
      simp [hc]
  have hout : step ⟨.single, .word []⟩ singleQuote = some (⟨.bare, .word []⟩, []) := by decide
  have hin := step_quote hdollar
  simp only [Pending.add, List.append_nil] at hin
  rw [(shellQuote_package h).1]
  exact run_cons hout (run_append (run_plain hplain) (run_cons hin (run_nil _)))

/-- The activity's name is in quotes, and follows the package's without a space. -/
theorem run_activity {m : Nat} (hm : m ≤ 12) (parts : List Part) :
    run ⟨.single, .word parts⟩ (cut '\n' m 0 launchActivity) = some (gap,
      [.word (parts ++ activity.map .quoted), bareWord "--ei", quotedWord "request_id".toList]) := by
  obtain ⟨hescape, hnul, hline⟩ := activity_plain
  have hname := run_escape hnul parts
  rw [hescape] at hname
  rw [launchActivity_eq, cut_append, cut_line hline.1, left_line hline.1]
  exact run_append hname (run_continued hm (oneLine_texts _ (by simp)).1 run_launch_texts.2.1)

theorem lex_launch {m : Nat} (hm : m ≤ 12) (hpackage : ∀ c ∈ packageName, PackageChar c) {command rpId : List Char}
    (hcommand : nul ∉ command) (hrpId : nul ∉ rpId) :
    lex (cut '\n' m m (launchHead packageName requestId) ++ (shellQuote command ++ (cut '\n' m 0 launchMiddle ++
      (shellQuote rpId ++ cut '\n' m 0 [])))) = some (launchTokens packageName requestId command rpId) := by
  have hnl := (shellQuote_package hpackage).2.1
  have hidnl := (oneLine_number requestId).1
  obtain ⟨hname, _, hcommands, hrpIds⟩ := run_launch_texts
  have hline : '\n' ∉ "am start -n '".toList ∧ '\n' ∉ "--es 'command' ".toList ∧ '\n' ∉ "--es 'rp_id' ".toList :=
    ⟨(oneLine_texts _ (by simp)).1, (oneLine_texts _ (by simp)).1, (oneLine_texts _ (by simp)).1⟩
  have hhead := run_append (run_indent hm hline.1 hname) (run_append (run_package hpackage) (run_append (run_activity hm _)
    (run_append (run_number requestId) (run_continued hm hline.2.1 hcommands))))
  have hvalues := run_append (oneWord_shellQuote hcommand .none rfl) (run_append (run_continued hm hline.2.2 hrpIds)
    (run_append (oneWord_shellQuote hrpId .none rfl) (run_nil _)))
  have hactivity : left '\n' m 0 launchActivity = 0 := fixed_launchActivity.left m hm
  have hcut : cut '\n' m m (launchHead packageName requestId) = cut '\n' m m launchStart ++ (shellQuote packageName ++
      (cut '\n' m 0 launchActivity ++ ((toString requestId).toList ++ cut '\n' m 0 launchCommand))) := by
    have hzero : left '\n' m m launchStart = 0 := fixed_launchStart.left m hm
    rw [launchHead, cut_append, hzero, cut_append, cut_line hnl, left_line hnl, cut_append, hactivity, cut_append,
      cut_line hidnl, left_line hidnl]
  rw [hcut]
  exact lex_of_run (run_append hhead hvalues)

/-- The literals of the script. -/
theorem launchParts_eq : "\n            am start -n '".toList = '\n' :: launchStart ∧
    "/com.abk.extension.fido.FidoAuthPromptActivity' \\\n              --ei 'request_id' ".toList = launchActivity ∧
    " \\\n              --es 'command' ".toList = launchCommand ∧
    " \\\n              --es 'rp_id' ".toList = launchMiddle ∧
    "\n            ".toList = '\n' :: List.replicate 12 ' ' := by
  unfold launchStart launchActivity activity launchCommand launchMiddle continued indent
  repeat rw [String.toList_ofList]
  exact ⟨rfl, rfl, rfl, rfl, rfl⟩

theorem launchScript_eq (packageName : List Char) (requestId : Int) (command rpId : List Char) :
    launchScript packageName requestId command rpId = Kotlin.trimIndent ('\n' ::
      (Template.body (launchHead packageName requestId) launchMiddle [] command rpId ++ '\n' :: List.replicate 12 ' ')) := by
  obtain ⟨hstart, hactivity, hcommand, hrpId, hlast⟩ := launchParts_eq
  rw [launchScript, hstart, hactivity, hcommand, hrpId, hlast, Template.body, launchHead]
  simp only [List.cons_append, List.append_assoc, List.nil_append]

theorem launchScript_tokens (requestId : Int) (hpackage : ∀ c ∈ packageName, PackageChar c) {command rpId : List Char}
    (hcommand : nul ∉ command) (hrpId : nul ∉ rpId) : ∃ m,
    lex (launchScript packageName requestId command rpId) =
        some (launchTokens packageName requestId (kept m command) (kept m rpId)) ∧
      (kept m command = command ∧ kept m rpId = rpId ↔ Keeps [command, rpId]) := by
  obtain ⟨m, hm, htrim, hkeeps⟩ := (launchTemplate requestId hpackage).trimmed command rpId
  exact ⟨m, by rw [launchScript_eq, htrim, lex_launch hm hpackage (nul_kept hcommand) (nul_kept hrpId)], hkeeps⟩

end

theorem quotedWord_inj {v w : List Char} : quotedWord v = quotedWord w ↔ v = w := by
  have hinj : Function.Injective Part.quoted := fun _ _ h => Part.quoted.inj h
  simp [quotedWord, List.map_inj_right hinj]

theorem printfTokens_inj {path path' payload payload' : List Char} {rest : List Token} :
    printfTokens path payload rest = printfTokens path' payload' rest ↔ path = path' ∧ payload = payload' := by
  have hinj : Function.Injective Part.quoted := fun _ _ h => Part.quoted.inj h
  simp [printfTokens, quotedWord_inj, List.map_inj_right hinj]

/-- **What the root shell gets of a text.** Quoted, it is one word, wherever
that is put. In a script it is one argument, and the other tokens are the
script's own; but the script is indented, and what `trimIndent` takes off the
lines of the text is lost. -/
theorem carried (v packageName command rpId path payload : List Char) (requestId : Int) :
    (nul ∉ v → value (v.map .quoted) = some v ∧
      ∀ before after s tokens, run gap before = some (s, tokens) → s.Between → (∀ c ∈ after.head?, Delimits c) →
        ∃ first, lex before = some first ∧
          lex (before ++ (shellQuote v ++ after)) = (lex after).map fun last => first ++ quotedWord v :: last) ∧
    ((∀ c ∈ packageName, PackageChar c) → nul ∉ command → nul ∉ rpId →
      (∃ command' rpId', lex (launchScript packageName requestId command rpId) =
        some (launchTokens packageName requestId command' rpId')) ∧
      (lex (launchScript packageName requestId command rpId) = some (launchTokens packageName requestId command rpId) ↔
        Keeps [command, rpId])) ∧
    (nul ∉ path → nul ∉ payload →
      (∃ path' payload', lex (writeScript path payload) = some (writeTokens path' payload')) ∧
      (lex (writeScript path payload) = some (writeTokens path payload) ↔ Keeps [path, payload])) ∧
    (nul ∉ path → nul ∉ payload →
      (∃ path' payload', lex (writeBase64Script path payload) = some (writeBase64Tokens path' payload')) ∧
      (lex (writeBase64Script path payload) = some (writeBase64Tokens path payload) ↔ Keeps [path, payload])) := by
  refine ⟨?_, ?_, ?_, ?_⟩
  · exact fun hv => ⟨value_quoted v, fun _ _ _ _ => (oneWord_shellQuote hv).added⟩
  · intro hpackage hcommand hrpId
    obtain ⟨m, hlex, hkeeps⟩ := launchScript_tokens requestId hpackage hcommand hrpId
    refine ⟨⟨_, _, hlex⟩, ?_⟩
    rw [hlex, ← hkeeps, Option.some.injEq]
    simp [launchTokens, quotedWord_inj]
  · intro hpath hpayload
    obtain ⟨m, hlex, hkeeps⟩ := writeScript_tokens hpath hpayload
    refine ⟨⟨_, _, hlex⟩, ?_⟩
    rw [hlex, ← hkeeps, Option.some.injEq]
    exact printfTokens_inj
  · intro hpath hpayload
    obtain ⟨m, hlex, hkeeps⟩ := writeBase64Script_tokens hpath hpayload
    refine ⟨⟨_, _, hlex⟩, ?_⟩
    rw [hlex, ← hkeeps, Option.some.injEq]
    exact printfTokens_inj

theorem launch_indented : lex (launchScript "com.abk.extension.fido".toList 1 "getAssertion".toList "a\n\tb".toList) ≠
    some (launchTokens "com.abk.extension.fido".toList 1 "getAssertion".toList "a\n\tb".toList) := by
  unfold launchScript launchTokens bareWord
  repeat rw [String.toList_ofList]
  decide +kernel

theorem carried_plain :
    lex (launchScript "com.abk.extension.fido".toList 7 "makeCredential".toList "it's\n$(id)".toList) =
        some (launchTokens "com.abk.extension.fido".toList 7 "makeCredential".toList "it's\n$(id)".toList) ∧
      lex (writeScript "/d".toList "allow 7\n".toList) = some (writeTokens "/d".toList "allow 7\n".toList) := by
  have htexts : nul ∉ "makeCredential".toList ∧ nul ∉ "it's\n$(id)".toList ∧ nul ∉ "/d".toList ∧
      nul ∉ "allow 7\n".toList ∧ "it's\n$(id)".toList = "it's".toList ++ '\n' :: "$(id)".toList ∧
      "allow 7\n".toList = "allow 7".toList ++ '\n' :: [] ∧ Kotlin.isWhitespace '$' = false ∧
      "com.abk.extension.fido".toList.all (fun c => c.isAlphanum || c = '_' || c = '.') = true := by
    repeat rw [String.toList_ofList]
    decide +kernel
  obtain ⟨hn1, hn2, hn3, hn4, hsplit, hsplit', hhead, hall⟩ := htexts
  have hpackage : ∀ c ∈ "com.abk.extension.fido".toList, PackageChar c := fun c hc => by
    simpa [PackageChar, or_assoc] using List.all_eq_true.mp hall c hc
  have hcommand : Keeps ["makeCredential".toList, "it's\n$(id)".toList] :=
    ⟨by simp, .inr ⟨_, List.mem_pair.mpr (.inr rfl), _, _, hsplit, by simpa using hhead⟩⟩
  have hdecision : Keeps ["/d".toList, "allow 7\n".toList] :=
    ⟨by simp, .inr ⟨_, List.mem_pair.mpr (.inr rfl), _, _, hsplit', nofun⟩⟩
  have hcarried := carried [] "com.abk.extension.fido".toList "makeCredential".toList "it's\n$(id)".toList "/d".toList
    "allow 7\n".toList 7
  exact ⟨(hcarried.2.1 hpackage hn1 hn2).2.mpr hcommand, (hcarried.2.2.1 hn3 hn4).2.mpr hdecision⟩

end RootShell

end AbkFido
