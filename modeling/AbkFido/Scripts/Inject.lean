/-
`ak3_bundle_ksu_module.py`: the installer block it puts into `anykernel.sh`.

A script gets the block at its end, or in place of the block it has. The search
for the block is lazy between two markers, so with several blocks all of them are
replaced, and an opening marker that is not closed reaches to the next closing
one, be it that of the block just added. Where neither is so (`Fit`), the block
is put in once, and putting it in again changes nothing; and only there
(`injectsOnce_iff`).
-/
import AbkFido.Lib.Markers

namespace AbkFido.Bundle

open Markers

def beginMarker : List Char := "### >>> ABK FIDO KernelSU module installer".toList

def endMarker : List Char := "### <<< ABK FIDO KernelSU module installer".toList

/-- The lines of the installer, from the opening marker on and up to the
closing one. -/
def installerLines : List String := [
  " (managed by ABK_FIDO_KEY_MODULE) >>>",
  "## Installs the SELinux rules module shipped in abk-ksu-modules/, so that flashing",
  "## this AnyKernel3 zip also installs the KernelSU module the driver needs for",
  "## /metadata persistence. Additive and non-fatal: the boot image is already",
  "## written when this runs, so a failure only prints a warning.",
  "if ! command -v ui_print >/dev/null 2>&1; then",
  "  ui_print() \x7b echo \"$@\"; \x7d",
  "fi",
  "",
  "abk_fido_install_ksu_modules() \x7b",
  "  ABK_FIDO_HOME=\"$\x7bAKHOME:-$PWD\x7d\"",
  "  ABK_FIDO_SRC=\"$ABK_FIDO_HOME/abk-ksu-modules\"",
  "  [ -d \"$ABK_FIDO_SRC\" ] || return 0",
  "  ABK_FIDO_UNZIP=\"unzip\"",
  "  [ -x \"$ABK_FIDO_HOME/tools/busybox\" ] && ABK_FIDO_UNZIP=\"$ABK_FIDO_HOME/tools/busybox unzip\"",
  "  for ABK_FIDO_ZIP in \"$ABK_FIDO_SRC\"/*.zip; do",
  "    [ -f \"$ABK_FIDO_ZIP\" ] || continue",
  "    ABK_FIDO_ID=\"$(basename \"$ABK_FIDO_ZIP\" .zip)\"",
  "    ABK_FIDO_VIA=\"\"",
  "    for ABK_FIDO_KSUD in /data/adb/ksud /data/adb/ksu/bin/ksud /data/adb/ap/bin/apd; do",
  "      [ -x \"$ABK_FIDO_KSUD\" ] || continue",
  "      if \"$ABK_FIDO_KSUD\" module install \"$ABK_FIDO_ZIP\" >/dev/null 2>&1; then",
  "        ABK_FIDO_VIA=\"$(basename \"$ABK_FIDO_KSUD\")\"",
  "        break",
  "      fi",
  "    done",
  "    if [ -z \"$ABK_FIDO_VIA\" ] && command -v magisk >/dev/null 2>&1; then",
  "      magisk --install-module \"$ABK_FIDO_ZIP\" >/dev/null 2>&1 && ABK_FIDO_VIA=\"magisk\"",
  "    fi",
  "    if [ -z \"$ABK_FIDO_VIA\" ] && [ -d /data/adb ]; then",
  "      ABK_FIDO_TARGET=\"/data/adb/modules/$ABK_FIDO_ID\"",
  "      rm -rf \"$ABK_FIDO_TARGET\"",
  "      mkdir -p \"$ABK_FIDO_TARGET\" 2>/dev/null",
  "      if $ABK_FIDO_UNZIP -o \"$ABK_FIDO_ZIP\" -d \"$ABK_FIDO_TARGET\" >/dev/null 2>&1; then",
  "        chmod 0755 \"$ABK_FIDO_TARGET\"/*.sh 2>/dev/null",
  "        if command -v chcon >/dev/null 2>&1; then",
  "          chcon -R u:object_r:system_file:s0 \"$ABK_FIDO_TARGET\" 2>/dev/null",
  "        fi",
  "        ABK_FIDO_VIA=\"unpacked to /data/adb/modules\"",
  "      fi",
  "    fi",
  "    if [ -n \"$ABK_FIDO_VIA\" ]; then",
  "      ui_print \"  -> ABK FIDO: KernelSU module $ABK_FIDO_ID installed via $ABK_FIDO_VIA\"",
  "    else",
  "      ui_print \"  -> ABK FIDO: WARNING could not install $ABK_FIDO_ID, flash abk_fido_selinux.zip manually\"",
  "    fi",
  "  done",
  "  return 0",
  "\x7d",
  "",
  "abk_fido_install_ksu_modules || ui_print \"  -> ABK FIDO: KernelSU module step skipped\"",
  "unset ABK_FIDO_HOME ABK_FIDO_SRC ABK_FIDO_UNZIP ABK_FIDO_ZIP ABK_FIDO_ID ABK_FIDO_VIA \\",
  "  ABK_FIDO_KSUD ABK_FIDO_TARGET 2>/dev/null"]

/-- What is between the markers. -/
def installerBody : List Char := installerLines.flatMap fun line => line.toList ++ ['\n']

/-- `END_MARKER` and the end of its line, as the block pattern has it. -/
def closingMarker : List Char := endMarker ++ " <<<".toList

/-- `INSTALLER_BLOCK` -/
def installerBlock : List Char := beginMarker ++ (installerBody ++ (closingMarker ++ ['\n']))

/-- `INSTALLER_BLOCK.rstrip("\n")` -/
def strippedBlock : List Char := installerBlock.rdropWhile (· == '\n')

/-- `_BLOCK_PATTERN` -/
def blockPattern : Pair Char where
  opening := beginMarker
  closing := closingMarker
  opening_ne := by decide
  closing_ne := by decide
  opening_opening := by decide +kernel
  opening_closing := by decide +kernel
  closing_opening := by decide +kernel
  closing_closing := by decide +kernel
  distinct := by decide +kernel

/-- `text.replace("\r\n", "\n").replace("\r", "\n")` -/
def normalise (text : List Char) : List Char := replaceAll ['\r'] ['\n'] (replaceAll ['\r', '\n'] ['\n'] text)

/-- What is put between a script and the block at its end. -/
def separator (text : List Char) : List Char :=
  if ['\n', '\n'] <:+ text then [] else if ['\n'] <:+ text then ['\n'] else ['\n', '\n']

def injectScript (text : List Char) : List Char :=
  let text := normalise text
  if blockPattern.search text then blockPattern.replaceBlocks strippedBlock text
  else text ++ (separator text ++ installerBlock)

/-- The text has no opening marker; or its first one begins a block, and it
has no other block. -/
def Fit (text : List Char) : Prop :=
  ¬ beginMarker <:+: text ∨
  ∃ before block after, text = before ++ (block ++ after) ∧ blockPattern.IsBlock block ∧ ¬ beginMarker <:+: before ∧
    ¬ blockPattern.HasBlock after

/-- The block is put in once, in place of the blocks there were or at the
end, and a second time changes nothing. -/
structure InjectsOnce (text : List Char) : Prop where
  idempotent : injectScript (injectScript text) = injectScript text
  noReturns : '\r' ∉ injectScript text
  once : ∃ before after n rest, injectScript text = before ++ (strippedBlock ++ after) ∧
    ¬ blockPattern.HasBlock before ∧ ¬ blockPattern.HasBlock after ∧
    blockPattern.Without n (normalise text) rest ∧
    ((n = 0 ∧ ∃ newlines, (∀ c ∈ newlines, c = '\n') ∧ before ++ after = rest ++ newlines) ∨
      (0 < n ∧ before ++ after = rest))

/-! ## The block -/

theorem strippedBlock_eq : strippedBlock = beginMarker ++ (installerBody ++ closingMarker) := by
  have hclosing : closingMarker = endMarker ++ " <<".toList ++ ['<'] := by decide
  have hblock : installerBlock = beginMarker ++ (installerBody ++ closingMarker) ++ ['\n'] := by
    simp only [installerBlock, List.append_assoc]
  rw [strippedBlock, hblock, List.rdropWhile_concat_pos _ _ _ (by decide), hclosing, ← List.append_assoc, ← List.append_assoc,
    List.rdropWhile_concat_neg _ _ _ (by decide)]

theorem installerBlock_eq : installerBlock = strippedBlock ++ ['\n'] := by
  rw [strippedBlock_eq, installerBlock]
  simp only [List.append_assoc]

/-- No line has as many number signs in a row as a marker begins with. -/
theorem installerLines_plain :
    ∀ line ∈ installerLines, (occurs ['#', '#', '#'] line.toList || line.toList.contains '\r') = false := by
  simp only [installerLines, List.forall_mem_cons, List.not_mem_nil, false_implies, implies_true, and_true]
  and_intros <;> (rw [String.toList_ofList]; decide +kernel)

theorem newline_not_mem_begin : '\n' ∉ beginMarker := by decide

theorem newline_not_mem_closing : '\n' ∉ closingMarker := by decide

theorem not_infix_body {p : List Char} (hp : ['#', '#', '#'] <+: p) (hnewline : '\n' ∉ p) : ¬ p <:+: installerBody := by
  intro h
  obtain ⟨line, hline, hin⟩ := infix_lines hnewline (by rintro rfl; simp at hp) h
  obtain ⟨hsigns, _⟩ := Bool.or_eq_false_iff.mp (installerLines_plain line hline)
  exact Bool.false_ne_true (hsigns.symm.trans (occurs_iff.mpr (hp.isInfix.trans hin)))

theorem isBlock_stripped : blockPattern.IsBlock strippedBlock :=
  ⟨installerBody, strippedBlock_eq, not_infix_body (by decide) newline_not_mem_begin,
    not_infix_body (by decide) newline_not_mem_closing⟩

theorem return_not_mem_block : '\r' ∉ strippedBlock := by
  rw [strippedBlock_eq, List.mem_append, List.mem_append]
  rintro (h | h | h)
  · exact absurd h (by decide)
  · obtain ⟨line, hline, hmem⟩ := List.mem_flatMap.mp h
    obtain ⟨_, hreturn⟩ := Bool.or_eq_false_iff.mp (installerLines_plain line hline)
    rcases List.mem_append.mp hmem with hmem | hmem
    · exact Bool.false_ne_true (hreturn.symm.trans (List.contains_iff_mem.mpr hmem))
    · exact absurd hmem (by decide)
  · exact absurd h (by decide)

/-! ## Line ends -/

theorem replaceReturns_eq (text : List Char) :
    replaceAll ['\r'] ['\n'] text = text.map fun c => if c = '\r' then '\n' else c := by
  induction text with
  | nil => rfl
  | cons c text ih =>
    have hmatch : ['\r'] <+: c :: text ↔ c = '\r' := by
      rw [List.cons_prefix_cons]
      exact ⟨fun h => h.1.symm, fun h => ⟨h.symm, List.nil_prefix⟩⟩
    rw [replaceAll] at ih ⊢
    by_cases hc : c = '\r'
    · rw [scan, if_pos (hmatch.mpr hc), List.map_cons, if_pos hc, ← ih]
      rfl
    · rw [scan, if_neg (fun h => hc (hmatch.mp h)), List.map_cons, if_neg hc, ← ih]

theorem return_not_mem_normalise (text : List Char) : '\r' ∉ normalise text := by
  rw [normalise, replaceReturns_eq, List.mem_map]
  rintro ⟨c, _, hc⟩
  split at hc
  · exact absurd hc (by decide)
  · next hne => exact hne hc

theorem normalise_of_not_mem {text : List Char} (h : '\r' ∉ text) : normalise text = text := by
  have hnone : ∀ {p : List Char}, '\r' ∈ p → ¬ p <:+: text := fun hp hin => h (hin.subset hp)
  rw [normalise, replaceAll_of_not_infix (p := ['\r', '\n']) (hnone (by decide)), replaceAll_of_not_infix (hnone (by decide))]

theorem newline_of_mem_separator {text : List Char} : ∀ c ∈ separator text, c = '\n' := by
  unfold separator
  split
  · exact nofun
  split
  · simp
  · simp

theorem not_infix_newlines {p text newlines : List Char} (hp : p ≠ []) (hnewline : '\n' ∉ p)
    (hnewlines : ∀ c ∈ newlines, c = '\n') (h : ¬ p <:+: text) : ¬ p <:+: text ++ newlines := by
  cases newlines with
  | nil => rwa [List.append_nil]
  | cons c rest =>
    obtain ⟨rfl, hrest⟩ := List.forall_mem_cons.mp hnewlines
    intro hin
    rcases infix_append_sep hin hnewline with htext | hnew
    · exact h htext
    · obtain ⟨c, hc⟩ := List.exists_mem_of_ne_nil p hp
      exact hnewline (hrest c (hnew.subset hc) ▸ hc)

/-! ## Injecting -/

section
variable {text x y z : List Char}

theorem inject_append (h : ¬ blockPattern.HasBlock (normalise text)) :
    injectScript text = normalise text ++ (separator (normalise text) ++ (strippedBlock ++ ['\n'])) := by
  rw [injectScript]
  rw [if_neg (fun hsearch => h (Pair.search_iff.mp hsearch)), installerBlock_eq]

theorem inject_replace (hx : ¬ beginMarker <:+: x) (hy : ¬ closingMarker <:+: y)
    (h : normalise text = x ++ (beginMarker ++ (y ++ (closingMarker ++ z)))) :
    injectScript text = x ++ (strippedBlock ++ blockPattern.replaceBlocks strippedBlock z) := by
  have hblock : blockPattern.HasBlock (normalise text) := ⟨x, y, z, h⟩
  rw [injectScript]
  rw [if_pos (Pair.search_iff.mpr hblock), h]
  exact Pair.replaceBlocks_eq (m := blockPattern) hx hy z

/-- A text that has the block is as it was. -/
theorem inject_injected (hx : ¬ beginMarker <:+: x) (hz : ¬ blockPattern.HasBlock z)
    (hreturn : '\r' ∉ x ++ (strippedBlock ++ z)) : injectScript (x ++ (strippedBlock ++ z)) = x ++ (strippedBlock ++ z) := by
  obtain ⟨body, hblock, _, hclosing⟩ := isBlock_stripped
  have hsplit : normalise (x ++ (strippedBlock ++ z)) = x ++ (beginMarker ++ (body ++ (closingMarker ++ z))) := by
    rw [normalise_of_not_mem hreturn, hblock]
    simp only [List.append_assoc]
    rfl
  rw [inject_replace hx hclosing hsplit, Pair.replaceBlocks_of_not hz]

theorem not_hasBlock_newline : ¬ blockPattern.HasBlock ['\n'] :=
  Pair.not_hasBlock_of_opening fun h => newline_not_mem_begin (by
    obtain ⟨c, hc⟩ := List.exists_mem_of_ne_nil beginMarker (by decide)
    have hmem : c = '\n' := List.mem_singleton.mp (h.subset hc)
    exact hmem ▸ hc)

/-- A script without an opening marker gets the block at its end. -/
theorem injectsOnce_of_no_begin (h : ¬ beginMarker <:+: normalise text) : InjectsOnce text := by
  have hnone := Pair.not_hasBlock_of_opening (m := blockPattern) h
  have hbefore : ¬ beginMarker <:+: normalise text ++ separator (normalise text) :=
    not_infix_newlines (by decide) newline_not_mem_begin newline_of_mem_separator h
  have hout : injectScript text = (normalise text ++ separator (normalise text)) ++ (strippedBlock ++ ['\n']) := by
    rw [inject_append hnone, List.append_assoc]
  have hreturn : '\r' ∉ (normalise text ++ separator (normalise text)) ++ (strippedBlock ++ ['\n']) := by
    simp only [List.mem_append, not_or]
    exact ⟨⟨return_not_mem_normalise text, fun hmem => absurd (newline_of_mem_separator _ hmem) (by decide)⟩,
      return_not_mem_block, by decide⟩
  refine ⟨?_, ?_, _, _, 0, normalise text, hout, Pair.not_hasBlock_of_opening hbefore, not_hasBlock_newline, .none hnone,
    .inl ⟨rfl, separator (normalise text) ++ ['\n'], ?_, List.append_assoc ..⟩⟩
  · rw [hout]
    exact inject_injected hbefore not_hasBlock_newline hreturn
  · rw [hout]
    exact hreturn
  · intro c hc
    rcases List.mem_append.mp hc with hc | hc
    · exact newline_of_mem_separator c hc
    · exact List.mem_singleton.mp hc

/-- A script with one block gets the block in its place. -/
theorem injectsOnce_of_block {b : List Char} (h : normalise text = x ++ (b ++ z)) (hb : blockPattern.IsBlock b)
    (hx : ¬ beginMarker <:+: x) (hz : ¬ blockPattern.HasBlock z) : InjectsOnce text := by
  have hnone := Pair.not_hasBlock_of_opening (m := blockPattern) hx
  have hout : injectScript text = x ++ (strippedBlock ++ z) := by
    obtain ⟨y, rfl, _, hy⟩ := hb
    simp only [List.append_assoc] at h
    rw [inject_replace hx hy h, Pair.replaceBlocks_of_not hz]
  have hreturn : '\r' ∉ x ++ (strippedBlock ++ z) := by
    have htext := return_not_mem_normalise text
    rw [h] at htext
    simp only [List.mem_append, not_or] at htext ⊢
    exact ⟨htext.1, return_not_mem_block, htext.2.2⟩
  refine ⟨?_, ?_, x, z, 1, x ++ z, hout, hnone, hz, ?_, .inr ⟨Nat.one_pos, rfl⟩⟩
  · rw [hout]
    exact inject_injected hx hz hreturn
  · rw [hout]
    exact hreturn
  · rw [h]
    exact .cons hnone hb (.none hz)

/-- An opening marker that nothing closes reaches to the block that is added. -/
theorem not_idempotent (hx : ¬ beginMarker <:+: x) (hz : ¬ closingMarker <:+: z)
    (h : normalise text = x ++ (beginMarker ++ z)) : injectScript (injectScript text) ≠ injectScript text := by
  obtain ⟨body, hblock, _, hclosing⟩ := isBlock_stripped
  have hnone : ¬ blockPattern.HasBlock (normalise text) := by
    rw [h]
    exact Pair.not_hasBlock_of_first hx hz
  have hbetween : ¬ closingMarker <:+: (z ++ separator (normalise text)) ++ (beginMarker ++ body) :=
    Pair.not_closing_across (m := blockPattern)
      (not_infix_newlines (by decide) newline_not_mem_closing newline_of_mem_separator hz) hclosing
  have hout : injectScript text = x ++ (beginMarker ++ (((z ++ separator (normalise text)) ++ (beginMarker ++ body)) ++
      (closingMarker ++ ['\n']))) := by
    rw [inject_append hnone]
    conv_lhs => rw [h, hblock]
    rw [h]
    simp only [List.append_assoc]
    rfl
  have hreturn : '\r' ∉ injectScript text := by
    rw [inject_append hnone]
    simp only [List.mem_append, not_or]
    exact ⟨return_not_mem_normalise text, fun hmem => absurd (newline_of_mem_separator _ hmem) (by decide),
      return_not_mem_block, by decide⟩
  have hagain : injectScript (injectScript text) = x ++ (strippedBlock ++ ['\n']) := by
    rw [inject_replace hx hbetween ((normalise_of_not_mem hreturn).trans hout),
      Pair.replaceBlocks_of_not not_hasBlock_newline]
  have hlen : 0 < beginMarker.length := by decide
  have hblocklen : strippedBlock.length = (beginMarker ++ (body ++ closingMarker)).length := congrArg List.length hblock
  intro heq
  have heqlen := congrArg List.length heq
  rw [hagain, hout] at heqlen
  simp only [List.length_append] at heqlen hblocklen
  omega

/-- Of a script the block is put into once, the first opening marker begins
its one block. -/
theorem fit_of_closed (hx : ¬ beginMarker <:+: x) (hy : ¬ closingMarker <:+: y)
    (h : normalise text = x ++ (beginMarker ++ (y ++ (closingMarker ++ z)))) (honce : InjectsOnce text) :
    ¬ beginMarker <:+: y ∧ ¬ blockPattern.HasBlock z := by
  obtain ⟨before, after, n, rest, hout, hbefore, hafter, hwithout, hrest⟩ := honce.once
  have hnone := Pair.not_hasBlock_of_opening (m := blockPattern) hx
  rw [inject_replace hx hy h] at hout
  obtain ⟨rfl, _, hz⟩ := Pair.first_unique hnone hbefore isBlock_stripped isBlock_stripped hout
  have hzblock : ¬ blockPattern.HasBlock z := fun hblock => hafter (hz ▸ Pair.hasBlock_replaceBlocks isBlock_stripped hblock)
  rw [Pair.replaceBlocks_of_not hzblock] at hz
  subst hz
  refine ⟨fun hinner => ?_, hzblock⟩
  -- The last opening marker begins the block, and the first one is lost.
  obtain ⟨p, y, rfl, hlast⟩ := exists_last hinner (by decide)
  have hp : ¬ closingMarker <:+: p := fun hp => hy (hp.trans (List.prefix_append ..).isInfix)
  have hy' : ¬ closingMarker <:+: y := fun hy' => hy (hy'.trans ⟨p ++ beginMarker, [], by simp⟩)
  have hsplit : normalise text = (x ++ (beginMarker ++ p)) ++ ((beginMarker ++ (y ++ closingMarker)) ++ z) := by
    rw [h]
    simp only [List.append_assoc]
  rw [hsplit] at hwithout
  obtain ⟨k, r, rfl, rfl, hleft⟩ :=
    hwithout.of_first (Pair.not_hasBlock_of_first hx hp) ⟨y, rfl, hlast, hy'⟩
  obtain ⟨rfl, rfl⟩ := hleft.of_not_hasBlock hzblock
  rcases hrest with ⟨hzero, _⟩ | ⟨_, heq⟩
  · cases hzero
  · have hlen := congrArg List.length heq
    have hpos : 0 < beginMarker.length := by decide
    simp only [List.length_append] at hlen
    omega

theorem fit_of_injectsOnce (h : InjectsOnce text) : Fit (normalise text) := by
  by_cases hbegin : beginMarker <:+: normalise text
  · obtain ⟨x, t, hsplit, hx⟩ := exists_first hbegin (by decide)
    by_cases hclosing : closingMarker <:+: t
    · obtain ⟨y, z, rfl, hy⟩ := exists_first hclosing (by decide)
      obtain ⟨hinner, hrest⟩ := fit_of_closed hx hy hsplit h
      refine .inr ⟨x, beginMarker ++ (y ++ closingMarker), z, ?_, ⟨y, rfl, hinner, hy⟩, hx, hrest⟩
      rw [hsplit]
      simp only [List.append_assoc]
    · exact absurd h.idempotent (not_idempotent hx hclosing hsplit)
  · exact .inl hbegin

/-- **The block is put in once, and no line is lost, exactly of scripts whose
first opening marker, if they have one, begins their only block.** -/
theorem injectsOnce_iff (text : List Char) : InjectsOnce text ↔ Fit (normalise text) := by
  refine ⟨fit_of_injectsOnce, fun h => ?_⟩
  rcases h with hbegin | ⟨x, b, z, hsplit, hb, hx, hz⟩
  · exact injectsOnce_of_no_begin hbegin
  · exact injectsOnce_of_block hsplit hb hx hz

/-- A script that has lost the end of its block. -/
theorem not_injectsOnce_begin : ¬ InjectsOnce beginMarker := by
  intro h
  have hsame : normalise beginMarker = beginMarker := normalise_of_not_mem (by decide)
  have hfit := fit_of_injectsOnce h
  rw [hsame] at hfit
  rcases hfit with hbegin | ⟨x, b, z, hsplit, ⟨y, rfl, _, _⟩, _, _⟩
  · exact hbegin (List.infix_refl _)
  · have hlen := congrArg List.length hsplit
    have hpos : 0 < closingMarker.length := by decide
    have hopening : blockPattern.opening.length = beginMarker.length := rfl
    have hclosing : blockPattern.closing.length = closingMarker.length := rfl
    simp only [List.length_append, hopening, hclosing] at hlen
    omega

end

end AbkFido.Bundle
