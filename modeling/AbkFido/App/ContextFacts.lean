/-
When the prompt shows what will be signed (`shown_iff`).

A value is cut out of the line between two spaces, so no rp id with a space
is ever read; the rest of the line has none besides those the driver prints.
-/
import AbkFido.App.Context

namespace AbkFido

open Utf8

/-! ## Numbers -/

namespace Kotlin

theorem trim_sublist (s : List Char) : (trim s).Sublist s :=
  ((List.rdropWhile_prefix _ _).sublist).trans (List.dropWhile_suffix _).sublist

/-- Nothing is trimmed between two characters that are not whitespace. -/
theorem trim_eq {s : List Char} (hfirst : ∀ c ∈ s.head?, isWhitespace c = false)
    (hlast : ∀ c ∈ s.getLast?, isWhitespace c = false) : trim s = s := by
  have hdrop : s.dropWhile isWhitespace = s := by
    cases s with
    | nil => rfl
    | cons c s => rw [List.dropWhile_cons_of_neg (by rw [hfirst c rfl]; decide)]
  rw [trim, hdrop, List.rdropWhile_eq_self_iff]
  intro hne
  rw [hlast _ (List.getLast?_eq_getLast_of_ne_nil hne ▸ rfl)]
  decide

theorem isWhitespace_of_isDigit {c : Char} (h : c.isDigit = true) : isWhitespace c = false := by
  obtain ⟨hlow, hhigh⟩ : 48 ≤ c.toNat ∧ c.toNat ≤ 57 := Char.isDigit_iff_toNat.mp h
  simp only [isWhitespace, Bool.or_eq_false_iff, Bool.and_eq_false_iff, decide_eq_false_iff_not, beq_eq_false_iff_ne]
  omega

theorem isDigit_toDigits {n : Nat} {c : Char} (h : c ∈ Nat.toDigits 10 n) : c.isDigit = true :=
  Nat.isDigit_of_mem_toDigits (by decide) (by decide) h

/-- Neither a sign nor whitespace. -/
theorem head_toDigits (n : Nat) : ∃ c s, Nat.toDigits 10 n = c :: s ∧ c.isDigit = true := by
  cases hs : Nat.toDigits 10 n with
  | nil => exact absurd hs Nat.toDigits_ne_nil
  | cons c s => exact ⟨c, s, rfl, isDigit_toDigits (hs ▸ List.mem_cons_self)⟩

theorem trim_toDigits (n : Nat) : trim (Nat.toDigits 10 n) = Nat.toDigits 10 n :=
  trim_eq (fun _ hc => isWhitespace_of_isDigit (isDigit_toDigits (List.mem_of_mem_head? hc)))
    fun _ hc => isWhitespace_of_isDigit (isDigit_toDigits (List.mem_of_getLast? hc))

/-- A number the driver prints with `%u` is read as before. -/
theorem toIntOrNull_toDigits (n : Nat) : toIntOrNull (Nat.toDigits 10 n) = AbkFido.toIntOrNull n := by
  obtain ⟨c, s, hs, hc⟩ := head_toDigits n
  have hsign : ∀ d : Char, d.isDigit = false → (Nat.toDigits 10 n).head? ≠ some d := by
    intro d hd heq
    rw [hs, List.head?_cons, Option.some.injEq] at heq
    rw [heq, hd] at hc
    cases hc
  have hall : (Nat.toDigits 10 n).all Char.isDigit = true := List.all_eq_true.mpr fun _ => isDigit_toDigits
  simp only [toIntOrNull, hsign '-' (by decide), hsign '+' (by decide), or_self, if_false, hall, not_true_eq_false,
    Nat.toDigits_ne_nil, Nat.ofDigitChars_toDigits (show 1 < 10 by decide) (show 10 ≤ 10 by decide)]
  rfl

end Kotlin

/-! ## The line -/

theorem text_encode {s : String} (h : s.toList.all (fun c => c.toNat < 128) = true) : text s = encode s.toList := by
  unfold text
  generalize s.toList = cs at h
  induction cs with
  | nil => rfl
  | cons c cs ih =>
    rw [List.all_cons, Bool.and_eq_true, decide_eq_true_eq] at h
    rw [List.map_cons, encode_cons, utf8EncodeChar_ascii h.1, List.singleton_append, ih h.2]

theorem ctapName_ascii (cmd : UInt8) :
    (ctapName cmd).toList.all (fun c => c.toNat < 128) = true ∧ ' ' ∉ (ctapName cmd).toList ∧
      '\r' ∉ (ctapName cmd).toList := by
  unfold ctapName
  split
  · decide
  split
  · decide
  split
  · decide
  split
  · decide
  split
  · decide
  split
  · decide
  · decide

def boolDigits (b : Bool) : List Char := Nat.toDigits 10 b.toNat

namespace Auth

variable (a : Auth) (r : List Char)

/-- The words of the line, if the rp id is this text. -/
def words : List (List Char) :=
  ["req=".toList ++ Nat.toDigits 10 a.requestId.toNat, "pending=".toList ++ boolDigits a.pending,
    "cmd=".toList ++ (ctapName a.pendingCtapCmd).toList, "rp=".toList ++ r, "uv=".toList ++ boolDigits a.pendingUv,
    "rk=".toList ++ boolDigits a.pendingRk]

def line : List Char := [' '].intercalate (a.words r)

variable {a r}

theorem authContextShow_eq (h : encode r = a.shownRpId) : a.authContextShow = encode (a.line r ++ ['\n']) := by
  have hname : text (ctapName a.pendingCtapCmd) = encode (ctapName a.pendingCtapCmd).toList :=
    text_encode (ctapName_ascii _).1
  have hlit : ∀ s ∈ ["req=", " pending=", " cmd=", " rp=", " uv=", " rk=", "\n"], text s = encode s.toList := by
    intro s hs
    refine text_encode ?_
    revert s
    decide
  simp only [List.mem_cons, List.not_mem_nil, or_false, forall_eq_or_imp, forall_eq] at hlit
  obtain ⟨hreq, hpending, hcmd, hrp, huv, hrk, hend⟩ := hlit
  unfold authContextShow printBool printU
  rw [hname, hreq, hpending, hcmd, hrp, huv, hrk, hend, ← h]
  simp only [← encode_append]
  congr 1
  simp [line, words, boolDigits, List.intercalate]

/-- A word that does not hold what the rp id holds does not hold it either. -/
theorem not_mem_words {d : Char} (hd : d = ' ' ∨ d = '\r') (hr : d ∉ r) : ∀ w ∈ a.words r, d ∉ w := by
  have hdigits : ∀ n, d ∉ Nat.toDigits 10 n := by
    intro n hmem
    have hdigit := Kotlin.isDigit_toDigits hmem
    rcases hd with rfl | rfl
    · revert hdigit
      decide
    · revert hdigit
      decide
  have hname : d ∉ (ctapName a.pendingCtapCmd).toList := by
    obtain ⟨-, hspace, hreturn⟩ := ctapName_ascii a.pendingCtapCmd
    rcases hd with rfl | rfl
    · exact hspace
    · exact hreturn
  have hkey : ∀ s ∈ ["req=", "pending=", "cmd=", "rp=", "uv=", "rk="], d ∉ s.toList := by
    rcases hd with rfl | rfl
    · decide
    · decide
  simp only [List.mem_cons, List.not_mem_nil, or_false, forall_eq_or_imp, forall_eq] at hkey
  obtain ⟨hreq, hpending, hcmd, hrp, huv, hrk⟩ := hkey
  simp only [words, boolDigits, List.mem_cons, List.not_mem_nil, or_false, forall_eq_or_imp, forall_eq, List.mem_append, not_or]
  exact ⟨⟨hreq, hdigits _⟩, ⟨hpending, hdigits _⟩, ⟨hcmd, hname⟩, ⟨hrp, hr⟩, ⟨huv, hdigits _⟩, hrk, hdigits _⟩

theorem splitOn_line (hr : ' ' ∉ r) : (a.line r).splitOn ' ' = a.words r :=
  List.splitOn_intercalate ' ' (not_mem_words (.inl rfl) hr) (List.cons_ne_nil _ _)

theorem mem_intercalate {c sep : Char} {ws : List (List Char)} (h : c ∈ [sep].intercalate ws) : c = sep ∨ ∃ w ∈ ws, c ∈ w := by
  induction ws with
  | nil => cases h
  | cons w ws ih =>
    cases ws with
    | nil =>
      rw [List.intercalate_singleton] at h
      exact .inr ⟨w, List.mem_cons_self, h⟩
    | cons w' ws =>
      rw [List.intercalate_cons_cons, List.mem_append, List.mem_append, List.mem_singleton] at h
      rcases h with (h | h) | h
      · exact .inr ⟨w, List.mem_cons_self, h⟩
      · exact .inl h
      · exact (ih h).imp_right fun ⟨v, hv, hc⟩ => ⟨v, List.mem_cons_of_mem _ hv, hc⟩

theorem not_mem_line (hr : '\r' ∉ r) : '\r' ∉ a.line r := by
  intro hmem
  rcases mem_intercalate hmem with heq | ⟨w, hw, hc⟩
  · revert heq
    decide
  · exact not_mem_words (.inr rfl) hr w hw hc

theorem trim_line : Kotlin.trim (a.line r) = a.line r := by
  refine Kotlin.trim_eq ?_ ?_
  · intro c hc
    have hfirst : (a.line r).head? = some 'r' := rfl
    rw [hfirst] at hc
    cases hc
    rfl
  · intro c hc
    have hlast : ∃ pre, a.line r = pre ++ boolDigits a.pendingRk := ⟨_, by
      simp only [line, words, List.intercalate_cons_cons, List.intercalate_singleton, ← List.append_assoc]
      rfl⟩
    obtain ⟨pre, hpre⟩ := hlast
    have hne : boolDigits a.pendingRk ≠ [] := Nat.toDigits_ne_nil
    rw [hpre, List.getLast?_append_of_ne_nil _ hne] at hc
    exact Kotlin.isWhitespace_of_isDigit (Kotlin.isDigit_toDigits (List.mem_of_getLast? hc))

theorem pairOf_word {key value : List Char} (hkey : '=' ∉ key) (hne : key ≠ []) :
    pairOf (key ++ '=' :: value) = some (key, value) := by
  have hhead : (key ++ '=' :: value).head? ≠ some '=' := by
    cases key with
    | nil => exact absurd rfl hne
    | cons c key =>
      rw [List.cons_append, List.head?_cons]
      rintro ⟨⟩
      exact hkey List.mem_cons_self
  have hall : ∀ c ∈ key, (c != '=') = true := fun c hc => bne_iff_ne.mpr fun heq => hkey (heq ▸ hc)
  have hmem : ¬ ('=' ∉ key ++ '=' :: value ∨ (key ++ '=' :: value).head? = some '=') := by
    rw [not_or, not_not]
    exact ⟨List.mem_append_right _ List.mem_cons_self, hhead⟩
  rw [pairOf, if_neg hmem, List.takeWhile_append_of_pos hall, List.dropWhile_append_of_pos hall]
  simp

/-- The pairs of the line. -/
theorem pairsOf_line (hr : ' ' ∉ r) : pairsOf (a.line r) =
    [("req".toList, Nat.toDigits 10 a.requestId.toNat), ("pending".toList, boolDigits a.pending),
      ("cmd".toList, (ctapName a.pendingCtapCmd).toList), ("rp".toList, r), ("uv".toList, boolDigits a.pendingUv),
      ("rk".toList, boolDigits a.pendingRk)] := by
  have hkeys : ∀ key ∈ ["req", "pending", "cmd", "rp", "uv", "rk"], '=' ∉ key.toList ∧ key.toList ≠ [] := by decide
  have hword : ∀ key ∈ ["req", "pending", "cmd", "rp", "uv", "rk"], ∀ value,
      pairOf (key.toList ++ '=' :: value) = some (key.toList, value) :=
    fun key hkey value => pairOf_word (hkeys key hkey).1 (hkeys key hkey).2
  simp only [List.mem_cons, List.not_mem_nil, or_false, forall_eq_or_imp, forall_eq] at hword
  obtain ⟨hreq, hpending, hcmd, hrp, huv, hrk⟩ := hword
  have hwords : a.words r = ["req".toList ++ '=' :: Nat.toDigits 10 a.requestId.toNat,
      "pending".toList ++ '=' :: boolDigits a.pending, "cmd".toList ++ '=' :: (ctapName a.pendingCtapCmd).toList,
      "rp".toList ++ '=' :: r, "uv".toList ++ '=' :: boolDigits a.pendingUv,
      "rk".toList ++ '=' :: boolDigits a.pendingRk] := rfl
  rw [pairsOf, splitOn_line hr, hwords]
  simp only [List.filterMap_cons, List.filterMap_nil, hreq, hpending, hcmd, hrp, huv, hrk]

/-! ## What is read -/

/-- The first two reads. -/
theorem read_eq (T : TextReader) {a b c : Auth} (hpending : a.pending = true) :
    T.readPendingAuthRequest a b c = (AbkFido.toIntOrNull b.requestId.toNat).map fun requestId =>
      { requestId := requestId
        command := (valueOf (pairsOf (Kotlin.trim (T.stdout c.authContextShow))) "cmd").getD []
        rpId := (valueOf (pairsOf (Kotlin.trim (T.stdout c.authContextShow))) "rp").getD []
        uv := valueOf (pairsOf (Kotlin.trim (T.stdout c.authContextShow))) "uv" == some ['1']
        rk := valueOf (pairsOf (Kotlin.trim (T.stdout c.authContextShow))) "rk" == some ['1'] } := by
  have hnumber : ∀ n, Kotlin.trim (T.stdout (printU n ++ text "\n")) = Nat.toDigits 10 n := by
    intro n
    have hreturn : '\r' ∉ Nat.toDigits 10 n := fun hmem => absurd (Kotlin.isDigit_toDigits hmem) (by decide)
    have hend : text "\n" = encode ['\n'] := rfl
    rw [printU, hend, ← encode_append, T.plain _ hreturn, Kotlin.trim_toDigits]
  have hone : Kotlin.trim (T.stdout a.authPendingShow) = ['1'] := by
    rw [authPendingShow, printBool, hnumber, hpending]
    rfl
  have hid : Kotlin.toIntOrNull (Kotlin.trim (T.stdout b.authRequestIdShow)) = AbkFido.toIntOrNull b.requestId.toNat := by
    rw [authRequestIdShow, hnumber, Kotlin.toIntOrNull_toDigits]
  simp only [TextReader.readPendingAuthRequest, AbkFido.readPendingAuthRequest, Option.bind_eq_bind, Option.bind_some, hone,
    ne_eq, not_true_eq_false, if_false, hid]
  cases AbkFido.toIntOrNull b.requestId.toNat with
  | none => rfl
  | some n => rfl

/-- A word between two spaces. -/
theorem mem_splitOn {sep : Char} {s : List Char} : ∀ w ∈ s.splitOn sep, sep ∉ w ∧ w ⊆ s := by
  induction s with
  | nil =>
    intro w hw
    rw [List.splitOn_nil, List.mem_singleton] at hw
    subst hw
    exact ⟨List.not_mem_nil, List.Subset.refl _⟩
  | cons c s ih =>
    intro w hw
    rw [List.splitOn_cons_eq_if_modifyHead] at hw
    split at hw
    · rcases List.mem_cons.mp hw with rfl | hw
      · exact ⟨List.not_mem_nil, List.nil_subset _⟩
      · exact ⟨(ih w hw).1, List.subset_cons_of_subset _ (ih w hw).2⟩
    · next hne =>
      have hc : sep ≠ c := fun heq => hne (by rw [heq, beq_self_eq_true])
      cases hs : s.splitOn sep with
      | nil => exact absurd hs (List.splitOn_ne_nil sep s)
      | cons w' ws =>
        rw [hs, List.modifyHead_cons] at hw
        rcases List.mem_cons.mp hw with rfl | hw
        · obtain ⟨hnot, hsub⟩ := ih w' (hs ▸ List.mem_cons_self)
          exact ⟨List.not_mem_cons_of_ne_of_not_mem hc hnot, List.cons_subset_cons _ hsub⟩
        · obtain ⟨hnot, hsub⟩ := ih w (hs ▸ List.mem_cons_of_mem _ hw)
          exact ⟨hnot, List.subset_cons_of_subset _ hsub⟩

/-- No value that is read has a space, or a character the line has not. -/
theorem mem_value {raw : List Char} {key : String} {c : Char} (h : c ∈ (valueOf (pairsOf raw) key).getD []) :
    c ≠ ' ' ∧ c ∈ raw := by
  cases hvalue : valueOf (pairsOf raw) key with
  | none =>
    rw [hvalue] at h
    cases h
  | some v =>
    rw [hvalue, Option.getD_some] at h
    obtain ⟨pair, hfind, rfl⟩ := Option.map_eq_some_iff.mp hvalue
    have hpair : pair ∈ pairsOf raw := List.mem_reverse.mp (List.mem_of_find?_eq_some hfind)
    obtain ⟨w, hw, hpairOf⟩ := List.mem_filterMap.mp hpair
    obtain ⟨hspace, hsub⟩ := mem_splitOn w hw
    unfold pairOf at hpairOf
    split at hpairOf
    · cases hpairOf
    · cases hpairOf
      have hc : c ∈ w := (List.dropWhile_suffix _).subset (List.mem_of_mem_tail h)
      exact ⟨fun heq => hspace (heq ▸ hc), hsub hc⟩

/-- The same request is on record. -/
structure SameRequest (a b : Auth) : Prop where
  requestId : b.requestId = a.requestId
  pendingCtapCmd : b.pendingCtapCmd = a.pendingCtapCmd
  pendingUv : b.pendingUv = a.pendingUv
  pendingRk : b.pendingRk = a.pendingRk
  pendingRpId : b.pendingRpId = a.pendingRpId

theorem SameRequest.refl (a : Auth) : a.SameRequest a := ⟨rfl, rfl, rfl, rfl, rfl⟩

theorem SameRequest.trans {a b c : Auth} (h : a.SameRequest b) (h' : b.SameRequest c) : a.SameRequest c :=
  ⟨h'.1.trans h.1, h'.2.trans h.2, h'.3.trans h.3, h'.4.trans h.4, h'.5.trans h.5⟩

variable {T : TextReader} {a b c : Auth}

/-- A plain rp id is read as it is. -/
theorem Plain.reads (hplain : a.Plain) (hpending : a.pending = true) (hb : a.SameRequest b) (hc : a.SameRequest c) :
    ∃ p, T.readPendingAuthRequest a b c = some p ∧ p.Carries a := by
  obtain ⟨r, hr⟩ := hplain.text
  have hspace : ' ' ∉ r := fun hmem => hplain.space (hr ▸ (mem_encode (by decide)).mpr hmem)
  have hreturn : '\r' ∉ r := fun hmem => hplain.carriageReturn (hr ▸ (mem_encode (by decide)).mpr hmem)
  have hshown : encode r = c.shownRpId := by rw [shownRpId, hc.pendingRpId, hr, shownRpId]
  have hline : Kotlin.trim (T.stdout c.authContextShow) = c.line r := by
    rw [authContextShow_eq hshown, T.plain _ (not_mem_line hreturn), trim_line]
  have hid : AbkFido.toIntOrNull b.requestId.toNat = some (a.requestId.toNat : Int) := by
    rw [hb.requestId]
    exact if_pos hplain.requestId
  rw [read_eq T hpending, hline, pairsOf_line hspace, hid]
  have hdigit : ∀ flag : Bool, (some (boolDigits flag) == some ['1']) = flag := by decide
  refine ⟨_, rfl, rfl, ?_, hr, ?_, ?_⟩
  · show encode (ctapName c.pendingCtapCmd).toList = AbkFido.text (ctapName a.pendingCtapCmd)
    rw [hc.pendingCtapCmd, text_encode (ctapName_ascii _).1]
  · show (some (boolDigits c.pendingUv) == some ['1']) = a.pendingUv
    rw [hdigit, hc.pendingUv]
  · show (some (boolDigits c.pendingRk) == some ['1']) = a.pendingRk
    rw [hdigit, hc.pendingRk]

/-- What is read without a difference is a plain rp id. -/
theorem plain_of_carries {p : PendingAuthRequest} (hpending : a.pending = true) (hb : a.SameRequest b)
    (hread : T.readPendingAuthRequest a b c = some p) (hp : p.Carries a) : a.Plain := by
  rw [read_eq T hpending] at hread
  obtain ⟨n, hn, rfl⟩ := Option.map_eq_some_iff.mp hread
  have hrp := hp.rpId
  have hchars := fun d (hd : d ∈ (valueOf (pairsOf (Kotlin.trim (T.stdout c.authContextShow))) "rp").getD []) => mem_value hd
  simp only at hrp
  refine ⟨?_, ⟨_, hrp⟩, ?_, ?_⟩
  · rw [hb.requestId] at hn
    unfold AbkFido.toIntOrNull at hn
    split at hn
    · next hlt => exact hlt
    · cases hn
  · intro hmem
    rw [← hrp] at hmem
    exact (hchars ' ' ((mem_encode (by decide)).mp hmem)).1 rfl
  · intro hmem
    rw [← hrp] at hmem
    exact T.lines _ ((Kotlin.trim_sublist _).subset (hchars '\r' ((mem_encode (by decide)).mp hmem)).2)

end Auth

/-! ## While no prompt is opened -/

namespace Device

variable {P : Platform} {d d' : Device} {a : Action}

/-- The step opens a prompt. -/
def OpensPrompt (P : Platform) (d : Device) (a : Action) : Prop := ∃ t io, a = .enter t io ∧ d.reply P a = none

theorem authEnd_sameRequest (now : UInt64) (timedOut : Bool) (a : Auth) :
    a.SameRequest (authEndLocked P now (.ofTimeout timedOut) a).2 := by
  cases timedOut with
  | true => exact ⟨rfl, rfl, rfl, rfl, rfl⟩
  | false =>
    cases hallowed : a.allowed with
    | true => simpa [authEndLocked, WaitRet.ofTimeout, hallowed] using ⟨rfl, rfl, rfl, rfl, rfl⟩
    | false => simpa [authEndLocked, WaitRet.ofTimeout, hallowed, authStartCooldownLocked] using ⟨rfl, rfl, rfl, rfl, rfl⟩

/-- The record of the request is not touched. -/
theorem sameRequest_step (hok : ¬ d.OpensPrompt P a) (h : d.step P a = some d') : d.auth.SameRequest d'.auth := by
  cases a with
  | tick | blobRead | blobWrite | restore | persist | pinReset =>
    cases h
    exact .refl _
  | receive t msg allocOk =>
    simp only [step] at h
    split at h
    · split at h <;> cases h
      · exact .refl _
      · exact .refl _
      · exact .refl _
    · cases h
  | enter t io =>
    simp only [step] at h
    split at h <;> cases h
    next cmd hw =>
      rcases enter_reply (P := P) hw io with ⟨_, c, _, _, heq⟩ | ⟨ask, rest, c, _, hcases⟩
      · rw [heq]
        exact .refl _
      rcases hcases with ⟨_, _, heq⟩ | ⟨_, _, heq⟩ | ⟨_, hreply, _⟩
      · rw [heq]
        exact .refl _
      · rw [heq, conclude_eq]
        exact ⟨rfl, rfl, rfl, rfl, rfl⟩
      · exact absurd ⟨t, io, rfl, hreply⟩ hok
  | wake t | expire t =>
    simp only [step] at h
    split at h
    · split at h <;> cases h
      exact .refl _
    · cases h
  | resume t io =>
    simp only [step] at h
    split at h <;> cases h
    next r first timedOut rest hw =>
      obtain ⟨a, ha, hcases⟩ := resume_cases (P := P) t io r first timedOut rest d
      have hsame := authEnd_sameRequest (P := P) d.jiffies timedOut d.auth
      rw [ha] at hsame
      rcases hcases with ⟨_, heq⟩ | ⟨_, heq⟩
      · rw [heq, conclude_eq]
        exact hsame
      · rw [heq]
        exact hsame
  | decide allow id =>
    cases h
    rcases authDecide_cases allow id d with ⟨_, heq⟩ | ⟨_, heq⟩
    · rw [heq]
      exact .refl _
    · rw [heq]
      exact ⟨rfl, rfl, rfl, rfl, rfl⟩

theorem sameRequest_run {as : List Action} (h : Runs (step P) (fun d a => ¬ d.OpensPrompt P a) d as d') :
    d.auth.SameRequest d'.auth :=
  h.invariant (I := fun t => d.auth.SameRequest t.auth) (fun _ _ _ hd hok hstep => hd.trans (sameRequest_step hok hstep))
    (.refl _)

/-- **The prompt shows what will be signed exactly if the request is plain**,
whatever happens between the three reads, as long as no other request starts. -/
theorem shown_iff (T : TextReader) {d₁ d₂ d₃ : Device} {as bs : List Action} (hpending : d₁.auth.pending = true)
    (h₂ : Runs (step P) (fun d a => ¬ d.OpensPrompt P a) d₁ as d₂)
    (h₃ : Runs (step P) (fun d a => ¬ d.OpensPrompt P a) d₂ bs d₃) :
    (∃ p, T.readPendingAuthRequest d₁.auth d₂.auth d₃.auth = some p ∧ p.Carries d₁.auth) ↔ d₁.auth.Plain := by
  have hb := sameRequest_run h₂
  have hc := hb.trans (sameRequest_run h₃)
  exact ⟨fun ⟨_, hread, hp⟩ => Auth.plain_of_carries hpending hb hread hp, fun hplain => hplain.reads hpending hb hc⟩

end Device

/-! ## A reader -/

/-- `\n`, `\r` and the two together each end a line. -/
def joinLines : List Char → List Char
  | [] => []
  | '\r' :: '\n' :: s => '\n' :: joinLines s
  | c :: s => (if c = '\r' then '\n' else c) :: joinLines s

theorem not_mem_joinLines (s : List Char) : '\r' ∉ joinLines s := by
  fun_induction joinLines s with
  | case1 => exact List.not_mem_nil
  | case2 s ih => exact List.not_mem_cons_of_ne_of_not_mem (by decide) ih
  | case3 c s hne ih =>
    refine List.not_mem_cons_of_ne_of_not_mem ?_ ih
    split
    · decide
    · next hc => exact fun heq => hc heq.symm

theorem joinLines_eq {s : List Char} (h : '\r' ∉ s) : joinLines s = s := by
  fun_induction joinLines s with
  | case1 => rfl
  | case2 s => exact absurd List.mem_cons_self h
  | case3 c s hne ih =>
    have hc : c ≠ '\r' := fun heq => h (heq ▸ List.mem_cons_self)
    rw [if_neg hc, ih fun hmem => h (List.mem_cons_of_mem _ hmem)]

/-- libsu, as it reads lines. -/
def lineReader : TextReader where
  stdout bytes :=
    let s := joinLines (decode bytes)
    if s.getLast? = some '\n' then s.dropLast else s
  plain s hs := by
    have hline : joinLines (decode (encode (s ++ ['\n']))) = s ++ ['\n'] := by
      rw [decode_encode, joinLines_eq]
      simpa using hs
    simp only [hline, List.getLast?_concat, if_true, List.dropLast_concat]
  lines bytes := by
    simp only
    split
    · exact fun hmem => not_mem_joinLines _ (List.dropLast_subset _ hmem)
    · exact not_mem_joinLines _

/-- `authenticatorMakeCredential` for an rp id of fewer than 24 bytes. -/
def makeCredentialFor (rpId : List UInt8) : List UInt8 :=
  [0x01, 0xa3, 0x01, 0x58, 0x20] ++ List.replicate 32 0 ++ [0x02, 0xa1, 0x62, 0x69, 0x64, 0x60 + .ofNat rpId.length] ++
    rpId ++ [0x03, 0xa1, 0x62, 0x69, 0x64, 0x41, 0x01]

/-- The request arrives and a prompt is opened. -/
def promptRun (rpId : List UInt8) : List Action := [.receive .usb (makeCredentialFor rpId) true, .enter .usb .plain]

/-- Any command may arrive and any answer be given, but no worker takes the lock. -/
def Device.noEntry : Device → Action → Bool
  | _, .enter .. => false
  | _, _ => true

theorem Device.not_opensPrompt_of_noEntry {P : Platform} (d : Device) (a : Action) (h : d.noEntry a = true) :
    ¬ d.OpensPrompt P a := by
  rintro ⟨t, io, rfl, _⟩
  cases h

/-- A second command comes between the first two reads, the answer between the last two. -/
theorem Device.read_promptRun : ∃ d₁ d₂ d₃ p,
    Runs (step .volatile) (fun _ _ => True) (boot none 0) (promptRun (text "a")) d₁ ∧
    Runs (step .volatile) (fun d a => ¬ d.OpensPrompt .volatile a) d₁ [.tick 100, .receive .ctap [ctapGetInfo] true] d₂ ∧
    Runs (step .volatile) (fun d a => ¬ d.OpensPrompt .volatile a) d₂ [.decide true (some 1), .wake .usb] d₃ ∧
    lineReader.readPendingAuthRequest d₁.auth d₂.auth d₃.auth = some p ∧ p.Carries d₁.auth := by
  have h : ((Runs.exec (step .volatile) (fun _ _ => true) (boot none 0) (promptRun (text "a"))).bind fun d₁ =>
      (Runs.exec (step .volatile) noEntry d₁ [.tick 100, .receive .ctap [ctapGetInfo] true]).bind fun d₂ =>
      (Runs.exec (step .volatile) noEntry d₂ [.decide true (some 1), .wake .usb]).map fun _ =>
        (d₁.auth.pending, d₁.auth.requestId, d₁.auth.shownRpId)) = some (true, 1, text "a") := by decide +kernel
  obtain ⟨d₁, h₁, h⟩ := Option.bind_eq_some_iff.mp h
  obtain ⟨d₂, h₂, h⟩ := Option.bind_eq_some_iff.mp h
  obtain ⟨d₃, h₃, hauth⟩ := Option.map_eq_some_iff.mp h
  simp only [Prod.mk.injEq] at hauth
  obtain ⟨hpending, hid, hrp⟩ := hauth
  have hfirst := Runs.of_exec (not_opensPrompt_of_noEntry (P := .volatile)) h₂
  have hsecond := Runs.of_exec (not_opensPrompt_of_noEntry (P := .volatile)) h₃
  have hplain : d₁.auth.Plain := ⟨by rw [hid]; decide, by rw [hrp]; decide, by rw [hrp]; decide, by rw [hrp]; decide⟩
  obtain ⟨p, hread, hp⟩ := (shown_iff lineReader hpending hfirst hsecond).mpr hplain
  exact ⟨d₁, d₂, d₃, p, Runs.of_exec (fun _ _ _ => trivial) h₁, hfirst, hsecond, hread, hp⟩

/-- The rp id names the relying party that is shown, after a space. -/
theorem Device.exists_other_shown : ∃ d p,
    Runs (step .volatile) (fun _ _ => True) (boot none 0) (promptRun (text "a.example rp=b")) d ∧
      lineReader.readPendingAuthRequest d.auth d.auth d.auth = some p ∧ p.rpId = "b".toList ∧
      d.auth.shownRpId = text "a.example rp=b" ∧ ¬ p.Carries d.auth := by
  have h : (Runs.exec (step .volatile) (fun _ _ => true) (boot none 0) (promptRun (text "a.example rp=b"))).map
      (fun d => (lineReader.readPendingAuthRequest d.auth d.auth d.auth, d.auth.shownRpId)) =
      some (some ⟨1, "makeCredential".toList, "b".toList, false, false⟩, text "a.example rp=b") := by decide +kernel
  obtain ⟨d, hd, hread⟩ := Option.map_eq_some_iff.mp h
  simp only [Prod.mk.injEq] at hread
  obtain ⟨hread, hrp⟩ := hread
  refine ⟨d, _, Runs.of_exec (fun _ _ _ => trivial) hd, hread, rfl, hrp, fun hp => ?_⟩
  have hsame := hp.rpId
  rw [hrp] at hsame
  revert hsame
  decide

end AbkFido
