/-
The signature counter of a credential.

The counter goes up with every assertion and is saved with the store, but an
assertion is answered whether or not the save got through, and a restore or
a reboot goes back to what is on file: a credential that signed since the
file was last written may then sign under the same count again
(`exists_not_increasing`). While no store is read back that has such a
credential in it, every credential's counts increase
(`increasing_of_savedReads`).
-/
import AbkFido.StoreLife
import AbkFido.Lib.Past

namespace AbkFido

structure Counting where
  storage : Storage
  /-- The newest first. -/
  log : List Mark
  /-- What signed since a save last opened the file. -/
  unsaved : List Credential

/-- `c` has signed under the count `n` since it was made. -/
def SignedUnder (c : Credential) (n : UInt32) (log : List Mark) : Prop :=
  Past.Since (fun m _ => m = .signed c n) (fun m => m ≠ .made c) log

/-- A credential signs under a higher count every time. -/
def Increasing (log : List Mark) : Prop :=
  Past.Always (fun m past => ∀ c n, m = .signed c n → ∀ n', SignedUnder c n' past → n' < n) log

/-- The credentials of signatures. -/
def signers (marks : List Mark) : List Credential := marks.filterMap fun
  | .signed c _ => some c
  | _ => none

namespace Counting

def init (file : File) : Counting where
  storage := .boot file
  log := []
  unsaved := []

section
variable (P : Platform)

def after (w : Counting) (a : StoreStep) : Counting where
  storage := a.apply P w.storage
  log := (a.marks w.storage).reverse ++ w.log
  unsaved :=
    if (a.saving w.storage).any fun t => t.1.opens P t.2 then [] else signers (a.marks w.storage) ++ w.unsaved

def step (w : Counting) (a : StoreStep) : Option Counting := some (w.after P a)

/-- No RESET, no store from userspace, and counts that fit the counter. -/
def Counts (w : Counting) (a : StoreStep) : Prop :=
  a.fromUser = false ∧ .wiped ∉ a.marks w.storage ∧
    (a.counts = true → w.storage.store.signCount.toNat + 1 < UInt32.size)

/-- No store is read back with a credential that has signed since the file was last opened. -/
def SavedReads (w : Counting) (a : StoreStep) : Prop :=
  ∀ r, a.readsBack P w.storage = some r → ∀ c ∈ r.1.credentials, c ∉ w.unsaved

end

variable {P : Platform}

/-- The counter of the store, and of any store that can be read with nothing
missing, is past every signature. -/
structure Ahead (w : Counting) : Prop where
  memory : ∀ c ∈ w.storage.store.credentials, ∀ n, SignedUnder c n w.log → n ≤ w.storage.store.signCount
  file : ∀ io r, readStoreFromPathLocked io w.storage.file = .ok r → ∀ c ∈ r.1.credentials, c ∉ w.unsaved →
    ∀ n, SignedUnder c n w.log → n ≤ r.1.signCount
  log : Increasing w.log

theorem Ahead.init (file : File) : (init file).Ahead where
  memory _ _ _ h := h.elim
  file _ _ _ _ _ _ _ h := h.elim
  log := trivial

/-! ## What a step adds to the log -/

@[simp] theorem signedUnder_made {c c' : Credential} {n : UInt32} {log : List Mark} :
    SignedUnder c n (.made c' :: log) ↔ c ≠ c' ∧ SignedUnder c n log := by
  simp [SignedUnder, eq_comm]

@[simp] theorem signedUnder_signed {c c' : Credential} {n n' : UInt32} {log : List Mark} :
    SignedUnder c n (.signed c' n' :: log) ↔ (c' = c ∧ n' = n) ∨ SignedUnder c n log := by
  simp [SignedUnder]

theorem lt_add_one {n : UInt32} (h : n.toNat + 1 < UInt32.size) : n < n + 1 := by
  have hval : (n + 1).toNat = n.toNat + 1 := by
    rw [UInt32.toNat_add]
    exact Nat.mod_eq_of_lt h
  rw [UInt32.lt_iff_toNat_lt, hval]
  exact Nat.lt_succ_self _

/-- The counter never goes down but by a read. -/
theorem le_counted {w : Counting} {a : StoreStep} (h : w.Counts a) :
    w.storage.store.signCount ≤ w.storage.store.signCount + if a.counts then 1 else 0 := by
  cases hcounts : a.counts with
  | false => simp
  | true => exact UInt32.le_of_lt (lt_add_one (h.2.2 hcounts))

theorem Ahead.memory_after {w : Counting} {a : StoreStep} (h : w.Ahead) (hok : w.Counts a) (hreads : w.SavedReads P a) :
    ∀ c ∈ (w.after P a).storage.store.credentials, ∀ n, SignedUnder c n (w.after P a).log →
      n ≤ (w.after P a).storage.store.signCount := by
  intro c hc n hn
  simp only [after] at hc hn ⊢
  rcases StoreStep.credentials_apply hok.1 hc with ⟨hc, _, hcount⟩ | ⟨r, hr, hc, hcount⟩ | hmade
  · have hold : SignedUnder c n w.log → n ≤ (a.apply P w.storage).store.signCount := by
      intro hn
      rw [hcount]
      exact UInt32.le_trans (h.memory c hc n hn) (le_counted hok)
    rcases StoreStep.marks_cases w.storage a with heq | ⟨c', heq⟩ | heq | ⟨hcounts, c', _, heq⟩ <;> rw [heq] at hn
    · exact hold hn
    · exact hold (signedUnder_made.mp hn).2
    · exact absurd (by rw [heq]; simp) hok.2.1
    · rcases signedUnder_signed.mp hn with ⟨_, rfl⟩ | hn
      · rw [hcount, hcounts, if_pos rfl]
        exact UInt32.le_refl _
      · exact hold hn
  · -- What was read back holds no credential with an unsaved signature.
    obtain ⟨io, hread⟩ := StoreStep.read_of_readsBack hr
    rw [StoreStep.marks_of_readsBack hr] at hn
    rw [hcount]
    exact h.file io r hread c hc (hreads r hr c hc) n hn
  · rcases StoreStep.marks_cases w.storage a with heq | ⟨c', heq⟩ | heq | ⟨_, c', _, heq⟩ <;> rw [heq] at hmade hn
    · cases hmade
    · obtain rfl : c = c' := by simpa using hmade
      exact absurd rfl (signedUnder_made.mp hn).1
    · simp at hmade
    · simp at hmade

theorem Ahead.file_after {w : Counting} {a : StoreStep} (h : w.Ahead) (hok : w.Counts a) (hreads : w.SavedReads P a)
    {io : ReadIo} {r : Store × Bool} (hr : readStoreFromPathLocked io (w.after P a).storage.file = .ok r)
    {c : Credential} (hc : c ∈ r.1.credentials) (hunsaved : c ∉ (w.after P a).unsaved) {n : UInt32}
    (hn : SignedUnder c n (w.after P a).log) : n ≤ r.1.signCount := by
  rcases StoreStep.read_apply hr with ⟨hr, hopens⟩ | ⟨_, hst⟩
  · -- The file is as it was.
    simp only [after, hopens, Bool.false_eq_true, if_false, List.mem_append, not_or] at hunsaved hn
    have hold : SignedUnder c n w.log → n ≤ r.1.signCount := fun hn => h.file io r hr c hc hunsaved.2 n hn
    rcases StoreStep.marks_cases w.storage a with heq | ⟨c', heq⟩ | heq | ⟨_, c', _, heq⟩ <;> rw [heq] at hn hunsaved
    · exact hold hn
    · exact hold (signedUnder_made.mp hn).2
    · exact absurd (by rw [heq]; simp) hok.2.1
    · rcases signedUnder_signed.mp hn with ⟨rfl, _⟩ | hn
      · exact absurd (by simp [signers]) hunsaved.1
      · exact hold hn
  · -- The file is what the store was saved as.
    rw [hst] at hc ⊢
    rw [Store.credentials_trim] at hc
    exact h.memory_after hok hreads c hc n hn

theorem Ahead.log_after {w : Counting} {a : StoreStep} (h : w.Ahead) (hok : w.Counts a) :
    Increasing (w.after P a).log := by
  simp only [after]
  rcases StoreStep.marks_cases w.storage a with heq | ⟨c', heq⟩ | heq | ⟨hcounts, c', hc', heq⟩ <;> rw [heq]
  · exact h.log
  · exact ⟨by simp, h.log⟩
  · exact ⟨by simp, h.log⟩
  · refine ⟨fun c n hm n' hn' => ?_, h.log⟩
    cases hm
    exact UInt32.lt_of_le_of_lt (h.memory _ hc' n' hn') (lt_add_one (hok.2.2 hcounts))

/-- **The counts of a credential increase** in every run that reads no store
back with a credential that has signed since the file was last opened. -/
theorem increasing_of_savedReads (P : Platform) (file : File) (steps : List StoreStep) (w : Counting)
    (h : Runs (step P) (fun w a => w.Counts a ∧ w.SavedReads P a) (init file) steps w) : Increasing w.log := by
  refine (h.invariant (I := Ahead) (fun w a w' hI hok hstep => ?_) (.init file)).log
  cases hstep
  exact ⟨hI.memory_after hok.1 hok.2, fun io r hr c hc hunsaved n hn => hI.file_after hok.1 hok.2 hr hc hunsaved hn,
    hI.log_after hok.1⟩

/-- A first use, an assertion, the store restored from the file, and another assertion. -/
def restoredRun (io : WriteIo) : List StoreStep :=
  [.load .ok ⟨zeros 16, zeros 32⟩, .answer firstSlot (some io), .restore true .ok, .answer firstSlot (some io)]

/-- An assertion with a store that was just read. -/
theorem log_answer {w : Counting} {st : Store} (hstore : w.storage.store = st.trim)
    (hused : (st.creds firstSlot).inUse = true) (io : Option WriteIo) :
    (w.after P (.answer firstSlot io)).log = .signed (st.creds firstSlot).trim (st.signCount + 1) :: w.log := by
  have hsig : w.storage.signature firstSlot = [.signed (st.creds firstSlot).trim (st.signCount + 1)] := by
    have hused' : (w.storage.store.creds firstSlot).inUse = true := by
      rw [hstore]
      exact hused
    rw [Storage.signature, if_pos hused', hstore]
    simp [Store.trim]
  simp only [after, StoreStep.marks, hsig]
  rfl

theorem counts_answer {w : Counting} {st : Store} (hstore : w.storage.store = st.trim) (hzero : st.signCount = 0)
    (io : Option WriteIo) : w.Counts (.answer firstSlot io) := by
  refine ⟨rfl, StoreStep.wiped_not_mem_of_counts rfl, fun _ => ?_⟩
  rw [hstore]
  show st.signCount.toNat + 1 < UInt32.size
  rw [hzero]
  decide

/-- The save cannot open the file, so the counter goes back. -/
theorem restoredRun_openError (e : Errno) (st : Store) (hpin : st.pinSet = false)
    (hused : (st.creds firstSlot).inUse = true) (hzero : st.signCount = 0) : ∃ w,
      Runs (step .persistent) Counts (init (some (storeToDisk st))) (restoredRun (.openError e)) w ∧
      w.log = [.signed (st.creds firstSlot).trim (st.signCount + 1),
        .signed (st.creds firstSlot).trim (st.signCount + 1)] := by
  let w₁ := (init (some (storeToDisk st))).after .persistent (.load .ok ⟨zeros 16, zeros 32⟩)
  let w₂ := w₁.after .persistent (.answer firstSlot (some (.openError e)))
  let w₃ := w₂.after .persistent (.restore true .ok)
  have hstore₁ : w₁.storage.store = st.trim := by
    simp only [w₁, after, init, StoreStep.apply, load_saved (P := .persistent) rfl _ hpin]
  have hfile₂ : w₂.storage.file = some (storeToDisk st) := by
    simp [w₂, w₁, after, init, StoreStep.apply, maybePersistLocked, Storage.markDirty, Storage.bumpSignCount,
      Platform.persistent, writeStoreToPathLocked, Storage.boot]
  have hstore₃ : w₃.storage.store = st.trim := by
    simp only [w₃, after, StoreStep.apply, restore_saved hfile₂ hpin]
  refine ⟨_, .cons ⟨rfl, by simp [StoreStep.marks], by simp [StoreStep.counts]⟩ rfl
    (.cons (counts_answer hstore₁ hzero _) rfl (.cons ⟨rfl, by simp [StoreStep.marks], by simp [StoreStep.counts]⟩ rfl
      (.cons (counts_answer hstore₃ hzero _) rfl (.nil _)))), ?_⟩
  rw [log_answer hstore₃ hused]
  show _ :: w₂.log = _
  rw [log_answer hstore₁ hused]
  rfl

/-- The save gets through, and the counter that is read back is the one signed under. -/
theorem restoredRun_stored (st : Store) (hpin : st.pinSet = false) (hzero : st.signCount = 0) : ∃ w,
    Runs (step .persistent) (fun w a => w.Counts a ∧ w.SavedReads .persistent a) (init (some (storeToDisk st)))
      (restoredRun (.stored storeDiskSize none)) w := by
  let w₁ := (init (some (storeToDisk st))).after .persistent (.load .ok ⟨zeros 16, zeros 32⟩)
  let w₂ := w₁.after .persistent (.answer firstSlot (some (.stored storeDiskSize none)))
  let w₃ := w₂.after .persistent (.restore true .ok)
  let saved : Store := { st.trim with signCount := st.signCount + 1 }
  have hstore₁ : w₁.storage.store = st.trim := by
    simp only [w₁, after, init, StoreStep.apply, load_saved (P := .persistent) rfl _ hpin]
  have hfile₂ : w₂.storage.file = some (storeToDisk saved) := by
    simp only [w₂, after, StoreStep.apply]
    rw [persist_file rfl rfl, write_stored_file, List.take_of_length_le (length_storeToDisk _).le]
    simp [Storage.markDirty, Storage.bumpSignCount, hstore₁, saved, Store.trim]
  have hunsaved₂ : w₂.unsaved = [] := by
    simp [w₂, after, StoreStep.saving, Storage.opens, Storage.markDirty, Platform.persistent]
  have hcount₃ : w₃.storage.store.signCount = 1 := by
    have hstore₃ : w₃.storage.store = saved.trim := by
      simp only [w₃, after, StoreStep.apply, restore_saved hfile₂ (show saved.pinSet = false from hpin)]
    rw [hstore₃]
    show st.signCount + 1 = 1
    rw [hzero]
    rfl
  refine ⟨_, .cons ⟨⟨rfl, by simp [StoreStep.marks], by simp [StoreStep.counts]⟩, fun _ _ _ _ h => by cases h⟩ rfl
    (.cons ⟨counts_answer hstore₁ hzero _, fun _ h => by cases h⟩ rfl
      (.cons ⟨⟨rfl, by simp [StoreStep.marks], by simp [StoreStep.counts]⟩, fun _ _ c _ => ?_⟩ rfl
        (.cons ⟨⟨rfl, StoreStep.wiped_not_mem_of_counts rfl, fun _ => ?_⟩, fun _ h => by cases h⟩ rfl (.nil _))))⟩
  · change c ∉ w₂.unsaved
    rw [hunsaved₂]
    exact List.not_mem_nil
  · change w₃.storage.store.signCount.toNat + 1 < UInt32.size
    rw [hcount₃]
    decide

theorem increasing_restoredRun : ∃ w,
    Runs (step .persistent) (fun w a => w.Counts a ∧ w.SavedReads .persistent a) (init (some (storeToDisk keyStore)))
      (restoredRun (.stored storeDiskSize none)) w ∧ Increasing w.log := by
  obtain ⟨w, hw⟩ := restoredRun_stored keyStore rfl rfl
  exact ⟨w, hw, increasing_of_savedReads .persistent _ _ w hw⟩

theorem exists_not_increasing : ∃ file steps w,
    Runs (step .persistent) Counts (init file) steps w ∧ ¬ Increasing w.log := by
  obtain ⟨w, hw, hlog⟩ := restoredRun_openError .eacces keyStore rfl rfl rfl
  refine ⟨_, _, w, hw, fun h => ?_⟩
  rw [hlog] at h
  have hlt := h.1 _ _ rfl _ (signedUnder_signed.mpr (.inl ⟨rfl, rfl⟩))
  exact UInt32.lt_irrefl _ hlt

end Counting

end AbkFido
