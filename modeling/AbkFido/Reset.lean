/-
What a RESET was to remove, and how it comes back.

RESET wipes the store in memory and answers that it has succeeded whether or
not the wiped store reached the file. While the file has not been opened for
writing since, it still holds what was on it (`stale`), and a first use or a
restore that reads it puts the credentials back (`exists_not_permanent`).
As long as no step reads a stale file they stay gone
(`permanent_of_freshReads`).
-/
import AbkFido.StoreLife

namespace AbkFido

structure Wiping where
  storage : Storage
  /-- Every credential that was on file at the start or in use since. -/
  known : List Credential
  /-- What existed at a RESET and has not been made since. -/
  gone : List Credential
  /-- Since the last RESET began no save has opened the file. -/
  stale : Bool

namespace Wiping

def init (file : File) : Wiping where
  storage := .boot file
  known := file.credentials
  gone := []
  stale := false

section
variable (P : Platform)

def after (w : Wiping) (a : StoreStep) : Wiping where
  storage := a.apply P w.storage
  known := w.known ++ (a.apply P w.storage).store.credentials
  gone :=
    if .wiped ∈ a.marks w.storage then w.known
    else w.gone.filter fun c => .made c ∉ a.marks w.storage
  stale := (w.stale || decide (.wiped ∈ a.marks w.storage)) && !(a.saving w.storage).any fun t => t.1.opens P t.2

def step (w : Wiping) (a : StoreStep) : Option Wiping := some (w.after P a)

/-- Userspace writes no blob, and no store is read from a stale file. -/
def FreshReads (w : Wiping) (a : StoreStep) : Prop :=
  a.fromUser = false ∧ (w.stale = true → a.readsBack P w.storage = none)

end

/-- Nothing that a RESET was to remove is in use. -/
def Permanent (w : Wiping) : Prop := ∀ c ∈ w.storage.store.credentials, c ∉ w.gone

variable {P : Platform}

/-- Nor can it be read from a file that is not stale. -/
structure Safe (w : Wiping) : Prop where
  memory : w.Permanent
  file : w.stale = false → ∀ io r, readStoreFromPathLocked io w.storage.file = .ok r → ∀ c ∈ r.1.credentials, c ∉ w.gone

theorem Safe.init (file : File) : (init file).Safe where
  memory c hc := by cases hc
  file _ _ _ _ _ _ := by simp [Wiping.init]

/-- Without a RESET less is gone after a step than before. -/
theorem not_gone_after {w : Wiping} {a : StoreStep} {c : Credential} (ha : .wiped ∉ a.marks w.storage)
    (hc : c ∉ w.gone) : c ∉ (w.after P a).gone := by
  rw [after, if_neg ha, List.mem_filter]
  exact fun h => hc h.1

theorem Safe.memory_after {w : Wiping} {a : StoreStep} (h : w.Safe) (hok : w.FreshReads P a) :
    (w.after P a).Permanent := by
  intro c hc
  rcases StoreStep.credentials_apply hok.1 hc with ⟨hc, hwiped, _⟩ | ⟨r, hr, hc, _⟩ | hmade
  · exact not_gone_after hwiped (h.memory c hc)
  · obtain ⟨io, hread⟩ := StoreStep.read_of_readsBack hr
    have hstale : w.stale = false := by
      by_contra hstale
      rw [hok.2 (by simpa using hstale)] at hr
      cases hr
    exact not_gone_after (by simp [StoreStep.marks_of_readsBack hr]) (h.file hstale io r hread c hc)
  · rw [Wiping.after, if_neg (StoreStep.wiped_not_mem_of_made hmade), List.mem_filter]
    intro hgone
    exact of_decide_eq_true hgone.2 hmade

theorem Safe.after {w : Wiping} {a : StoreStep} (h : w.Safe) (hok : w.FreshReads P a) : (w.after P a).Safe := by
  have hmem := h.memory_after hok
  refine ⟨hmem, fun hstale io r hr c hc => ?_⟩
  rcases StoreStep.read_apply hr with ⟨hr, hopens⟩ | ⟨_, hst⟩
  · -- The file is as it was, and was not stale.
    rw [Wiping.after, hopens, Bool.not_false, Bool.and_true, Bool.or_eq_false_iff, decide_eq_false_iff_not] at hstale
    exact not_gone_after hstale.2 (h.file hstale.1 io r hr c hc)
  · -- The file is what the store was saved as.
    rw [hst, Store.credentials_trim] at hc
    exact hmem c hc

/-- **RESET is permanent** as long as no store is read from a file that no
save has opened since. -/
theorem permanent_of_freshReads (P : Platform) (file : File) (steps : List StoreStep) (w : Wiping)
    (h : Runs (step P) (FreshReads P) (init file) steps w) : w.Permanent := by
  refine (h.invariant (I := Safe) (fun w a w' hI hok hstep => ?_) (.init file)).memory
  cases hstep
  exact hI.after hok

/-- A RESET on the file of a store with one credential, and a first use after it. -/
def resetRun (io : WriteIo) : List StoreStep := [.reset ⟨zeros 16, zeros 32⟩ (some io), .load .ok ⟨zeros 16, zeros 32⟩]

theorem after_reset_gone (w : Wiping) (ids : FreshIds) (io : Option WriteIo) :
    (w.after P (.reset ids io)).gone = w.known := by
  simp [Wiping.after, StoreStep.marks]

theorem after_load_gone (w : Wiping) (io : ReadIo) (ids : FreshIds) : (w.after P (.load io ids)).gone = w.gone := by
  simp [Wiping.after, StoreStep.marks]

theorem resetRun_gone (P : Platform) (st : Store) (io : WriteIo) :
    (((init (some (storeToDisk st))).after P (.reset ⟨zeros 16, zeros 32⟩ (some io))).after P
      (.load .ok ⟨zeros 16, zeros 32⟩)).gone = st.credentials := by
  rw [after_load_gone, after_reset_gone, init, File.credentials_of_store? (store?_storeToDisk st),
    Store.credentials_trim]

theorem permanent_resetRun : ∃ w, Runs (step .persistent) (FreshReads .persistent)
    (init (some (storeToDisk keyStore))) (resetRun (.stored storeDiskSize none)) w ∧
      (keyOf 1).trim ∈ w.gone ∧ w.Permanent := by
  have hrun : ∃ w, Runs (step .persistent) (FreshReads .persistent)
      (init (some (storeToDisk keyStore))) (resetRun (.stored storeDiskSize none)) w ∧ (keyOf 1).trim ∈ w.gone := by
    refine ⟨_, .cons ⟨rfl, fun h => by cases h⟩ rfl (.cons ⟨rfl, fun h => ?_⟩ rfl (.nil _)), ?_⟩
    · simp [Wiping.after, StoreStep.saving, Storage.opens, Storage.wipe, initNewStoreLocked, Platform.persistent] at h
    · rw [resetRun_gone]
      decide +kernel
  obtain ⟨w, hw, hgone⟩ := hrun
  exact ⟨w, hw, hgone, permanent_of_freshReads .persistent _ _ w hw⟩

/-- A save that cannot open the file leaves it as it is. -/
theorem file_reset_openError (s : Storage) (ids : FreshIds) (e : Errno) :
    ((StoreStep.reset ids (some (.openError e))).apply P s).file = s.file := by
  rcases persist_file_opens (P := P) (some (.openError e)) (s.wipe ids) with ⟨_, hfile⟩ | ⟨hopens, _⟩
  · exact hfile
  · simp [Storage.opens] at hopens

/-- RESET is the first command after the boot, its save cannot open the
file, and the next use of the store brings the credential back. -/
theorem exists_not_permanent : ∃ file steps w,
    Runs (step .persistent) (fun _ a => a.fromUser = false) (init file) steps w ∧ ¬ w.Permanent := by
  refine ⟨some (storeToDisk keyStore), resetRun (.openError .eacces), _, .cons rfl rfl (.cons rfl rfl (.nil _)),
    fun h => ?_⟩
  have hload : ∀ s : Storage, s.storeLoaded = false → s.file = some (storeToDisk keyStore) →
      (loadStoreLocked .persistent .ok ⟨zeros 16, zeros 32⟩ s).store.credentials = keyStore.credentials := by
    intro s hl hf
    have hread : readStoreFromPathLocked .ok s.file = .ok (keyStore.trim, false) := by rw [hf, read_saved_whole]
    rw [load_credentials hl rfl hread, Store.credentials_trim]
  have hmem : (keyOf 1).trim ∈ keyStore.credentials := by decide +kernel
  refine h (keyOf 1).trim ?_ (by rw [resetRun_gone]; exact hmem)
  have hback := hload ((StoreStep.reset ⟨zeros 16, zeros 32⟩ (some (.openError .eacces))).apply .persistent
    (.boot (some (storeToDisk keyStore)))) rfl (file_reset_openError ..)
  simp only [Wiping.after, StoreStep.apply] at hback ⊢
  rw [init, hback]
  exact hmem

end Wiping

end AbkFido
