/-
What becomes of the credentials on file over the life of a device: boots,
first-use loads that may fail, commands, saves that may stop anywhere.

`Life` follows the store through any sequence of operations, and carries for
its theorems what was on file (`kept`) and whether the store in memory goes
back to it (`backed`). A load that fails starts the driver on a new store,
and nothing keeps the next save from putting that in the file's place
(`exists_not_survives`); while no store that is not backed is saved whole
over credentials, they stay (`survives_of_backedSaves`). The steps of a
device are such operations (`Device.life_of_runs`), and wipe the store only
where a RESET is logged.
-/
import AbkFido.PersistFacts
import AbkFido.DeviceFacts
import AbkFido.CommandFacts

namespace AbkFido

/-- The credentials in use, as a blob holds them. -/
def Store.credentials (st : Store) : List Credential := st.used.map st.trim.creds

/-- The credentials of a file the loader accepts. -/
def File.credentials (file : File) : List Credential := (file.store?.map Store.credentials).getD []

section
variable (P : Platform)

/-- The whole blob reaches the file. -/
def Storage.saves (io : Option WriteIo) (s : Storage) : Bool :=
  s.storeDirty && P.persistEnabled && match io with
    | some (.stored k _) => decide (storeDiskSize ≤ k)
    | _ => false

end

/-- A write to `store_blob` completes a blob that is adopted: nothing else
there raises the generation. -/
def Storage.adopts (off : Nat) (buf : List UInt8) (allocOk : Bool) (s : Storage) : Bool :=
  (storeBlobWrite off buf allocOk s).2.storeGeneration != s.storeGeneration

/-! ## A life -/

/-- What the store goes through. -/
inductive LifeOp
  /-- The driver starts, on the file that is there. -/
  | boot
  | op (o : StoreOp)
  /-- Userspace writes the file itself. -/
  | supply (file : File)

structure Life where
  storage : Storage
  /-- What userspace put on file, was there at a boot or was saved whole, since
  the last RESET and the last store from userspace. -/
  kept : List Credential
  /-- The store in memory is not one made up for want of a file, nor older than
  what userspace put there: it was loaded, saved, uploaded or wiped on purpose. -/
  backed : Bool

namespace Life

def init (file : File) : Life where
  storage := .boot file
  kept := file.credentials
  backed := false

section
variable (P : Platform)

def keptAfter (l : Life) : StoreOp → List Credential
  | .wipe _ => []
  | .blobWrite off buf allocOk => if l.storage.adopts off buf allocOk then [] else l.kept
  | .persist io =>
    if l.storage.saves P io then l.kept ++ (maybePersistLocked P io l.storage).file.credentials else l.kept
  | .load .. | .mint _ | .bump | .dirty | .restore .. | .pinReset => l.kept

def backedAfter (l : Life) : StoreOp → Bool
  | .load io _ =>
    if l.storage.storeLoaded then l.backed else P.persistEnabled && (readStoreFromPathLocked io l.storage.file).isOk
  | .wipe _ => true
  | .blobWrite off buf allocOk => l.backed || l.storage.adopts off buf allocOk
  | .persist io => l.backed || l.storage.saves P io
  | .restore allocOk io => l.backed || (restorePersistedStoreLocked allocOk io l.storage).1.isOk
  | .mint _ | .bump | .dirty | .pinReset => l.backed

def step (l : Life) : LifeOp → Option Life
  | .boot =>
    some { storage := .boot l.storage.file, kept := l.kept ++ l.storage.file.credentials, backed := false }
  | .op o => some { storage := o.apply P l.storage, kept := l.keptAfter P o, backed := l.backedAfter P o }
  | .supply file => some { storage := { l.storage with file := file }, kept := file.credentials, backed := false }

/-- A save that gets through is not of a store made up for want of a file
that held credentials, or older than that file. -/
def BackedSaves (l : Life) : LifeOp → Prop
  | .op (.persist io) => l.storage.saves P io = true → l.kept ≠ [] → l.backed = true
  | _ => True

end

/-- Whatever blob is on file, it has the credentials that were there. -/
def Survives (l : Life) : Prop := ∀ st, l.storage.file.store? = some st → ∀ c ∈ l.kept, c ∈ st.credentials

end Life

/-! ## What an operation does to the file and to the credentials -/

variable {P : Platform}

theorem Store.mem_credentials {st : Store} {c : Credential} :
    c ∈ st.credentials ↔ ∃ i, (st.creds i).inUse = true ∧ (st.creds i).trim = c := by
  simp [credentials, used, trim]

@[simp] theorem Store.credentials_trim (st : Store) : st.trim.credentials = st.credentials := by
  simp [credentials]

theorem File.credentials_of_store? {file : File} {st : Store} (h : file.store? = some st) :
    file.credentials = st.credentials := by
  rw [credentials, h, Option.map_some, Option.getD_some]

/-- Credentials in slots that are left alone are still there. -/
theorem StoreOp.KeepsUsed.mem_credentials {s s' : Storage} (h : KeepsUsed s s') {c : Credential}
    (hc : c ∈ s.store.credentials) : c ∈ s'.store.credentials := by
  obtain ⟨i, hi, rfl⟩ := Store.mem_credentials.mp hc
  have heq := h.creds i hi
  exact Store.mem_credentials.mpr ⟨i, by rw [heq]; exact hi, by rw [heq]⟩

/-- Only PIN state is dropped from a store that was loaded. -/
theorem finalize_credentials (s : Storage) :
    (finalizeRestoredStoreLocked s).store.credentials = s.store.credentials := by
  unfold finalizeRestoredStoreLocked
  split <;> rfl

@[simp] theorem finalize_file (s : Storage) : (finalizeRestoredStoreLocked s).file = s.file := by
  unfold finalizeRestoredStoreLocked
  split <;> rfl

@[simp] theorem finalize_storeGeneration (s : Storage) :
    (finalizeRestoredStoreLocked s).storeGeneration = s.storeGeneration := by
  unfold finalizeRestoredStoreLocked
  split <;> rfl

@[simp] theorem load_file (io : ReadIo) (ids : FreshIds) (s : Storage) : (loadStoreLocked P io ids s).file = s.file := by
  unfold loadStoreLocked
  split
  · rfl
  split
  · rfl
  split
  · exact finalize_file _
  · rfl

/-- A load that finds a store has its credentials. -/
theorem load_credentials {io : ReadIo} {ids : FreshIds} {s : Storage} (hl : s.storeLoaded = false)
    (hP : P.persistEnabled = true) {r : Store × Bool} (hr : readStoreFromPathLocked io s.file = .ok r) :
    (loadStoreLocked P io ids s).store.credentials = r.1.credentials := by
  simp [loadStoreLocked, hl, hP, hr, finalize_credentials]

@[simp] theorem restore_file (allocOk : Bool) (io : ReadIo) (s : Storage) :
    (restorePersistedStoreLocked allocOk io s).2.file = s.file := by
  unfold restorePersistedStoreLocked
  split
  · rfl
  split
  · exact finalize_file _
  · rfl

/-- A restore that succeeds has found a store and has its credentials; one that fails changes nothing. -/
theorem restore_cases (allocOk : Bool) (io : ReadIo) (s : Storage) :
    ((restorePersistedStoreLocked allocOk io s).1.isOk = true ∧ ∃ r, readStoreFromPathLocked io s.file = .ok r ∧
      (restorePersistedStoreLocked allocOk io s).2.store.credentials = r.1.credentials) ∨
    ((restorePersistedStoreLocked allocOk io s).1.isOk = false ∧ (restorePersistedStoreLocked allocOk io s).2 = s) := by
  unfold restorePersistedStoreLocked
  split
  · exact .inr ⟨rfl, rfl⟩
  split
  · next st v1 hr => exact .inl ⟨rfl, (st, v1), hr, finalize_credentials _⟩
  · exact .inr ⟨rfl, rfl⟩

/-- A write to `store_blob` leaves the file alone, and the store too unless it is adopted. -/
theorem blobWrite_file (off : Nat) (buf : List UInt8) (allocOk : Bool) (s : Storage) :
    (storeBlobWrite off buf allocOk s).2.file = s.file := by
  unfold storeBlobWrite
  split
  · rfl
  dsimp only
  split
  · rfl
  split
  · rfl
  split
  · split
    · exact finalize_file _
    · rfl
  · rfl

theorem blobWrite_store {off : Nat} {buf : List UInt8} {allocOk : Bool} {s : Storage}
    (h : s.adopts off buf allocOk = false) : (storeBlobWrite off buf allocOk s).2.store = s.store := by
  unfold Storage.adopts at h
  unfold storeBlobWrite at h ⊢
  split
  · rfl
  next hrange =>
  dsimp only at h ⊢
  split
  · rfl
  next data len hstaging =>
  rw [if_neg hrange, hstaging] at h
  dsimp only at h
  split
  · rfl
  next hv1 =>
  rw [if_neg hv1] at h
  split
  · next hv2 =>
    rw [if_pos hv2] at h
    split
    · next st hst =>
      rw [hst] at h
      simp at h
    · rfl
  · rfl

/-- A save that is made leaves on file what its write does. -/
theorem persist_file {s : Storage} (hd : s.storeDirty = true) (hP : P.persistEnabled = true) (io : WriteIo) :
    (maybePersistLocked P (some io) s).file = (writeStoreToPathLocked io (storeToDisk s.store) s.file).2 := by
  simp only [maybePersistLocked, hd, hP, Bool.not_true, Bool.false_eq_true, if_false]
  split
  · next heq => rw [heq]
  · next heq => rw [heq]

theorem write_stored_file (k : Nat) (err : Option Errno) (disk : List UInt8) (file : File) :
    (writeStoreToPathLocked (.stored k err) disk file).2 = some (disk.take k) := by
  cases err <;> rfl

/-- What a save leaves on file: what was there, a part of the blob, or all of it. -/
theorem persist_file_cases (io : Option WriteIo) (s : Storage) :
    (s.saves P io = false ∧ (maybePersistLocked P io s).file = s.file) ∨
    (s.saves P io = false ∧ ∃ k, k < storeDiskSize ∧
      (maybePersistLocked P io s).file = some ((storeToDisk s.store).take k)) ∨
    (s.saves P io = true ∧ (maybePersistLocked P io s).file = some (storeToDisk s.store)) := by
  by_cases hd : s.storeDirty = true
  · by_cases hP : P.persistEnabled = true
    · cases io with
      | none => exact .inl ⟨by simp [Storage.saves], by simp [maybePersistLocked, hd, hP]⟩
      | some io =>
        have hfile := persist_file hd hP io
        cases io with
        | openError e => exact .inl ⟨by simp [Storage.saves], hfile⟩
        | stored k err =>
          rw [write_stored_file] at hfile
          by_cases hk : storeDiskSize ≤ k
          · rw [List.take_of_length_le (by rw [length_storeToDisk]; exact hk)] at hfile
            exact .inr (.inr ⟨by simp [Storage.saves, hd, hP, hk], hfile⟩)
          · exact .inr (.inl ⟨by simp [Storage.saves, hk], k, by omega, hfile⟩)
    · exact .inl ⟨by simp [Storage.saves, hP], by simp [maybePersistLocked, hd, hP]⟩
  · exact .inl ⟨by simp [Storage.saves, hd], by simp [maybePersistLocked, hd]⟩

/-! ## The invariant -/

namespace Life

/-- However the file is read it has the credentials, and so has a backed store. -/
structure Safe (l : Life) : Prop where
  file : ∀ io r, readStoreFromPathLocked io l.storage.file = .ok r → ∀ c ∈ l.kept, c ∈ r.1.credentials
  memory : l.backed = true → ∀ c ∈ l.kept, c ∈ l.storage.store.credentials

/-- Whatever a read finds has the credentials of the file. -/
theorem read_credentials {file : File} {io : ReadIo} {r : Store × Bool}
    (h : readStoreFromPathLocked io file = .ok r) {c : Credential} (hc : c ∈ file.credentials) :
    c ∈ r.1.credentials := by
  cases hs : file.store? with
  | none =>
    rw [File.credentials, hs] at hc
    cases hc
  | some st =>
    rw [File.credentials_of_store? hs] at hc
    have heq : r.1 = st := read_ok_of_store? hs h
    rw [heq]
    exact hc

theorem Safe.init (file : File) : (init file).Safe where
  file _ _ hr _ hc := read_credentials hr hc
  memory h := by cases h

/-- Nothing is asked once nothing is to be kept. -/
theorem Safe.of_kept_nil {l : Life} (h : l.kept = []) : l.Safe := by
  refine ⟨fun io r hr c hc => ?_, fun hb c hc => ?_⟩
  · rw [h] at hc
    cases hc
  · rw [h] at hc
    cases hc

theorem Safe.survives {l : Life} (h : l.Safe) : l.Survives := by
  intro st hst c hc
  unfold File.store? at hst
  split at hst
  · next st' v1 hr =>
    cases hst
    exact h.file .ok _ hr c hc
  · cases hst

/-- A save keeps what there was, and from then on what it saved. -/
theorem Safe.persist {l : Life} (h : l.Safe) {io : Option WriteIo} (hok : l.BackedSaves P (.op (.persist io))) :
    Safe ⟨maybePersistLocked P io l.storage, l.keptAfter P (.persist io), l.backedAfter P (.persist io)⟩ := by
  rcases persist_file_cases (P := P) io l.storage with ⟨hs, hfile⟩ | ⟨hs, k, hk, hfile⟩ | ⟨hs, hfile⟩
  · simp only [keptAfter, backedAfter, hs, Bool.false_eq_true, if_false, Bool.or_false]
    exact ⟨fun io' r hr => h.file io' r (hfile ▸ hr), by simpa using h.memory⟩
  · simp only [keptAfter, backedAfter, hs, Bool.false_eq_true, if_false, Bool.or_false]
    refine ⟨fun io' r hr => ?_, by simpa using h.memory⟩
    rw [hfile] at hr
    exact absurd hr (read_truncated io' _ hk r)
  · -- The blob holds what the store does, and the store what was on file.
    have hcreds : (maybePersistLocked P io l.storage).file.credentials = l.storage.store.credentials := by
      rw [hfile, File.credentials_of_store? (store?_storeToDisk _), Store.credentials_trim]
    have hmem : ∀ c ∈ l.kept ++ l.storage.store.credentials, c ∈ l.storage.store.credentials := by
      intro c hc
      rcases List.mem_append.mp hc with hc | hc
      · exact h.memory (hok hs (List.ne_nil_of_mem hc)) c hc
      · exact hc
    simp only [keptAfter, backedAfter, hs, if_true, Bool.or_true, hcreds]
    refine ⟨fun io' r hr c hc => read_credentials hr ?_, fun _ c hc => ?_⟩
    · rw [hcreds]; exact hmem c hc
    · simpa using hmem c hc

theorem Safe.op {l : Life} (h : l.Safe) {o : StoreOp} (hok : l.BackedSaves P (.op o)) :
    Safe ⟨o.apply P l.storage, l.keptAfter P o, l.backedAfter P o⟩ := by
  cases o with
  | persist io => exact h.persist hok
  | wipe ids => exact .of_kept_nil rfl
  | bump | dirty | pinReset => exact ⟨h.file, h.memory⟩
  | mint c =>
    have hkeep : StoreOp.KeepsUsed l.storage (StoreOp.apply P l.storage (.mint c)) := by
      have hord : (StoreOp.mint c).Ordinary := trivial
      exact hord.keepsUsed _
    have hfile : (StoreOp.apply P l.storage (.mint c)).file = l.storage.file := by
      simp only [StoreOp.apply]
      split <;> rfl
    exact ⟨fun io r hr => h.file io r (hfile ▸ hr), fun hb c hc => hkeep.mem_credentials (h.memory hb c hc)⟩
  | load io ids =>
    refine ⟨fun io' r hr => h.file io' r (by simpa [StoreOp.apply] using hr), fun hb => ?_⟩
    simp only [backedAfter] at hb
    by_cases hl : l.storage.storeLoaded = true
    · rw [if_pos hl] at hb
      simp only [StoreOp.apply, StoreOp.load_of_loaded hl]
      exact h.memory hb
    · rw [if_neg hl, Bool.and_eq_true] at hb
      cases hr : readStoreFromPathLocked io l.storage.file with
      | error e =>
        rw [hr] at hb
        cases hb.2
      | ok r =>
        intro c hc
        simp only [StoreOp.apply, load_credentials (by simpa using hl) hb.1 hr]
        exact h.file io r hr c hc
  | restore allocOk io =>
    refine ⟨fun io' r hr => h.file io' r (by simpa [StoreOp.apply] using hr), fun hb => ?_⟩
    rcases restore_cases allocOk io l.storage with ⟨_, r, hr, hcreds⟩ | ⟨hfail, heq⟩
    · intro c hc
      simp only [StoreOp.apply, hcreds]
      exact h.file io r hr c hc
    · simp only [backedAfter, hfail, Bool.or_false] at hb
      simp only [StoreOp.apply, heq]
      exact h.memory hb
  | blobWrite off buf allocOk =>
    simp only [keptAfter, backedAfter, StoreOp.apply]
    by_cases ha : l.storage.adopts off buf allocOk = true
    · rw [if_pos ha]
      exact .of_kept_nil rfl
    · rw [if_neg ha]
      have ha' : l.storage.adopts off buf allocOk = false := by simpa using ha
      refine ⟨fun io r hr => h.file io r (blobWrite_file off buf allocOk _ ▸ hr), fun hb => ?_⟩
      rw [ha', Bool.or_false] at hb
      simp only [blobWrite_store ha']
      exact h.memory hb

theorem Safe.step {l l' : Life} {o : LifeOp} (h : l.Safe) (hok : l.BackedSaves P o) (hstep : l.step P o = some l') :
    l'.Safe := by
  cases o with
  | op o =>
    cases hstep
    exact h.op hok
  | supply file =>
    cases hstep
    exact ⟨fun io r hr c hc => read_credentials hr hc, fun hb => by cases hb⟩
  | boot =>
    cases hstep
    refine ⟨fun io r hr c hc => ?_, fun hb => by cases hb⟩
    rcases List.mem_append.mp hc with hc | hc
    · exact h.file io r hr c hc
    · exact read_credentials hr hc

/-- **Credentials on file stay there** through boots, loads, commands and
saves of any outcome, until a RESET or a store from userspace, as long as
no store that was made up for want of them, or before they were put there, is
saved whole. -/
theorem survives_of_backedSaves (P : Platform) (file : File) (ops : List LifeOp) (l : Life)
    (h : Runs (step P) (BackedSaves P) (init file) ops l) : l.Survives :=
  (h.invariant (I := Safe) (fun _ _ _ hI hok hstep => hI.step hok hstep) (.init file)).survives

/-- A first use on the file of a store with one credential, and a new credential. -/
def mintRun (load : ReadIo) : List LifeOp :=
  [.op (.load load ⟨zeros 16, zeros 32⟩), .op (.mint (keyOf 2)), .op .dirty]

/-- And its save. -/
def savedRun (load : ReadIo) : List LifeOp := mintRun load ++ [.op (.persist (some (.stored storeDiskSize none)))]

theorem keyFile_credentials : File.credentials (some (storeToDisk keyStore)) = keyStore.credentials := by
  rw [File.credentials_of_store? (store?_storeToDisk _), Store.credentials_trim]

/-- Userspace puts the file there before the first use. -/
def suppliedRun : List LifeOp := .supply (some (storeToDisk keyStore)) :: savedRun .ok

theorem survives_suppliedRun : ∃ l, Runs (step .persistent) (BackedSaves .persistent) (init none) suppliedRun l ∧
    (keyOf 1).trim ∈ l.kept ∧ l.Survives := by
  have hread : readStoreFromPathLocked .ok (some (storeToDisk keyStore)) = .ok (keyStore.trim, false) := by
    rw [readStoreFromPathLocked, List.take_of_length_le (length_storeToDisk _).le, loadRead_storeToDisk]
  have hrun : ∃ l, Runs (step .persistent) (BackedSaves .persistent) (init none) suppliedRun l ∧ (keyOf 1).trim ∈ l.kept := by
    refine ⟨_, .cons trivial rfl (.cons trivial rfl (.cons trivial rfl (.cons trivial rfl
      (.cons (fun _ _ => ?_) rfl (.nil _))))), ?_⟩
    · simp only [backedAfter, init, Storage.boot, hread]
      rfl
    · have hmem : (keyOf 1).trim ∈ File.credentials (some (storeToDisk keyStore)) := by
        rw [keyFile_credentials]
        decide +kernel
      simp only [keptAfter]
      split
      · exact List.mem_append_left _ hmem
      · exact hmem
  obtain ⟨l, hl, hmem⟩ := hrun
  exact ⟨l, hl, hmem, survives_of_backedSaves .persistent _ _ l hl⟩

/-- A load that fails once costs the credentials that were on file. -/
theorem exists_not_survives : ∃ file ops l,
    Runs (step .persistent) (fun _ _ => True) (init file) ops l ∧ ¬ l.Survives := by
  obtain ⟨l, hrun, hkept, hdirty, hmissing⟩ : ∃ l,
      Runs (step .persistent) (fun _ _ => True) (init (some (storeToDisk keyStore))) (mintRun (.openError .eacces)) l ∧
        l.kept = keyStore.credentials ∧ l.storage.storeDirty = true ∧ (keyOf 1).trim ∉ l.storage.store.credentials := by
    refine ⟨_, .cons trivial rfl (.cons trivial rfl (.cons trivial rfl (.nil _))), ?_, rfl, ?_⟩
    · simp only [keptAfter, init, keyFile_credentials]
    · decide +kernel
  have hsaved : l.storage.saves .persistent (some (.stored storeDiskSize none)) = true := by
    simp [Storage.saves, hdirty, Platform.persistent]
  obtain ⟨l', hl'⟩ : ∃ l', l.step .persistent (.op (.persist (some (.stored storeDiskSize none)))) = some l' := ⟨_, rfl⟩
  refine ⟨_, savedRun (.openError .eacces), l', hrun.append (.cons trivial hl' (.nil _)), fun h => hmissing ?_⟩
  cases hl'
  rcases persist_file_cases (P := .persistent) (some (.stored storeDiskSize none)) l.storage with ⟨hs, _⟩ | ⟨hs, _⟩ | ⟨_, hfile⟩
  · rw [hsaved] at hs
    cases hs
  · rw [hsaved] at hs
    cases hs
  · have hmem : (keyOf 1).trim ∈ l.kept ++ (maybePersistLocked .persistent (some (.stored storeDiskSize none)) l.storage).file.credentials := by
      rw [hkept]
      exact List.mem_append_left _ (by decide +kernel)
    have hstore := h l.storage.store.trim (by simp only [StoreOp.apply, hfile, store?_storeToDisk]) (keyOf 1).trim
      (by simpa only [keptAfter, hsaved, if_true] using hmem)
    simpa using hstore

end Life

/-! ## The device lives such a life -/

namespace Device

/-- What happens to a device and around it. -/
inductive LifeAction
  | boot (clock : Nat)
  | act (a : Action)
  | supply (file : File)

def lifeStep (P : Platform) (d : Device) : LifeAction → Option Device
  | .boot clock => some (boot d.core.storage.file clock)
  | .act a => d.step P a
  | .supply file => some (d.setStorage { d.core.storage with file := file })

/-- From one device to another the store goes by operations, which wipe it
only where a RESET is logged. -/
def GoesBy (P : Platform) (d d' : Device) : Prop := ∃ ops : List StoreOp,
  d'.core.storage = StoreOp.applyAll P d.core.storage ops ∧
    ∀ ids, .wipe ids ∈ ops → ∃ t newer, d'.log = newer ++ d.log ∧ (d.clock, Event.effect t .wiped) ∈ newer

theorem GoesBy.unchanged {d d' : Device} (h : d'.core.storage = d.core.storage) : GoesBy P d d' :=
  ⟨[], h, fun _ hids => by cases hids⟩

theorem GoesBy.op {d d' : Device} (op : StoreOp) (h : d'.core.storage = op.apply P d.core.storage)
    (hop : ∀ ids, op ≠ .wipe ids) : GoesBy P d d' :=
  ⟨[op], h, fun ids hids => absurd (List.mem_singleton.mp hids).symm (hop ids)⟩

/-- What a command does before the gate, to the store it then goes on with. -/
theorem GoesBy.start {d d' : Device} {io : Io} {cmd : Command} {st : Start} {c : Core}
    (hs : start P io d.jiffies cmd d.core = (st, c)) (h : d'.core.storage = c.storage) : GoesBy P d d' := by
  rcases start_storage (P := P) io d.jiffies cmd d.core with heq | heq <;> rw [hs] at heq
  · exact .unchanged (h.trans heq)
  · exact .op (.load io.load io.ids) (h.trans heq) (by simp)

/-- What an approved command does to the store: only a RESET wipes it. -/
theorem finish_ops (io : Io) (now : UInt64) (rest : Rest) (c : Core) : ∃ ops : List StoreOp,
    (finish P io now rest c).core.storage = StoreOp.applyAll P c.storage ops ∧
      ∀ ids, .wipe ids ∈ ops → Effect.wiped ∈ (finish P io now rest c).effects := by
  by_cases hrest : rest = .reset
  · subst hrest
    exact ⟨[.wipe io.ids, .persist io.persist], rfl, fun _ _ => List.mem_singleton.mpr rfl⟩
  · obtain ⟨ops, hord, heq⟩ := finish_ordinary (P := P) io now hrest c
    exact ⟨ops, heq, fun ids hids => (hord _ hids).elim⟩

/-- A command that is carried out after `d` got past the gate. -/
theorem GoesBy.conclude {d₀ d : Device} (h : GoesBy P d₀ d) (hclock : d.clock = d₀.clock)
    (hlog : ∃ newer, d.log = newer ++ d₀.log) (t : Transport) (io : Io) (rest : Rest) :
    GoesBy P d₀ (d.conclude P t io rest) := by
  obtain ⟨ops, hops, hwipe⟩ := h
  obtain ⟨more, hmore, hwipe'⟩ := finish_ops (P := P) io d.jiffies rest d.core
  obtain ⟨newer, hnewer⟩ := hlog
  rw [conclude_eq]
  refine ⟨ops ++ more, ?_, fun ids hids => ?_⟩
  · rw [StoreOp.applyAll, List.foldl_append]
    rw [hops] at hmore
    exact hmore
  · rcases List.mem_append.mp hids with hids | hids
    · obtain ⟨t', newer', hlog', hmem⟩ := hwipe ids hids
      exact ⟨t', _ ++ newer', by rw [hlog', List.append_assoc], List.mem_append_right _ hmem⟩
    · refine ⟨t, _ ++ newer, by rw [hnewer, List.append_assoc], List.mem_append_left _ ?_⟩
      rw [List.mem_reverse, List.mem_map]
      refine ⟨.effect t .wiped, ?_, by rw [hclock]⟩
      rw [concluded, List.mem_append]
      exact .inl (List.mem_map.mpr ⟨.wiped, hwipe' ids hids, rfl⟩)

/-- **Every step of the device is operations of its store.** -/
theorem GoesBy.of_step {d d' : Device} {a : Action} (h : d.step P a = some d') : GoesBy P d d' := by
  cases a with
  | tick n => cases h; exact .unchanged rfl
  | decide allow id =>
    cases h
    simp only [authDecide]
    split <;> exact .unchanged rfl
  | blobRead load ids => cases h; exact .op (.load load ids) rfl (by simp)
  | blobWrite off buf allocOk => cases h; exact .op (.blobWrite off buf allocOk) rfl (by simp)
  | restore allocOk io => cases h; exact .op (.restore allocOk io) rfl (by simp)
  | persist io => cases h; exact .op (.persist io) rfl (by simp)
  | pinReset io =>
    cases h
    exact ⟨[.pinReset, .persist io], rfl, fun ids hids => by simp at hids⟩
  | receive t msg allocOk =>
    simp only [step] at h
    split at h
    · have hstorage : (if endsContinuation msg then d.core.clearAssertState else d.core).storage = d.core.storage := by
        split <;> rfl
      split at h <;> cases h <;> exact .unchanged hstorage
    · cases h
  | wake t =>
    simp only [step] at h
    split at h
    · split at h <;> cases h
      exact .unchanged rfl
    · cases h
  | expire t =>
    simp only [step] at h
    split at h
    · split at h <;> cases h
      exact .unchanged rfl
    · cases h
  | resume t io =>
    simp only [step] at h
    split at h <;> cases h
    simp only [resume]
    split
    · refine GoesBy.conclude ?_ ?_ ?_ t io _
      · exact .unchanged rfl
      · rfl
      · exact ⟨[_], rfl⟩
    · exact .unchanged rfl
  | enter t io =>
    simp only [step] at h
    split at h <;> cases h
    rcases enter_cases (P := P) t io _ d with ⟨_, c, hs, heq⟩ | ⟨ask, rest, c, hs, hgate⟩
    · rw [heq]
      exact .start hs rfl
    rcases hgate with ⟨_, heq⟩ | ⟨_, _, heq⟩ | ⟨_, _, heq⟩ <;> rw [heq]
    · exact .start hs rfl
    · refine GoesBy.conclude ?_ ?_ ?_ t io rest
      · exact .start hs rfl
      · rfl
      · exact ⟨[_, _], rfl⟩
    · exact .start hs rfl

/-- A device's life, as the store goes through it. -/
theorem life_of_runs {ok : Device → LifeAction → Prop} {d d' : Device} {as : List LifeAction}
    (h : Runs (lifeStep P) ok d as d') {l : Life} (hl : l.storage = d.core.storage) :
    ∃ ops l', Runs (Life.step P) (fun _ _ => True) l ops l' ∧ l'.storage = d'.core.storage := by
  have runs_ops : ∀ (ops : List StoreOp) (l : Life), ∃ l',
      Runs (Life.step P) (fun _ _ => True) l (ops.map .op) l' ∧ l'.storage = StoreOp.applyAll P l.storage ops := by
    intro ops
    induction ops with
    | nil => exact fun l => ⟨l, .nil l, rfl⟩
    | cons op ops ih =>
      intro l
      obtain ⟨l', hrun, heq⟩ := ih ⟨op.apply P l.storage, l.keptAfter P op, l.backedAfter P op⟩
      exact ⟨l', .cons trivial rfl hrun, heq⟩
  refine h.simulate (R := fun (d : Device) (l : Life) => l.storage = d.core.storage) ?_ hl
  intro d a d' l hl _ hstep
  cases a with
  | boot clock =>
    cases hstep
    exact ⟨[.boot], _, .cons trivial rfl (.nil _), by rw [hl]; rfl⟩
  | supply file =>
    cases hstep
    exact ⟨[.supply file], _, .cons trivial rfl (.nil _), by rw [hl]; rfl⟩
  | act a =>
    obtain ⟨ops, hops, _⟩ := GoesBy.of_step hstep
    obtain ⟨l', hrun, heq⟩ := runs_ops ops l
    exact ⟨_, l', hrun, by rw [heq, hl, hops]⟩

end Device

end AbkFido
