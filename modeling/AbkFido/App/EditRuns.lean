/-
When an edit loses nothing of the driver's.

An edit is a read, a change and a write back, with nothing to tell the
driver which store the change was made to. So what the driver does between
the read and the adoption is lost (`exists_not_kept`), and so is the edit if
the driver saves its store between the companion's write and the restore.
Where the blob that was read is the driver's, and the driver neither changes
its store before it adopts the edit nor writes the file while the edit is on
its way through it (`Undisturbed`), a reported success means that the
driver's store became the edit of the store it held (`kept_of_undisturbed`).
-/
import AbkFido.App.EditFacts

namespace AbkFido

open Layout

variable {P : Platform}

/-! ## The staging buffer -/

/-- `store_blob_staging` is as long as a blob and not yet full. -/
def Storage.StagingOk (s : Storage) : Prop :=
  ∀ data len, s.staging = some (data, len) → data.length = storeDiskSize ∧ len < storeDiskSize

/-- The first `off` bytes of an upload have arrived. -/
structure Storage.Staged (bytes : List UInt8) (off : Nat) (s : Storage) : Prop where
  start : s.staging = none → off = 0
  take : ∀ data len, s.staging = some (data, len) → data.take off = bytes.take off

theorem finalize_store (s : Storage) : (finalizeRestoredStoreLocked s).store = s.store.dropPin := by
  unfold finalizeRestoredStoreLocked Store.dropPin
  split <;> rfl

@[simp] theorem finalize_staging (s : Storage) : (finalizeRestoredStoreLocked s).staging = s.staging := by
  unfold finalizeRestoredStoreLocked
  split <;> rfl

@[simp] theorem load_staging (io : ReadIo) (ids : FreshIds) (s : Storage) :
    (loadStoreLocked P io ids s).staging = s.staging := by
  unfold loadStoreLocked
  split
  · rfl
  split
  · rfl
  split
  · exact finalize_staging _
  · rfl

@[simp] theorem persist_staging (io : Option WriteIo) (s : Storage) : (maybePersistLocked P io s).staging = s.staging := by
  unfold maybePersistLocked
  split
  · rfl
  split
  · rfl
  split
  · rfl
  split <;> rfl

@[simp] theorem restore_staging (allocOk : Bool) (io : ReadIo) (s : Storage) :
    (restorePersistedStoreLocked allocOk io s).2.staging = s.staging := by
  unfold restorePersistedStoreLocked
  split
  · rfl
  split
  · exact finalize_staging _
  · rfl

/-- The driver's own operations do not use it. -/
theorem staging_ofDriver {op : StoreOp} (h : op.ofDriver = true) (s : Storage) : (op.apply P s).staging = s.staging := by
  cases op with
  | restore | blobWrite => cases h
  | bump | dirty | wipe | pinReset => rfl
  | load io ids => exact load_staging io ids s
  | persist io => exact persist_staging io s
  | mint c =>
    simp only [StoreOp.apply]
    split <;> rfl

/-- What a write to `store_blob` comes to. -/
theorem blobWrite_cases (off : Nat) (buf : List UInt8) (allocOk : Bool) (s : Storage) (hok : s.StagingOk) :
    (∃ e, (storeBlobWrite off buf allocOk s).1 = .error e ∧ (storeBlobWrite off buf allocOk s).2.StagingOk) ∨
    ∃ data len, (s.staging = some (data, len) ∨ s.staging = none ∧ data = List.replicate storeDiskSize 0 ∧ len = 0) ∧
      off + buf.length ≤ storeDiskSize ∧
      ((max len (off + buf.length) < storeDiskSize ∧
          storeBlobWrite off buf allocOk s =
            (.ok buf.length, { s with staging := some (splice data off buf, max len (off + buf.length)) })) ∨
        (max len (off + buf.length) = storeDiskSize ∧ ∃ st s', storeFromDiskInto (splice data off buf) = .ok st ∧
          storeBlobWrite off buf allocOk s = (.ok buf.length, s') ∧ s'.store = st.dropPin ∧ s'.staging = none ∧
          s'.storeGeneration = s.storeGeneration + 1)) := by
  unfold storeBlobWrite
  split
  · exact .inl ⟨_, rfl, hok⟩
  next hrange =>
  have hfits : off + buf.length ≤ storeDiskSize := by omega
  dsimp only
  split
  · exact .inl ⟨_, rfl, hok⟩
  next data len hstaging =>
  have hsource : s.staging = some (data, len) ∨
      s.staging = none ∧ data = List.replicate storeDiskSize 0 ∧ len = 0 := by
    cases hs : s.staging with
    | some p =>
      rw [hs] at hstaging
      exact .inl hstaging
    | none =>
      rw [hs] at hstaging
      cases allocOk with
      | true => cases hstaging; exact .inr ⟨rfl, rfl, rfl⟩
      | false => cases hstaging
  have hlen : len < storeDiskSize := by
    rcases hsource with hs | ⟨_, _, rfl⟩
    · exact (hok data len hs).2
    · decide
  have hnone : ∀ {s' : Storage}, s'.staging = none → s'.StagingOk := fun h _ _ h' => by rw [h] at h'; cases h'
  split
  · exact .inl ⟨_, rfl, hnone rfl⟩
  split
  · next hfull =>
    split
    · next st hst =>
      refine .inr ⟨data, len, hsource, hfits, .inr ⟨hfull, st, _, hst, rfl, ?_, rfl, ?_⟩⟩
      · exact finalize_store _
      · show (finalizeRestoredStoreLocked _).storeGeneration = _
        unfold finalizeRestoredStoreLocked
        split <;> rfl
    · exact .inl ⟨_, rfl, hnone rfl⟩
  · next hpart => exact .inr ⟨data, len, hsource, hfits, .inl ⟨by omega, rfl⟩⟩

theorem blobWrite_stagingOk {s : Storage} (h : s.StagingOk) (off : Nat) (buf : List UInt8) (allocOk : Bool) :
    (storeBlobWrite off buf allocOk s).2.StagingOk := by
  rcases blobWrite_cases off buf allocOk s h with ⟨_, _, hok⟩ | ⟨data, len, hsource, hfits, hcase⟩
  · exact hok
  rcases hcase with ⟨hmax, heq⟩ | ⟨_, st, s', _, heq, _, hnone, _⟩
  · intro data' len' hs
    rw [heq] at hs
    cases hs
    have hdata : data.length = storeDiskSize := by
      rcases hsource with hs | ⟨_, rfl, _⟩
      · exact (h _ _ hs).1
      · exact List.length_replicate
    exact ⟨by rw [length_splice (by omega), hdata], hmax⟩
  · intro data' len' hs
    rw [heq, hnone] at hs
    cases hs

theorem StoreOp.stagingOk {s : Storage} (h : s.StagingOk) (op : StoreOp) : (op.apply P s).StagingOk := by
  by_cases hop : op.ofDriver = true
  · intro data len hs
    rw [staging_ofDriver hop] at hs
    exact h data len hs
  · cases op with
    | restore allocOk io =>
      intro data len hs
      exact h data len (by simpa [StoreOp.apply] using hs)
    | blobWrite off buf allocOk => exact blobWrite_stagingOk h off buf allocOk
    | load | mint | bump | dirty | wipe | persist | pinReset => exact absurd rfl hop

/-- Since the boot. -/
theorem stagingOk_applyAll (file : File) (ops : List StoreOp) : (StoreOp.applyAll P (.boot file) ops).StagingOk := by
  have hboot : (Storage.boot file).StagingOk := fun _ _ h => by cases h
  rw [StoreOp.applyAll]
  generalize Storage.boot file = s at hboot
  induction ops generalizing s with
  | nil => exact hboot
  | cons op ops ih => exact ih _ (StoreOp.stagingOk hboot op)

/-- One part of an upload of `bytes`: it is staged, or it was the last and its store is adopted. -/
theorem upload_cases {bytes : List UInt8} (hbytes : bytes.length = storeDiskSize) {off : Nat} (n : Nat) (allocOk : Bool)
    {s : Storage} (hok : s.StagingOk) (hst : s.Staged bytes off) (hoff : off ≤ storeDiskSize) :
    (∃ e, (storeBlobWrite off ((bytes.drop off).take n) allocOk s).1 = .error e ∧
      (storeBlobWrite off ((bytes.drop off).take n) allocOk s).2.StagingOk) ∨
    ∃ k s', storeBlobWrite off ((bytes.drop off).take n) allocOk s = (.ok k, s') ∧ s'.StagingOk ∧
      off + ((bytes.drop off).take n).length ≤ storeDiskSize ∧
      ((off + ((bytes.drop off).take n).length < storeDiskSize ∧ s'.store = s.store ∧
          s'.storeGeneration = s.storeGeneration ∧ s'.Staged bytes (off + ((bytes.drop off).take n).length)) ∨
        (off + ((bytes.drop off).take n).length = storeDiskSize ∧ s'.storeGeneration = s.storeGeneration + 1 ∧
          ∃ st, storeFromDiskInto bytes = .ok st ∧ s'.store = st.dropPin)) := by
  have hstep := blobWrite_stagingOk hok off ((bytes.drop off).take n) allocOk
  rcases blobWrite_cases off ((bytes.drop off).take n) allocOk s hok with herr | ⟨data, len, hsource, hfits, hcase⟩
  · exact .inl herr
  have hdata : data.length = storeDiskSize ∧ len < storeDiskSize := by
    rcases hsource with hs | ⟨_, rfl, rfl⟩
    · exact hok _ _ hs
    · exact ⟨List.length_replicate, by decide⟩
  have hprefix : data.take off = bytes.take off := by
    rcases hsource with hs | ⟨hs, _, _⟩
    · exact hst.take _ _ hs
    · rw [hst.start hs, List.take_zero, List.take_zero]
  generalize hm : (bytes.drop off).take n = part at *
  have hpart : bytes.take (off + part.length) = bytes.take off ++ part := by
    rw [List.take_add]
    congr 1
    rw [← hm, List.length_take, List.take_eq_take_iff]
    omega
  have hspliced : (splice data off part).take (off + part.length) = bytes.take (off + part.length) := by
    have hlen : (data.take off ++ part).length = off + part.length := by
      rw [List.length_append, List.length_take]
      omega
    rw [splice, List.take_left' hlen, hprefix, hpart]
  refine .inr ?_
  rcases hcase with ⟨hmax, heq⟩ | ⟨hmax, st, s', hst', heq, hstore, _, hgen⟩
  · refine ⟨_, _, heq, by simpa [heq] using hstep, hfits, .inl ⟨by omega, rfl, rfl, ⟨fun h => (by cases h), ?_⟩⟩⟩
    intro data' len' hs
    cases hs
    exact hspliced
  · have hlast : off + part.length = storeDiskSize := by omega
    have hall : splice data off part = bytes := by
      have hlen : (splice data off part).length = storeDiskSize := by rw [length_splice (by omega), hdata.1]
      rw [hlast, List.take_of_length_le hlen.le, List.take_of_length_le hbytes.le] at hspliced
      exact hspliced
    exact ⟨_, _, heq, by simpa [heq] using hstep, hfits, .inr ⟨hlast, hgen, st, hall ▸ hst', hstore⟩⟩

/-! ## The file -/

/-- The bytes of a blob whose store is the edit of `live`. -/
structure Carries (e : Edit) (live : Store) (bytes : List UInt8) : Prop where
  length_bytes : bytes.length = storeDiskSize
  store : ∃ st, storeFromDiskInto bytes = .ok st ∧ st.dropPin.trim = (e.apply live).trim

theorem store?_of_storeFromDiskInto {bytes : List UInt8} (hlen : bytes.length = storeDiskSize) {st : Store}
    (h : storeFromDiskInto bytes = .ok st) : File.store? (some bytes) = some st := by
  have hne : bytes.length ≠ storeDiskV1Size := by rw [hlen]; decide
  have hread : loadRead bytes = .ok (st, false) := by rw [loadRead, if_neg hne, if_pos hlen, h]; rfl
  simp only [File.store?, readStoreFromPathLocked, List.take_of_length_le hlen.le, hread]

/-- A restore adopts what it reads. -/
theorem restore_ok {allocOk : Bool} {io : ReadIo} {s s' : Storage} {u : Unit}
    (h : restorePersistedStoreLocked allocOk io s = (.ok u, s')) :
    ∃ r, readStoreFromPathLocked io s.file = .ok r ∧ s'.store = r.1.dropPin := by
  unfold restorePersistedStoreLocked at h
  split at h
  · cases h
  split at h
  · next st v1 hr =>
    cases h
    exact ⟨(st, v1), hr, finalize_store _⟩
  · cases h

/-- Writing on where the file ends. -/
theorem writeAt_take {bytes : List UInt8} {off : Nat} (hoff : off ≤ bytes.length) (n : Nat) :
    File.writeAt (some (bytes.take off)) off ((bytes.drop off).take n) =
      some (bytes.take (off + ((bytes.drop off).take n).length)) := by
  generalize hpart : (bytes.drop off).take n = part
  have htake : bytes.take (off + part.length) = bytes.take off ++ part := by
    rw [List.take_add]
    congr 1
    rw [← hpart, List.length_take, List.take_eq_take_iff]
    omega
  have hlen : (bytes.take off).length = off := by rw [List.length_take]; omega
  have hmiddle : splice (bytes.take off ++ (List.replicate part.length 0 ++ [])) off part =
      bytes.take off ++ (part ++ []) := splice_middle hlen (List.length_replicate).symm
  simp only [List.append_nil] at hmiddle
  simp only [File.writeAt, Option.getD_some, hlen, Nat.add_sub_cancel_left, hmiddle, htake]

/-! ## Runs of an edit -/

/-- A blob has been read and edited, and the driver has not adopted it. -/
def Phase.awaitsAdoption : Phase → Bool
  | .committing _ | .opening _ | .writing .. | .written _ => true
  | .uploading c off _ => decide (off < c.bytes.length)
  | .reading .. | .polling .. | .done _ => false

/-- The edit is on its way through the file. -/
def Phase.onFile : Phase → Bool
  | .writing .. | .written _ => true
  | _ => false

namespace Editing

/-- What is read is the driver's blob; until it has adopted the edit the
driver leaves its store alone, and the file while the edit is in it. -/
def Undisturbed (P : Platform) (s : Editing) : EditAction → Prop
  | .driver op =>
    (s.phase.awaitsAdoption = true → (op.apply P s.storage).store = s.storage.store) ∧
      (s.phase.onFile = true → (op.apply P s.storage).file = s.storage.file)
  | .readEnd => ∀ src acc b, s.phase = .reading src acc → FidoStoreBlob.parse acc false = some b → b.Of s.storage.store
  | _ => True

/-- The driver's store became the edit of the store it held. -/
def Adopted (e : Edit) (s : Editing) : Prop :=
  ∃ held new, s.adopted = some (held, new) ∧ new.trim = (e.apply held).trim

/-- A reported success is one. -/
def Kept (e : Edit) (s : Editing) : Prop := s.phase = .done (.ok ()) → s.Adopted e

/-- What each phase relies on. -/
def PhaseOk (e : Edit) (s : Editing) : Phase → Prop
  | .reading .. => True
  | .committing next => Carries e s.storage.store next.toBytes
  | .opening c => Carries e s.storage.store c.bytes
  | .writing c off =>
    Carries e s.storage.store c.bytes ∧ off ≤ storeDiskSize ∧ s.storage.file = some (c.bytes.take off)
  | .written c => Carries e s.storage.store c.bytes ∧ s.storage.file = some c.bytes
  | .uploading c off _ =>
    c.bytes.length = storeDiskSize ∧ off ≤ storeDiskSize ∧
      (off < storeDiskSize → Carries e s.storage.store c.bytes ∧ s.storage.Staged c.bytes off) ∧
      (off = storeDiskSize → s.Adopted e)
  | .polling .. => s.Adopted e
  | .done (.ok _) => s.Adopted e
  | .done (.error _) => True

structure Sound (e : Edit) (s : Editing) : Prop where
  staging : s.storage.StagingOk
  phase : s.PhaseOk e s.phase

variable {e : Edit} {s s' : Editing}

theorem Sound.kept (h : s.Sound e) : s.Kept e := by
  intro hdone
  have hphase := h.phase
  rw [hdone] at hphase
  exact hphase

theorem Sound.driver (h : s.Sound e) {op : StoreOp} (hop : op.ofDriver = true)
    (hok : s.Undisturbed P (.driver op)) : Sound e { s with storage := op.apply P s.storage } := by
  refine ⟨StoreOp.stagingOk h.staging op, ?_⟩
  have hphase := h.phase
  obtain ⟨hstore, hfile⟩ := hok
  show PhaseOk e { s with storage := op.apply P s.storage } s.phase
  cases hp : s.phase with
  | reading src acc => trivial
  | committing next =>
    rw [hp] at hphase hstore
    simp only [PhaseOk, hstore rfl]
    exact hphase
  | opening c =>
    rw [hp] at hphase hstore
    simp only [PhaseOk, hstore rfl]
    exact hphase
  | writing c off =>
    rw [hp] at hphase hstore hfile
    simp only [PhaseOk, hstore rfl, hfile rfl]
    exact hphase
  | written c =>
    rw [hp] at hphase hstore hfile
    simp only [PhaseOk, hstore rfl, hfile rfl]
    exact hphase
  | uploading c off out =>
    rw [hp] at hphase hstore
    obtain ⟨hlen, hoff, hbefore, hafter⟩ := hphase
    refine ⟨hlen, hoff, fun hlt => ?_, hafter⟩
    obtain ⟨hcarries, hstaged⟩ := hbefore hlt
    have hsame := hstore (decide_eq_true (hlen ▸ hlt))
    refine ⟨by rw [hsame]; exact hcarries, ?_, ?_⟩
    · rw [staging_ofDriver hop]; exact hstaged.start
    · rw [staging_ofDriver hop]; exact hstaged.take
  | polling c attempts generation =>
    rw [hp] at hphase
    exact hphase
  | done result =>
    rw [hp] at hphase
    cases result with
    | ok u => exact hphase
    | error f => trivial

/-- What `read` hands to the edit is the driver's blob. -/
theorem Sound.edit (h : s.Sound e) {b : FidoStoreBlob} (hb : b.Of s.storage.store) : (s.edit e b).Sound e := by
  obtain ⟨hsome, hnone⟩ := Edit.run_store (e := e) hb.marked
  have hedited : (e.apply b.store).dropPin.trim = (e.apply s.storage.store).trim := by
    rw [Edit.dropPin_apply]
    exact Edit.trim_apply e hb.store
  unfold Editing.edit
  split
  · exact ⟨h.staging, trivial⟩
  · next hrun =>
    refine ⟨h.staging, s.storage.store, s.storage.store, rfl, ?_⟩
    rw [hnone hrun, hb.store] at hedited
    exact hedited
  · next next hrun =>
    refine ⟨h.staging, next.length_toBytes, next.store, next.storeFromDiskInto_toBytes, ?_⟩
    rw [hsome hrun]
    exact hedited

theorem Sound.readEnd (h : s.Sound e) {src : Source} {acc : List UInt8} (hp : s.phase = .reading src acc)
    (hok : s.Undisturbed P .readEnd) : (s.readEnd e acc src).Sound e := by
  cases src with
  | file =>
    simp only [Editing.readEnd]
    split
    · next b hparse => exact h.edit (hok _ _ b hp hparse)
    · exact ⟨h.staging, trivial⟩
  | storeBlob =>
    simp only [Editing.readEnd]
    split
    · next b hparse => exact h.edit (hok _ _ b hp hparse)
    · exact ⟨h.staging, trivial⟩

/-- The driver adopts the edit from the file. -/
theorem Sound.restore (h : s.Sound e) {c : Commit} (hp : s.phase = .written c) {allocOk : Bool} {io : ReadIo}
    {u : Unit} {storage : Storage} (hr : restorePersistedStoreLocked allocOk io s.storage = (.ok u, storage)) :
    storage.StagingOk ∧ storage.store.trim = (e.apply s.storage.store).trim := by
  have hphase := h.phase
  rw [hp] at hphase
  obtain ⟨⟨hlen, st, hst, htrim⟩, hfile⟩ := hphase
  obtain ⟨r, hread, hstore⟩ := restore_ok hr
  rw [hfile] at hread
  have heq : r.1 = st := read_ok_of_store? (store?_of_storeFromDiskInto hlen hst) hread
  refine ⟨fun data len hs => h.staging data len ?_, by rw [hstore, heq]; exact htrim⟩
  have hstaging := restore_staging allocOk io s.storage
  rw [hr] at hstaging
  rw [← hstaging]
  exact hs

/-- The driver takes a part of the edit through `store_blob`. -/
theorem Sound.upload (h : s.Sound e) {c : Commit} {off : Nat} {out : String} (hp : s.phase = .uploading c off out)
    (n : Nat) (allocOk : Bool) {k : Nat} {storage : Storage}
    (hw : storeBlobWrite off ((c.bytes.drop off).take n) allocOk s.storage = (.ok k, storage)) :
    Sound e
      { storage := storage
        phase := .uploading c (off + ((c.bytes.drop off).take n).length) out
        adopted :=
          if storage.storeGeneration ≠ s.storage.storeGeneration then some (s.storage.store, storage.store)
          else s.adopted } := by
  have hphase := h.phase
  rw [hp] at hphase
  obtain ⟨hlen, hoff, hbefore, hafter⟩ := hphase
  have hlt : off < storeDiskSize := by
    -- A write at the end is refused.
    by_contra hge
    rw [storeBlobWrite, if_pos (.inl (by omega))] at hw
    cases hw
  obtain ⟨⟨_, st, hst, htrim⟩, hstaged⟩ := hbefore hlt
  rcases upload_cases hlen n allocOk h.staging hstaged hoff with ⟨_, herr, _⟩ | ⟨k', s', heq, hok, hfits, hcase⟩
  · rw [hw] at herr
    cases herr
  rw [hw] at heq
  obtain ⟨-, rfl⟩ := Prod.mk.injEq .. ▸ heq
  refine ⟨hok, hlen, hfits, fun hpart => ?_, fun hlast => ?_⟩
  · rcases hcase with ⟨_, hstore, _, hstaged'⟩ | ⟨hfull, _⟩
    · exact ⟨⟨hlen, st, hst, by rw [hstore]; exact htrim⟩, hstaged'⟩
    · omega
  · rcases hcase with ⟨hpart, _⟩ | ⟨_, hgen, st', hst', hstore⟩
    · omega
    · have hne : storage.storeGeneration ≠ s.storage.storeGeneration := by simp [hgen]
      rw [hst] at hst'
      cases hst'
      exact ⟨s.storage.store, storage.store, if_pos hne, by rw [hstore]; exact htrim⟩

theorem Sound.step {a : EditAction} (h : s.Sound e) (hok : s.Undisturbed P a) (hstep : s.step P e a = some s') :
    s'.Sound e := by
  have hphase := h.phase
  cases a with
  | driver op =>
    simp only [Editing.step] at hstep
    split at hstep
    · next hop => cases hstep; exact h.driver hop hok
    · cases hstep
  | readSome n load ids =>
    simp only [Editing.step] at hstep
    split at hstep <;> cases hstep
    · exact ⟨h.staging, trivial⟩
    · exact ⟨StoreOp.stagingOk h.staging (.load load ids), trivial⟩
  | readEnd =>
    simp only [Editing.step] at hstep
    split at hstep
    · next src acc hp =>
      split at hstep
      · split at hstep <;> cases hstep
        exact h.readEnd hp hok
      · split at hstep <;> cases hstep
        exact h.readEnd hp hok
    · cases hstep
  | readFails =>
    simp only [Editing.step] at hstep
    split at hstep <;> cases hstep <;> exact ⟨h.staging, trivial⟩
  | generation ok =>
    simp only [Editing.step] at hstep
    split at hstep
    · next next hp =>
      rw [hp] at hphase
      split at hstep <;> cases hstep
      · exact ⟨h.staging, trivial⟩
      · exact ⟨h.staging, hphase⟩
    · cases hstep
  | openFile =>
    simp only [Editing.step] at hstep
    split at hstep <;> cases hstep
    next c hp =>
    rw [hp] at hphase
    exact ⟨h.staging, hphase, Nat.zero_le _, rfl⟩
  | writeSome n =>
    simp only [Editing.step] at hstep
    split at hstep <;> cases hstep
    next c off hp =>
    rw [hp] at hphase
    obtain ⟨hcarries, hoff, hfile⟩ := hphase
    have hlen := hcarries.length_bytes
    refine ⟨h.staging, hcarries, ?_, ?_⟩
    · rw [List.length_take, List.length_drop]
      omega
    · show s.storage.file.writeAt off ((c.bytes.drop off).take n) = _
      rw [hfile]
      exact writeAt_take (by omega) n
  | writeEnd =>
    simp only [Editing.step] at hstep
    split at hstep
    · next c off hp =>
      split at hstep <;> cases hstep
      next hall =>
      rw [hp] at hphase
      obtain ⟨hcarries, _, hfile⟩ := hphase
      refine ⟨h.staging, hcarries, ?_⟩
      rw [hall, List.take_length] at hfile
      exact hfile
    · cases hstep
  | writeFails out =>
    have start : ∀ c, Carries e s.storage.store c.bytes →
        Sound e { s with phase := .uploading c 0 out } := by
      intro c hcarries
      refine ⟨h.staging, hcarries.length_bytes, Nat.zero_le _, fun _ => ⟨hcarries, fun _ => rfl, ?_⟩, fun h => ?_⟩
      · intro data len _
        rw [List.take_zero, List.take_zero]
      · exact absurd h (by decide)
    simp only [Editing.step] at hstep
    split at hstep <;> cases hstep
    · next c hp =>
      rw [hp] at hphase
      exact start c hphase
    · next c off hp =>
      rw [hp] at hphase
      exact start c hphase.1
  | restore allocOk io ok out =>
    simp only [Editing.step] at hstep
    split at hstep
    · next c hp =>
      split at hstep
      · next err storage hr =>
        cases hstep
        refine ⟨fun data len hs => h.staging data len ?_, trivial⟩
        have hstaging := restore_staging allocOk io s.storage
        rw [hr] at hstaging
        rw [← hstaging]
        exact hs
      · next u storage hr =>
        cases hstep
        obtain ⟨hok, hadopted⟩ := h.restore hp hr
        refine ⟨hok, ?_⟩
        cases ok with
        | true => exact ⟨_, _, rfl, hadopted⟩
        | false => trivial
    · cases hstep
  | restoreFails out =>
    simp only [Editing.step] at hstep
    split at hstep <;> cases hstep
    exact ⟨h.staging, trivial⟩
  | uploadSome n allocOk =>
    simp only [Editing.step] at hstep
    split at hstep
    · next c off out hp =>
      split at hstep
      · next err storage hw =>
        cases hstep
        have hok := blobWrite_stagingOk h.staging off ((c.bytes.drop off).take n) allocOk
        rw [hw] at hok
        exact ⟨hok, trivial⟩
      · next k storage hw =>
        cases hstep
        exact h.upload hp n allocOk hw
    · cases hstep
  | uploadEnd =>
    simp only [Editing.step] at hstep
    split at hstep
    · next c off out hp =>
      split at hstep <;> cases hstep
      next hall =>
      rw [hp] at hphase
      obtain ⟨hlen, _, _, hadopted⟩ := hphase
      exact ⟨h.staging, hadopted (hall.trans hlen)⟩
    · cases hstep
  | uploadFails =>
    simp only [Editing.step] at hstep
    split at hstep <;> cases hstep
    exact ⟨h.staging, trivial⟩
  | pollGeneration ok =>
    simp only [Editing.step] at hstep
    split at hstep <;> cases hstep
    next c attempts hp =>
    rw [hp] at hphase
    exact ⟨h.staging, hphase⟩
  | pollCount ok error =>
    simp only [Editing.step] at hstep
    split at hstep
    · next c attempts generation hp =>
      rw [hp] at hphase
      generalize (if ok = true then toIntOrNull (countCredentials s.storage.store) else none) = count at hstep
      split at hstep
      · cases hstep; exact ⟨h.staging, hphase⟩
      split at hstep <;> cases hstep
      · exact ⟨h.staging, hphase⟩
      · exact ⟨h.staging, trivial⟩
    · cases hstep

/-- **An edit that reports success lost nothing**: where the driver left its
store alone between the read and the adoption, the store it then has is the
edit of the one it held. -/
theorem kept_of_undisturbed (P : Platform) (e : Edit) (file : File) (ops : List StoreOp) (as : List EditAction)
    (s : Editing) (h : Runs (step P e) (Undisturbed P) (init (StoreOp.applyAll P (.boot file) ops)) as s) :
    s.Kept e := by
  have hinit : Sound e (init (StoreOp.applyAll P (.boot file) ops)) := ⟨stagingOk_applyAll file ops, trivial⟩
  exact (h.invariant (I := Sound e) (fun _ _ _ hI hok hstep => hI.step hok hstep) hinit).kept

/-! ## An edit that nothing hinders -/

def readRun : List EditAction := [.readSome storeDiskSize .ok ⟨zeros 16, zeros 32⟩, .readEnd]

/-- The blob of the driver's store is read from the file, and edited. -/
theorem read_succeeds (P : Platform) (e : Edit) {s : Storage} {next : FidoStoreBlob} {st : Store}
    (hfile : s.file = some (storeToDisk st)) (hstore : st.trim.dropPin.trim = s.store.trim)
    (hrun : e.run (.ofStore st) = .ok (some next)) :
    Runs (step P e) (Undisturbed P) (init s) readRun ⟨s, .committing next, none⟩ := by
  have hlen := length_storeToDisk st
  have hparse := FidoStoreBlob.parse_storeToDisk st
  have htake : (storeToDisk st).take storeDiskSize = storeToDisk st := List.take_of_length_le hlen.le
  have hacc : ([] : List UInt8) ++ ((s.file.getD []).drop 0).take storeDiskSize = storeToDisk st := by
    rw [hfile, Option.getD_some, List.drop_zero, List.nil_append, htake]
  have h1 : (init s).step P e (.readSome storeDiskSize .ok ⟨zeros 16, zeros 32⟩) =
      some ⟨s, .reading .file (storeToDisk st), none⟩ :=
    congrArg (fun acc => some (⟨s, .reading .file acc, none⟩ : Editing)) hacc
  have h2 : (⟨s, .reading .file (storeToDisk st), none⟩ : Editing).step P e .readEnd =
      some ⟨s, .committing next, none⟩ := by
    simp only [step, hfile, Option.getD_some, le_refl, if_true, Editing.readEnd, hparse, Editing.edit, hrun]
  refine .cons trivial h1 (.cons ?_ h2 (.nil _))
  intro src acc b hp hb
  simp only [Phase.reading.injEq] at hp
  obtain ⟨-, rfl⟩ := hp
  rw [hparse] at hb
  cases hb
  exact ⟨FidoStoreBlob.marked_ofStore st, by rw [FidoStoreBlob.store_ofStore]; exact hstore⟩

def commitRun : List EditAction :=
  [.generation true, .openFile, .writeSome storeDiskSize, .writeEnd, .restore true .ok true "", .pollGeneration true,
    .pollCount true ""]

theorem restore_of_read {io : ReadIo} {s : Storage} {r : Store × Bool} (h : readStoreFromPathLocked io s.file = .ok r) :
    ∃ s', restorePersistedStoreLocked true io s = (.ok (), s') ∧ s'.store = r.1.dropPin ∧
      s'.storeGeneration = s.storeGeneration + 1 := by
  unfold restorePersistedStoreLocked
  simp only [Bool.not_true, Bool.false_eq_true, if_false, h]
  refine ⟨_, rfl, finalize_store _, ?_⟩
  show (finalizeRestoredStoreLocked _).storeGeneration + 1 = _
  unfold finalizeRestoredStoreLocked
  split <;> rfl

/-- It succeeds, whatever store the driver holds by then. -/
theorem commit_succeeds (P : Platform) (e : Edit) {s : Editing} {next : FidoStoreBlob} (hp : s.phase = .committing next)
    (hm : next.Marked) (hgen : s.storage.storeGeneration.toNat + 1 < 2 ^ 31) :
    ∃ s', Runs (step P e) (Undisturbed P) s commitRun s' ∧ s'.phase = .done (.ok ()) ∧
      s'.adopted = some (s.storage.store, next.store.dropPin) := by
  have hbytes := next.length_toBytes
  let c : Commit := ⟨next.toBytes, next.credentials.length, (s.storage.storeGeneration.toNat : Int)⟩
  let onFile (file : File) (phase : Phase) : Editing := { s with storage := { s.storage with file := file }, phase := phase }
  have h1 : s.step P e (.generation true) = some { s with phase := .opening c } := by
    have hint : toIntOrNull s.storage.storeGeneration.toNat = some (s.storage.storeGeneration.toNat : Int) :=
      if_pos (by omega)
    simp only [step, hp, if_true, hint, c]
  have h2 : ({ s with phase := .opening c } : Editing).step P e .openFile = some (onFile (some []) (.writing c 0)) := rfl
  have h3 : (onFile (some []) (.writing c 0)).step P e (.writeSome storeDiskSize) =
      some (onFile (some next.toBytes) (.writing c storeDiskSize)) := by
    have hall : next.toBytes.take storeDiskSize = next.toBytes := List.take_of_length_le hbytes.le
    have hfile : File.writeAt (some (next.toBytes.take 0)) 0 ((next.toBytes.drop 0).take storeDiskSize) = _ :=
      writeAt_take (Nat.zero_le _) storeDiskSize
    simp only [List.take_zero, List.drop_zero, Nat.zero_add, hall, hbytes] at hfile
    simp only [step, onFile, c, List.drop_zero, hall, hfile, hbytes, Nat.zero_add]
  have h4 : (onFile (some next.toBytes) (.writing c storeDiskSize)).step P e .writeEnd =
      some (onFile (some next.toBytes) (.written c)) := by
    simp only [step, onFile, c, hbytes, if_true]
  have hread : readStoreFromPathLocked .ok (some next.toBytes) = .ok (next.store, false) := by
    have hne : next.toBytes.length ≠ storeDiskV1Size := by rw [hbytes]; decide
    rw [readStoreFromPathLocked, List.take_of_length_le hbytes.le, loadRead, if_neg hne, if_pos hbytes,
      next.storeFromDiskInto_toBytes]
    rfl
  obtain ⟨st, hrestore, hstore, hnext⟩ := restore_of_read (s := { s.storage with file := some next.toBytes }) hread
  let adopted : Option (Store × Store) := some (s.storage.store, st.store)
  have h5 : (onFile (some next.toBytes) (.written c)).step P e (.restore true .ok true "") =
      some ⟨st, .polling c 0 none, adopted⟩ := by
    simp only [step, onFile, hrestore, if_true, adopted]
  have hraised : st.storeGeneration.toNat = s.storage.storeGeneration.toNat + 1 := by
    rw [hnext, UInt32.toNat_add]
    show (s.storage.storeGeneration.toNat + 1) % 2 ^ 32 = _
    rw [Nat.mod_eq_of_lt (by omega)]
  have h6 : (⟨st, .polling c 0 none, adopted⟩ : Editing).step P e (.pollGeneration true) =
      some ⟨st, .polling c 0 (some (some (st.storeGeneration.toNat : Int))), adopted⟩ := by
    have hint : toIntOrNull st.storeGeneration.toNat = some (st.storeGeneration.toNat : Int) := if_pos (by omega)
    simp only [step, if_true, hint]
  have h7 : (⟨st, .polling c 0 (some (some (st.storeGeneration.toNat : Int))), adopted⟩ : Editing).step P e
      (.pollCount true "") = some ⟨st, .done (.ok ()), adopted⟩ := by
    have hsame : countCredentials st.store = next.credentials.length := by
      rw [hstore, FidoStoreBlob.length_credentials hm]
      simp only [countCredentials, Store.used, Store.dropPin_creds]
    have hfew : countCredentials st.store < 2 ^ 31 := by
      have hle : countCredentials st.store ≤ (List.finRange maxCreds).length := List.length_filter_le _ _
      rw [List.length_finRange] at hle
      exact lt_of_le_of_lt hle (by decide)
    have hint : toIntOrNull (countCredentials st.store) = some (countCredentials st.store : Int) := if_pos hfew
    rw [hsame] at hint
    have hgreater : c.generationBefore < (st.storeGeneration.toNat : Int) := by
      show (s.storage.storeGeneration.toNat : Int) < _
      omega
    simp only [step, if_true, hint, hsame, Option.any_some, hgreater, decide_true, Bool.true_and, c,
      beq_self_eq_true]
  refine ⟨_, .cons trivial h1 (.cons trivial h2 (.cons trivial h3 (.cons trivial h4 (.cons trivial h5
    (.cons trivial h6 (.cons trivial h7 (.nil _))))))), rfl, ?_⟩
  simp only [adopted, hstore]

/-! ## A key is renamed -/

/-- A first use finds the store of the file. -/
theorem load_of_file {P : Platform} (hP : P.persistEnabled = true) (st : Store) (hpin : st.pinSet = false) (ids : FreshIds) :
    StoreOp.applyAll P (.boot (some (storeToDisk st))) [.load .ok ids] =
      { store := st.trim, storeLoaded := true, storeDirty := false, storeGeneration := 1, staging := none,
        file := some (storeToDisk st) } := by
  have hread : readStoreFromPathLocked .ok (some (storeToDisk st)) = .ok (st.trim, false) := by
    rw [readStoreFromPathLocked, List.take_of_length_le (length_storeToDisk _).le, loadRead_storeToDisk]
  have hpin' : st.trim.pinSet = false := hpin
  simp [StoreOp.applyAll, StoreOp.apply, loadStoreLocked, Storage.boot, hP, hread, finalizeRestoredStoreLocked, hpin']

/-- The key in the first slot is renamed to `b`. -/
def renameKey : Edit := .rename firstSlot [0x62] [0x42]

/-- It can be, in any store with a key there. -/
theorem run_renameKey {st : Store} (h : (st.creds firstSlot).inUse = true) :
    renameKey.run (.ofStore st) = .ok (some ((FidoStoreBlob.ofStore st).withRenamedSlot firstSlot [0x62] [0x42])) := by
  have hsome := FidoStoreBlob.credentialAt_isSome (FidoStoreBlob.marked_ofStore st) firstSlot
  rw [FidoStoreBlob.store_ofStore, Store.trim, Credential.trim_inUse, h] at hsome
  have hthere : ((FidoStoreBlob.ofStore st).credentialAt firstSlot).isNone = false := by
    rw [← Option.not_isSome, hsome]
    rfl
  simp only [renameKey, Edit.run, hthere, Bool.false_eq_true, if_false]

/-- The rename, with something of the driver's in between. -/
theorem rename_run {P : Platform} (hP : P.persistEnabled = true) (st : Store) (hpin : st.pinSet = false)
    (hkey : (st.creds firstSlot).inUse = true) (ids : FreshIds) (op : StoreOp) (hop : op.ofDriver = true)
    (hgen : ∀ s, (op.apply P s).storeGeneration = s.storeGeneration) {ok : Editing → EditAction → Prop}
    (hquiet : ∀ s a, Undisturbed P s a → ok s a) (hop' : ∀ s, s.storage.store = st.trim → ok s (.driver op)) :
    ∃ held s, held.store = st.trim ∧
      Runs (step P renameKey) ok (init (StoreOp.applyAll P (.boot (some (storeToDisk st))) [.load .ok ids]))
        (readRun ++ .driver op :: commitRun) s ∧
      s.phase = .done (.ok ()) ∧
      s.adopted = some ((op.apply P held).store, (st.trim.withRenamedSlot firstSlot [0x62] [0x42]).dropPin) := by
  rw [load_of_file hP st hpin]
  obtain ⟨held, hs⟩ : ∃ held : Storage, held =
      { store := st.trim, storeLoaded := true, storeDirty := false, storeGeneration := 1, staging := none,
        file := some (storeToDisk st) } := ⟨_, rfl⟩
  rw [← hs]
  have hstore : held.store = st.trim := by rw [hs]
  have hmarked := (FidoStoreBlob.marked_ofStore st).withRenamedSlot firstSlot [0x62] [0x42]
  have hpin' : st.trim.dropPin = st.trim := if_neg (by simp [Store.trim, hpin])
  have hread := read_succeeds P renameKey (s := held) (by rw [hs]) (by rw [hstore, hpin']) (run_renameKey hkey)
  have hsmall : (op.apply P held).storeGeneration.toNat + 1 < 2 ^ 31 := by
    have hone : held.storeGeneration = 1 := by rw [hs]
    rw [hgen, hone]
    decide
  obtain ⟨s, hcommit, hdone, hadopted⟩ := commit_succeeds P renameKey
    (s := ⟨op.apply P held, .committing ((FidoStoreBlob.ofStore st).withRenamedSlot firstSlot [0x62] [0x42]), none⟩)
    rfl hmarked hsmall
  rw [FidoStoreBlob.store_withRenamedSlot, FidoStoreBlob.store_ofStore] at hadopted
  refine ⟨held, s, hstore, (hread.mono hquiet).append (.cons (hop' _ hstore) ?_ (hcommit.mono hquiet)), hdone, hadopted⟩
  simp only [step, hop, if_true]

theorem kept_renameRun : ∃ s, Runs (step .persistent renameKey) (Undisturbed .persistent)
    (init (StoreOp.applyAll .persistent (.boot (some (storeToDisk keyStore))) [.load .ok ⟨zeros 16, zeros 32⟩]))
    (readRun ++ .driver .dirty :: commitRun) s ∧ s.phase = .done (.ok ()) ∧ s.Kept renameKey := by
  obtain ⟨_, s, _, hrun, hdone, _⟩ := rename_run (P := .persistent) rfl keyStore rfl rfl ⟨zeros 16, zeros 32⟩
    .dirty rfl (fun _ => rfl) (fun _ _ h => h) fun _ _ => ⟨fun _ => rfl, fun _ => rfl⟩
  exact ⟨s, hrun, hdone, kept_of_undisturbed .persistent renameKey _ _ _ s hrun⟩

/-- A credential made between the read and the adoption is lost, and the rename reports success. -/
theorem exists_not_kept : ∃ e file ops as s,
    Runs (step .persistent e) (fun _ _ => True) (init (StoreOp.applyAll .persistent (.boot file) ops)) as s ∧
      ¬ s.Kept e := by
  have hgen : ∀ s, (StoreOp.apply .persistent s (.mint (keyOf 2))).storeGeneration = s.storeGeneration := by
    intro s
    simp only [StoreOp.apply]
    split <;> rfl
  obtain ⟨held, s, hstore, hrun, hdone, hadopted⟩ := rename_run (P := .persistent) rfl keyStore rfl rfl
    ⟨zeros 16, zeros 32⟩ (.mint (keyOf 2)) rfl hgen (fun _ _ _ => True.intro) fun _ _ => True.intro
  refine ⟨renameKey, _, _, _, s, hrun, fun h => ?_⟩
  obtain ⟨held', new, heq, hnew⟩ := h hdone
  rw [hadopted] at heq
  cases heq
  have hslot : allocCredentialLocked held.store = some ⟨1, by decide⟩ := by
    rw [hstore]
    decide +kernel
  have hadded : (StoreOp.apply .persistent held (.mint (keyOf 2))).store =
      { keyStore.trim with creds := Function.update keyStore.trim.creds ⟨1, by decide⟩ (keyOf 2) } := by
    simp only [StoreOp.apply, hslot, Storage.setCred]
    rw [hstore]
  -- The second slot is in use in the store that was held, and free in the one adopted.
  have hsecond := congrArg (fun st => (st.creds ⟨1, by decide⟩).inUse) hnew
  rw [hadded] at hsecond
  simp only [Edit.apply, renameKey] at hsecond
  revert hsecond
  decide +kernel

end Editing

end AbkFido
