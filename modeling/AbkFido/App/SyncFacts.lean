/-
What a sync that reports success leaves.

Counts decide what is copied where, so where the driver's count and the
blob's differ, or the driver holds nothing, the two agree afterwards. Where
they are equal nothing is compared and nothing copied; and a driver that
holds some credentials but fewer than the blob is given the blob's.
-/
import AbkFido.App.EditRuns
import AbkFido.App.Sync
import AbkFido.Loaded
import AbkFido.Survive

namespace AbkFido

/-! ## Counting -/

theorem countCredentials_le (st : Store) : countCredentials st ≤ maxCreds := by
  have hle : countCredentials st ≤ (List.finRange maxCreds).length := List.length_filter_le _ _
  rwa [List.length_finRange] at hle

theorem toIntOrNull_count (st : Store) : toIntOrNull (countCredentials st) = some (countCredentials st : Int) := by
  have hle := countCredentials_le st
  have hmax : maxCreds < 2 ^ 31 := by decide
  exact if_pos (hle.trans_lt hmax)

/-- In a version 2 blob the count is that of the marks. -/
theorem storeCredentialCount_of_marks {bytes : List UInt8} (hlen : bytes.length = storeDiskSize)
    (hversion : readIntLe bytes offVersion = storeVersion) {used : Fin maxCreds → Bool}
    (hmark : ∀ i : Fin maxCreds, (bytes[headerSize + i.val * credSize]? == some 1) = used i) :
    storeCredentialCount bytes = ((List.finRange maxCreds).countP used : Nat) := by
  have hv1 : readIntLe bytes offVersion ≠ 1 := by rw [hversion]; decide
  have hslots : min ((bytes.length - headerSize) / credSize) maxCreds = maxCreds := by rw [hlen]; decide
  have hbig : ¬ bytes.length < headerSize := by rw [hlen]; decide
  simp only [storeCredentialCount, if_neg hbig, if_neg hv1, hslots, Nat.cast_inj]
  rw [← List.map_coe_finRange_eq_range, List.countP_map]
  exact List.countP_congr fun i _ => by rw [Function.comp, hmark i]

/-- The driver marks the slots in use. -/
theorem mark_storeToDisk (st : Store) (i : Fin maxCreds) :
    ((storeToDisk st)[headerSize + i.val * credSize]? == some 1) = (st.creds i).inUse := by
  let b := FidoStoreBlob.ofStore st
  have hfits := slot_fits i
  have hin : headerSize + i.val * credSize < (storeToDisk st).length := by
    rw [length_storeToDisk]
    simp only [slotOffset, credSize] at hfits ⊢
    omega
  have hbyte : (storeToDisk st)[headerSize + i.val * credSize]? = some (b.inUseByte i) := by
    rw [List.getElem?_eq_getElem hin, FidoStoreBlob.inUseByte]
    exact congrArg some (List.getElem_eq_getD 0)
  have hfree := (FidoStoreBlob.marked_ofStore st).free_iff i
  rw [FidoStoreBlob.store_ofStore, Store.trim, Credential.trim_inUse] at hfree
  rw [hbyte]
  show (b.inUseByte i == 1) = _
  simpa [bne] using hfree

/-- The companion counts what the driver counts, in a blob of the driver's. -/
theorem storeCredentialCount_storeToDisk (st : Store) :
    storeCredentialCount (storeToDisk st) = (countCredentials st : Int) := by
  rw [storeCredentialCount_of_marks (length_storeToDisk st) (version_storeToDisk st) (mark_storeToDisk st),
    List.countP_eq_length_filter]
  rfl

/-! ## What is promised -/

/-- Nothing that a sync reads comes out short or not at all, and the drain's
write does not fail. -/
structure SyncIo.Works (io : SyncIo) : Prop where
  count : io.count = true
  blob : io.blob = .works
  kernelBlob : io.kernelBlob = .works
  drain : io.drain = .works
  restore : ∀ n, io.restore ≠ .short n

namespace SyncState

/-- The file holds a blob. -/
def HasBlob (s : SyncState) : Prop := ∃ bytes, s.storage.file = some bytes ∧ bytes ≠ []

/-- The driver's loader takes the file, and finds the credentials the driver holds. -/
def Agree (s : SyncState) : Prop :=
  ∃ st, s.storage.file.store? = some st ∧ ∀ id, id ∈ st.credIds ↔ id ∈ s.storage.store.credIds

/-- The driver's count. -/
def counted (s : SyncState) : Int := countCredentials s.storage.store

/-- The count of the file's blob. -/
def persisted (s : SyncState) : Int := persistedCount (nonEmpty s.storage.file)

/-- A sync from `s` to `s'` has done what counting can do. -/
structure Synced (s s' : SyncState) : Prop where
  agree : s.counted ≠ s.persisted ∨ s.counted = 0 → s'.Agree
  untouched : s.counted = s.persisted → s.counted ≠ 0 → s'.storage = s.storage
  kept : ¬ (0 < s.counted ∧ s.counted < s.persisted) → ∀ id ∈ s.storage.store.credIds, id ∈ s'.storage.store.credIds
  /-- A driver that held some but fewer has the blob's, and the blob is left as it was. -/
  given : 0 < s.counted → s.counted < s.persisted → s'.storage.file = s.storage.file ∧
    ∃ st, s.storage.file.store? = some st ∧ ∀ id, id ∈ st.credIds ↔ id ∈ s'.storage.store.credIds

variable {P : Platform} {io : SyncIo} {s s' : SyncState}

theorem exportDatabase_storage (h : exportDatabase io s = (true, s')) : s'.storage = s.storage := by
  unfold exportDatabase at h
  split at h <;> cases h
  rfl

/-- The driver restores what the loader finds in the file, and that is the blob. -/
theorem restoreKernel_agree (hio : ∀ n, io.restore ≠ .short n) {blob : List UInt8} {target : Int}
    (h : restoreKernelFromBlob io blob target s = (true, s')) : s'.Agree ∧ s'.storage.file = some blob := by
  simp only [restoreKernelFromBlob] at h
  split at h
  · cases h
  next file hwrite =>
  have hwritten : file = some blob := by
    rcases hexport : io.exportBlob with (_ | k) | _ <;> rw [hexport] at hwrite <;> cases hwrite
    rfl
  split at h
  · cases h
  next storage hrestore =>
  obtain ⟨r, hread, hstore⟩ := restore_ok hrestore
  have hfile : storage.file = file := by
    have heq := congrArg (fun r => r.2.file) hrestore
    simp only [restorePersistedStoreLocked] at heq
    split at heq
    · exact heq.symm
    split at heq
    · exact heq.symm.trans (finalize_file _)
    · exact heq.symm
  have hfound : storage.file.store? = some r.1 := by
    rw [hfile]
    change readStoreFromPathLocked io.restore file = .ok r at hread
    cases hr : io.restore with
    | ok => rw [hr] at hread; rw [File.store?, hread]
    | short n => exact absurd hr (hio n)
    | openError e => rw [hr] at hread; cases hread
    | allocError => rw [hr] at hread; cases file <;> cases hread
    | readError e => rw [hr] at hread; cases file <;> cases hread
  have hids : storage.store.credIds = r.1.credIds := by
    rw [hstore]
    simp only [Store.credIds, Store.used, Store.dropPin_creds]
  split at h
  · cases h
  · have heq := (Prod.mk.inj h).2
    subst heq
    exact ⟨⟨r.1, hfound, fun id => by rw [hids]⟩, hfile.trans hwritten⟩

theorem restoreAndExport_agree (hio : ∀ n, io.restore ≠ .short n) {blob : List UInt8}
    (h : restoreAndExport io blob s = (true, s')) : s'.Agree ∧ s'.storage.file = some blob := by
  simp only [restoreAndExport] at h
  split at h
  · cases h
  next t hrestore =>
  obtain ⟨⟨st, hfile, hids⟩, hblob⟩ := restoreKernel_agree hio hrestore
  have hstorage := exportDatabase_storage h
  exact ⟨⟨st, by rw [hstorage, hfile], fun id => by rw [hids, hstorage]⟩, by rw [hstorage, hblob]⟩

/-! ## The three cases -/

/-- Counts that call for a restore. -/
theorem settle_restored (hio : ∀ n, io.restore ≠ .short n) {count : Int} {blob : List UInt8}
    (hrestore : shouldRestoreKernel count (storeCredentialCount blob) = true)
    (h : settle io count (some blob) s = (true, s')) : s'.Agree ∧ s'.storage.file = some blob := by
  simp only [settle, hrestore, if_true] at h
  split at h
  · cases h
  · exact restoreAndExport_agree hio h

/-- Counts that do not. -/
theorem settle_left {count : Int} {blob : List UInt8}
    (hleft : shouldRestoreKernel count (storeCredentialCount blob) = false)
    (h : settle io count (some blob) s = (true, s')) : s'.storage = s.storage := by
  simp only [settle, hleft, Bool.false_eq_true, if_false] at h
  split at h
  · cases h
  · have hstorage := exportDatabase_storage h
    exact hstorage

/-- There was no blob, and the driver held nothing. -/
theorem settle_none (hio : ∀ n, io.restore ≠ .short n) (h : settle io 0 none s = (true, s')) :
    s'.Agree ∨ s'.storage = s.storage := by
  simp only [settle] at h
  split at h
  · split at h
    · cases h
    split at h
    · cases h
    · exact .inl (restoreAndExport_agree hio h).1
  · exact .inr (exportDatabase_storage h)

/-- What the steps before the first look at the counts leave. -/
theorem prepared_storage (ensure importDb : Bool) (s : SyncState) :
    (importDatabase importDb (ensureEmptyFile ensure s)).storage.store = s.storage.store ∧
      (importDatabase importDb (ensureEmptyFile ensure s)).storage.storeLoaded = s.storage.storeLoaded ∧
      nonEmpty (importDatabase importDb (ensureEmptyFile ensure s)).storage.file = nonEmpty s.storage.file ∧
      (s.storage.file.isSome = true → (importDatabase importDb (ensureEmptyFile ensure s)).storage = s.storage) := by
  have himport : ∀ t, (importDatabase importDb t).storage = t.storage := by
    intro t
    unfold importDatabase
    split
    · split <;> rfl
    · rfl
  rw [himport]
  unfold ensureEmptyFile
  split
  · next hnone =>
    have hfile : s.storage.file = none := by simpa using (Bool.and_eq_true_iff.mp hnone).2
    refine ⟨rfl, rfl, ?_, fun hsome => ?_⟩
    · rw [hfile]
      rfl
    · rw [hfile] at hsome
      cases hsome
  · exact ⟨rfl, rfl, rfl, fun _ => rfl⟩

/-- A drain of a loaded store copies it to the file. -/
theorem drainKernel_loaded (hio : io.Works) (hloaded : s.storage.storeLoaded = true) :
    drainKernel P io s.counted s =
      (some (storeToDisk s.storage.store),
        { s.setFile (some (storeToDisk s.storage.store)) with snapshot := some (storeToDisk s.storage.store) }) := by
  have hne : (storeToDisk s.storage.store).isEmpty = false := by
    rw [List.isEmpty_eq_false_iff, ← List.length_pos_iff, length_storeToDisk]
    decide
  have hread : readStoreBlob P io s = (some (storeToDisk s.storage.store), s) := by
    simp only [readStoreBlob, hio.kernelBlob, StoreOp.load_of_loaded hloaded, ShellRead.out, nonEmpty,
      Option.filter_some, hne, Bool.not_false, if_true]
  simp only [drainKernel, hread, storeCredentialCount_storeToDisk, counted, ne_eq, not_true_eq_false, if_false,
    hio.drain, ShellWrite.run]

/-- The counts, before and after the preparations. -/
theorem counts_prepared (hio : io.Works) {t : SyncState} (hstore : t.storage.store = s.storage.store)
    (hfile : nonEmpty t.storage.file = nonEmpty s.storage.file) :
    readCredentialCount io t = s.counted ∧ readPersistedBlob io.blob t = nonEmpty s.storage.file := by
  constructor
  · simp only [readCredentialCount, hio.count, if_true, toIntOrNull_count, Option.getD_some, hstore, counted]
  · have hread : ∀ file : File, file.bind ShellRead.works.out = file := by
      intro file
      cases file <;> rfl
    rw [readPersistedBlob, hio.blob, hread, hfile]

theorem nonEmpty_eq_some {file : File} {blob : List UInt8} (h : nonEmpty file = some blob) : file = some blob :=
  (Option.filter_eq_some_iff.mp h).1

/-- **What a sync that reports success leaves**, where nothing it reads comes
out short and the file still holds a blob. -/
theorem synced (hlive : s.storage.Live) (hio : io.Works) (h : syncNow P io s = (true, s')) (hblob : s'.HasBlob) :
    s.Synced s' := by
  unfold syncNow at h
  split at h
  · cases h
  obtain ⟨hstore, hloaded, hfile, hsame⟩ := prepared_storage io.ensure io.importDb s
  generalize importDatabase io.importDb (ensureEmptyFile io.ensure s) = t at h hstore hloaded hfile hsame
  obtain ⟨hcount, hread⟩ := counts_prepared hio hstore hfile
  have hcounted : t.counted = s.counted := by rw [counted, counted, hstore]
  have hpos : 0 ≤ s.counted := Int.natCast_nonneg _
  simp only [hcount, hread] at h
  by_cases hzero : s.counted = 0
  · -- The driver holds nothing: whatever blob there is, it is restored.
    have hempty : s.storage.store.credIds = [] := by
      have hlen : countCredentials s.storage.store = 0 := by simpa [counted] using hzero
      rw [Store.credIds, List.map_eq_nil_iff]
      exact List.length_eq_zero_iff.mp hlen
    have hrestore : ∀ n, shouldRestoreKernel 0 n = true := fun n => rfl
    have hagree : s'.Agree := by
      rw [hzero] at h
      cases hb : nonEmpty s.storage.file with
      | some blob =>
        rw [hb] at h
        split at h
        · cases hd : (drainKernel P io 0 t).1 with
          | some kernelBlob =>
            simp only [hd, Option.some_or] at h
            exact (settle_restored hio.restore (hrestore _) h).1
          | none =>
            simp only [hd, Option.none_or] at h
            exact (settle_restored hio.restore (hrestore _) h).1
        · exact (settle_restored hio.restore (hrestore _) h).1
      | none =>
        rw [hb] at h
        split at h
        · next hdrain => simp [shouldDrainKernelToPersistence, persistedCount] at hdrain
        · rcases settle_none hio.restore h with hagree | hstorage
          · exact hagree
          · -- No blob at all: then there is none afterwards.
            obtain ⟨bytes, hbytes, hne⟩ := hblob
            rw [hstorage] at hbytes
            rw [hb, hbytes] at hfile
            simp [nonEmpty, Option.filter, hne] at hfile
    refine ⟨fun _ => hagree, fun _ hne => absurd hzero hne, fun _ id hid => ?_, fun hsome => absurd hzero hsome.ne'⟩
    rw [hempty] at hid
    cases hid
  · have hthis : s.storage.storeLoaded = true := by
      refine hlive.resolve_right fun hno => hzero ?_
      rw [counted, countCredentials, hno.used]
      rfl
    have hpersisted : persistedCount (nonEmpty s.storage.file) = s.persisted := rfl
    rw [hpersisted] at h
    split at h
    · next hdrain =>
      -- The driver is ahead: its store goes to the file.
      have hmore : s.persisted < s.counted := by simpa [shouldDrainKernelToPersistence] using hdrain
      rw [← hcounted, drainKernel_loaded hio (hloaded.trans hthis), Option.some_or] at h
      have hleft : shouldRestoreKernel t.counted (storeCredentialCount (storeToDisk t.storage.store)) = false := by
        rw [storeCredentialCount_storeToDisk, shouldRestoreKernel, hcounted]
        have hsamecount : ((countCredentials t.storage.store : Nat) : Int) = s.counted := hcounted
        simp [hsamecount, hzero]
      have hstorage := settle_left hleft h
      refine ⟨fun _ => ?_, fun heq => absurd heq (by omega), fun _ id hid => ?_, fun _ hless => absurd hless (by omega)⟩
      · refine ⟨t.storage.store.trim, ?_, fun id => ?_⟩
        · rw [hstorage]
          exact store?_storeToDisk _
        · rw [Store.credIds_trim, hstorage]
          rfl
      · rw [hstorage]
        show id ∈ t.storage.store.credIds
        rw [hstore]
        exact hid
    · next hnodrain =>
      have hle : s.counted ≤ s.persisted := by simpa [shouldDrainKernelToPersistence] using hnodrain
      cases hb : nonEmpty s.storage.file with
      | none =>
        have hnone : s.persisted = 0 := by rw [persisted, hb]; rfl
        omega
      | some blob =>
        rw [hb] at h
        have htarget : s.persisted = storeCredentialCount blob := by rw [persisted, hb]; rfl
        by_cases heq : s.counted = s.persisted
        · -- Equal counts: nothing is compared, and nothing done.
          have hleft : shouldRestoreKernel s.counted (storeCredentialCount blob) = false := by
            rw [← htarget, ← heq, shouldRestoreKernel]
            simp [hzero]
          have hstorage : s'.storage = s.storage := by
            rw [settle_left hleft h]
            exact hsame (by rw [nonEmpty_eq_some hb]; rfl)
          refine ⟨fun hne => ?_, fun _ _ => hstorage, fun _ id hid => by rwa [hstorage], fun _ hless => absurd heq hless.ne⟩
          rcases hne with hne | hne
          · exact absurd heq hne
          · exact absurd hne hzero
        · have hless : 0 < s.counted ∧ s.counted < s.persisted := by omega
          have hrestore : shouldRestoreKernel s.counted (storeCredentialCount blob) = true := by
            rw [← htarget, shouldRestoreKernel]
            have hpositive : 0 < s.persisted := by omega
            simp [hless.2, hpositive]
          obtain ⟨hagree, hwritten⟩ := settle_restored hio.restore hrestore h
          have hleft : s'.storage.file = s.storage.file := hwritten.trans (nonEmpty_eq_some hb).symm
          refine ⟨fun _ => hagree, fun heq' => absurd heq' heq, fun hno => absurd hless hno, fun _ _ => ⟨hleft, ?_⟩⟩
          obtain ⟨st, hst, hids⟩ := hagree
          exact ⟨st, by rw [← hleft, hst], hids⟩

end SyncState

end AbkFido
