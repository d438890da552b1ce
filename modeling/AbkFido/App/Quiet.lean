/-
Whether syncs come to rest.

The service asks for a sync whenever the store's generation has moved, and a
restore moves it. Where the driver, the file and the snapshot agree a sync
leaves the storage alone exactly if the driver's count is read, is at least
one, and is the count of the blob (`quiet_iff`). An empty store is therefore
restored by every sync, each of which calls for the next (`syncs_on`).
-/
import AbkFido.App.SyncRuns

namespace AbkFido

/-! ## The service -/

/-- `FidoSyncService`, as far as it schedules syncs. -/
structure SyncService where
  sync : SyncState
  /-- -1 before the first look. -/
  lastObservedStoreGeneration : Int
  syncRequested : Bool
  syncInFlight : Bool

namespace SyncService

/-- `readStoreGeneration` -/
def readStoreGeneration (ok : Bool) (v : SyncService) : Option Int :=
  if ok then toIntOrNull v.sync.storage.storeGeneration.toNat else none

def maybeScheduleStoreSync (ok : Bool) (v : SyncService) : SyncService :=
  match v.readStoreGeneration ok with
  | none => v
  | some generation =>
    if v.lastObservedStoreGeneration = -1 then { v with lastObservedStoreGeneration := generation }
    else if generation = v.lastObservedStoreGeneration then v
    else { v with lastObservedStoreGeneration := generation, syncRequested := true }

def kickSyncIfNeeded (v : SyncService) : SyncService :=
  if !v.syncRequested || v.syncInFlight then v else { v with syncRequested := false, syncInFlight := true }

/-- The thread that `kickSyncIfNeeded` starts, to its end. -/
def finishSync (P : Platform) (io : SyncIo) (v : SyncService) : SyncService :=
  { v with sync := (SyncState.syncNow P io v.sync).2, syncInFlight := false }

end SyncService

inductive ServiceAction
  | poll (ok : Bool)
  | kick
  | sync (io : SyncIo)

namespace SyncService

def step (P : Platform) (v : SyncService) : ServiceAction → Option SyncService
  | .poll ok => some (v.maybeScheduleStoreSync ok)
  | .kick => some v.kickSyncIfNeeded
  | .sync io => if v.syncInFlight then some (v.finishSync P io) else none

/-- The generation the driver is at is the one last seen, if one was. -/
def Observed (v : SyncService) : Prop :=
  v.lastObservedStoreGeneration = -1 ∨ toIntOrNull v.sync.storage.storeGeneration.toNat = some v.lastObservedStoreGeneration

/-- A poll of an unchanged generation asks for nothing. -/
theorem poll_observed {v : SyncService} (h : v.Observed) (ok : Bool) :
    (v.maybeScheduleStoreSync ok).syncRequested = v.syncRequested := by
  unfold maybeScheduleStoreSync readStoreGeneration
  split
  · rfl
  next generation hread =>
  split
  · rfl
  next hseen =>
  have hgeneration : generation = v.lastObservedStoreGeneration := by
    split at hread
    · have hobserved := h.resolve_left hseen
      rw [hobserved] at hread
      exact (Option.some.inj hread).symm
    · cases hread
  rw [if_pos hgeneration]

end SyncService

/-! ## What is asked of a sync -/

/-- What a sync decides by comes out the same. -/
structure SyncIo.SameReads (io io' : SyncIo) : Prop where
  root : io'.root = io.root
  count : io'.count = io.count
  blob : io'.blob = io.blob

/-- The same reads, and writes that truncate the file and fail. -/
def SyncIo.failing (io : SyncIo) (kernelBlob : ShellRead) : SyncIo :=
  { io with importDb := false, kernelBlob := kernelBlob, drain := .fails (some 0), exportBlob := .fails (some 0) }

namespace SyncState

/-- The driver holds the store the file decodes to, and the snapshot is the file. -/
structure Settled (s : SyncState) : Prop where
  live : s.storage.Live
  agree : ∃ st, s.storage.file.store? = some st ∧ st.trim = s.storage.store.trim
  snapshot : s.snapshot = s.storage.file

/-- A sync writes no file and triggers no restore: however its writes go, the
storage is what it was; and the next poll asks for no sync. -/
def Quiet (P : Platform) (io : SyncIo) (s : SyncState) : Prop :=
  ∀ io', io.SameReads io' →
    (syncNow P io' s).2.storage = s.storage ∧
      ∀ v : SyncService, v.sync = s → v.Observed →
        ∀ ok, ((v.finishSync P io').maybeScheduleStoreSync ok).syncRequested = v.syncRequested

/-- The driver's count and the blob's are read, and are the same number, at least one. -/
def CountsMatch (io : SyncIo) (s : SyncState) : Prop :=
  0 < readCredentialCount io s ∧ persistedCount (readPersistedBlob io.blob s) = readCredentialCount io s

variable {P : Platform} {io io' : SyncIo} {s : SyncState}

/-! ## At rest -/

theorem exportDatabase_keeps (io : SyncIo) (s : SyncState) : (exportDatabase io s).2.storage = s.storage := by
  unfold exportDatabase
  split <;> rfl

/-- Equal counts, not zero: nothing is copied. -/
theorem settle_keeps {blob : List UInt8} (hpos : 0 < storeCredentialCount blob) (s : SyncState) :
    (settle io (storeCredentialCount blob) (some blob) s).2.storage = s.storage := by
  have hnat : ¬ storeCredentialCount blob < 0 := by omega
  have hleft : shouldRestoreKernel (storeCredentialCount blob) (storeCredentialCount blob) = false := by
    rw [shouldRestoreKernel]
    simp [hpos.ne']
  simp only [settle, hnat, if_false, hleft, Bool.false_eq_true, exportDatabase_keeps]

theorem persistedCount_pos {blob : Option (List UInt8)} (h : 0 < persistedCount blob) :
    ∃ bytes, blob = some bytes ∧ persistedCount blob = storeCredentialCount bytes := by
  cases blob with
  | none => cases h
  | some bytes => exact ⟨bytes, rfl, rfl⟩

/-- The reads before the decision, after the preparations. -/
theorem reads_prepared (h : io.SameReads io') (hfile : s.storage.file.isSome = true) :
    ∃ t, importDatabase io'.importDb (ensureEmptyFile io'.ensure s) = t ∧ t.storage = s.storage ∧
      readCredentialCount io' t = readCredentialCount io s ∧ readPersistedBlob io'.blob t = readPersistedBlob io.blob s := by
  have hsame := (prepared_storage io'.ensure io'.importDb s).2.2.2 hfile
  refine ⟨_, rfl, hsame, ?_, ?_⟩
  · rw [readCredentialCount, readCredentialCount, hsame, h.count]
  · rw [readPersistedBlob, readPersistedBlob, hsame, h.blob]

theorem Settled.hasFile (h : s.Settled) : s.storage.file.isSome = true := by
  obtain ⟨st, hst, -⟩ := h.agree
  cases hfile : s.storage.file with
  | none => rw [hfile] at hst; cases hst
  | some bytes => rfl

/-- A sync whose counts match leaves the storage alone. -/
theorem syncNow_keeps (hfile : s.storage.file.isSome = true) (hmatch : CountsMatch io s) (h : io.SameReads io') :
    (syncNow P io' s).2.storage = s.storage := by
  obtain ⟨t, ht, hstorage, hcount, hblob⟩ := reads_prepared h hfile
  obtain ⟨hpos, heq⟩ := hmatch
  obtain ⟨bytes, hbytes, hpersisted⟩ := persistedCount_pos (heq ▸ hpos)
  have hcounts : readCredentialCount io s = storeCredentialCount bytes := by rw [← heq, hpersisted]
  unfold syncNow
  split
  · rfl
  · simp only [ht, hcount, hblob, hbytes, hcounts, shouldDrainKernelToPersistence, persistedCount, Option.map_some,
      Option.getD_some, lt_self_iff_false, decide_false, Bool.false_eq_true, if_false]
    rw [settle_keeps (by omega), hstorage]

/-! ## Not at rest -/

theorem restoreAndExport_empties (kernelBlob : ShellRead) (blob : List UInt8) (s : SyncState) :
    (restoreAndExport (io.failing kernelBlob) blob s).2.storage.file = some [] := rfl

theorem exportDatabase_file (h : s.storage.file = some []) : (exportDatabase io s).2.storage.file = some [] := by
  rw [exportDatabase_keeps, h]

theorem settle_stays_empty {kernelBlob : ShellRead} {count : Int} {blob : Option (List UInt8)}
    (h : s.storage.file = some []) : (settle (io.failing kernelBlob) count blob s).2.storage.file = some [] := by
  cases blob with
  | some blob =>
    simp only [settle]
    split
    · exact h
    split
    · exact restoreAndExport_empties ..
    · exact exportDatabase_file h
  | none =>
    simp only [settle]
    split
    · split
      · exact h
      split
      · exact h
      · exact restoreAndExport_empties ..
    · exact exportDatabase_file h

/-- A blob that calls for a restore. -/
theorem settle_empties {kernelBlob : ShellRead} {count : Int} {blob : List UInt8} (hnat : ¬ storeCredentialCount blob < 0)
    (hdo : shouldRestoreKernel count (storeCredentialCount blob) = true) :
    (settle (io.failing kernelBlob) count (some blob) s).2.storage.file = some [] := by
  simp only [settle, hnat, if_false, hdo, if_true]
  exact restoreAndExport_empties ..

/-- A drain that finds the count it expects writes the file. -/
theorem drainKernel_empties {read : ShellRead} {blob : List UInt8} {t : SyncState}
    (hread : readStoreBlob P (io.failing read) s = (some blob, t)) {count : Int} (hcount : storeCredentialCount blob = count) :
    ∃ u, drainKernel P (io.failing read) count s = (none, u) ∧ u.storage.file = some [] := by
  refine ⟨t.setFile (some []), ?_, rfl⟩
  simp only [drainKernel, hread, hcount, ne_eq, not_true_eq_false, if_false]
  rfl

theorem storeCredentialCount_header {blob : List UInt8} (h : headerSize ≤ blob.length) :
    storeCredentialCount (blob.take headerSize) = 0 := by
  have hlen : (blob.take headerSize).length = headerSize := by rw [List.length_take]; omega
  have hzero : ∀ n, min (0 / n) maxCreds = 0 := fun n => by rw [Nat.zero_div, Nat.zero_min]
  simp only [storeCredentialCount, hlen, lt_irrefl, if_false, Nat.sub_self, hzero]
  rfl

theorem storeCredentialCount_nonneg {blob : List UInt8} (h : headerSize ≤ blob.length) : 0 ≤ storeCredentialCount blob := by
  rw [storeCredentialCount, if_neg (by omega)]
  exact Int.natCast_nonneg _

/-- A file the driver takes has a header. -/
theorem header_of_store? {bytes : List UInt8} {st : Store} (h : File.store? (some bytes) = some st) :
    headerSize ≤ bytes.length := by
  by_contra hshort
  have htake : (bytes.take storeDiskSize).length < headerSize := by rw [List.length_take]; omega
  have hno : loadRead (bytes.take storeDiskSize) = .error .eio := by
    rw [loadRead, if_neg, if_neg]
    · simp only [headerSize, storeDiskSize] at *; omega
    · simp only [headerSize, storeDiskV1Size] at *; omega
  rw [File.store?, readStoreFromPathLocked, hno] at h
  cases h

theorem readCredentialCount_nonneg (io : SyncIo) (s : SyncState) : 0 ≤ readCredentialCount io s := by
  rw [readCredentialCount]
  split
  · rw [toIntOrNull_count, Option.getD_some]
    exact Int.natCast_nonneg _
  · exact le_rfl

/-- A count above zero is the driver's. -/
theorem counted_of_read (h : 0 < readCredentialCount io s) : readCredentialCount io s = s.counted := by
  rw [readCredentialCount] at h ⊢
  split at h
  · next hok => rw [if_pos hok, toIntOrNull_count, Option.getD_some, counted]
  · exact absurd h (lt_irrefl 0)

theorem loaded_of_counted (hlive : s.storage.Live) (h : 0 < s.counted) : s.storage.storeLoaded = true := by
  refine hlive.resolve_right fun hno => ?_
  rw [counted, countCredentials, hno.used] at h
  exact lt_irrefl 0 h

theorem nonEmpty_of_length {bytes : List UInt8} (h : 0 < bytes.length) : nonEmpty (some bytes) = some bytes := by
  have hne : bytes.isEmpty = false := by rw [List.isEmpty_eq_false_iff, ← List.length_pos_iff]; exact h
  rw [nonEmpty, Option.filter_some, hne]
  rfl

/-- A driver that seems to hold nothing has the file rewritten. -/
theorem syncNow_empties_zero (hs : s.Settled) (hroot : io.root = true) (hzero : readCredentialCount io s = 0) :
    (syncNow P (io.failing (.cut headerSize)) s).2.storage.file = some [] := by
  have hsame : io.SameReads (io.failing (.cut headerSize)) := ⟨rfl, rfl, rfl⟩
  obtain ⟨t, ht, hstorage, hcount, hblob⟩ := reads_prepared hsame hs.hasFile
  obtain ⟨bytes, hbytes⟩ := Option.isSome_iff_exists.mp hs.hasFile
  obtain ⟨st, hst, -⟩ := hs.agree
  rw [hbytes] at hst
  have hsnapshot : t.snapshot = some bytes := by
    rw [← ht, ← hbytes, ← hs.snapshot]
    show (importDatabase false (ensureEmptyFile io.ensure s)).snapshot = _
    rw [ensureEmptyFile, hbytes]
    simp only [Option.isNone_some, Bool.and_false, Bool.false_eq_true, if_false, importDatabase]
    split <;> rfl
  have hrestore : ∀ n, shouldRestoreKernel 0 n = true := fun n => rfl
  have hnodrain : ¬ persistedCount (readPersistedBlob io.blob s) < 0 →
      shouldDrainKernelToPersistence 0 (persistedCount (readPersistedBlob io.blob s)) = false := decide_eq_false
  have hroot' : (io.failing (.cut headerSize)).root = true := hroot
  unfold syncNow
  simp only [hroot', Bool.not_true, Bool.false_eq_true, if_false, ht, hcount, hblob, hzero]
  by_cases hshort : persistedCount (readPersistedBlob io.blob s) < 0
  · -- The blob came out shorter than its header: the driver counts as ahead of it.
    have hlong : headerSize ≤ (storeToDisk (loadStoreLocked P io.load io.ids t.storage).store).length := by
      rw [length_storeToDisk]
      decide
    have hcut : 0 < ((storeToDisk (loadStoreLocked P io.load io.ids t.storage).store).take headerSize).length := by
      rw [List.length_take]
      have hpos : 0 < headerSize := by decide
      omega
    have hread : readStoreBlob P (io.failing (.cut headerSize)) t =
        (some ((storeToDisk (loadStoreLocked P io.load io.ids t.storage).store).take headerSize),
          { t with storage := loadStoreLocked P io.load io.ids t.storage }) := by
      rw [← nonEmpty_of_length hcut]
      rfl
    obtain ⟨u, hdrained, hempty⟩ := drainKernel_empties hread (storeCredentialCount_header hlong)
    have hdrain : shouldDrainKernelToPersistence 0 (persistedCount (readPersistedBlob io.blob s)) = true :=
      decide_eq_true hshort
    rw [if_pos hdrain]
    simp only [hdrained]
    exact settle_stays_empty hempty
  · rw [if_neg (by rw [hnodrain hshort]; simp)]
    cases hb : readPersistedBlob io.blob s with
    | some blob =>
      rw [hb] at hshort
      exact settle_empties hshort (hrestore _)
    | none =>
      have hnat : ¬ storeCredentialCount bytes < 0 := not_lt.mpr (storeCredentialCount_nonneg (header_of_store? hst))
      simp only [settle, hsnapshot, hnat, if_false, lt_self_iff_false]
      exact restoreAndExport_empties ..

/-- So has one whose count is not the blob's. -/
theorem syncNow_empties_differ (hs : s.Settled) (hroot : io.root = true) (hpos : 0 < readCredentialCount io s)
    (hne : persistedCount (readPersistedBlob io.blob s) ≠ readCredentialCount io s) :
    (syncNow P (io.failing .works) s).2.storage.file = some [] := by
  have hsame : io.SameReads (io.failing .works) := ⟨rfl, rfl, rfl⟩
  obtain ⟨t, ht, hstorage, hcount, hblob⟩ := reads_prepared hsame hs.hasFile
  have hcounted := counted_of_read hpos
  have hloaded : t.storage.storeLoaded = true := by
    rw [hstorage]
    exact loaded_of_counted hs.live (hcounted ▸ hpos)
  have hroot' : (io.failing .works).root = true := hroot
  unfold syncNow
  simp only [hroot', Bool.not_true, Bool.false_eq_true, if_false, ht, hcount, hblob]
  by_cases hless : persistedCount (readPersistedBlob io.blob s) < readCredentialCount io s
  · have hlong : 0 < (storeToDisk t.storage.store).length := by rw [length_storeToDisk]; decide
    have hread : readStoreBlob P (io.failing .works) t = (some (storeToDisk t.storage.store), t) := by
      simp only [readStoreBlob, SyncIo.failing, StoreOp.load_of_loaded hloaded, ShellRead.out, nonEmpty_of_length hlong]
    have hfound : storeCredentialCount (storeToDisk t.storage.store) = readCredentialCount io s := by
      rw [storeCredentialCount_storeToDisk, hcounted, counted, hstorage]
    obtain ⟨u, hdrained, hempty⟩ := drainKernel_empties hread hfound
    have hdrain : shouldDrainKernelToPersistence (readCredentialCount io s)
        (persistedCount (readPersistedBlob io.blob s)) = true := decide_eq_true hless
    rw [if_pos hdrain]
    simp only [hdrained]
    exact settle_stays_empty hempty
  · have hnodrain : shouldDrainKernelToPersistence (readCredentialCount io s)
        (persistedCount (readPersistedBlob io.blob s)) = false := decide_eq_false hless
    have hmore : readCredentialCount io s < persistedCount (readPersistedBlob io.blob s) := by omega
    obtain ⟨blob, hb, hpersisted⟩ := persistedCount_pos (hpos.trans hmore)
    rw [if_neg (by rw [hnodrain]; simp), hb]
    rw [hpersisted] at hmore
    refine settle_empties (by omega) ?_
    rw [shouldRestoreKernel]
    have htarget : 0 < storeCredentialCount blob := hpos.trans hmore
    simp [hmore, htarget]

theorem Settled.file_ne (hs : s.Settled) : s.storage.file ≠ some [] := by
  intro hfile
  obtain ⟨st, hst, -⟩ := hs.agree
  rw [hfile] at hst
  have hheader := header_of_store? hst
  rw [List.length_nil] at hheader
  exact absurd hheader (by decide)

/-- **When a sync of agreeing copies rests**: exactly if it has no root, or
the driver's count and the blob's are read as one number, at least one. -/
theorem quiet_iff (hs : s.Settled) (P : Platform) (io : SyncIo) :
    Quiet P io s ↔ io.root = false ∨ CountsMatch io s := by
  constructor
  · intro hquiet
    by_contra hno
    rw [not_or, Bool.not_eq_false] at hno
    obtain ⟨hroot, hcounts⟩ := hno
    by_cases hzero : readCredentialCount io s = 0
    · have hempty := syncNow_empties_zero (P := P) hs hroot hzero
      rw [(hquiet (io.failing (.cut headerSize)) ⟨rfl, rfl, rfl⟩).1] at hempty
      exact hs.file_ne hempty
    · have hpos : 0 < readCredentialCount io s := by
        have := readCredentialCount_nonneg io s
        omega
      have hempty := syncNow_empties_differ (P := P) hs hroot hpos fun heq => hcounts ⟨hpos, heq⟩
      rw [(hquiet (io.failing .works) ⟨rfl, rfl, rfl⟩).1] at hempty
      exact hs.file_ne hempty
  · intro h io' hsame
    have hkept : (syncNow P io' s).2.storage = s.storage := by
      rcases h with hroot | hmatch
      · have hroot' : io'.root = false := hsame.root.trans hroot
        unfold syncNow
        rw [if_pos (by simp [hroot'])]
      · exact syncNow_keeps hs.hasFile hmatch hsame
    refine ⟨hkept, fun v hv hobserved ok => ?_⟩
    subst hv
    refine SyncService.poll_observed ?_ ok
    show _ ∨ toIntOrNull (syncNow P io' v.sync).2.storage.storeGeneration.toNat = _
    rw [hkept]
    exact hobserved

/-- A driver that has loaded its file, which is the snapshot too. -/
abbrev agreed (ids : List UInt8) : SyncState :=
  (Device.holding ids).syncState (some (storeToDisk (storeOf ids))) (some (storeToDisk (storeOf ids))) none

theorem agreed_storage (ids : List UInt8) : (agreed ids).storage =
    { store := (storeOf ids).trim, storeLoaded := true, storeDirty := false, storeGeneration := 1, staging := none,
      file := some (storeToDisk (storeOf ids)) } := between_storage ids ids

theorem settled_agreed (ids : List UInt8) : (agreed ids).Settled where
  live := by rw [agreed_storage]; exact .inl rfl
  agree := by
    rw [agreed_storage]
    exact ⟨_, store?_storeToDisk _, rfl⟩
  snapshot := by rw [agreed_storage]; rfl

section
variable {st : Store}

theorem readCredentialCount_trim (hstore : s.storage.store = st.trim) (hcount : io.count = true) :
    readCredentialCount io s = countCredentials st := by
  rw [readCredentialCount, hcount, if_pos rfl, toIntOrNull_count, Option.getD_some, hstore, countCredentials_trim]

theorem readPersistedBlob_storeToDisk (hfile : s.storage.file = some (storeToDisk st)) (hblob : io.blob = .works) :
    readPersistedBlob io.blob s = some (storeToDisk st) := by
  rw [readPersistedBlob, hblob, hfile]
  exact nonEmpty_of_length (by rw [length_storeToDisk]; decide)

theorem persistedCount_storeToDisk (st : Store) : persistedCount (some (storeToDisk st)) = countCredentials st :=
  storeCredentialCount_storeToDisk st

/-- With nothing in the way, the counts match where there is a credential. -/
theorem countsMatch_iff (hfile : s.storage.file = some (storeToDisk st)) (hstore : s.storage.store = st.trim)
    (hcount : io.count = true) (hblob : io.blob = .works) : CountsMatch io s ↔ 0 < countCredentials st := by
  rw [CountsMatch, readCredentialCount_trim hstore hcount, readPersistedBlob_storeToDisk hfile hblob,
    persistedCount_storeToDisk]
  exact ⟨fun h => by exact_mod_cast h.1, fun h => ⟨by exact_mod_cast h, rfl⟩⟩

end

/-- A driver with one key, on file and in the snapshot, is left alone. -/
theorem quiet_oneKey : Quiet .persistent .plain (agreed [1]) := by
  have hfile : (agreed [1]).storage.file = some (storeToDisk (storeOf [1])) := by rw [agreed_storage]
  have hstore : (agreed [1]).storage.store = (storeOf [1]).trim := by rw [agreed_storage]
  refine (quiet_iff (settled_agreed [1]) .persistent .plain).mpr (.inr ?_)
  exact (countsMatch_iff hfile hstore rfl rfl).mpr (by decide +kernel)

end SyncState

/-! ## An empty store -/

/-- The service is in a sync of an empty store, and has seen the generation the driver is at. -/
structure SyncService.Restless (st : Store) (v : SyncService) : Prop where
  file : v.sync.storage.file = some (storeToDisk st)
  store : v.sync.storage.store = st.trim
  inFlight : v.syncInFlight = true
  observed : v.lastObservedStoreGeneration = v.sync.storage.storeGeneration.toNat

namespace SyncState

/-- A sync restores an empty store, though the driver holds it already. -/
theorem syncNow_restores_empty (P : Platform) {st : Store} (hempty : countCredentials st = 0) (hpin : st.pinSet = false)
    {s : SyncState} (hfile : s.storage.file = some (storeToDisk st)) (hstore : s.storage.store = st.trim)
    (hgen : s.storage.storeGeneration.toNat + 1 < 2 ^ 31) :
    ∃ s', syncNow P .plain s = (true, s') ∧ s'.storage.store = st.trim ∧ s'.storage.file = some (storeToDisk st) ∧
      s'.storage.storeGeneration = s.storage.storeGeneration + 1 := by
  have hsame : SyncIo.plain.SameReads .plain := ⟨rfl, rfl, rfl⟩
  have hsome : s.storage.file.isSome = true := by rw [hfile]; rfl
  obtain ⟨t, ht, hstorage, hcount, hblob⟩ := reads_prepared hsame hsome
  have hread : readCredentialCount .plain s = countCredentials st := readCredentialCount_trim hstore rfl
  have hpersisted : readPersistedBlob SyncIo.plain.blob s = some (storeToDisk st) := readPersistedBlob_storeToDisk hfile rfl
  rw [← hstorage] at hgen ⊢
  obtain ⟨s', hsettle, hleft⟩ := settle_restores hpin (show shouldRestoreKernel 0 _ = true from rfl) t hgen
  refine ⟨s', ?_, hleft⟩
  simp only [syncNow, show SyncIo.plain.root = true from rfl, Bool.not_true, Bool.false_eq_true, if_false, ht, hcount, hblob,
    hread, hpersisted, persistedCount_storeToDisk, hempty, shouldDrainKernelToPersistence, Nat.cast_zero, lt_self_iff_false, decide_false]
  exact hsettle

end SyncState

namespace SyncService

/-- One round: the sync ends, the poll finds that the generation has moved,
and the next sync starts. -/
theorem Restless.round (P : Platform) {st : Store} (hempty : countCredentials st = 0) (hpin : st.pinSet = false)
    {v : SyncService} (h : v.Restless st) (hgen : v.sync.storage.storeGeneration.toNat + 1 < 2 ^ 31) :
    ∃ v', Runs (step P) (fun _ _ => True) v [.sync .plain, .poll true, .kick] v' ∧ v'.Restless st ∧
      v'.sync.storage.storeGeneration.toNat = v.sync.storage.storeGeneration.toNat + 1 := by
  obtain ⟨s', hsync, hstore, hfile, hnext⟩ := SyncState.syncNow_restores_empty P hempty hpin h.file h.store hgen
  have hraised : s'.storage.storeGeneration.toNat = v.sync.storage.storeGeneration.toNat + 1 := by
    rw [hnext, UInt32.toNat_add]
    show (v.sync.storage.storeGeneration.toNat + 1) % 2 ^ 32 = _
    rw [Nat.mod_eq_of_lt (by omega)]
  have hreadable : toIntOrNull s'.storage.storeGeneration.toNat = some (s'.storage.storeGeneration.toNat : Int) :=
    if_pos (by omega)
  let v₁ : SyncService := { v with sync := s', syncInFlight := false }
  let v₂ : SyncService := { v₁ with lastObservedStoreGeneration := s'.storage.storeGeneration.toNat, syncRequested := true }
  let v₃ : SyncService := { v₂ with syncRequested := false, syncInFlight := true }
  have hsynced : step P v (.sync .plain) = some v₁ := by
    rw [step, if_pos h.inFlight, finishSync, hsync]
  have hpolled : step P v₁ (.poll true) = some v₂ := by
    have hread : v₁.readStoreGeneration true = some (s'.storage.storeGeneration.toNat : Int) := hreadable
    have hlast : v₁.lastObservedStoreGeneration = v.sync.storage.storeGeneration.toNat := h.observed
    have hseen : v₁.lastObservedStoreGeneration ≠ -1 := by rw [hlast]; omega
    have hmoved : (s'.storage.storeGeneration.toNat : Int) ≠ v₁.lastObservedStoreGeneration := by rw [hlast]; omega
    simp only [step, maybeScheduleStoreSync, hread, if_neg hseen, if_neg hmoved]
    rfl
  have hkicked : step P v₂ .kick = some v₃ := rfl
  exact ⟨v₃, .cons trivial hsynced (.cons trivial hpolled (.cons trivial hkicked (.nil _))),
    ⟨hfile, hstore, rfl, rfl⟩, hraised⟩

/-- **An empty store is synced on and on**: every round raises the generation,
and so calls for the next one. -/
theorem syncs_on (P : Platform) {st : Store} (hempty : countCredentials st = 0) (hpin : st.pinSet = false) (n : Nat) :
    ∀ {v : SyncService}, v.Restless st → v.sync.storage.storeGeneration.toNat + n < 2 ^ 31 →
      ∃ as v', Runs (step P) (fun _ _ => True) v as v' ∧ v'.Restless st ∧
        v'.sync.storage.storeGeneration.toNat = v.sync.storage.storeGeneration.toNat + n := by
  induction n with
  | zero => exact fun {v} h _ => ⟨[], v, .nil v, h, rfl⟩
  | succ n ih =>
    intro v h hgen
    obtain ⟨v₁, hrun, h₁, hgen₁⟩ := h.round P hempty hpin (by omega)
    obtain ⟨as, v₂, hrun', h₂, hgen₂⟩ := ih h₁ (by omega)
    exact ⟨_, v₂, hrun.append hrun', h₂, by omega⟩

end SyncService

namespace SyncState

/-- An empty driver, its file and the snapshot agree, and are synced again and again. -/
theorem not_quiet_empty : (agreed []).Settled ∧ ¬ Quiet .persistent .plain (agreed []) := by
  refine ⟨settled_agreed [], fun hquiet => ?_⟩
  have hempty : countCredentials (storeOf []) = 0 := by decide +kernel
  have hfile : (agreed []).storage.file = some (storeToDisk (storeOf [])) := by rw [agreed_storage]
  have hstore : (agreed []).storage.store = (storeOf []).trim := by rw [agreed_storage]
  have hgen : (agreed []).storage.storeGeneration.toNat + 1 < 2 ^ 31 := by rw [agreed_storage]; decide
  obtain ⟨s', hsync, -, -, hnext⟩ := syncNow_restores_empty .persistent hempty rfl hfile hstore hgen
  have hsame := (hquiet .plain ⟨rfl, rfl, rfl⟩).1
  rw [hsync] at hsame
  rw [show s'.storage = _ from hsame, agreed_storage] at hnext
  revert hnext
  decide

end SyncState

end AbkFido
