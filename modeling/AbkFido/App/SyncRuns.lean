/-
A sync for each way its counts can come out.

The three runs at the end are what counting misses: equal counts of different
keys, a driver with fewer keys than the file, and a self-heal that could not
read the driver's store.
-/
import AbkFido.App.SyncFacts

namespace AbkFido

namespace SyncState

/-- What is asked of one sync: agreement, and nothing lost. -/
def KeepsAll (P : Platform) (io : SyncIo) (s : SyncState) : Prop :=
  ∀ s', syncNow P io s = (true, s') → s'.HasBlob →
    s'.Agree ∧ ∀ id ∈ s.storage.store.credIds, id ∈ s'.storage.store.credIds

end SyncState

/-- A sync of a driver with whatever file and snapshots there are. -/
def Device.syncState (d : Device) (file : File) (snapshot : Option (List UInt8)) (mirror : Option (Option (List UInt8))) :
    SyncState := ⟨{ d.core.storage with file := file }, snapshot, mirror⟩

/-! ## Syncs -/

/-- Every command works. -/
def SyncIo.plain : SyncIo where
  root := true
  ensure := true
  importDb := true
  count := true
  blob := .works
  kernelBlob := .works
  load := .ok
  ids := ⟨zeros 16, zeros 32⟩
  drain := .works
  exportBlob := .works
  generation := true
  restoreAlloc := true
  restore := .ok
  restoreShell := true
  polls _ := (true, true)
  exportDb := true

theorem SyncIo.works_plain : SyncIo.plain.Works := ⟨rfl, rfl, rfl, rfl, fun _ h => by cases h⟩

/-- A store with the keys of the given ids in its first slots. -/
def storeOf (ids : List UInt8) : Store :=
  { Store.zero with creds := fun i => match ids[i.val]? with
      | some n => keyOf n
      | none => .zero }

/-- A driver that has loaded such a store. -/
def Device.holding (ids : List UInt8) : Device :=
  (Device.boot (some (storeToDisk (storeOf ids))) 0).setStorage
    (loadStoreLocked .persistent .ok ⟨zeros 16, zeros 32⟩ (.boot (some (storeToDisk (storeOf ids)))))

theorem Device.holding_runs (ids : List UInt8) : Runs (step .persistent) (fun _ _ => True)
    (.boot (some (storeToDisk (storeOf ids))) 0) [.blobRead .ok ⟨zeros 16, zeros 32⟩] (holding ids) :=
  .cons trivial rfl (.nil _)

theorem Device.holding_storage (ids : List UInt8) : (holding ids).core.storage =
    { store := (storeOf ids).trim, storeLoaded := true, storeDirty := false, storeGeneration := 1, staging := none,
      file := some (storeToDisk (storeOf ids)) } :=
  Editing.load_of_file (P := .persistent) rfl (storeOf ids) rfl ⟨zeros 16, zeros 32⟩

namespace SyncState

/-- A sync of a driver that holds the keys `ids`, with those of `onFile` on file. -/
abbrev between (ids onFile : List UInt8) : SyncState :=
  (Device.holding ids).syncState (some (storeToDisk (storeOf onFile))) none none

theorem between_storage (ids onFile : List UInt8) : (between ids onFile).storage =
    { store := (storeOf ids).trim, storeLoaded := true, storeDirty := false, storeGeneration := 1, staging := none,
      file := some (storeToDisk (storeOf onFile)) } := by
  show ({ (Device.holding ids).core.storage with file := _ } : Storage) = _
  rw [Device.holding_storage]

/-- What it does comes down to the two counts. -/
theorem sync_between {io : SyncIo} (hroot : io.root = true) (hcount : io.count = true) (hread : io.blob = .works)
    (ids onFile : List UInt8) {k p : Nat} (hk : countCredentials (storeOf ids) = k)
    (hp : countCredentials (storeOf onFile) = p) : syncNow .persistent io (between ids onFile) =
      if p < k then
        settle io k ((drainKernel .persistent io k (between ids onFile)).1.or (some (storeToDisk (storeOf onFile))))
          (drainKernel .persistent io k (between ids onFile)).2
      else settle io k (some (storeToDisk (storeOf onFile))) (between ids onFile) := by
  have hne : (storeToDisk (storeOf onFile)).isEmpty = false := by
    rw [List.isEmpty_eq_false_iff, ← List.length_pos_iff, length_storeToDisk]
    decide
  have hprepared : importDatabase io.importDb (ensureEmptyFile io.ensure (between ids onFile)) = between ids onFile := by
    have hensure : ensureEmptyFile io.ensure (between ids onFile) = between ids onFile :=
      if_neg (by rw [between_storage]; simp)
    rw [hensure]
    rfl
  have hkernel : readCredentialCount io (between ids onFile) = k := by
    have hint := toIntOrNull_count (storeOf ids)
    rw [hk] at hint
    simp only [readCredentialCount, hcount, if_true, between_storage, countCredentials_trim, hk, hint, Option.getD_some]
  have hblob : readPersistedBlob io.blob (between ids onFile) = some (storeToDisk (storeOf onFile)) := by
    rw [readPersistedBlob, hread, between_storage]
    simp only [Option.bind_some, ShellRead.out, nonEmpty, Option.filter_some, hne, Bool.not_false, if_true]
  have htarget : persistedCount (some (storeToDisk (storeOf onFile))) = p := by
    rw [persistedCount, Option.map_some, Option.getD_some, storeCredentialCount_storeToDisk, hp]
  simp only [syncNow, hroot, Bool.not_true, Bool.false_eq_true, if_false, hprepared, hkernel, hblob, htarget,
    shouldDrainKernelToPersistence, Nat.cast_lt, decide_eq_true_eq]

/-- With no restore called for, the sync ends there. -/
theorem settle_succeeds (io : SyncIo) (hexport : io.exportDb = true) {count : Int} {st : Store}
    (hleft : shouldRestoreKernel count (countCredentials st) = false) (s : SyncState) :
    ∃ s', settle io count (some (storeToDisk st)) s = (true, s') ∧ s'.storage = s.storage := by
  have hnat : ¬ (countCredentials st : Int) < 0 := not_lt.mpr (Int.natCast_nonneg _)
  simp only [settle, storeCredentialCount_storeToDisk, hnat, if_false, hleft, Bool.false_eq_true, exportDatabase,
    hexport, if_true]
  exact ⟨_, rfl, rfl⟩

/-- A restore of a blob of the driver's succeeds. -/
theorem restore_succeeds {st : Store} (hpin : st.pinSet = false) {s : SyncState}
    (hgen : s.storage.storeGeneration.toNat + 1 < 2 ^ 31) :
    ∃ s', restoreAndExport .plain (storeToDisk st) s = (true, s') ∧ s'.storage.store = st.trim ∧
      s'.storage.file = some (storeToDisk st) ∧ s'.storage.storeGeneration = s.storage.storeGeneration + 1 := by
  have hread : readStoreFromPathLocked .ok (some (storeToDisk st)) = .ok (st.trim, false) := by
    rw [readStoreFromPathLocked, List.take_of_length_le (length_storeToDisk _).le, loadRead_storeToDisk]
  obtain ⟨storage, hrestore, hstore, hnext⟩ :=
    Editing.restore_of_read (s := { s.storage with file := some (storeToDisk st) }) hread
  have hfile : storage.file = some (storeToDisk st) := by
    have heq := congrArg (fun r => r.2.file) hrestore
    simp only [restorePersistedStoreLocked, Bool.not_true, Bool.false_eq_true, if_false, hread] at heq
    exact heq.symm.trans (finalize_file _)
  have hraised : storage.storeGeneration.toNat = s.storage.storeGeneration.toNat + 1 := by
    rw [hnext, UInt32.toNat_add]
    show (s.storage.storeGeneration.toNat + 1) % 2 ^ 32 = _
    rw [Nat.mod_eq_of_lt (by omega)]
  have hbefore : toIntOrNull s.storage.storeGeneration.toNat = some (s.storage.storeGeneration.toNat : Int) :=
    if_pos (by omega)
  have hafter : toIntOrNull storage.storeGeneration.toNat = some (storage.storeGeneration.toNat : Int) :=
    if_pos (by omega)
  have hdrop : st.trim.dropPin = st.trim := if_neg (by simp [Store.trim, hpin])
  let s' : SyncState := { s.setFile (some (storeToDisk st)) with storage := storage }
  have hseen : ∀ n, restored (some (s.storage.storeGeneration.toNat : Int)) (countCredentials st)
      (observe .plain n s') = true := by
    intro n
    have hcount : countCredentials storage.store = countCredentials st := by rw [hstore, hdrop]; rfl
    have hgreater : (s.storage.storeGeneration.toNat : Int) < storage.storeGeneration.toNat := by omega
    simp only [observe, SyncIo.plain, if_true, s', hafter, toIntOrNull_count, hcount, restored, Option.any_some,
      hgreater, le_refl, decide_true, Bool.or_true, Bool.and_self]
  have hwait : waitForKernelRestore .plain s' (some (s.storage.storeGeneration.toNat : Int)) (countCredentials st)
      restoreAttempts = observe .plain restoreAttempts s' := if_pos (hseen _)
  refine ⟨{ s' with mirror := some s'.snapshot }, ?_, by rw [← hdrop]; exact hstore, hfile, hnext⟩
  have hkernel : restoreKernelFromBlob .plain (storeToDisk st) (countCredentials st) s = (true, s') := by
    have hrun : restorePersistedStoreLocked SyncIo.plain.restoreAlloc SyncIo.plain.restore
        (s.setFile (some (storeToDisk st))).storage = (.ok (), storage) := hrestore
    simp only [restoreKernelFromBlob, show SyncIo.plain.exportBlob = .works from rfl, ShellWrite.run, hrun]
    simp only [show SyncIo.plain.restoreShell = true from rfl, show SyncIo.plain.generation = true from rfl,
      Bool.not_true, Bool.false_eq_true, if_false, if_true]
    show (restored (toIntOrNull s.storage.storeGeneration.toNat) _ (waitForKernelRestore .plain s'
      (toIntOrNull s.storage.storeGeneration.toNat) _ restoreAttempts), s') = (true, s')
    rw [hbefore, hwait, hseen]
  simp only [restoreAndExport, storeCredentialCount_storeToDisk, hkernel]
  rfl

/-- With a restore called for, it ends with that. -/
theorem settle_restores {count : Int} {st : Store} (hpin : st.pinSet = false)
    (hdo : shouldRestoreKernel count (countCredentials st) = true) (s : SyncState)
    (hgen : s.storage.storeGeneration.toNat + 1 < 2 ^ 31) :
    ∃ s', settle .plain count (some (storeToDisk st)) s = (true, s') ∧ s'.storage.store = st.trim ∧
      s'.storage.file = some (storeToDisk st) ∧ s'.storage.storeGeneration = s.storage.storeGeneration + 1 := by
  have hnat : ¬ (countCredentials st : Int) < 0 := not_lt.mpr (Int.natCast_nonneg _)
  obtain ⟨s', hrestore, hleft⟩ := restore_succeeds hpin (s := { s with snapshot := some (storeToDisk st) }) hgen
  refine ⟨s', ?_, hleft⟩
  simp only [settle, storeCredentialCount_storeToDisk, hnat, if_false, hdo, if_true, hrestore]

end SyncState

/-! ## The sync -/

open SyncState in
/-- **A sync brings the copies into agreement wherever their counts differ**,
and loses nothing unless the driver holds some credentials and fewer than the
blob. -/
theorem Device.synced_of_runs (P : Platform) (boot : File) (clock : Nat) (as : List Action) (d : Device)
    (hrun : Runs (step P) (fun _ _ => True) (.boot boot clock) as d) (io : SyncIo) (hio : io.Works) (file : File)
    (snapshot : Option (List UInt8)) (mirror : Option (Option (List UInt8))) (s : SyncState)
    (h : syncNow P io (d.syncState file snapshot mirror) = (true, s)) (hblob : s.HasBlob) :
    (d.syncState file snapshot mirror).Synced s :=
  synced (live_of_runs hrun) hio h hblob

namespace SyncState

/-- A driver with one key heals an empty blob. -/
theorem synced_healingRun : ∃ s, syncNow .persistent .plain (between [1] []) = (true, s) ∧ s.HasBlob ∧
    (between [1] []).Synced s := by
  have hloaded : (between [1] []).storage.storeLoaded = true := by rw [between_storage]
  have hone : (between [1] []).counted = 1 := by
    rw [counted, between_storage, countCredentials_trim]
    decide +kernel
  have hdrain := drainKernel_loaded (P := .persistent) SyncIo.works_plain hloaded
  rw [hone] at hdrain
  have hleft : shouldRestoreKernel 1 (countCredentials (between [1] []).storage.store) = false := by
    have hcount : ((countCredentials (between [1] []).storage.store : Nat) : Int) = 1 := hone
    rw [hcount]
    rfl
  obtain ⟨s, hsettle, hstorage⟩ := settle_succeeds .plain rfl hleft
    { (between [1] []).setFile (some (storeToDisk (between [1] []).storage.store)) with
      snapshot := some (storeToDisk (between [1] []).storage.store) }
  have hsync : syncNow .persistent .plain (between [1] []) = (true, s) := by
    rw [sync_between rfl rfl rfl [1] [] (k := 1) (p := 0) (by decide +kernel) (by decide +kernel)]
    simp only [Nat.cast_one, hdrain, Option.some_or, zero_lt_one, if_true, hsettle]
  have hblob : s.HasBlob := by
    refine ⟨storeToDisk (between [1] []).storage.store, by rw [hstorage]; rfl, ?_⟩
    rw [← List.length_pos_iff, length_storeToDisk]
    decide
  exact ⟨s, hsync, hblob, Device.synced_of_runs .persistent _ 0 _ _ (Device.holding_runs [1]) SyncIo.plain SyncIo.works_plain _ none
    none s hsync hblob⟩

/-! ## What counting misses -/

/-- As many keys on file as the driver holds, but another one. -/
theorem not_keepsAll_equalCounts : ¬ KeepsAll .persistent .plain (between [1] [2]) := by
  intro h
  have hleft : shouldRestoreKernel 1 (countCredentials (storeOf [2])) = false := by decide +kernel
  obtain ⟨s, hsettle, hstorage⟩ := settle_succeeds .plain rfl hleft (between [1] [2])
  have hsync : syncNow .persistent .plain (between [1] [2]) = (true, s) := by
    rw [sync_between rfl rfl rfl [1] [2] (k := 1) (p := 1) (by decide +kernel) (by decide +kernel)]
    simp only [lt_irrefl, if_false, Nat.cast_one, hsettle]
  rw [between_storage] at hstorage
  obtain ⟨⟨st, hfile, hids⟩, -⟩ := h s hsync ⟨_, by rw [hstorage], by
    rw [← List.length_pos_iff, length_storeToDisk]
    decide⟩
  rw [hstorage, store?_storeToDisk] at hfile
  cases hfile
  have hone := (hids (keyOf 1).credId).mpr (by
    rw [hstorage, Store.credIds_trim]
    decide +kernel)
  rw [Store.credIds_trim] at hone
  revert hone
  decide +kernel

/-- A driver with one key, and two others on file. -/
theorem not_keepsAll_fewer : ¬ KeepsAll .persistent .plain (between [1] [2, 3]) := by
  intro h
  have hgen : (between [1] [2, 3]).storage.storeGeneration.toNat + 1 < 2 ^ 31 := by
    rw [between_storage]
    decide
  have hdo : shouldRestoreKernel 1 (countCredentials (storeOf [2, 3])) = true := by decide +kernel
  obtain ⟨s, hsettle, hstore, hfile, -⟩ := settle_restores rfl hdo (between [1] [2, 3]) hgen
  have hsync : syncNow .persistent .plain (between [1] [2, 3]) = (true, s) := by
    rw [sync_between rfl rfl rfl [1] [2, 3] (k := 1) (p := 2) (by decide +kernel) (by decide +kernel)]
    simp only [show ¬ 2 < 1 by decide, if_false, Nat.cast_one, hsettle]
  obtain ⟨-, hkept⟩ := h s hsync ⟨_, hfile, by
    rw [← List.length_pos_iff, length_storeToDisk]
    decide⟩
  have hone := hkept (keyOf 1).credId (by
    rw [between_storage, Store.credIds_trim]
    decide +kernel)
  rw [hstore, Store.credIds_trim] at hone
  revert hone
  decide +kernel

/-- A driver with one key more than the file, whose `store_blob` cannot be read. -/
theorem not_keepsAll_unreadable : ¬ KeepsAll .persistent { SyncIo.plain with kernelBlob := .fails } (between [1] []) := by
  intro h
  have hleft : shouldRestoreKernel 1 (countCredentials (storeOf [])) = false := by decide +kernel
  obtain ⟨s, hsettle, hstorage⟩ := settle_succeeds { SyncIo.plain with kernelBlob := .fails } rfl hleft (between [1] [])
  have hsync : syncNow .persistent { SyncIo.plain with kernelBlob := .fails } (between [1] []) = (true, s) := by
    rw [sync_between rfl rfl rfl [1] [] (k := 1) (p := 0) (by decide +kernel) (by decide +kernel)]
    have hdrain : drainKernel .persistent { SyncIo.plain with kernelBlob := .fails } 1 (between [1] []) =
        (none, between [1] []) := rfl
    simp only [zero_lt_one, if_true, Nat.cast_one, hdrain, Option.none_or, hsettle]
  rw [between_storage] at hstorage
  obtain ⟨⟨st, hfile, hids⟩, -⟩ := h s hsync ⟨_, by rw [hstorage], by
    rw [← List.length_pos_iff, length_storeToDisk]
    decide⟩
  rw [hstorage, store?_storeToDisk] at hfile
  cases hfile
  have hone := (hids (keyOf 1).credId).mpr (by
    rw [hstorage, Store.credIds_trim]
    decide +kernel)
  rw [Store.credIds_trim] at hone
  revert hone
  decide +kernel

/-- Counts do not tell keys apart. -/
theorem exists_not_keepsAll :
    ¬ KeepsAll .persistent .plain (between [1] [2]) ∧ ¬ KeepsAll .persistent .plain (between [1] [2, 3]) ∧
      ¬ KeepsAll .persistent { SyncIo.plain with kernelBlob := .fails } (between [1] []) :=
  ⟨not_keepsAll_equalCounts, not_keepsAll_fewer, not_keepsAll_unreadable⟩

end SyncState

end AbkFido
