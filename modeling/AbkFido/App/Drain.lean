/-
The self-heal of a sync, while the driver goes on.

`store_blob` is read a page at a time, and every page is cut out of the blob
of the store as it is then (`abk_fido_store_blob_read`). Between pages the
driver may do anything to its store. What the drain has read it writes to
the file if the number of slots marked in use is the driver's count from
before, and nothing else is checked.

For the theorems the state also keeps every store the driver held since the
read began.
-/
import AbkFido.App.SyncRuns

namespace AbkFido

open Layout

/-- `PAGE_SIZE`: no read of a sysfs node returns more. -/
def pageSize : Nat := 4096

/-- `abk_fido_store_blob_read` -/
def storeBlobRead (P : Platform) (load : ReadIo) (ids : FreshIds) (off count : Nat) (s : Storage) : List UInt8 × Storage :=
  let s := loadStoreLocked P load ids s
  (((storeToDisk s.store).drop off).take count, s)

inductive DrainPhase
  | start
  | counted (kernelCredentialCount : Int)
  | reading (kernelCredentialCount : Int) (acc : List UInt8)
  | writing (kernelBlob : List UInt8)
  | wrote (kernelBlob : List UInt8)
  /-- Nothing is drained. -/
  | left

structure Draining where
  storage : Storage
  phase : DrainPhase
  /-- The stores the driver has held since the read began. -/
  held : List Store

inductive DrainAction
  /-- Whatever the driver does to its store, on its own or asked to. -/
  | driver (op : StoreOp)
  | readCount (ok : Bool)
  | readFile (read : ShellRead)
  | readSome (count : Nat) (load : ReadIo) (ids : FreshIds)
  | readEnd
  /-- A read of the node fails; the pipe it is read through hides that. -/
  | readFails
  | write (io : ShellWrite)

namespace Draining

def init (storage : Storage) : Draining where
  storage := storage
  phase := .start
  held := []

/-- What the drain makes of the bytes it has read. -/
def readDone (kernelCredentialCount : Int) (acc : List UInt8) (s : Draining) : Draining :=
  if acc.isEmpty then { s with phase := .left }
  else if storeCredentialCount acc ≠ kernelCredentialCount then { s with phase := .left }
  else { s with phase := .writing acc }

section
variable (P : Platform)

def step (s : Draining) : DrainAction → Option Draining
  | .driver op =>
    let storage := op.apply P s.storage
    some { s with storage := storage, held := s.held ++ [storage.store] }
  | .readCount ok =>
    match s.phase with
    | .start =>
      let count := if ok then toIntOrNull (countCredentials s.storage.store) else none
      some { s with phase := .counted (count.getD 0) }
    | _ => none
  | .readFile read =>
    match s.phase with
    | .counted kernelCredentialCount =>
      let persistedBlob := SyncState.nonEmpty (s.storage.file.bind read.out)
      if shouldDrainKernelToPersistence kernelCredentialCount (SyncState.persistedCount persistedBlob) then
        some { s with phase := .reading kernelCredentialCount [], held := [s.storage.store] }
      else some { s with phase := .left }
    | _ => none
  | .readSome count load ids =>
    match s.phase with
    | .reading kernelCredentialCount acc =>
      let (page, storage) := storeBlobRead P load ids acc.length (min count pageSize) s.storage
      some
        { storage := storage
          phase := .reading kernelCredentialCount (acc ++ page)
          held := s.held ++ [storage.store] }
    | _ => none
  | .readEnd =>
    match s.phase with
    | .reading kernelCredentialCount acc =>
      if storeDiskSize ≤ acc.length then some (s.readDone kernelCredentialCount acc) else none
    | _ => none
  | .readFails =>
    match s.phase with
    | .reading kernelCredentialCount acc => some (s.readDone kernelCredentialCount acc)
    | _ => none
  | .write io =>
    match s.phase with
    | .writing kernelBlob =>
      some { s with
        storage := { s.storage with file := (io.run kernelBlob s.storage.file).2 }
        phase := .wrote kernelBlob }
    | _ => none

/-- A page is only ever read from a store whose blob starts with the bytes
already read, and no read fails after the first page. -/
def Steady (s : Draining) : DrainAction → Prop
  | .readSome _ load ids =>
    ∀ k acc, s.phase = .reading k acc → acc <+: storeToDisk (loadStoreLocked P load ids s.storage).store
  | .readFails => ∀ k acc, s.phase = .reading k acc → acc = [] ∨ storeCredentialCount acc ≠ k
  | _ => True

end

/-- The blob of one of the stores the driver held since the read began. -/
def Held (s : Draining) (blob : List UInt8) : Prop := ∃ st ∈ s.held, blob = storeToDisk st

/-- What is being drained is one of these blobs. -/
def Whole (s : Draining) : Prop :=
  match s.phase with
  | .reading _ acc => ∃ st ∈ s.held, acc <+: storeToDisk st
  | .writing blob | .wrote blob => s.Held blob
  | _ => True

variable {P : Platform} {s t : Draining}

theorem whole_readDone {k : Int} {acc : List UInt8} (h : acc = [] ∨ storeCredentialCount acc ≠ k ∨ s.Held acc) :
    (s.readDone k acc).Whole := by
  unfold readDone
  split
  · trivial
  next hne =>
  split
  · trivial
  next hcount =>
  rcases h with rfl | h | h
  · exact absurd rfl hne
  · exact absurd h hcount
  · exact h

/-- A page of the store the bytes so far are from. -/
theorem prefix_page {acc bytes : List UInt8} (h : acc <+: bytes) (n : Nat) :
    acc ++ (bytes.drop acc.length).take n <+: bytes := by
  obtain ⟨rest, rfl⟩ := h
  rw [List.drop_left, List.prefix_append_right_inj]
  exact List.take_prefix n rest

theorem Whole.of_held {s' : Draining} (h : s.Whole) (hphase : s'.phase = s.phase) (hheld : s.held ⊆ s'.held) : s'.Whole := by
  unfold Whole at h ⊢
  rw [hphase]
  generalize s.phase = phase at h ⊢
  cases phase with
  | reading k acc =>
    obtain ⟨st, hst, hpre⟩ := h
    exact ⟨st, hheld hst, hpre⟩
  | writing blob | wrote blob =>
    obtain ⟨st, hst, heq⟩ := h
    exact ⟨st, hheld hst, heq⟩
  | start | counted k | left => trivial

/-- Whatever has been read stays the start of one blob. -/
theorem whole_step {a : DrainAction} (h : s.Whole) (hok : Steady P s a) (hstep : step P s a = some t) : t.Whole := by
  cases a with
  | driver op =>
    cases hstep
    exact h.of_held rfl (List.subset_append_left _ _)
  | readCount ok =>
    simp only [step] at hstep
    split at hstep
    · cases hstep; trivial
    · cases hstep
  | readFile read =>
    simp only [step] at hstep
    split at hstep
    · split at hstep
      · cases hstep
        exact ⟨s.storage.store, List.mem_singleton_self _, List.nil_prefix⟩
      · cases hstep; trivial
    · cases hstep
  | readSome count load ids =>
    simp only [step] at hstep
    split at hstep
    · next k acc hphase =>
      cases hstep
      exact ⟨_, List.mem_append_right _ (List.mem_singleton_self _), prefix_page (hok k acc hphase) _⟩
    · cases hstep
  | readEnd =>
    simp only [step] at hstep
    split at hstep
    · next k acc hphase =>
      split at hstep
      · next hlen =>
        cases hstep
        rw [Whole, hphase] at h
        obtain ⟨st, hst, hpre⟩ := h
        -- The last page has come: the prefix is all of it.
        have hall : acc = storeToDisk st := hpre.eq_of_length_le (by rw [length_storeToDisk]; exact hlen)
        exact whole_readDone (.inr (.inr ⟨st, hst, hall⟩))
      · cases hstep
    · cases hstep
  | readFails =>
    simp only [step] at hstep
    split at hstep
    · next k acc hphase =>
      cases hstep
      rcases hok k acc hphase with hnil | hcount
      · exact whole_readDone (.inl hnil)
      · exact whole_readDone (.inr (.inl hcount))
    · cases hstep
  | write io =>
    simp only [step] at hstep
    split at hstep
    · next blob hphase =>
      cases hstep
      rw [Whole, hphase] at h
      exact h
    · cases hstep

/-- **What is drained is what the driver held**, where no store changed under
the pages already read. -/
theorem wrote_held (P : Platform) (storage : Storage) (as : List DrainAction) (s : Draining)
    (h : Runs (step P) (Steady P) (init storage) as s) (blob : List UInt8) (hwrote : s.phase = .wrote blob) :
    ∃ st ∈ s.held, blob = storeToDisk st := by
  have hwhole : s.Whole := h.invariant (fun _ _ _ h hok hstep => whole_step h hok hstep) trivial
  rw [Whole, hwrote] at hwhole
  exact hwhole

/-! ## Reads in pages -/

/-- One page more of the bytes behind the first `m`. -/
theorem page_append (pre l : List UInt8) (j : Nat) (hlen : pre.length + j ≤ l.length) (n : Nat) :
    let acc := pre ++ (l.drop pre.length).take j
    acc ++ (l.drop acc.length).take n = pre ++ (l.drop pre.length).take (j + n) := by
  have hacc : (pre ++ (l.drop pre.length).take j).length = pre.length + j := by
    rw [List.length_append, List.length_take, List.length_drop]
    omega
  dsimp only
  rw [hacc, List.append_assoc, ← List.drop_drop, List.take_add]

/-- A step that reads a full page. -/
abbrev readPage : DrainAction := .readSome pageSize .ok ⟨zeros 16, zeros 32⟩

variable {k : Int} {pre : List UInt8} {j : Nat}

/-- A page read while the driver holds one loaded store. -/
theorem step_readPage (P : Platform) (pre : List UInt8) (j : Nat) (hloaded : s.storage.storeLoaded = true) (hlen : pre.length + j ≤ storeDiskSize)
    (hphase : s.phase = .reading k (pre ++ ((storeToDisk s.storage.store).drop pre.length).take j)) :
    step P s readPage = some
      { s with
        phase := .reading k (pre ++ ((storeToDisk s.storage.store).drop pre.length).take (j + pageSize))
        held := s.held ++ [s.storage.store] } := by
  have hpage := page_append pre (storeToDisk s.storage.store) j (by rw [length_storeToDisk]; exact hlen) pageSize
  simp only [step, hphase, storeBlobRead, StoreOp.load_of_loaded hloaded, Nat.min_self]
  exact congrArg (fun acc => some { s with phase := .reading k acc, held := s.held ++ [s.storage.store] }) hpage

/-- And page after page, to the end of the blob or short of it. -/
theorem runs_readPages (P : Platform) (ok : Draining → DrainAction → Prop) (k : Int) (pre : List UInt8) {storage : Storage}
    (hloaded : storage.storeLoaded = true) (hok : ∀ t : Draining, t.storage = storage →
      (∃ j, t.phase = .reading k (pre ++ ((storeToDisk storage.store).drop pre.length).take j)) → ok t readPage) (n : Nat) :
    ∀ (s : Draining) (j : Nat), s.storage = storage → (∀ i < n, pre.length + (j + i * pageSize) ≤ storeDiskSize) →
      s.phase = .reading k (pre ++ ((storeToDisk storage.store).drop pre.length).take j) →
      ∃ t, Runs (step P) ok s (List.replicate n readPage) t ∧ t.storage = storage ∧
        t.phase = .reading k (pre ++ ((storeToDisk storage.store).drop pre.length).take (j + n * pageSize)) ∧
        ∀ st ∈ t.held, st ∈ s.held ∨ st = storage.store := by
  induction n with
  | zero =>
    intro s j hs _ hphase
    refine ⟨s, .nil s, hs, ?_, fun st hst => .inl hst⟩
    rw [hphase, Nat.zero_mul, Nat.add_zero]
  | succ n ih =>
    intro s j hs hfits hphase
    subst hs
    have hstep := step_readPage P pre j hloaded (by simpa using hfits 0 n.succ_pos) hphase
    have hfits' : ∀ i < n, pre.length + (j + pageSize + i * pageSize) ≤ storeDiskSize := by
      intro i hi
      have hnext := hfits (i + 1) (by omega)
      rw [Nat.succ_mul] at hnext
      omega
    obtain ⟨t, hrun, ht, htphase, hheld⟩ := ih { s with
        phase := .reading k (pre ++ ((storeToDisk s.storage.store).drop pre.length).take (j + pageSize))
        held := s.held ++ [s.storage.store] } (j + pageSize) rfl hfits' rfl
    refine ⟨t, .cons (hok s rfl ⟨j, hphase⟩) hstep hrun, ht, ?_, fun st hst => ?_⟩
    · have hsum : j + pageSize + n * pageSize = j + (n + 1) * pageSize := by rw [Nat.succ_mul]; omega
      rw [htphase, hsum]
    · rcases hheld st hst with hmem | heq
      · rw [List.mem_append, List.mem_singleton] at hmem
        exact hmem
      · exact .inr heq

/-! ## Reads, whole and torn -/

/-- A driver that has loaded some keys, and whose file has been emptied since. -/
def emptied (ids : List UInt8) : Storage := { (Device.holding ids).core.storage with file := some [] }

theorem emptied_eq (ids : List UInt8) : emptied ids =
    { store := (storeOf ids).trim, storeLoaded := true, storeDirty := false, storeGeneration := 1, staging := none,
      file := some [] } := by
  rw [emptied, Device.holding_storage]

/-- The drain begins to read. -/
theorem runs_begin (P : Platform) {ok : Draining → DrainAction → Prop} (hcount : ∀ t, ok t (.readCount true))
    (hfile : ∀ t, ok t (.readFile .works)) (ids : List UInt8) {n : Nat} (hn : countCredentials (storeOf ids) = n)
    (hpos : 0 < n) :
    Runs (step P) ok (init (emptied ids)) [.readCount true, .readFile .works]
      ⟨emptied ids, .reading n [], [(storeOf ids).trim]⟩ := by
  have hread : toIntOrNull (countCredentials (emptied ids).store) = some (n : Int) := by
    rw [emptied_eq, toIntOrNull_count, countCredentials_trim, hn]
  have hzero : SyncState.persistedCount (SyncState.nonEmpty (some [])) = 0 := rfl
  have hdrain : shouldDrainKernelToPersistence n (SyncState.persistedCount (SyncState.nonEmpty (some []))) = true := by
    rw [hzero]
    exact decide_eq_true (by exact_mod_cast hpos)
  have hcounted : step P (init (emptied ids)) (.readCount true) = some ⟨emptied ids, .counted n, []⟩ := by
    simp only [step, init, if_true, hread, Option.getD_some]
  have hempty : (emptied ids).file = some [] := rfl
  have hstart : step P ⟨emptied ids, .counted n, []⟩ (.readFile .works) =
      some ⟨emptied ids, .reading n [], [(storeOf ids).trim]⟩ := by
    simp only [step, hempty, Option.bind_some, ShellRead.out, hdrain, if_true]
    rw [show (emptied ids).store = (storeOf ids).trim by rw [emptied_eq]]
  exact .cons (hcount _) hcounted (.cons (hfile _) hstart (.nil _))

/-- The drain ends with a write. -/
theorem runs_end (P : Platform) (ok : Draining → DrainAction → Prop) (hend : ∀ t, ok t .readEnd)
    (hwrite : ∀ t, ok t (.write .works)) {blob : List UInt8} (hlen : blob.length = storeDiskSize)
    (hcount : storeCredentialCount blob = k) (hphase : s.phase = .reading k blob) :
    ∃ t, Runs (step P) ok s [.readEnd, .write .works] t ∧ t.phase = .wrote blob ∧ t.held = s.held ∧
      t.storage.file = some blob := by
  have hne : blob.isEmpty = false := by
    rw [List.isEmpty_eq_false_iff, ← List.length_pos_iff, hlen]
    decide
  have hdone : s.readDone k blob = { s with phase := .writing blob } := by
    simp only [readDone, hne, Bool.false_eq_true, if_false, hcount, ne_eq, not_true_eq_false]
  have hread : step P s .readEnd = some { s with phase := .writing blob } := by
    simp only [step, hphase, hlen, le_refl, if_true, hdone]
  exact ⟨_, .cons (hend _) hread (.cons (hwrite _) rfl (.nil _)), rfl, rfl, rfl⟩

/-- A page of a blob is read steadily while its store is the driver's. -/
theorem steady_readPage (P : Platform) {storage : Storage} (hloaded : storage.storeLoaded = true) (t : Draining)
    (ht : t.storage = storage)
    (hphase : ∃ j, t.phase = .reading k ([] ++ ((storeToDisk storage.store).drop ([] : List UInt8).length).take j)) :
    Steady P t readPage := by
  obtain ⟨j, hphase⟩ := hphase
  intro k' acc' hreading
  rw [hphase] at hreading
  cases hreading
  rw [StoreOp.load_of_loaded (by rw [ht]; exact hloaded), ht]
  exact List.take_prefix _ _

/-- The driver counts a signature before the first page, and saves its store
between the second page and the third. -/
theorem runs_saveBetween (P : Platform) {started bumped saved : Storage} (io : Option WriteIo)
    (hbumped : StoreOp.applyAll P started [.bump, .dirty] = bumped) (hsaved : StoreOp.apply P bumped (.persist io) = saved)
    (hloaded : bumped.storeLoaded = true) :
    ∃ t, Runs (step P) (Steady P) ⟨started, .reading k [], [started.store]⟩
        (.driver .bump :: .driver .dirty :: (List.replicate 2 readPage ++ .driver (.persist io) :: List.replicate 2 readPage)) t ∧
      t.storage = saved ∧ t.phase = .reading k (storeToDisk bumped.store) := by
  have hstore : saved.store = bumped.store := by rw [← hsaved]; exact StoreOp.maybePersist_store io bumped
  have hstill : saved.storeLoaded = true := by rw [← hsaved, ← hloaded]; exact StoreOp.maybePersist_storeLoaded io bumped
  have hbump : step P ⟨started, .reading k [], [started.store]⟩ (.driver .bump) = some
      ⟨started.bumpSignCount, .reading k [], [started.store, started.bumpSignCount.store]⟩ := rfl
  have hdirty : step P ⟨started.bumpSignCount, .reading k [], [started.store, started.bumpSignCount.store]⟩
      (.driver .dirty) = some ⟨bumped, .reading k [], [started.store, started.bumpSignCount.store, bumped.store]⟩ := by
    rw [← hbumped]
    rfl
  obtain ⟨t, hfirst, ht, htphase, -⟩ := runs_readPages P (Steady P) k [] hloaded (steady_readPage P hloaded) 2
    ⟨bumped, .reading k [], [started.store, started.bumpSignCount.store, bumped.store]⟩ 0 rfl (by decide) rfl
  have hsave : step P t (.driver (.persist io)) = some { t with storage := saved, held := t.held ++ [saved.store] } := by
    simp only [step, ht, hsaved]
  rw [← hstore] at htphase
  obtain ⟨u, hlast, hu, huphase, -⟩ := runs_readPages P (Steady P) k [] hstill (steady_readPage P hstill) 2
    { t with storage := saved, held := t.held ++ [saved.store] } (0 + 2 * pageSize) rfl (by decide) htphase
  have hall : [] ++ ((storeToDisk saved.store).drop ([] : List UInt8).length).take (0 + 2 * pageSize + 2 * pageSize) =
      storeToDisk bumped.store := by
    rw [hstore]
    exact List.take_of_length_le (by rw [List.length_nil, List.drop_zero, length_storeToDisk]; decide)
  rw [hall] at huphase
  exact ⟨u, .cons trivial hbump (.cons trivial hdirty (hfirst.append (.cons trivial hsave hlast))), hu, huphase⟩

/-- A drain writes what the driver holds, a signature and a save come between. -/
theorem wrote_undisturbed : ∃ as s blob, Runs (step .persistent) (Steady .persistent) (init (emptied [1])) as s ∧
    .driver (.persist (some (.stored storeDiskSize none))) ∈ as ∧ s.phase = .wrote blob ∧
    ∃ st ∈ s.held, blob = storeToDisk st := by
  have hcount : countCredentials (storeOf [1]) = 1 := by decide +kernel
  have hbegin : Runs (step .persistent) (Steady .persistent) (init (emptied [1])) _ _ :=
    runs_begin .persistent (fun _ => trivial) (fun _ => trivial) [1] hcount Nat.one_pos
  have hstore : (emptied [1]).store = (storeOf [1]).trim := by rw [emptied_eq]
  have hloaded : (emptied [1]).bumpSignCount.markDirty.storeLoaded = true := by
    rw [emptied_eq]
    rfl
  obtain ⟨t, hpages, -, htphase⟩ := runs_saveBetween (k := 1) .persistent (some (.stored storeDiskSize none)) rfl rfl hloaded
  rw [hstore] at hpages
  have hread : storeCredentialCount (storeToDisk (emptied [1]).bumpSignCount.markDirty.store) = 1 := by
    have hcreds : (emptied [1]).bumpSignCount.markDirty.store.creds = (storeOf [1]).trim.creds := by
      rw [emptied_eq]
      rfl
    rw [storeCredentialCount_storeToDisk, countCredentials, Store.used, hcreds]
    decide +kernel
  obtain ⟨u, hend, huphase, -, -⟩ := runs_end .persistent (Steady .persistent) (fun _ => trivial) (fun _ => trivial)
    (length_storeToDisk _) hread htphase
  refine ⟨_, u, _, (hbegin.append hpages).append hend, by simp, huphase, ?_⟩
  exact wrote_held .persistent _ _ u ((hbegin.append hpages).append hend) _ huphase

/-- A key whose private half lies behind the first page, if the key is in slot 8. -/
def torn : Credential := { keyOf 9 with privKey := .replicate 32 9 }

def tornSlot : Fin maxCreds := ⟨8, by decide⟩

/-- The store after eight keys and that one. -/
def tornStore : Store := { (storeOf [1, 2, 3, 4, 5, 6, 7, 8]).trim with
  creds := Function.update (storeOf [1, 2, 3, 4, 5, 6, 7, 8]).trim.creds tornSlot torn }

/-- The first page from before the ninth key, the others from after it. -/
def tornBlob : List UInt8 :=
  (storeToDisk (storeOf [1, 2, 3, 4, 5, 6, 7, 8]).trim).take pageSize ++ (storeToDisk tornStore).drop pageSize

theorem length_tornBlob : tornBlob.length = storeDiskSize := by
  rw [tornBlob, List.length_append, List.length_take, List.length_drop, length_storeToDisk, length_storeToDisk]
  decide

/-- The mark of slot 8 is in the first page. -/
theorem mark_tornBlob (i : Fin maxCreds) : (tornBlob[headerSize + i.val * credSize]? == some 1) =
    if headerSize + i.val * credSize < pageSize then ((storeOf [1, 2, 3, 4, 5, 6, 7, 8]).trim.creds i).inUse
    else (tornStore.creds i).inUse := by
  have hpage : ((storeToDisk (storeOf [1, 2, 3, 4, 5, 6, 7, 8]).trim).take pageSize).length = pageSize := by
    rw [List.length_take, length_storeToDisk]
    decide
  split
  · next hfirst =>
    rw [tornBlob, List.getElem?_append_left (by rw [hpage]; exact hfirst), List.getElem?_take_of_lt hfirst,
      mark_storeToDisk]
  · next hlater =>
    have hle : pageSize ≤ headerSize + i.val * credSize := not_lt.mp hlater
    rw [tornBlob, List.getElem?_append_right (by rw [hpage]; exact hle), hpage, List.getElem?_drop,
      Nat.add_sub_cancel' hle, mark_storeToDisk]

theorem storeCredentialCount_tornBlob : storeCredentialCount tornBlob = 8 := by
  have hversion : readIntLe tornBlob offVersion = storeVersion := by
    have hpage : offVersion + Codec.u32le.size ≤ ((storeToDisk (storeOf [1, 2, 3, 4, 5, 6, 7, 8]).trim).take pageSize).length := by
      rw [List.length_take, length_storeToDisk]
      decide
    have hall : offVersion + Codec.u32le.size ≤ (storeToDisk (storeOf [1, 2, 3, 4, 5, 6, 7, 8]).trim).length := by
      rw [length_storeToDisk]
      decide
    rw [← version_storeToDisk (storeOf [1, 2, 3, 4, 5, 6, 7, 8]).trim, readIntLe,
      ← Codec.u32le.dec_take (by rw [List.length_drop, length_tornBlob]; decide), tornBlob,
      List.drop_append_of_le_length (by omega), List.take_append_of_le_length (by rw [List.length_drop]; omega),
      List.drop_take, List.take_take]
    exact Codec.u32le.dec_take (by rw [List.length_drop]; omega)
  rw [storeCredentialCount_of_marks length_tornBlob hversion mark_tornBlob]
  decide +kernel

/-- It is the blob of neither store. -/
theorem tornBlob_ne : tornBlob ≠ storeToDisk (storeOf [1, 2, 3, 4, 5, 6, 7, 8]).trim ∧ tornBlob ≠ storeToDisk tornStore := by
  constructor
  · intro heq
    -- The private key is the ninth key's in one and zero in the other.
    let F := (slotAt tornSlot).comp (DiskCred.v1Field.comp DiskCredV1.privKeyField)
    have hlater : pageSize ≤ F.off := by decide +kernel
    have hread : ∀ st : Store, (Codec.bytes 32).dec ((storeToDisk st).drop F.off) = (st.creds tornSlot).privKey := by
      intro st
      have hdec := F.dec_drop_dec (length_storeToDisk st).ge
      rw [dec_storeToDisk] at hdec
      exact hdec
    have hdrop : tornBlob.drop F.off = (storeToDisk tornStore).drop F.off := by
      have hpage : ((storeToDisk (storeOf [1, 2, 3, 4, 5, 6, 7, 8]).trim).take pageSize).length = pageSize := by
        rw [List.length_take, length_storeToDisk]
        decide
      rw [tornBlob, List.drop_append, List.drop_of_length_le (by rw [hpage]; exact hlater), hpage, List.nil_append,
        List.drop_drop, Nat.add_sub_cancel' hlater]
    have hkeys : (tornStore.creds tornSlot).privKey = ((storeOf [1, 2, 3, 4, 5, 6, 7, 8]).trim.creds tornSlot).privKey := by
      rw [← hread, ← hread, ← hdrop, heq]
    revert hkeys
    decide +kernel
  · intro heq
    have hmark := mark_tornBlob tornSlot
    rw [heq, mark_storeToDisk] at hmark
    revert hmark
    decide +kernel

/-- The driver makes a key after the first page. -/
theorem runs_mintBetween {started minted : Storage} {c : Credential} (hloaded : started.storeLoaded = true)
    (hminted : StoreOp.apply P started (.mint c) = minted) (hstill : minted.storeLoaded = true) :
    ∃ t, Runs (step P) (fun _ _ => True) ⟨started, .reading k [], [started.store]⟩
        (readPage :: .driver (.mint c) :: List.replicate 3 readPage) t ∧
      t.phase = .reading k ((storeToDisk started.store).take pageSize ++ (storeToDisk minted.store).drop pageSize) ∧
      ∀ st ∈ t.held, st = started.store ∨ st = minted.store := by
  have hpage : ((storeToDisk started.store).take pageSize).length = pageSize := by
    rw [List.length_take, length_storeToDisk]
    decide
  have hfirst : step P ⟨started, .reading k [], [started.store]⟩ readPage =
      some ⟨started, .reading k ((storeToDisk started.store).take pageSize), [started.store, started.store]⟩ := by
    refine (step_readPage P [] 0 hloaded (by decide) rfl).trans ?_
    rw [Nat.zero_add]
    rfl
  have hmint : step P ⟨started, .reading k ((storeToDisk started.store).take pageSize), [started.store, started.store]⟩
      (.driver (.mint c)) = some ⟨minted, .reading k ((storeToDisk started.store).take pageSize),
        [started.store, started.store, minted.store]⟩ := by
    simp only [step, hminted]
    rfl
  obtain ⟨t, hpages, -, htphase, hheld⟩ := runs_readPages P (fun _ _ => True) k ((storeToDisk started.store).take pageSize)
    hstill (fun _ _ _ => trivial) 3 ⟨minted, .reading k ((storeToDisk started.store).take pageSize),
      [started.store, started.store, minted.store]⟩ 0 rfl (by rw [hpage]; decide) (by rw [List.take_zero, List.append_nil])
  refine ⟨t, .cons trivial hfirst (.cons trivial hmint hpages), ?_, fun st hst => ?_⟩
  · have hrest : ((storeToDisk minted.store).drop pageSize).length ≤ 0 + 3 * pageSize := by
      rw [List.length_drop, length_storeToDisk]
      decide
    rw [htphase, hpage, List.take_of_length_le hrest]
  · rcases hheld st hst with hmem | heq
    · simpa using hmem
    · exact .inr heq

theorem mint_torn : StoreOp.apply .persistent (emptied [1, 2, 3, 4, 5, 6, 7, 8]) (.mint torn) =
    { emptied [1, 2, 3, 4, 5, 6, 7, 8] with store := tornStore } := by
  have halloc : allocCredentialLocked (storeOf [1, 2, 3, 4, 5, 6, 7, 8]).trim = some tornSlot := by decide +kernel
  rw [emptied_eq]
  simp only [StoreOp.apply, halloc, Storage.setCred]
  rfl

/-- **A key made during the read**: the blob written is that of no store. -/
theorem exists_torn : ∃ as s blob,
    Runs (step .persistent) (fun _ _ => True) (init (emptied [1, 2, 3, 4, 5, 6, 7, 8])) as s ∧
      s.phase = .wrote blob ∧ ∀ st ∈ s.held, blob ≠ storeToDisk st := by
  have hstore : (emptied [1, 2, 3, 4, 5, 6, 7, 8]).store = (storeOf [1, 2, 3, 4, 5, 6, 7, 8]).trim := by rw [emptied_eq]
  have hloaded : (emptied [1, 2, 3, 4, 5, 6, 7, 8]).storeLoaded = true := by rw [emptied_eq]
  have hcount : countCredentials (storeOf [1, 2, 3, 4, 5, 6, 7, 8]) = 8 := by decide +kernel
  have hbegin : Runs (step .persistent) (fun _ _ => True) (init (emptied [1, 2, 3, 4, 5, 6, 7, 8])) _ _ :=
    runs_begin .persistent (fun _ => trivial) (fun _ => trivial) [1, 2, 3, 4, 5, 6, 7, 8] hcount (by decide)
  have hstill : ({ emptied [1, 2, 3, 4, 5, 6, 7, 8] with store := tornStore } : Storage).storeLoaded = true := by
    rw [emptied_eq]
  obtain ⟨t, hread, htphase, hheld⟩ := runs_mintBetween (k := 8) hloaded mint_torn hstill
  rw [hstore] at htphase hheld hread
  obtain ⟨u, hend, huphase, huheld, -⟩ := runs_end .persistent (fun _ _ => True) (fun _ => trivial) (fun _ => trivial)
    length_tornBlob storeCredentialCount_tornBlob htphase
  refine ⟨_, u, tornBlob, (hbegin.append hread).append hend, huphase, fun st hst => ?_⟩
  rw [huheld] at hst
  rcases hheld st hst with rfl | rfl
  · exact tornBlob_ne.1
  · exact tornBlob_ne.2

end Draining

end AbkFido
