/-
A store that is loaded and not dirty is the store on file.

`maybePersistLocked` goes by `store_dirty` alone, so this is what makes it
safe to skip a save. Saving and failing to save keep it, but five kinds of
step do not (`StoreStep.KeepsClean`): a version 1 blob is read and the flag
the reader set is cleared again, an uploaded store is taken for saved, an
assertion fails after the counter went up, and a slot is cleared after its
credential could not be finished. Where the state was as it should be these
are exactly the steps that break it (`cleanSaved_step`), so a run is fine
throughout exactly if it takes none of them (`cleanSaved_iff`).
-/
import AbkFido.StoreLife

namespace AbkFido

open Layout

variable {P : Platform}

/-- The file holds the store, as a version 2 blob: up to the bytes after the
NUL of its strings, which no code reads and no save writes. -/
def File.Holds (file : File) (st : Store) : Prop :=
  ∃ st', readStoreFromPathLocked .ok file = .ok (st', false) ∧ st'.trim = st.trim

/-- Clean means saved. -/
def Storage.CleanSaved (s : Storage) : Prop :=
  s.storeLoaded = true → s.storeDirty = false → s.file.Holds s.store

/-- The version 2 blob that a write to `store_blob` completes. -/
def Storage.completes (off : Nat) (buf : List UInt8) (allocOk : Bool) (s : Storage) : Option (List UInt8) :=
  if storeDiskSize ≤ off ∨ storeDiskSize - off < buf.length then none
  else match s.staging <|> if allocOk then some (List.replicate storeDiskSize 0, 0) else none with
    | none => none
    | some (data, len) => if max len (off + buf.length) = storeDiskSize then some (splice data off buf) else none

/-- A step that leaves no unsaved change behind a clear flag. -/
def StoreStep.KeepsClean (P : Platform) (s : Storage) (a : StoreStep) : Prop :=
  match a with
  | .load .. | .restore .. => ∀ st, a.readsBack P s = some (st, true) → st.pinSet = true
  | .fail .. => s.storeLoaded = true → s.storeDirty = true
  | .unmake =>
    s.storeLoaded = true → s.storeDirty = false → ∀ i, allocCredentialLocked s.store = some i →
      (s.store.creds i).trim = Credential.zero.trim
  | .blobWrite off buf allocOk =>
    ∀ data st, s.completes off buf allocOk = some data → storeFromDiskInto data = .ok st →
      st.pinSet = true ∨ s.file.Holds st
  | _ => True

/-! ## What each step does -/

theorem File.holds_of_read {file : File} {io : ReadIo} {st : Store}
    (h : readStoreFromPathLocked io file = .ok (st, false)) : file.Holds st := ⟨st, read_whole h, rfl⟩

/-- A file read as version 1 holds no version 2 blob. -/
theorem File.not_holds_of_read {file : File} {io : ReadIo} {st st' : Store}
    (h : readStoreFromPathLocked io file = .ok (st, true)) : ¬ file.Holds st' := by
  rintro ⟨st₂, hread, _⟩
  have heq := read_unique hread h
  cases heq

theorem File.holds_saved (st : Store) : File.Holds (some (storeToDisk st)) st := by
  exact ⟨st.trim, read_saved_whole st, Store.trim_trim st⟩

/-- A file holds one store, up to the bytes no code reads. -/
theorem File.Holds.iff_trim {file : File} {st st' : Store} (h : file.Holds st) : file.Holds st' ↔ st'.trim = st.trim := by
  obtain ⟨st₁, hread, htrim⟩ := h
  constructor
  · rintro ⟨st₂, hread', htrim'⟩
    rw [hread] at hread'
    cases hread'
    rw [← htrim, ← htrim']
  · intro heq
    exact ⟨st₁, hread, by rw [htrim, heq]⟩

/-- A write that reports success has written everything. -/
theorem write_ok {io : WriteIo} {disk : List UInt8} {file file' : File}
    (h : writeStoreToPathLocked io disk file = (.ok (), file')) : file' = some disk := by
  cases io with
  | openError e => cases h
  | stored k err =>
    cases err with
    | some e => cases h
    | none =>
      simp only [writeStoreToPathLocked, Prod.mk.injEq] at h
      obtain ⟨hres, rfl⟩ := h
      split at hres
      · next hk => rw [List.take_of_length_le hk]
      · cases hres

namespace Storage.CleanSaved

variable {s : Storage}

theorem of_dirty (h : s.storeDirty = true) : s.CleanSaved := by
  intro _ hclean
  rw [h] at hclean
  cases hclean

/-- A dirty store is saved, or stays dirty. -/
theorem persist (hP : P.persistEnabled = true) (io : Option WriteIo) (hd : s.storeDirty = true) :
    (maybePersistLocked P io s).CleanSaved := by
  intro _ hclean
  simp only [maybePersistLocked, hd, hP, Bool.not_true, Bool.false_eq_true, if_false] at hclean ⊢
  cases io with
  | none => cases hclean
  | some io =>
    dsimp only at hclean ⊢
    split at hclean
    · next u file hwrite =>
      have hfile : file = some (storeToDisk s.store) := write_ok hwrite
      rw [hfile]
      exact File.holds_saved s.store
    · cases hclean

/-- A store that was just put in place counts as saved, unless it carried PIN state. -/
theorem finalized_iff {s t : Storage} (hloaded : t.storeLoaded = true)
    (hstore : t.store = (finalizeRestoredStoreLocked s).store)
    (hdirty : t.storeDirty = (finalizeRestoredStoreLocked s).storeDirty) (hfile : t.file = s.file) :
    t.CleanSaved ↔ s.store.pinSet = true ∨ s.file.Holds s.store := by
  cases hpin : s.store.pinSet with
  | true =>
    simp only [finalizeRestoredStoreLocked, hpin, if_true] at hdirty
    exact ⟨fun _ => .inl rfl, fun _ => .of_dirty hdirty⟩
  | false =>
    simp only [finalizeRestoredStoreLocked, hpin, Bool.false_eq_true, if_false] at hstore hdirty
    simp [CleanSaved, hloaded, hdirty, hstore, hfile]

/-- So does a store that was just read, unless it was a version 1 blob without. -/
theorem read_iff {s t : Storage} {io : ReadIo} {r : Store × Bool} (hread : readStoreFromPathLocked io s.file = .ok r)
    (hr : s.store = r.1) (hloaded : t.storeLoaded = true) (hstore : t.store = (finalizeRestoredStoreLocked s).store)
    (hdirty : t.storeDirty = (finalizeRestoredStoreLocked s).storeDirty) (hfile : t.file = s.file) :
    t.CleanSaved ↔ (r.2 = true → r.1.pinSet = true) := by
  obtain ⟨st, v1⟩ := r
  rw [finalized_iff hloaded hstore hdirty hfile, hr]
  cases v1 with
  | false => exact iff_of_true (.inr (File.holds_of_read hread)) (by simp)
  | true =>
    refine ⟨fun h _ => ?_, fun h => .inl (h rfl)⟩
    rcases h with h | h
    · exact h
    · exact absurd h (File.not_holds_of_read hread)

end Storage.CleanSaved

namespace StoreStep

variable {s : Storage}

theorem cleanSaved_load (hP : P.persistEnabled = true) (hs : s.CleanSaved) (io : ReadIo) (ids : FreshIds) :
    (apply P s (.load io ids)).CleanSaved ↔ KeepsClean P s (.load io ids) := by
  by_cases hl : s.storeLoaded = true
  · simp [apply, StoreOp.load_of_loaded hl, KeepsClean, readsBack, hl, hs]
  have hl' : s.storeLoaded = false := by simpa using hl
  cases hr : readStoreFromPathLocked io s.file with
  | error e =>
    have hdirty : (loadStoreLocked P io ids s).storeDirty = true := by
      simp [loadStoreLocked, hl', hP, hr, initNewStoreLocked]
    simp [apply, Storage.CleanSaved.of_dirty hdirty, KeepsClean, readsBack, hl', hP, hr, Except.toOption]
  | ok r =>
    have happly : loadStoreLocked P io ids s =
        { finalizeRestoredStoreLocked { s with store := r.1, storeDirty := s.storeDirty || r.2 } with
          storeLoaded := true, storeGeneration := s.storeGeneration + 1 } := by
      simp [loadStoreLocked, hl', hP, hr]
    have hiff : (loadStoreLocked P io ids s).CleanSaved ↔ (r.2 = true → r.1.pinSet = true) := by
      rw [happly]
      exact Storage.CleanSaved.read_iff (s := { s with store := r.1, storeDirty := s.storeDirty || r.2 }) hr rfl rfl
        rfl rfl (finalize_file _)
    rw [apply, hiff]
    obtain ⟨st, v1⟩ := r
    cases v1 <;> simp [KeepsClean, readsBack, hl', hP, hr, Except.toOption]

theorem cleanSaved_restore (hs : s.CleanSaved) (allocOk : Bool) (io : ReadIo) :
    (apply P s (.restore allocOk io)).CleanSaved ↔ KeepsClean P s (.restore allocOk io) := by
  cases allocOk with
  | false => exact iff_of_true hs (by simp [KeepsClean, readsBack])
  | true =>
    cases hr : readStoreFromPathLocked io s.file with
    | error e =>
      have happly : (restorePersistedStoreLocked true io s).2 = s := by simp [restorePersistedStoreLocked, hr]
      rw [apply, happly]
      exact iff_of_true hs (by simp [KeepsClean, readsBack, hr, Except.toOption])
    | ok r =>
      have happly : (restorePersistedStoreLocked true io s).2 =
          { finalizeRestoredStoreLocked
              { s with store := r.1, storeLoaded := true, storeDirty := s.storeDirty || r.2 } with
            storeGeneration := s.storeGeneration + 1 } := by
        simp [restorePersistedStoreLocked, hr]
      have hiff : (restorePersistedStoreLocked true io s).2.CleanSaved ↔ (r.2 = true → r.1.pinSet = true) := by
        rw [happly]
        exact Storage.CleanSaved.read_iff
          (s := { s with store := r.1, storeLoaded := true, storeDirty := s.storeDirty || r.2 }) hr rfl
          (StoreOp.finalize_storeLoaded _) rfl rfl (finalize_file _)
      rw [apply, hiff]
      obtain ⟨st, v1⟩ := r
      cases v1 <;> simp [KeepsClean, readsBack, hr, Except.toOption]

theorem cleanSaved_blobWrite (hs : s.CleanSaved) (off : Nat) (buf : List UInt8) (allocOk : Bool) :
    (apply P s (.blobWrite off buf allocOk)).CleanSaved ↔ KeepsClean P s (.blobWrite off buf allocOk) := by
  -- What only touches the staging buffer completes no blob.
  have hother : ∀ staging, s.completes off buf allocOk = none →
      (({ s with staging := staging } : Storage).CleanSaved ↔ KeepsClean P s (.blobWrite off buf allocOk)) := by
    intro staging hnone
    exact iff_of_true hs (by simp [KeepsClean, hnone])
  simp only [apply, storeBlobWrite]
  by_cases hrange : storeDiskSize ≤ off ∨ storeDiskSize - off < buf.length
  · rw [if_pos hrange]
    exact hother s.staging (by rw [Storage.completes, if_pos hrange])
  rw [if_neg hrange]
  cases hstaging : (s.staging <|> if allocOk then some (List.replicate storeDiskSize 0, 0) else none) with
  | none =>
    exact hother s.staging (by rw [Storage.completes, if_neg hrange, hstaging])
  | some staged =>
    obtain ⟨data, len⟩ := staged
    have hcompletes : s.completes off buf allocOk =
        if max len (off + buf.length) = storeDiskSize then some (splice data off buf) else none := by
      rw [Storage.completes, if_neg hrange, hstaging]
    dsimp only
    by_cases hv1 : max len (off + buf.length) = storeDiskV1Size
    · rw [if_pos hv1]
      exact hother none (by rw [hcompletes, hv1, if_neg (by decide)])
    rw [if_neg hv1]
    by_cases hv2 : max len (off + buf.length) = storeDiskSize
    · rw [if_pos hv2]
      rw [if_pos hv2] at hcompletes
      cases hdec : storeFromDiskInto (splice data off buf) with
      | error e =>
        refine iff_of_true hs fun data' st hdata hst => ?_
        rw [hcompletes] at hdata
        cases hdata
        rw [hdec] at hst
        cases hst
      | ok st =>
        refine (Storage.CleanSaved.finalized_iff
          (s := { s with store := st, storeLoaded := true, storeGeneration := s.storeGeneration + 1 })
          (StoreOp.finalize_storeLoaded _) rfl rfl (finalize_file _)).trans ⟨fun h data' st' hdata hst => ?_, fun h => ?_⟩
        · rw [hcompletes] at hdata
          cases hdata
          rw [hdec] at hst
          cases hst
          exact h
        · exact h _ st hcompletes hdec
    · rw [if_neg hv2]
      exact hother (some (splice data off buf, max len (off + buf.length))) (by rw [hcompletes, if_neg hv2])

/-- A clean store that is changed and not marked is not on file any more. -/
theorem cleanSaved_unmarked (hs : s.CleanSaved) {st : Store} :
    ({ s with store := st } : Storage).CleanSaved ↔
      (s.storeLoaded = true → s.storeDirty = false → st.trim = s.store.trim) := by
  refine forall_congr' fun hl => forall_congr' fun hd => ?_
  obtain ⟨st', hread, htrim⟩ := hs hl hd
  have hholds : s.file.Holds s.store := ⟨st', hread, htrim⟩
  exact hholds.iff_trim

theorem cleanSaved_fail (hs : s.CleanSaved) (slot : Fin maxCreds) (signed : Bool) :
    (apply P s (.fail slot signed)).CleanSaved ↔ KeepsClean P s (.fail slot signed) := by
  have hne : ({ s.store with signCount := s.store.signCount + 1 } : Store).trim ≠ s.store.trim := by
    intro heq
    have hcount : s.store.signCount + 1 = s.store.signCount := congrArg Store.signCount heq
    simp at hcount
  refine (cleanSaved_unmarked hs).trans ?_
  simp only [KeepsClean]
  refine forall_congr' fun _ => ?_
  cases s.storeDirty with
  | true => exact iff_of_true (fun h => by cases h) rfl
  | false => exact iff_of_false (fun h => hne (h rfl)) (by simp)

theorem cleanSaved_unmake (hs : s.CleanSaved) :
    (apply P s .unmake).CleanSaved ↔ KeepsClean P s .unmake := by
  simp only [apply, StoreOp.apply, KeepsClean]
  cases hi : allocCredentialLocked s.store with
  | none => exact iff_of_true hs (by simp)
  | some i =>
    refine (cleanSaved_unmarked hs).trans (forall_congr' fun _ => forall_congr' fun _ => ?_)
    constructor
    · intro heq j hj
      cases hj
      have hslot := congrFun (congrArg Store.creds heq) i
      simpa [Store.trim] using hslot.symm
    · intro hzero
      have hslot := hzero i rfl
      simp only [Store.trim, Store.mk.injEq, true_and]
      funext j
      by_cases hj : j = i
      · subst hj
        rw [Function.update_self, hslot]
      · rw [Function.update_of_ne hj]

/-- **Exactly these steps break it.** -/
theorem cleanSaved_step (hP : P.persistEnabled = true) (hs : s.CleanSaved) (a : StoreStep) :
    (a.apply P s).CleanSaved ↔ a.KeepsClean P s := by
  cases a with
  | load io ids => exact cleanSaved_load hP hs io ids
  | restore allocOk io => exact cleanSaved_restore hs allocOk io
  | blobWrite off buf allocOk => exact cleanSaved_blobWrite hs off buf allocOk
  | fail slot signed => exact cleanSaved_fail hs slot signed
  | unmake => exact cleanSaved_unmake hs
  | boot => exact iff_of_true (fun h => by cases h) trivial
  | make c io =>
    refine iff_of_true ?_ trivial
    simp only [apply]
    split
    · exact hs
    · exact .persist hP io rfl
  | answer slot io => exact iff_of_true (.persist hP io rfl) trivial
  | reset ids io => exact iff_of_true (.persist hP io rfl) trivial
  | pinReset io => exact iff_of_true (.persist hP io rfl) trivial
  | persist io =>
    refine iff_of_true ?_ trivial
    by_cases hd : s.storeDirty = true
    · exact .persist hP io hd
    · simpa [apply, maybePersistLocked, hd] using hs

end StoreStep

/-! ## Runs -/

namespace Storage

theorem cleanSaved_boot (file : File) : (boot file).CleanSaved := fun h => by cases h

/-- The state a run from boot has reached after its first steps. -/
def reached (P : Platform) (file : File) (steps : List StoreStep) : Storage := StoreStep.applyAll P (.boot file) steps

theorem reached_concat (file : File) (steps : List StoreStep) (a : StoreStep) :
    reached P file (steps ++ [a]) = a.apply P (reached P file steps) := by
  rw [reached, StoreStep.applyAll_append]
  rfl

/-- **Clean means saved in every state of a run exactly if every step of it
leaves no unsaved change behind a clear flag.** -/
theorem cleanSaved_iff (P : Platform) (hP : P.persistEnabled = true) (file : File) (steps : List StoreStep) :
    (∀ done, done <+: steps → (reached P file done).CleanSaved) ↔
      ∀ done a, done ++ [a] <+: steps → a.KeepsClean P (reached P file done) := by
  constructor
  · intro h done a hdone
    have hbefore := h done ((List.prefix_append done [a]).trans hdone)
    have hafter := h (done ++ [a]) hdone
    rw [reached_concat] at hafter
    exact (StoreStep.cleanSaved_step hP hbefore a).mp hafter
  · intro h done
    induction done using List.reverseRecOn with
    | nil => exact fun _ => cleanSaved_boot file
    | append_singleton done a ih =>
      intro hdone
      have hbefore := ih ((List.prefix_append done [a]).trans hdone)
      rw [reached_concat]
      exact (StoreStep.cleanSaved_step hP hbefore a).mpr (h done a hdone)

/-- A first use on the file of a store with one credential, and one more step. -/
def usedRun (a : StoreStep) : List StoreStep := [.load .ok ⟨zeros 16, zeros 32⟩, a]

/-- A first use of a saved store finds a version 2 blob. -/
theorem readsBack_saved (ids : FreshIds) (st : Store) :
    StoreStep.readsBack .persistent (.boot (some (storeToDisk st))) (.load .ok ids) = some (st.trim, false) := by
  simp [StoreStep.readsBack, boot, Platform.persistent, read_saved_whole, Except.toOption]

theorem keepsClean_firstUse (ids : FreshIds) (st : Store) :
    StoreStep.KeepsClean .persistent (.boot (some (storeToDisk st))) (.load .ok ids) := by
  intro st' h
  rw [readsBack_saved] at h
  cases h

theorem cleanSaved_usedRun :
    (reached .persistent (some (storeToDisk keyStore)) (usedRun (.answer firstSlot none))).CleanSaved := by
  refine (cleanSaved_iff .persistent rfl (some (storeToDisk keyStore)) (usedRun (.answer firstSlot none))).mpr ?_ _
    List.prefix_rfl
  intro done a hdone
  match done with
  | [] =>
    simp only [usedRun, List.nil_append, List.cons_prefix_cons] at hdone
    rw [hdone.1]
    exact keepsClean_firstUse _ keyStore
  | [b] =>
    simp only [usedRun, List.cons_append, List.nil_append, List.cons_prefix_cons] at hdone
    rw [hdone.2.1]
    trivial
  | _ :: _ :: _ =>
    have := hdone.length_le
    simp [usedRun] at this

/-- An assertion that fails after a first use leaves a clean store with a
counter that is not on file. -/
theorem not_cleanSaved_fail (ids : FreshIds) (st : Store) (hpin : st.pinSet = false) :
    ¬ (reached .persistent (some (storeToDisk st)) ([.load .ok ids] ++ [.fail firstSlot false])).CleanSaved := by
  intro h
  rw [reached_concat] at h
  have hbefore : (reached .persistent (some (storeToDisk st)) [.load .ok ids]).CleanSaved :=
    (StoreStep.cleanSaved_step rfl (cleanSaved_boot _) _).mpr (keepsClean_firstUse ids st)
  have hloaded : (loadStoreLocked .persistent .ok ids (.boot (some (storeToDisk st)))).storeLoaded = true :=
    StoreOp.load_storeLoaded ..
  have hkeeps : (loadStoreLocked .persistent .ok ids (.boot (some (storeToDisk st)))).storeDirty = true :=
    (StoreStep.cleanSaved_step rfl hbefore (.fail firstSlot false)).mp h hloaded
  rw [load_saved (P := .persistent) rfl ids hpin] at hkeeps
  cases hkeeps

theorem exists_not_cleanSaved : ∃ file steps, ¬ (reached .persistent file steps).CleanSaved :=
  ⟨_, _, not_cleanSaved_fail ⟨zeros 16, zeros 32⟩ keyStore rfl⟩

end Storage

end AbkFido
