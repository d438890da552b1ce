/-
Uploads of a blob to the `store_blob` node, a chunk at a time.

A write is taken as the last one from the number of bytes staged so far, and
so is a write of a version 1 blob, which is refused. An upload of a version 2
blob is therefore as good as one write of the whole exactly if none of its
chunks but the last ends where a version 1 blob would, with no more than that
staged before (`unsplit_iff`).
-/
import AbkFido.App.EditRuns

namespace AbkFido

open Layout

/-- Chunks written one after another from an offset, until one is refused.
`allocOk` says whether a write at an offset finds room for the staging buffer. -/
def uploadFrom (allocOk : Nat → Bool) : Nat → List (List UInt8) → Storage → Except Errno Storage
  | _, [], s => .ok s
  | off, chunk :: chunks, s =>
    match storeBlobWrite off chunk (allocOk off) s with
    | (.error e, _) => .error e
    | (.ok _, s) => uploadFrom allocOk (off + chunk.length) chunks s

namespace Storage

/-- `store_blob_staging_len` -/
def stagedLen (s : Storage) : Nat := (s.staging.map (·.2)).getD 0

/-- A blob that has arrived is the driver's store. -/
def adopt (st : Store) (s : Storage) : Storage :=
  { finalizeRestoredStoreLocked { s with store := st, storeLoaded := true, storeGeneration := s.storeGeneration + 1 } with
    staging := none }

theorem adopt_staging (st : Store) (s : Storage) (staging : Option (List UInt8 × Nat)) :
    ({ s with staging := staging } : Storage).adopt st = s.adopt st := by
  unfold adopt finalizeRestoredStoreLocked
  dsimp only
  split <;> rfl

/-- The staging buffer is as long as a blob, and holds neither all of one nor a version 1 blob's length. -/
def Partial (s : Storage) : Prop :=
  ∀ data len, s.staging = some (data, len) →
    data.length = storeDiskSize ∧ len < storeDiskSize ∧ len ≠ storeDiskV1Size

end Storage

/-- The upload does what one write of the whole blob does: no chunk is
refused, the store is left alone until the last has come, and then it is the
one a single write leaves. -/
structure Unsplit (allocOk : Nat → Bool) (blob : List UInt8) (chunks : List (List UInt8)) (s : Storage) : Prop where
  single : ∃ st, storeFromDiskInto blob = .ok st ∧ storeBlobWrite 0 blob true s = (.ok blob.length, s.adopt st)
  whole : uploadFrom allocOk 0 chunks s = .ok (storeBlobWrite 0 blob true s).2
  waits : ∀ done rest, chunks = done ++ rest → rest ≠ [] →
    ∃ staging, uploadFrom allocOk 0 done s = .ok { s with staging := staging }

/-- The staging buffer is there or to be had, and where a chunk but the last
ends after as many bytes as a version 1 blob has, more are staged already. -/
structure Clear (allocOk : Nat → Bool) (chunks : List (List UInt8)) (s : Storage) : Prop where
  buffer : s.staging ≠ none ∨ allocOk 0 = true
  boundary : ∀ done rest, chunks = done ++ rest → rest ≠ [] → done.flatten.length = storeDiskV1Size →
    storeDiskV1Size < s.stagedLen

/-! ## The staging buffer of every reachable state -/

variable {P : Platform} {allocOk : Nat → Bool} {s s' : Storage} {data blob buf : List UInt8} {len off : Nat}
  {chunks done rest : List (List UInt8)} {st : Store}

theorem Storage.Partial.stagingOk (h : s.Partial) : s.StagingOk := fun data len hs => ⟨(h data len hs).1, (h data len hs).2.1⟩

theorem Storage.partial_none (h : s.staging = none) : s.Partial := fun data len hs => by
  rw [h] at hs
  cases hs

theorem blobWrite_partial (h : s.Partial) (off : Nat) (buf : List UInt8) (allocOk : Bool) :
    (storeBlobWrite off buf allocOk s).2.Partial := by
  have hok := blobWrite_stagingOk h.stagingOk off buf allocOk
  intro data len hs
  refine ⟨(hok data len hs).1, (hok data len hs).2, ?_⟩
  unfold storeBlobWrite at hs
  split at hs
  · exact (h data len hs).2.2
  dsimp only at hs
  split at hs
  · exact (h data len hs).2.2
  split at hs
  · cases hs
  next hv1 =>
  split at hs
  · split at hs <;> cases hs
  · cases hs
    exact hv1

theorem partial_applyAll (file : File) (ops : List StoreOp) : (StoreOp.applyAll P (.boot file) ops).Partial := by
  have hboot : (Storage.boot file).Partial := Storage.partial_none rfl
  rw [StoreOp.applyAll]
  generalize Storage.boot file = s at hboot
  induction ops generalizing s with
  | nil => exact hboot
  | cons op ops ih =>
    refine ih _ ?_
    by_cases hop : op.ofDriver = true
    · intro data len hs
      rw [staging_ofDriver hop] at hs
      exact hboot data len hs
    · cases op with
      | restore allocOk io =>
        intro data len hs
        exact hboot data len (by simpa [StoreOp.apply] using hs)
      | blobWrite off buf allocOk => exact blobWrite_partial hboot off buf allocOk
      | load | mint | bump | dirty | wipe | persist | pinReset => exact absurd rfl hop

/-! ## One write -/

/-- The buffer a write works on. -/
def Storage.buffer (alloc : Bool) (s : Storage) : Option (List UInt8 × Nat) :=
  s.staging <|> if alloc then some (List.replicate storeDiskSize 0, 0) else none

theorem Storage.buffer_len {alloc : Bool} (h : s.buffer alloc = some (data, len)) : len = s.stagedLen := by
  unfold buffer at h
  unfold stagedLen
  cases hs : s.staging with
  | some p =>
    rw [hs] at h
    cases h
    rfl
  | none =>
    rw [hs] at h
    cases alloc <;> cases h
    rfl

theorem Storage.Partial.buffer (h : s.Partial) {alloc : Bool} (hb : s.buffer alloc = some (data, len)) :
    data.length = storeDiskSize ∧ len < storeDiskSize ∧ len ≠ storeDiskV1Size := by
  unfold Storage.buffer at hb
  cases hs : s.staging with
  | some p =>
    rw [hs] at hb
    cases hb
    exact h _ _ hs
  | none =>
    rw [hs] at hb
    cases alloc <;> cases hb
    exact ⟨List.length_replicate, by decide, by decide⟩

theorem blobWrite_buffer {alloc : Bool} (h : s.buffer alloc = some (data, len)) (hoff : off < storeDiskSize)
    (hfits : off + buf.length ≤ storeDiskSize) :
    storeBlobWrite off buf alloc s =
      if max len (off + buf.length) = storeDiskV1Size then (.error .einval, { s with staging := none })
      else if max len (off + buf.length) = storeDiskSize then
        match storeFromDiskInto (splice data off buf) with
        | .ok st => (.ok buf.length, s.adopt st)
        | .error e => (.error e, { s with staging := none })
      else (.ok buf.length, { s with staging := some (splice data off buf, max len (off + buf.length)) }) := by
  have hrange : ¬ (storeDiskSize ≤ off ∨ storeDiskSize - off < buf.length) := by omega
  unfold Storage.buffer at h
  unfold storeBlobWrite
  rw [if_neg hrange, h]
  rfl

theorem blobWrite_noBuffer {alloc : Bool} (h : s.buffer alloc = none) (hoff : off < storeDiskSize)
    (hfits : off + buf.length ≤ storeDiskSize) : storeBlobWrite off buf alloc s = (.error .enomem, s) := by
  have hrange : ¬ (storeDiskSize ≤ off ∨ storeDiskSize - off < buf.length) := by omega
  unfold Storage.buffer at h
  unfold storeBlobWrite
  rw [if_neg hrange, h]

/-- A write over the first bytes that are still to come. -/
theorem take_splice (hdata : data.length = storeDiskSize) (htake : data.take off = blob.take off)
    (hbuf : buf <+: blob.drop off) (hfits : off + buf.length ≤ storeDiskSize) :
    (splice data off buf).take (off + buf.length) = blob.take (off + buf.length) := by
  have hlen : (data.take off ++ buf).length = off + buf.length := by
    rw [List.length_append, List.length_take]
    omega
  rw [splice, List.take_left' hlen, htake, List.take_add, List.prefix_iff_eq_take.mp hbuf, List.length_take]
  congr 1
  rw [List.take_eq_take_iff]
  omega

/-- The last write of a blob. -/
theorem blobWrite_last {alloc : Bool} (h : s.buffer alloc = some (data, len)) (hdata : data.length = storeDiskSize)
    (hlen : len < storeDiskSize) (hoff : off < storeDiskSize) (htake : data.take off = blob.take off)
    (hblob : blob.length = storeDiskSize) (hst : storeFromDiskInto blob = .ok st) :
    storeBlobWrite off (blob.drop off) alloc s = (.ok (blob.drop off).length, s.adopt st) := by
  have hall : off + (blob.drop off).length = storeDiskSize := by
    rw [List.length_drop]
    omega
  have hmax : max len (off + (blob.drop off).length) = storeDiskSize := by omega
  have hspliced := take_splice hdata htake (List.prefix_refl (blob.drop off)) hall.le
  rw [hall, List.take_of_length_le hblob.le, List.take_of_length_le (by rw [length_splice (by omega), hdata])] at hspliced
  rw [blobWrite_buffer h hoff hall.le, hmax, if_neg (by decide), if_pos rfl, hspliced, hst]

/-! ## Uploads -/

theorem uploadFrom_append : ∀ (chunks : List (List UInt8)) (rest : List (List UInt8)) (off : Nat) (s : Storage),
    uploadFrom allocOk off (chunks ++ rest) s =
      (uploadFrom allocOk off chunks s).bind fun s => uploadFrom allocOk (off + chunks.flatten.length) rest s
  | [], rest, off, s => rfl
  | chunk :: chunks, rest, off, s => by
    simp only [List.cons_append, uploadFrom]
    split
    · rfl
    · rw [uploadFrom_append, List.flatten_cons, List.length_append, Nat.add_assoc]

/-- No chunk ends where a version 1 blob would be taken as complete. -/
def Passes (len off : Nat) (chunks : List (List UInt8)) : Prop :=
  ∀ done rest, chunks = done ++ rest → done ≠ [] → max len (off + done.flatten.length) ≠ storeDiskV1Size

theorem passes_cons {chunk : List UInt8} : Passes len off (chunk :: chunks) ↔
    max len (off + chunk.length) ≠ storeDiskV1Size ∧
      Passes (max len (off + chunk.length)) (off + chunk.length) chunks := by
  have hmax : ∀ k, max (max len (off + chunk.length)) (off + chunk.length + k) = max len (off + (chunk.length + k)) := by
    intro k
    omega
  constructor
  · intro h
    refine ⟨by simpa using h [chunk] chunks rfl (List.cons_ne_nil _ _), fun done rest heq _ => ?_⟩
    rw [hmax, ← List.length_append, ← List.flatten_cons]
    exact h (chunk :: done) rest (congrArg _ heq) (List.cons_ne_nil _ _)
  · rintro ⟨hfirst, hrest⟩ done rest heq hne
    obtain ⟨x, done, rfl⟩ := List.exists_cons_of_ne_nil hne
    obtain ⟨rfl, hsplit⟩ := List.cons.inj heq
    rw [List.flatten_cons, List.length_append, ← hmax]
    by_cases hdone : done = []
    · rw [hdone]
      simpa using hfirst
    · exact hrest done rest hsplit hdone

/-- Chunks that do not complete the blob are staged, or one of them is refused. -/
theorem uploadFrom_part : ∀ {chunks : List (List UInt8)} {off : Nat} {s : Storage} {data : List UInt8} {len : Nat},
    s.buffer (allocOk off) = some (data, len) → data.length = storeDiskSize → len < storeDiskSize → off ≤ len →
    data.take off = blob.take off → chunks.flatten <+: blob.drop off → off + chunks.flatten.length < storeDiskSize →
    (Passes len off chunks ∧ ∃ staging data', uploadFrom allocOk off chunks s = .ok { s with staging := staging } ∧
      ({ s with staging := staging } : Storage).buffer (allocOk (off + chunks.flatten.length)) =
        some (data', max len (off + chunks.flatten.length)) ∧
      data'.length = storeDiskSize ∧
      data'.take (off + chunks.flatten.length) = blob.take (off + chunks.flatten.length)) ∨
    (¬ Passes len off chunks ∧ ∃ e, uploadFrom allocOk off chunks s = .error e)
  | [], off, s, data, len, hbuffer, hdata, hlen, hoff, htake, _, _ => by
    refine .inl ⟨fun done rest heq hne => absurd (List.append_eq_nil_iff.mp heq.symm).1 hne, s.staging, data, rfl, ?_,
      hdata, htake⟩
    rw [List.flatten_nil, List.length_nil, Nat.add_zero, Nat.max_eq_left hoff]
    exact hbuffer
  | chunk :: chunks, off, s, data, len, hbuffer, hdata, hlen, hoff, htake, hpre, hfits => by
    rw [List.flatten_cons, List.length_append, ← Nat.add_assoc] at *
    have hchunk : chunk <+: blob.drop off := (List.prefix_append _ _).trans hpre
    have hrest : chunks.flatten <+: blob.drop (off + chunk.length) := by
      rw [← List.drop_drop]
      obtain ⟨tail, htail⟩ := hpre
      rw [← htail, List.append_assoc, List.drop_left]
      exact List.prefix_append _ _
    rw [passes_cons, uploadFrom, blobWrite_buffer hbuffer (by omega) (by omega)]
    by_cases hv1 : max len (off + chunk.length) = storeDiskV1Size
    · rw [if_pos hv1]
      exact .inr ⟨fun h => h.1 hv1, _, rfl⟩
    · rw [if_neg hv1, if_neg (by omega)]
      have hstaged : ({ s with staging := some (splice data off chunk, max len (off + chunk.length)) } : Storage).buffer
          (allocOk (off + chunk.length)) = some (splice data off chunk, max len (off + chunk.length)) := rfl
      have hnext := uploadFrom_part hstaged (by rw [length_splice (by omega), hdata]) (by omega) (by omega)
        (take_splice hdata htake hchunk (by omega)) hrest hfits
      have hmax : max (max len (off + chunk.length)) (off + chunk.length + chunks.flatten.length) =
          max len (off + chunk.length + chunks.flatten.length) := by omega
      rw [hmax] at hnext
      rcases hnext with ⟨hpass, staging, data', hupload, hstaged⟩ | ⟨hstop, e, hupload⟩
      · exact .inl ⟨⟨hv1, hpass⟩, staging, data', hupload, hstaged⟩
      · exact .inr ⟨fun h => hstop h.2, e, hupload⟩

/-- One write of the whole blob. -/
theorem blobWrite_whole (h : s.Partial) (hblob : blob.length = storeDiskSize) (hst : storeFromDiskInto blob = .ok st)
    {alloc : Bool} (hbuffer : s.buffer alloc = some (data, len)) :
    storeBlobWrite 0 blob alloc s = (.ok blob.length, s.adopt st) := by
  obtain ⟨hdata, hlen, -⟩ := h.buffer hbuffer
  exact blobWrite_last hbuffer hdata hlen (by decide) rfl hblob hst

theorem Storage.exists_buffer {alloc : Bool} (h : s.staging ≠ none ∨ alloc = true) : ∃ data len, s.buffer alloc = some (data, len) := by
  unfold buffer
  cases hs : s.staging with
  | some p => exact ⟨p.1, p.2, rfl⟩
  | none =>
    rcases h with h | rfl
    · exact absurd hs h
    · exact ⟨_, _, rfl⟩

/-- What is written before the last chunk is not all of the blob. -/
theorem length_done (hchunks : (done ++ rest).flatten = blob) (hne : ∀ chunk ∈ done ++ rest, chunk ≠ []) (hrest : rest ≠ []) :
    done.flatten <+: blob ∧ done.flatten.length < blob.length := by
  obtain ⟨chunk, rest, rfl⟩ := List.exists_cons_of_ne_nil hrest
  have hpos := List.length_pos_iff.mpr (hne chunk (by simp))
  subst hchunks
  rw [List.flatten_append, List.flatten_cons]
  refine ⟨List.prefix_append _ _, ?_⟩
  rw [List.length_append, List.length_append]
  omega

/-- What comes of the chunks before the last. -/
theorem uploadFrom_done (h : s.Partial) (hbuffer : s.buffer (allocOk 0) = some (data, len))
    (hblob : blob.length = storeDiskSize) (hchunks : (done ++ rest).flatten = blob)
    (hne : ∀ chunk ∈ done ++ rest, chunk ≠ []) (hrest : rest ≠ []) :
    (Passes len 0 done ∧ ∃ staging data', uploadFrom allocOk 0 done s = .ok { s with staging := staging } ∧
      ({ s with staging := staging } : Storage).buffer (allocOk done.flatten.length) =
        some (data', max len done.flatten.length) ∧
      data'.length = storeDiskSize ∧ data'.take done.flatten.length = blob.take done.flatten.length) ∨
    (¬ Passes len 0 done ∧ ∃ e, uploadFrom allocOk 0 done s = .error e) := by
  obtain ⟨hdata, hlen, -⟩ := h.buffer hbuffer
  obtain ⟨hpre, hfits⟩ := length_done hchunks hne hrest
  have hhead : data.take 0 = blob.take 0 := rfl
  have hpart := uploadFrom_part hbuffer hdata hlen (Nat.zero_le len) hhead hpre (by rw [Nat.zero_add, ← hblob]; exact hfits)
  rwa [Nat.zero_add] at hpart

/-- **An upload is as good as one write exactly if its way is clear**, after
whatever has been done to the node and the store since the boot. -/
theorem unsplit_iff (file : File) (ops : List StoreOp) (allocOk : Nat → Bool) {blob : List UInt8} {st : Store}
    {chunks : List (List UInt8)} (hblob : blob.length = storeDiskSize) (hst : storeFromDiskInto blob = .ok st)
    (hchunks : chunks.flatten = blob) (hne : ∀ chunk ∈ chunks, chunk ≠ []) :
    Unsplit allocOk blob chunks (StoreOp.applyAll P (.boot file) ops) ↔
      Clear allocOk chunks (StoreOp.applyAll P (.boot file) ops) := by
  have hstaged := partial_applyAll (P := P) file ops
  generalize StoreOp.applyAll P (.boot file) ops = s at hstaged ⊢
  have hsingle : storeBlobWrite 0 blob true s = (.ok blob.length, s.adopt st) := by
    obtain ⟨data, len, hbuffer⟩ := Storage.exists_buffer (s := s) (.inr rfl)
    exact blobWrite_whole hstaged hblob hst hbuffer
  obtain ⟨first, last, hlast⟩ : ∃ first last, chunks = first ++ [last] := by
    rcases List.eq_nil_or_concat chunks with rfl | ⟨first, last, h⟩
    · subst hchunks
      cases hblob
    · exact ⟨first, last, h.trans List.concat_eq_append⟩
  constructor
  · intro h
    have hbuffer : s.staging ≠ none ∨ allocOk 0 = true := by
      by_contra hno
      rw [not_or, not_not, Bool.not_eq_true] at hno
      obtain ⟨chunk, rest, rfl⟩ := List.exists_cons_of_ne_nil (l := chunks) (by rw [hlast]; simp)
      have hnone : s.buffer (allocOk 0) = none := by rw [Storage.buffer, hno.1, hno.2]; rfl
      have hfits := congrArg List.length hchunks
      rw [List.flatten_cons, List.length_append, hblob] at hfits
      have hwhole := h.whole
      rw [uploadFrom, blobWrite_noBuffer hnone (by decide) (by omega)] at hwhole
      cases hwhole
    refine ⟨hbuffer, fun done rest hsplit hrest hv1 => ?_⟩
    obtain ⟨data, len, hbuf⟩ := Storage.exists_buffer hbuffer
    obtain ⟨staging, hwaits⟩ := h.waits done rest hsplit hrest
    rcases uploadFrom_done hstaged hbuf hblob (hsplit ▸ hchunks) (hsplit ▸ hne) hrest with ⟨hpass, -⟩ | ⟨-, e, herr⟩
    · have hmax := hpass done [] (List.append_nil _).symm (by rintro rfl; cases hv1)
      rw [Nat.zero_add, hv1] at hmax
      rw [← Storage.buffer_len hbuf]
      omega
    · rw [hwaits] at herr
      cases herr
  · intro h
    obtain ⟨data, len, hbuf⟩ := Storage.exists_buffer h.buffer
    have hlen := (hstaged.buffer hbuf).2.2
    have hpart : ∀ done rest, chunks = done ++ rest → rest ≠ [] →
        ∃ staging data', uploadFrom allocOk 0 done s = .ok { s with staging := staging } ∧
          ({ s with staging := staging } : Storage).buffer (allocOk done.flatten.length) =
            some (data', max len done.flatten.length) ∧
          data'.length = storeDiskSize ∧ data'.take done.flatten.length = blob.take done.flatten.length := by
      intro done rest hsplit hrest
      rcases uploadFrom_done hstaged hbuf hblob (hsplit ▸ hchunks) (hsplit ▸ hne) hrest with ⟨-, hpart⟩ | ⟨hstop, -⟩
      · exact hpart
      · refine absurd (fun d r hd hdne hmax => ?_) hstop
        rw [Nat.zero_add] at hmax
        have hboundary := h.boundary d (r ++ rest) (by rw [hsplit, hd, List.append_assoc]) (by simp [hrest])
        rw [← Storage.buffer_len hbuf] at hboundary
        omega
    refine ⟨⟨st, hst, hsingle⟩, ?_, fun done rest hsplit hrest => ?_⟩
    · obtain ⟨staging, data', hupload, hbuf', hdata', htake'⟩ := hpart first [last] hlast (List.cons_ne_nil _ _)
      obtain ⟨hpre, hfits⟩ := length_done (hlast ▸ hchunks) (hlast ▸ hne) (List.cons_ne_nil _ _)
      have hrest : last = blob.drop first.flatten.length := by
        rw [← hchunks, hlast, List.flatten_append, List.drop_left]
        simp
      have hmax : max len first.flatten.length < storeDiskSize := by
        have := (hstaged.buffer hbuf).2.1
        omega
      have hwrite := blobWrite_last hbuf' hdata' hmax (by omega) htake' hblob hst
      rw [hlast, uploadFrom_append, hupload, Except.bind, Nat.zero_add, uploadFrom, hrest, hwrite, hsingle]
      exact congrArg Except.ok (Storage.adopt_staging st s staging)
    · obtain ⟨staging, -, hupload, -⟩ := hpart done rest hsplit hrest
      exact ⟨staging, hupload⟩

/-- A blob cut in two. -/
def cutAt (n : Nat) (blob : List UInt8) : List (List UInt8) := [blob.take n, blob.drop n]

theorem cutAt_ne_nil {n : Nat} (hpos : 0 < n) (hn : n < blob.length) : ∀ chunk ∈ cutAt n blob, chunk ≠ [] := by
  intro chunk hmem heq
  have hlen := congrArg List.length heq
  rcases List.mem_pair.mp hmem with rfl | rfl
  · rw [List.length_take, List.length_nil] at hlen
    omega
  · rw [List.length_drop, List.length_nil] at hlen
    omega

/-- A cut elsewhere does no harm. -/
theorem unsplit_cutAt_1000 : Unsplit (fun _ => true) (storeToDisk keyStore) (cutAt 1000 (storeToDisk keyStore)) (.boot none) := by
  have hlen := length_storeToDisk keyStore
  refine (unsplit_iff (P := .persistent) none [] (fun _ => true) hlen (storeFromDiskInto_storeToDisk keyStore) ?_
    (cutAt_ne_nil (by decide) (hlen.symm ▸ by decide))).mpr ⟨.inr rfl, fun done rest hsplit hrest hv1 => ?_⟩
  · simp [cutAt]
  · obtain ⟨chunk, rest, rfl⟩ := List.exists_cons_of_ne_nil hrest
    match done with
    | [] => cases hv1
    | [first] =>
      obtain ⟨rfl, -⟩ := List.cons.inj hsplit
      simp only [List.flatten_cons, List.flatten_nil, List.append_nil, List.length_take, hlen] at hv1
      revert hv1
      decide
    | _ :: _ :: done => simp [cutAt] at hsplit

theorem not_unsplit_of_refused {chunk : List UInt8} {e : Errno} (h : storeBlobWrite 0 chunk (allocOk 0) s = (.error e, s')) :
    ¬ Unsplit allocOk blob (chunk :: chunks) s := by
  intro hunsplit
  have hwhole := hunsplit.whole
  rw [uploadFrom, h] at hwhole
  cases hwhole

/-- A first chunk of as many bytes as a version 1 blob has is refused. -/
theorem blobWrite_v1Size {n : Nat} (hn : n = storeDiskV1Size) (hblob : blob.length = storeDiskSize) :
    storeBlobWrite 0 (blob.take n) true (.boot none) = (.error .einval, .boot none) := by
  have hlen : (blob.take n).length = storeDiskV1Size := by
    rw [List.length_take, hblob, hn]
    decide
  have hfits : 0 + (blob.take n).length ≤ storeDiskSize := by
    rw [hlen]
    decide
  have hbuffer : (Storage.boot none).buffer true = some (List.replicate storeDiskSize 0, 0) := rfl
  rw [blobWrite_buffer hbuffer (by decide) hfits, hlen, if_pos (by decide)]
  rfl

/-- A valid version 2 blob whose first chunk ends after 14548 bytes. -/
theorem exists_not_unsplit : ∃ blob : List UInt8, storeFromDiskInto blob = .ok keyStore.trim ∧
    (storeBlobWrite 0 (blob.take 14548) true (.boot none)).1 = .error .einval ∧
    ¬ Unsplit (fun _ => true) blob (cutAt 14548 blob) (.boot none) := by
  have hwrite := blobWrite_v1Size rfl (length_storeToDisk keyStore)
  refine ⟨storeToDisk keyStore, storeFromDiskInto_storeToDisk keyStore, congrArg Prod.fst hwrite, ?_⟩
  exact not_unsplit_of_refused hwrite

end AbkFido
