/-
What an edit makes of the store in a blob.

The companion edits bytes. Where they are those of a store, the bytes it
leaves hold the store `Edit.apply` makes of it (`Edit.run_store`). The driver
trims the names of a store it adopts and drops its PIN state; either may be
done before the edit as well as after it (`trim_apply`, `dropPin_apply`).
-/
import AbkFido.App.Edit
import AbkFido.App.BlobFacts
import AbkFido.PersistFacts

namespace AbkFido

open Layout

/-! ## Edits of a store -/

/-- Legacy PIN state, dropped as it is when the driver adopts a store. -/
def Store.dropPin (st : Store) : Store :=
  if st.pinSet then { st with pinSet := false, pinHash := zeros 16, pinRetries := pinRetriesDefault } else st

/-- The records whose credential ids are new, one after another. -/
def Store.importRecords (st : Store) (existing : List (List UInt8)) : List FidoCredentialRecord → Store
  | [] => st
  | r :: rs =>
    if r.credId ∈ existing then st.importRecords existing rs
    else ((st.withCredential r).getD st).importRecords (r.credId :: existing) rs

/-- What the user asked for, done to a store. -/
def Edit.apply (st : Store) : Edit → Store
  | .delete slot => st.withoutSlot slot
  | .rename slot userName userDisplay => st.withRenamedSlot slot userName userDisplay
  | .imports records => st.importRecords (st.credIds.map (·.toList)) records

namespace Store

theorem dropPin_withCreds (st : Store) (creds : Fin maxCreds → Credential) :
    ({ st with creds := creds } : Store).dropPin = { st.dropPin with creds := creds } := by
  unfold dropPin
  split <;> rfl

@[simp] theorem dropPin_creds (st : Store) : st.dropPin.creds = st.creds := by
  unfold dropPin
  split <;> rfl

theorem dropPin_withCredential (st : Store) (r : FidoCredentialRecord) :
    (st.withCredential r).map dropPin = st.dropPin.withCredential r := by
  simp only [withCredential, dropPin_creds, Option.map_map]
  refine Option.map_congr fun slot _ => ?_
  exact dropPin_withCreds _ _

theorem dropPin_importRecords (rs : List FidoCredentialRecord) (st : Store) (existing : List (List UInt8)) :
    (st.importRecords existing rs).dropPin = st.dropPin.importRecords existing rs := by
  induction rs generalizing st existing with
  | nil => rfl
  | cons r rs ih =>
    simp only [importRecords]
    split
    · exact ih _ _
    · rw [ih, ← dropPin_withCredential]
      cases st.withCredential r <;> rfl

/-- Two stores that read the same. -/
theorem trim_withCreds (st : Store) (slot : Fin maxCreds) (c : Credential) :
    ({ st with creds := Function.update st.creds slot c } : Store).trim =
      { st.trim with creds := Function.update st.trim.creds slot c.trim } := by
  simp only [trim, mk.injEq, true_and]
  funext i
  by_cases hi : i = slot
  · subst hi; simp
  · simp [Function.update_of_ne hi]

theorem trim_withCredential {st st' : Store} (h : st.trim = st'.trim) (r : FidoCredentialRecord) :
    (st.withCredential r).map trim = (st'.withCredential r).map trim := by
  have hcreds : ∀ i, (st.creds i).trim = (st'.creds i).trim := fun i => congrFun (congrArg Store.creds h) i
  have hfree : (fun slot => !(st.creds slot).inUse) = fun slot => !(st'.creds slot).inUse := by
    funext i
    have hi := congrArg Credential.inUse (hcreds i)
    simp only [Credential.trim_inUse] at hi
    rw [hi]
  simp only [withCredential, hfree, Option.map_map]
  refine Option.map_congr fun slot _ => ?_
  simp only [Function.comp_apply, trim_withCreds, h]

theorem trim_importRecords (rs : List FidoCredentialRecord) {st st' : Store} (h : st.trim = st'.trim)
    (existing : List (List UInt8)) :
    (st.importRecords existing rs).trim = (st'.importRecords existing rs).trim := by
  induction rs generalizing st st' existing with
  | nil => exact h
  | cons r rs ih =>
    simp only [importRecords]
    split
    · exact ih h _
    · refine ih ?_ _
      have hr := trim_withCredential h r
      cases hs : st.withCredential r <;> cases hs' : st'.withCredential r <;> rw [hs, hs'] at hr
      · exact h
      · cases hr
      · cases hr
      · exact Option.some.inj hr

end Store

namespace Edit

/-- Dropping PIN state and editing do not interfere. -/
theorem dropPin_apply (e : Edit) (st : Store) : (e.apply st).dropPin = e.apply st.dropPin := by
  cases e with
  | delete slot =>
    simp only [apply, Store.withoutSlot, Store.dropPin_withCreds, Store.dropPin_creds]
  | rename slot userName userDisplay =>
    simp only [apply, Store.withRenamedSlot, Store.dropPin_withCreds, Store.dropPin_creds]
  | imports records =>
    simp only [apply, Store.dropPin_importRecords, Store.credIds, Store.used, Store.dropPin_creds]

/-- An edit of what reads the same reads the same. -/
theorem trim_apply (e : Edit) {st st' : Store} (h : st.trim = st'.trim) : (e.apply st).trim = (e.apply st').trim := by
  have hcreds : ∀ i, (st.creds i).trim = (st'.creds i).trim := fun i => congrFun (congrArg Store.creds h) i
  cases e with
  | delete slot => simp only [apply, Store.withoutSlot, Store.trim_withCreds, h]
  | rename slot userName userDisplay =>
    simp only [apply, Store.withRenamedSlot, Store.trim_withCreds, h]
    have hc := hcreds slot
    simp only [Credential.trim, Credential.mk.injEq] at hc
    simp only [Credential.trim, hc]
  | imports records =>
    have hids : st.credIds = st'.credIds := by
      rw [← Store.credIds_trim st, h, Store.credIds_trim]
    simp only [apply, hids]
    exact Store.trim_importRecords records h _

end Edit

/-! ## The companion's edits are those edits -/

namespace FidoStoreBlob

/-- The blob of a store the driver holds. -/
structure Of (b : FidoStoreBlob) (live : Store) : Prop where
  marked : b.Marked
  store : b.store.dropPin.trim = live.trim

theorem credentialAt_credId {b : FidoStoreBlob} {slot : Fin maxCreds} {r : FidoCredentialRecord}
    (h : b.credentialAt slot = some r) : r.credId = (b.store.creds slot).credId.toList := by
  have hbytes := ((slotAt slot).comp (DiskCred.v1Field.comp DiskCredV1.credIdField)).take_drop_enc b.disk
  rw [show (storeDiskCodec diskCredCodec).enc b.disk = b.raw from b.disk_bytes] at hbytes
  simp only [credentialAt] at h
  split at h
  · cases h
  · cases h
    exact hbytes

theorem credentialAt_isSome {b : FidoStoreBlob} (h : b.Marked) (slot : Fin maxCreds) :
    (b.credentialAt slot).isSome = (b.store.creds slot).inUse := by
  have hfree := h.free_iff slot
  simp only [credentialAt]
  split
  · next hne =>
    rw [bne_iff_ne.mpr hne] at hfree
    simpa using hfree.symm
  · next heq =>
    rw [not_not.mp heq] at hfree
    simpa using hfree.symm

/-- What the list of a marked blob shows is what the driver has in use. -/
theorem credentials_credId {b : FidoStoreBlob} (h : b.Marked) :
    b.credentials.map (·.credId) = b.store.credIds.map (·.toList) := by
  rw [credentials, Store.credIds, Store.used, List.map_map]
  generalize List.finRange maxCreds = slots
  induction slots with
  | nil => rfl
  | cons slot slots ih =>
    have hsome := credentialAt_isSome h slot
    cases hc : b.credentialAt slot with
    | none =>
      rw [hc] at hsome
      rw [List.filterMap_cons_none hc, List.filter_cons_of_neg (by simp [← hsome]), ih]
    | some r =>
      rw [hc] at hsome
      rw [List.filterMap_cons_some hc, List.filter_cons_of_pos (by simp [← hsome]), List.map_cons, List.map_cons, ih,
        credentialAt_credId hc]
      rfl

theorem length_credentials {b : FidoStoreBlob} (h : b.Marked) : b.credentials.length = countCredentials b.store := by
  have hids := congrArg List.length (credentials_credId h)
  simpa [Store.credIds, countCredentials] using hids

end FidoStoreBlob

/-- One turn of the loop. -/
theorem importRecord_store {l l' : ImportLoop} {r : FidoCredentialRecord} (hm : l.next.Marked)
    (h : importRecord l r = .ok l') :
    l'.next.Marked ∧ ((r.credId ∈ l.existing ∧ l'.existing = l.existing ∧ l'.next = l.next ∧ l'.imported = l.imported) ∨
      (r.credId ∉ l.existing ∧ l'.existing = r.credId :: l.existing ∧
        l.next.store.withCredential r = some l'.next.store ∧ l'.imported = l.imported + 1)) := by
  simp only [importRecord] at h
  split at h
  · next hmem =>
    cases h
    exact ⟨hm, .inl ⟨hmem, rfl, rfl, rfl⟩⟩
  · next hmem =>
    cases hw : l.next.withCredential r with
    | none => rw [hw] at h; cases h
    | some next =>
      rw [hw] at h
      cases h
      refine ⟨hm.withCredential hw, .inr ⟨hmem, rfl, ?_, rfl⟩⟩
      rw [← FidoStoreBlob.store_withCredential hm, hw]
      rfl

theorem importRecords_store : ∀ {rs : List FidoCredentialRecord} {l l' : ImportLoop}, l.next.Marked →
    rs.foldlM importRecord l = .ok l' →
    l'.next.Marked ∧ l'.next.store = l.next.store.importRecords l.existing rs ∧ l.imported ≤ l'.imported ∧
      (l'.imported = l.imported → l'.next = l.next)
  | [], l, l', hm, h => by
    cases h
    exact ⟨hm, rfl, le_rfl, fun _ => rfl⟩
  | r :: rs, l, l', hm, h => by
    rw [List.foldlM_cons] at h
    cases hr : importRecord l r with
    | error l₁ => rw [hr] at h; cases h
    | ok l₁ =>
      rw [hr] at h
      obtain ⟨hm₁, hturn⟩ := importRecord_store hm hr
      obtain ⟨hm', hstore, hle, hnext⟩ := importRecords_store hm₁ h
      refine ⟨hm', ?_⟩
      rcases hturn with ⟨hmem, hex, heq, himp⟩ | ⟨hmem, hex, heq, himp⟩
      · rw [Store.importRecords, if_pos hmem, ← heq, ← hex]
        exact ⟨hstore, himp ▸ hle, fun h => hnext (h.trans himp.symm)⟩
      · rw [Store.importRecords, if_neg hmem, heq, ← hex]
        exact ⟨hstore, by omega, fun h => by omega⟩

/-- **What is committed holds the edited store**; if there is nothing to commit the edit changes nothing. -/
theorem Edit.run_store {e : Edit} {b : FidoStoreBlob} (hm : b.Marked) :
    (∀ {next}, e.run b = .ok (some next) → next.store = e.apply b.store) ∧
      (e.run b = .ok none → e.apply b.store = b.store) := by
  cases e with
  | delete slot =>
    simp only [run]
    split
    · exact ⟨fun h => (by cases h), fun h => by cases h⟩
    · refine ⟨fun h => ?_, fun h => by cases h⟩
      cases h
      exact b.store_withoutSlot slot
  | rename slot userName userDisplay =>
    simp only [run]
    split
    · exact ⟨fun h => (by cases h), fun h => by cases h⟩
    · refine ⟨fun h => ?_, fun h => by cases h⟩
      cases h
      exact b.store_withRenamedSlot slot userName userDisplay
  | imports records =>
    simp only [run, apply]
    cases hloop : records.foldlM importRecord (ImportLoop.init b) with
    | error l => exact ⟨fun h => (by cases h), fun h => by cases h⟩
    | ok l =>
      obtain ⟨_, hstore, _, hnext⟩ := importRecords_store (l := .init b) hm hloop
      have hexisting : (ImportLoop.init b).existing = b.store.credIds.map (·.toList) :=
        FidoStoreBlob.credentials_credId hm
      rw [hexisting] at hstore
      simp only
      split
      · next hzero =>
        refine ⟨fun h => (by cases h), fun _ => ?_⟩
        have hsame := hnext hzero
        rw [hsame] at hstore
        exact hstore.symm
      · refine ⟨fun h => ?_, fun h => by cases h⟩
        cases h
        exact hstore

end AbkFido
