/-
A store that is not loaded holds no credential: every command that makes one
has loaded the store first, and a store once loaded stays so.
-/
import AbkFido.CommandFacts
import AbkFido.DeviceFacts

namespace AbkFido

variable {P : Platform}

/-- No slot is in use. -/
def Store.Empty (st : Store) : Prop := ∀ i, (st.creds i).inUse = false

theorem Store.Empty.used {st : Store} (h : st.Empty) : st.used = [] := by
  rw [Store.used, List.filter_eq_nil_iff]
  intro i _
  simp [h i]

/-- A store is loaded, or nothing is in it. -/
def Storage.Live (s : Storage) : Prop := s.storeLoaded = true ∨ s.store.Empty

theorem Storage.live_boot (file : File) : (Storage.boot file).Live := .inr fun _ => rfl

namespace Storage.Live

variable {s : Storage}

theorem persist (h : s.Live) (io : Option WriteIo) : (maybePersistLocked P io s).Live := by
  rcases h with h | h
  · exact .inl ((StoreOp.maybePersist_storeLoaded io s).trans h)
  · exact .inr (by rwa [StoreOp.maybePersist_store])

/-- Whatever is restored is loaded. -/
theorem restore (h : s.Live) (allocOk : Bool) (io : ReadIo) : (restorePersistedStoreLocked allocOk io s).2.Live := by
  simp only [restorePersistedStoreLocked]
  split
  · exact h
  split
  · exact .inl (StoreOp.finalize_storeLoaded _)
  · exact h

theorem blobWrite (h : s.Live) (off : Nat) (buf : List UInt8) (allocOk : Bool) :
    (storeBlobWrite off buf allocOk s).2.Live := by
  simp only [storeBlobWrite]
  split
  · exact h
  split
  · exact h
  split
  · exact h
  split
  · split
    · exact .inl (StoreOp.finalize_storeLoaded _)
    · exact h
  · exact h

end Storage.Live

/-- Signing changes no slot. -/
theorem encodeAssertion_creds (io : Io) (slot : Fin maxCreds) (rpId : List UInt8) (allow : List ListedCred)
    (hash : Bytes 32) (includeUser : Bool) (total : Nat) (hmac : Option (Bytes 64)) (c : Core) :
    (encodeAssertionLocked P io slot rpId allow hash includeUser total hmac c).core.storage.store.creds =
      c.storage.store.creds := by
  simp only [encodeAssertionLocked]
  split
  · rfl
  split
  · rfl
  split
  · rfl
  · rw [StoreOp.maybePersist_store]
    rfl

/-- Only makeCredential fills a slot. -/
theorem finish_empty (io : Io) (now : UInt64) {rest : Rest} (hrest : ∀ req, rest ≠ .makeCredential req) {c : Core}
    (h : c.storage.store.Empty) : (finish P io now rest c).core.storage.store.Empty := by
  cases rest with
  | makeCredential req => exact absurd rfl (hrest req)
  | selection | selectionMakeCredential => exact h
  | reset =>
    intro i
    show ((maybePersistLocked P io.persist (c.storage.wipe io.ids)).store.creds i).inUse = false
    rw [StoreOp.maybePersist_store]
    rfl
  | getAssertion req slot more =>
    intro i
    simp only [finish, getAssertionFinish]
    split
    · exact h i
    split
    · rw [encodeAssertion_creds]
      exact h i
    · split
      all_goals
        show ((encodeAssertionLocked P io slot _ _ _ _ _ _ c).core.storage.store.creds i).inUse = false
        rw [encodeAssertion_creds]
        exact h i
  | getNextAssertion slot served hash rpId =>
    intro i
    simp only [finish, getNextAssertionFinish]
    split
    · exact h i
    split
    · exact h i
    split
    all_goals
      show ((encodeAssertionLocked P io slot _ _ _ _ _ _ c).core.storage.store.creds i).inUse = false
      rw [encodeAssertion_creds]
      exact h i

/-- What is loaded stays loaded. -/
theorem finish_storeLoaded (io : Io) (now : UInt64) (rest : Rest) (c : Core) :
    (finish P io now rest c).core.storage.storeLoaded = c.storage.storeLoaded := by
  by_cases hrest : rest = .reset
  · subst hrest
    exact StoreOp.maybePersist_storeLoaded _ _
  · obtain ⟨ops, hops, heq⟩ := finish_ordinary (P := P) io now hrest c
    rw [heq]
    exact (StoreOp.keepsUsed_applyAll hops _).storeLoaded

/-- A command that makes a credential has loaded the store. -/
theorem start_makeCredential {io : Io} {now : UInt64} {cmd : Command} {c c' : Core} {ask : Ask} {req : MakeCredReq}
    (h : start P io now cmd c = (.ask ask (.makeCredential req), c')) : c'.storage.storeLoaded = true := by
  cases cmd with
  | getInfo | clientPin | unknown | reset | selection => cases h
  | makeCredential req' =>
    simp only [start] at h
    split at h
    · cases h
    split at h
    · cases h
    split at h
    · cases h
    · cases h
      exact StoreOp.load_storeLoaded _ _ _
  | getAssertion req' =>
    simp only [start] at h
    split at h
    · cases h
    split at h <;> cases h
  | getNextAssertion =>
    simp only [start] at h
    split at h
    · cases h
    split at h
    · cases h
    split at h
    · cases h
    split at h <;> cases h

namespace Device

/-- The invariant: a worker that is about to make a credential has the store loaded. -/
structure Loads (d : Device) : Prop where
  live : d.core.storage.Live
  making : ∀ t req, (d.worker t).rest = some (.makeCredential req) → d.core.storage.storeLoaded = true

namespace Loads

variable {d d' : Device}

theorem boot (file : File) (clock : Nat) : (Device.boot file clock).Loads :=
  ⟨Storage.live_boot file, fun _ _ h => by cases h⟩

/-- Storage that is still loaded if it was, and workers that make nothing new. -/
theorem of_storage (h : d.Loads) (hlive : d'.core.storage.Live)
    (hloaded : d.core.storage.storeLoaded = true → d'.core.storage.storeLoaded = true)
    (hw : ∀ t req, (d'.worker t).rest = some (.makeCredential req) →
      (d.worker t).rest = some (.makeCredential req) ∨ d'.core.storage.storeLoaded = true) : d'.Loads where
  live := hlive
  making t req ht := by
    rcases hw t req ht with ht | hl
    · exact hloaded (h.making t req ht)
    · exact hl

theorem of_same (h : d.Loads) (hstorage : d'.core.storage = d.core.storage)
    (hw : ∀ t rest, (d'.worker t).rest = some rest → (d.worker t).rest = some rest) : d'.Loads := by
  refine h.of_storage ?_ (fun hl => ?_) fun t req ht => .inl (hw t _ ht)
  · rw [hstorage]; exact h.live
  · rw [hstorage]; exact hl

theorem setWorker (h : d.Loads) {t : Transport} {w : Worker} (hw : w.rest = none ∨ w.rest = (d.worker t).rest) :
    (d.setWorker t w).Loads := by
  refine h.of_same rfl fun t' rest ht' => ?_
  by_cases hne : t' = t
  · subst hne
    rw [setWorker_self] at ht'
    rcases hw with hw | hw
    · rw [hw] at ht'; cases ht'
    · rw [← hw]; exact ht'
  · rwa [setWorker_of_ne hne] at ht'

theorem note (h : d.Loads) (e : Event) : (d.note e).Loads := h.of_same rfl fun _ _ ht => ht

theorem withAuth (h : d.Loads) (a : Auth) : ({ d with auth := a } : Device).Loads := h.of_same rfl fun _ _ ht => ht

/-- The storage changes, and nothing else. -/
theorem setStorage (h : d.Loads) {s : Storage} (hlive : s.Live)
    (hloaded : d.core.storage.storeLoaded = true → s.storeLoaded = true) : (d.setStorage s).Loads :=
  h.of_storage hlive hloaded fun _ _ ht => .inl ht

theorem start (h : d.Loads) (io : Io) (cmd : Command) :
    ({ d with core := (AbkFido.start P io d.jiffies cmd d.core).2 } : Device).Loads := by
  refine h.of_storage ?_ (fun hl => ?_) fun _ _ ht => .inl ht
  · rcases start_storage (P := P) io d.jiffies cmd d.core with heq | heq
    · exact heq ▸ h.live
    · exact .inl (heq ▸ StoreOp.load_storeLoaded _ _ _)
  · rcases start_storage (P := P) io d.jiffies cmd d.core with heq | heq
    · exact heq ▸ hl
    · exact heq ▸ StoreOp.load_storeLoaded _ _ _

theorem conclude (h : d.Loads) (t : Transport) (io : Io) {rest : Rest}
    (hrest : ∀ req, rest = .makeCredential req → d.core.storage.storeLoaded = true) :
    (d.conclude P t io rest).Loads := by
  rw [conclude_eq]
  have hloaded := finish_storeLoaded (P := P) io d.jiffies rest d.core
  refine h.of_storage ?_ (fun hl => hloaded.trans hl) fun t' req ht' => .inl ?_
  · by_cases hl : d.core.storage.storeLoaded = true
    · exact .inl (hloaded.trans hl)
    · refine .inr (finish_empty io _ (fun req hreq => hl (hrest req hreq)) ?_)
      exact h.live.resolve_left hl
  · change (Function.update d.worker t .idle t').rest = _ at ht'
    by_cases hne : t' = t
    · subst hne
      rw [Function.update_self] at ht'
      cases ht'
    · rwa [Function.update_of_ne hne] at ht'

theorem enter (h : d.Loads) (t : Transport) (io : Io) (cmd : Command) : (d.enter P t io cmd).Loads := by
  have hstart := h.start (P := P) io cmd
  rcases enter_cases (P := P) t io cmd d with ⟨_, c, hs, heq⟩ | ⟨ask, rest, c, hs, hgate⟩
  · rw [hs] at hstart
    rw [heq]
    exact hstart.setWorker (.inl rfl)
  rw [hs] at hstart
  have hmaking : ∀ req, rest = .makeCredential req → c.storage.storeLoaded = true := by
    rintro req rfl
    exact start_makeCredential hs
  rcases hgate with ⟨_, heq⟩ | ⟨_, _, heq⟩ | ⟨_, _, heq⟩
  · rw [heq]
    exact ((hstart.note _).note _).setWorker (.inl rfl)
  · rw [heq]
    exact (((hstart.withAuth _).note _).note _).conclude t io hmaking
  · rw [heq]
    refine hstart.of_storage hstart.live id fun t' req ht' => ?_
    by_cases hne : t' = t
    · subst hne
      rw [setWorker_self] at ht'
      exact .inr (hmaking req (Option.some.inj ht'))
    · rw [setWorker_of_ne hne] at ht'
      exact .inl ht'

theorem resume (h : d.Loads) {t : Transport} {io : Io} {r : UInt32} {first : Option Bool} {timedOut : Bool}
    {rest : Rest} (hw : d.worker t = .awake r first timedOut rest) :
    (d.resume P t io r first timedOut rest).Loads := by
  simp only [Device.resume]
  split
  · next a _ =>
    refine ((h.withAuth a).note _).conclude t io fun req hreq => h.making t req ?_
    rw [hw, hreq]
    rfl
  · exact ((h.withAuth _).note _).setWorker (.inl rfl)

theorem step {a : Action} (h : d.Loads) (hstep : d.step P a = some d') : d'.Loads := by
  cases a with
  | tick n => cases hstep; exact h.of_same rfl fun _ _ ht => ht
  | receive t msg allocOk =>
    simp only [Device.step] at hstep
    split at hstep
    · have hclear : ({ d with core := if endsContinuation msg then d.core.clearAssertState else d.core } :
          Device).Loads := by
        refine h.of_same ?_ fun _ _ ht => ht
        dsimp only
        split <;> rfl
      split at hstep <;> cases hstep
      · exact hclear.setWorker (.inl rfl)
      · exact hclear
      · exact hclear.setWorker (.inl rfl)
    · cases hstep
  | enter t io =>
    simp only [Device.step] at hstep
    split at hstep <;> cases hstep
    exact h.enter t io _
  | wake t =>
    simp only [Device.step] at hstep
    split at hstep
    · next r first rest hw =>
      split at hstep <;> cases hstep
      exact h.setWorker (.inr (by rw [hw]; rfl))
    · cases hstep
  | expire t =>
    simp only [Device.step] at hstep
    split at hstep
    · next r first rest hw =>
      split at hstep <;> cases hstep
      exact h.setWorker (.inr (by rw [hw]; rfl))
    · cases hstep
  | resume t io =>
    simp only [Device.step] at hstep
    split at hstep
    · next r first timedOut rest hw => cases hstep; exact h.resume hw
    · cases hstep
  | decide allow id =>
    cases hstep
    have hhear : ∀ r w, (Worker.hear r allow w).rest = w.rest := fun r w => by cases w <;> rfl
    simp only [Device.authDecide]
    split
    · next a _ =>
      refine h.of_same rfl fun t rest ht => ?_
      rw [← hhear d.auth.requestId (d.worker t)]
      exact ht
    · exact h.withAuth _
  | blobRead load ids =>
    cases hstep
    exact h.setStorage (.inl (StoreOp.load_storeLoaded _ _ _)) fun _ => StoreOp.load_storeLoaded _ _ _
  | blobWrite off buf allocOk =>
    cases hstep
    exact h.setStorage (h.live.blobWrite off buf allocOk) (StoreOp.blobWrite_storeLoaded off buf allocOk _)
  | restore allocOk io =>
    cases hstep
    exact h.setStorage (h.live.restore allocOk io) (StoreOp.restore_storeLoaded allocOk io _)
  | persist io =>
    cases hstep
    exact h.setStorage (h.live.persist io) fun hl => by simpa using hl
  | pinReset io =>
    cases hstep
    refine h.setStorage (Storage.Live.persist ?_ io) fun hl => by simpa [Storage.pinReset] using hl
    exact h.live

end Loads

/-- **A driver that holds a credential has loaded its store.** -/
theorem live_of_runs {P : Platform} {file : File} {clock : Nat} {as : List Action} {d : Device}
    {ok : Device → Action → Prop} (h : Runs (step P) ok (boot file clock) as d) : d.core.storage.Live :=
  (h.invariant (I := Loads) (fun _ _ _ hI _ hstep => hI.step hstep) (.boot file clock)).live

end Device

end AbkFido
