/-
Which key signs what.

The slots a request was matched to are used after the lock was dropped, or
by a later command, and no one looks again. As long as every store put in
place meanwhile still has them answer their request (`SlotsKept`), each
assertion is signed with a credential that answers the request it is for
(`signsOwn_of_slotsKept`). The digest in its authenticator data is of the rp
id as it was asked for, which is the credential's own exactly when the
request named it plainly (`rpIdHash_iff`).
-/
import AbkFido.DeviceFacts
import AbkFido.CommandFacts
import AbkFido.Upload

namespace AbkFido

open Device

variable {P : Platform}

/-- The picks that are still to be used: those of the waiting commands, and
those of the continuation. -/
def Device.Picked (d : Device) (p : Pick) : Prop :=
  p ∈ d.core.picks ∨ ∃ t rest, (d.worker t).rest = some rest ∧ p ∈ rest.picks

/-- Every assertion was signed with a credential in use, of the relying party
and on the list that were asked for. -/
def Device.SignsOwn (d : Device) : Prop :=
  ∀ n t s, (n, Event.effect t (.assertion s)) ∈ d.log → s.cred.Answers s.rpId s.allow

/-- The picks are good in the store there is, which is loaded if there are any. -/
structure Device.PicksValid (d : Device) : Prop where
  valid : ∀ p, d.Picked p → p.Valid d.core.storage.store
  loaded : ∀ p, d.Picked p → d.core.storage.storeLoaded = true
  signed : d.SignsOwn

theorem Pick.Valid.keepsUsed {s s' : Storage} {p : Pick} (h : p.Valid s.store) (hk : StoreOp.KeepsUsed s s') :
    p.Valid s'.store := by
  rw [Pick.Valid, hk.creds p.slot h.1]
  exact h

namespace Device.PicksValid

variable {d d' : Device}

theorem boot (file : File) (clock : Nat) : (Device.boot file clock).PicksValid where
  valid := by
    rintro p (h | ⟨t, rest, h, _⟩)
    · cases h
    · cases h
  loaded := by
    rintro p (h | ⟨t, rest, h, _⟩)
    · cases h
    · cases h
  signed n t s h := by cases h

/-- Picks may be dropped, and new ones taken that are good. -/
theorem of_picked (h : d.PicksValid)
    (hkeep : ∀ p, d.Picked p → StoreOp.KeepsUsed d.core.storage d'.core.storage)
    (hpicks : ∀ p, d'.Picked p → d.Picked p ∨ (p.Valid d'.core.storage.store ∧ d'.core.storage.storeLoaded = true))
    (hlog : d'.SignsOwn) : d'.PicksValid where
  valid p hp := by
    rcases hpicks p hp with hp' | hp'
    · exact (h.valid p hp').keepsUsed (hkeep p hp')
    · exact hp'.1
  loaded p hp := by
    rcases hpicks p hp with hp' | hp'
    · rw [(hkeep p hp').storeLoaded]; exact h.loaded p hp'
    · exact hp'.2
  signed := hlog

/-- Anything that signs nothing, drops picks only and leaves the core alone. -/
theorem of_same (h : d.PicksValid) (hcore : d'.core = d.core)
    (hw : ∀ t rest, (d'.worker t).rest = some rest → (d.worker t).rest = some rest) (hlog : d'.SignsOwn) :
    d'.PicksValid := by
  refine h.of_picked (fun _ _ => by rw [hcore]; exact .refl _) (fun p hp => .inl ?_) hlog
  rcases hp with hp | ⟨t, rest, ht, hp⟩
  · exact .inl (by rwa [← hcore])
  · exact .inr ⟨t, rest, hw t rest ht, hp⟩

theorem setWorker (h : d.PicksValid) {t : Transport} {w : Worker} (hw : w.rest = none ∨ w.rest = (d.worker t).rest) :
    (d.setWorker t w).PicksValid := by
  refine h.of_same rfl (fun t' rest ht' => ?_) h.signed
  by_cases hne : t' = t
  · subst hne
    rw [setWorker_self] at ht'
    rcases hw with hw | hw
    · rw [hw] at ht'; cases ht'
    · rw [← hw]; exact ht'
  · rwa [setWorker_of_ne hne] at ht'

theorem note (h : d.PicksValid) {e : Event} (he : ∀ t s, e ≠ .effect t (.assertion s)) : (d.note e).PicksValid := by
  refine h.of_same rfl (fun _ _ ht => ht) fun n t s hmem => ?_
  rcases List.mem_cons.mp hmem with heq | hmem
  · exact absurd (Prod.mk.inj heq).2.symm (he t s)
  · exact h.signed n t s hmem

theorem withAuth (h : d.PicksValid) (a : Auth) : ({ d with auth := a } : Device).PicksValid :=
  h.of_same rfl (fun _ _ ht => ht) h.signed

/-- The part of a command before the gate. -/
theorem start (h : d.PicksValid) (io : Io) (cmd : Command) :
    ({ d with core := (AbkFido.start P io d.jiffies cmd d.core).2 } : Device).PicksValid := by
  refine h.of_picked (fun p hp => ?_) (fun p hp => .inl ?_) h.signed
  · rcases start_storage (P := P) io d.jiffies cmd d.core with heq | heq
    · exact heq ▸ .refl _
    · exact heq ▸ (StoreOp.load_of_loaded (h.loaded p hp) _ _).symm ▸ .refl _
  · rcases hp with hp | hp
    · exact .inl (picks_start hp)
    · exact .inr hp

/-- The part after it: it signs with good picks, and only RESET drops what
others have picked. -/
theorem conclude (h : d.PicksValid) (t : Transport) (io : Io) {rest : Rest}
    (hrest : ∀ p ∈ rest.picks, p.Valid d.core.storage.store ∧ d.core.storage.storeLoaded = true)
    (hreset : rest = .reset → ∀ p, ¬ d.Picked p) : (d.conclude P t io rest).PicksValid := by
  have hkept : rest ≠ .reset →
      StoreOp.KeepsUsed d.core.storage (finish P io d.jiffies rest d.core).core.storage := fun hne => by
    obtain ⟨ops, hops, heq⟩ := finish_ordinary (P := P) io d.jiffies hne d.core
    rw [heq]
    exact StoreOp.keepsUsed_applyAll hops _
  rw [conclude_eq]
  refine h.of_picked (fun p hp => hkept fun hr => hreset hr p hp) (fun p hp => ?_) fun n t' s hmem => ?_
  · rcases hp with hp | ⟨t', rest', ht', hp⟩
    · rcases picks_finish hp with hp | ⟨q, hq, rfl⟩
      · exact .inl (.inl hp)
      · have hne : rest ≠ .reset := by rintro rfl; cases hq
        obtain ⟨hvalid, hloaded⟩ := hrest q hq
        exact .inr ⟨(hvalid.keepsUsed (hkept hne)).any, (hkept hne).storeLoaded.trans hloaded⟩
    · by_cases hne : t' = t
      · subst hne
        simp [Worker.rest] at ht'
      · change (Function.update d.worker t .idle t').rest = some rest' at ht'
        rw [Function.update_of_ne hne] at ht'
        exact .inl (.inr ⟨t', rest', ht', hp⟩)
  · rcases List.mem_append.mp hmem with hmem | hmem
    · simp only [List.mem_reverse, List.mem_map, concluded, List.mem_append, Prod.mk.injEq] at hmem
      obtain ⟨e, he | he, _, rfl⟩ := hmem
      · obtain ⟨e', he', heq⟩ := he
        cases heq
        obtain ⟨hpick, hcred, _⟩ := signed_pick he'
        rw [hcred]
        exact (hrest _ hpick).1
      · split at he <;> simp at he
    · exact h.signed n t' s hmem

end Device.PicksValid

/-! ## The run -/

/-- A step after which the slots already picked still answer their requests:
no RESET is carried out while there are any, and a store that is uploaded or
restored keeps them. -/
def Device.SlotsKept (P : Platform) (d : Device) : Action → Prop
  | .enter t _ => d.worker t = .ready .reset → ¬ d.auth.denies d.jiffies → d.auth.grants d.jiffies → ∀ p, ¬ d.Picked p
  | .resume t _ => ∀ r first timedOut, d.worker t = .awake r first timedOut .reset →
      (authEndLocked P d.jiffies (.ofTimeout timedOut) d.auth).1 = .ok () → ∀ p, ¬ d.Picked p
  | .blobWrite off buf allocOk => ∀ p, d.Picked p → p.Valid (storeBlobWrite off buf allocOk d.core.storage).2.store
  | .restore allocOk io => ∀ p, d.Picked p → p.Valid (restorePersistedStoreLocked allocOk io d.core.storage).2.store
  | _ => True

/-- Only RESET goes to the gate to wipe the store. -/
theorem start_reset {io : Io} {now : UInt64} {cmd : Command} {c c' : Core} {ask : Ask}
    (h : start P io now cmd c = (.ask ask .reset, c')) : cmd = .reset ∧ c' = c := by
  cases cmd with
  | reset => cases h; exact ⟨rfl, rfl⟩
  | getInfo | selection | clientPin | unknown => cases h
  | makeCredential req =>
    simp only [start] at h
    split at h
    · cases h
    split at h
    · cases h
    split at h <;> cases h
  | getAssertion req =>
    simp only [start] at h
    split at h
    · cases h
    split at h <;> cases h
  | getNextAssertion =>
    simp only [start] at h
    split at h
    · cases h
    split at h
    · cases h
    split at h
    · cases h
    split at h <;> cases h

namespace Device.PicksValid

variable {d d' : Device}

/-- A store put in place that keeps the picks good. -/
theorem setStorage (h : d.PicksValid) {s : Storage} (hvalid : ∀ p, d.Picked p → p.Valid s.store)
    (hloaded : d.core.storage.storeLoaded = true → s.storeLoaded = true) : (d.setStorage s).PicksValid where
  valid p hp := hvalid p hp
  loaded p hp := hloaded (h.loaded p hp)
  signed := h.signed

theorem enter (h : d.PicksValid) {t : Transport} {io : Io} {cmd : Command} (hready : d.worker t = .ready cmd)
    (hok : d.SlotsKept P (.enter t io)) : (d.enter P t io cmd).PicksValid := by
  have hstart := h.start (P := P) io cmd
  rcases enter_cases (P := P) t io cmd d with ⟨_, c, hs, heq⟩ | ⟨ask, rest, c, hs, hgate⟩
  · rw [hs] at hstart
    rw [heq]
    exact hstart.setWorker (.inl rfl)
  rw [hs] at hstart
  have hrest : ∀ p ∈ rest.picks, p.Valid c.storage.store ∧ c.storage.storeLoaded = true := by
    intro p hp
    rcases picks_ask hs hp with hp | hp
    · -- A pick handed over by the continuation.
      have hpicked : d.Picked p := .inl hp
      have hkeep : StoreOp.KeepsUsed d.core.storage c.storage := by
        rcases start_storage (P := P) io d.jiffies cmd d.core with heq | heq <;> rw [hs] at heq
        · exact heq ▸ .refl _
        · exact heq ▸ (StoreOp.load_of_loaded (h.loaded p hpicked) _ _).symm ▸ .refl _
      exact ⟨(h.valid p hpicked).keepsUsed hkeep, hkeep.storeLoaded.trans (h.loaded p hpicked)⟩
    · exact hp
  have hasked : ∀ a, (Device.note (.asked t) { d with core := c, auth := a }).PicksValid := fun a =>
    (hstart.withAuth a).note fun _ _ => by simp
  rcases hgate with ⟨_, heq⟩ | ⟨hd, hg, heq⟩ | ⟨_, _, heq⟩
  · rw [heq]
    exact ((hasked d.auth).note fun _ _ => by simp).setWorker (.inl rfl)
  · rw [heq]
    refine ((hasked _).note fun _ _ => by simp).conclude t io hrest fun hreset p hp => ?_
    subst hreset
    obtain ⟨rfl, rfl⟩ := start_reset hs
    exact hok hready hd hg p hp
  · rw [heq]
    have hopened : (Device.note (.opened t (d.auth.requestId + 1)) (Device.note (.asked t)
        { d with core := c, auth := d.auth.openPrompt ask })).PicksValid := (hasked _).note fun _ _ => by simp
    refine hopened.of_picked (fun _ _ => .refl _) (fun p hp => ?_) hopened.signed
    rcases hp with hp | ⟨t', rest', ht', hp⟩
    · exact .inl (.inl hp)
    · by_cases hne : t' = t
      · subst hne
        rw [setWorker_self] at ht'
        cases ht'
        exact .inr (hrest p hp)
      · rw [setWorker_of_ne hne] at ht'
        exact .inl (.inr ⟨t', rest', ht', hp⟩)

theorem resume (h : d.PicksValid) {t : Transport} {io : Io} {r : UInt32} {first : Option Bool} {timedOut : Bool}
    {rest : Rest} (hw : d.worker t = .awake r first timedOut rest) (hok : d.SlotsKept P (.resume t io)) :
    (d.resume P t io r first timedOut rest).PicksValid := by
  have hrest : ∀ p ∈ rest.picks, d.Picked p := fun p hp => .inr ⟨t, rest, by rw [hw]; rfl, hp⟩
  cases hend : authEndLocked P d.jiffies (.ofTimeout timedOut) d.auth with
  | mk res a =>
    cases res with
    | error e =>
      simp only [Device.resume, hend]
      exact ((h.withAuth a).note fun _ _ => by simp).setWorker (.inl rfl)
    | ok _ =>
      simp only [Device.resume, hend]
      refine ((h.withAuth a).note fun _ _ => by simp).conclude t io
        (fun p hp => ⟨h.valid p (hrest p hp), h.loaded p (hrest p hp)⟩) fun hreset p hp => ?_
      subst hreset
      exact hok r first timedOut hw (by rw [hend]) p hp

theorem authDecide (h : d.PicksValid) (allow : Bool) (id : Option UInt32) : (d.authDecide allow id).PicksValid := by
  have hhear : ∀ r w, (Worker.hear r allow w).rest = w.rest := fun r w => by cases w <;> rfl
  simp only [Device.authDecide]
  split
  · next a _ =>
    refine (h.of_same rfl (fun t rest ht => ?_) h.signed :
      ({ d with auth := a, worker := fun t => (d.worker t).hear d.auth.requestId allow } : Device).PicksValid).note
        fun _ _ => by simp
    rwa [← hhear d.auth.requestId (d.worker t)]
  · exact h.withAuth _

theorem step (h : d.PicksValid) {a : Action} (hok : d.SlotsKept P a) (hstep : d.step P a = some d') :
    d'.PicksValid := by
  cases a with
  | tick n => cases hstep; exact h.of_same rfl (fun _ _ ht => ht) h.signed
  | receive t msg allocOk =>
    simp only [Device.step] at hstep
    split at hstep
    · have hclear : ({ d with core := if endsContinuation msg then d.core.clearAssertState else d.core } :
          Device).PicksValid := by
        split
        · refine h.of_picked (fun _ _ => .refl _) (fun p hp => .inl ?_) h.signed
          rcases hp with hp | hp
          · cases hp
          · exact .inr hp
        · exact h
      split at hstep <;> cases hstep
      · exact hclear.setWorker (.inl rfl)
      · exact hclear
      · exact hclear.setWorker (.inl rfl)
    · cases hstep
  | enter t io =>
    simp only [Device.step] at hstep
    split at hstep
    · next cmd hready => cases hstep; exact h.enter hready hok
    · cases hstep
  | wake t =>
    simp only [Device.step] at hstep
    split at hstep
    · next r first rest hw =>
      split at hstep <;> cases hstep
      exact h.setWorker (.inr (by rw [hw]; rfl))
    · cases hstep
  | expire t =>
    simp only [Device.step] at hstep
    split at hstep
    · next r first rest hw =>
      split at hstep <;> cases hstep
      exact h.setWorker (.inr (by rw [hw]; rfl))
    · cases hstep
  | resume t io =>
    simp only [Device.step] at hstep
    split at hstep
    · next r first timedOut rest hw => cases hstep; exact h.resume hw hok
    · cases hstep
  | decide allow id => cases hstep; exact h.authDecide allow id
  | blobRead load ids =>
    cases hstep
    refine h.setStorage (fun p hp => ?_) fun _ => StoreOp.load_storeLoaded _ _ _
    rw [StoreOp.load_of_loaded (h.loaded p hp)]
    exact h.valid p hp
  | blobWrite off buf allocOk =>
    cases hstep
    exact h.setStorage hok (StoreOp.blobWrite_storeLoaded off buf allocOk _)
  | restore allocOk io =>
    cases hstep
    exact h.setStorage hok (StoreOp.restore_storeLoaded allocOk io _)
  | persist io =>
    cases hstep
    exact h.setStorage (fun p hp => by simpa using h.valid p hp) fun hl => by simpa using hl
  | pinReset io =>
    cases hstep
    refine h.setStorage (fun p hp => ?_) fun hl => by simpa [Storage.pinReset] using hl
    rw [StoreOp.maybePersist_store]
    exact h.valid p hp

end Device.PicksValid

/-- **Which key signs what**: in every run whose stores keep the slots that
are already picked, each assertion is signed with a credential in use that
answers the request it is for. -/
theorem Device.signsOwn_of_slotsKept (P : Platform) (file : File) (clock : Nat) (as : List Action) (d : Device)
    (h : Runs (step P) (SlotsKept P) (boot file clock) as d) : d.SignsOwn :=
  (h.invariant (I := PicksValid) (fun _ _ _ hI hok hstep => hI.step hok hstep) (.boot file clock)).signed

/-! ## The relying party -/

/-- The digest in an assertion is of the rp id that was asked for. -/
theorem Device.rpIdHash_eq {file : File} {clock : Nat} {as : List Action} {d : Device}
    (h : Runs (step P) (fun _ _ => True) (boot file clock) as d) {n : Nat} {t : Transport} {s : Signed}
    (hs : (n, Event.effect t (.assertion s)) ∈ d.log) : s.authData.rpIdHash = P.sha256 s.rpId := by
  let I (d : Device) := ∀ n t s, (n, Event.effect t (.assertion s)) ∈ d.log → s.authData.rpIdHash = P.sha256 s.rpId
  refine h.invariant (I := I) (fun d a d' hI _ hstep n t s hs => ?_) (fun n t s hs => by cases hs) n t s hs
  rcases effect_step hstep hs with hs | ⟨io, rest, c, hs⟩
  · exact hI n t s hs
  · exact (signed_pick hs).2.2

/-- **Whose digest it is**: taking digests as injective, that of the
credential's own rp id exactly when the request named it plainly, and not as
an `https://` address. -/
theorem Device.rpIdHash_iff (P : Platform) (hinj : Function.Injective P.sha256) (file : File) (clock : Nat)
    (as : List Action) (d : Device) (h : Runs (step P) (fun _ _ => True) (boot file clock) as d) (n : Nat)
    (t : Transport) (s : Signed) (hs : (n, Event.effect t (.assertion s)) ∈ d.log) :
    s.authData.rpIdHash = P.sha256 s.cred.rpId.str ↔ s.rpId = s.cred.rpId.str := by
  rw [rpIdHash_eq h hs]
  exact hinj.eq_iff

/-! ## Runs -/

/-- A step that puts no other store in place. -/
def Device.leavesStore (d : Device) : Action → Bool
  | .enter t _ => match d.worker t with
    | .ready .reset => false
    | _ => true
  | .resume t _ => match d.worker t with
    | .awake _ _ _ .reset => false
    | _ => true
  | .blobWrite .. | .restore .. => false
  | _ => true

theorem Device.slotsKept_of_leavesStore (d : Device) (a : Action) (h : d.leavesStore a = true) : d.SlotsKept P a := by
  cases a with
  | enter t io =>
    intro hw
    rw [leavesStore, hw] at h
    cases h
  | resume t io =>
    intro r first timedOut hw
    rw [leavesStore, hw] at h
    cases h
  | blobWrite | restore => cases h
  | _ => trivial

/-- The assertions signed so far, the newest first. -/
def Device.assertions (d : Device) : List Signed :=
  d.log.filterMap fun entry => match entry.2 with
    | .effect _ (.assertion s) => some s
    | _ => none

theorem Device.mem_assertions {d : Device} {s : Signed} (h : s ∈ d.assertions) :
    ∃ n t, (n, Event.effect t (.assertion s)) ∈ d.log := by
  obtain ⟨⟨n, e⟩, hmem, he⟩ := List.mem_filterMap.mp h
  split at he
  · next t s' heq =>
    cases he
    exact ⟨n, t, by simpa [← heq] using hmem⟩
  · cases he

/-- `authenticatorMakeCredential` for the relying party named by one letter. -/
def makeCredentialMsg (rp : UInt8) : List UInt8 :=
  [0x01, 0xa3, 0x01, 0x58, 0x20] ++ List.replicate 32 0 ++
    [0x02, 0xa1, 0x62, 0x69, 0x64, 0x61, rp, 0x03, 0xa1, 0x62, 0x69, 0x64, 0x41, 0x01]

/-- `authenticatorGetAssertion` for an rp id of fewer than 24 bytes. -/
def getAssertionMsg (rpId : List UInt8) : List UInt8 :=
  [0x02, 0xa2, 0x01, 0x60 + .ofNat rpId.length] ++ rpId ++ [0x02, 0x58, 0x20] ++ List.replicate 32 0

/-- A credential for `a` is made and approved, and in the grant window an
assertion is asked for. -/
def loginRun (rpId : List UInt8) : List Action :=
  [.receive .usb (makeCredentialMsg 0x61) true, .enter .usb .plain, .decide true (some 1), .wake .usb,
    .resume .usb .plain, .receive .usb (getAssertionMsg rpId) true, .enter .usb .plain]

/-- The blob of the driver's own store, written back in one piece. -/
theorem blobWrite_own {s : Storage} (hstaging : s.staging = none) (hpin : s.store.pinSet = false) :
    (storeBlobWrite 0 (storeToDisk s.store) true s).2 =
      { s with store := s.store.trim, storeLoaded := true, storeDirty := false, storeGeneration := s.storeGeneration + 1 } := by
  have hpartial : s.Partial := fun data len hs => by rw [hstaging] at hs; cases hs
  have hbuffer : s.buffer true = some (List.replicate storeDiskSize 0, 0) := by rw [Storage.buffer, hstaging]; rfl
  have hpin' : s.store.trim.pinSet = false := hpin
  rw [blobWrite_whole hpartial (length_storeToDisk s.store) (storeFromDiskInto_storeToDisk s.store) hbuffer]
  simp only [Storage.adopt, finalizeRestoredStoreLocked, hpin', Bool.false_eq_true, if_false, hstaging]

/-- It keeps the slots that are picked. -/
theorem Device.PicksValid.slotsKept_own {d : Device} (h : d.PicksValid) (hstaging : d.core.storage.staging = none)
    (hpin : d.core.storage.store.pinSet = false) :
    d.SlotsKept P (.blobWrite 0 (storeToDisk d.core.storage.store) true) := by
  intro p hp
  rw [blobWrite_own hstaging hpin]
  obtain ⟨huse, hrp, hallow⟩ := h.valid p hp
  refine ⟨huse, ?_, hallow⟩
  rw [show ((d.core.storage.store.trim.creds p.slot).rpId.str) = (d.core.storage.store.creds p.slot).rpId.str from
    CharBuf.str_trim _]
  exact hrp

/-- A second assertion is asked for, and waits. -/
def waitingRun : List Action :=
  loginRun (text "a") ++ [.tick 1000, .receive .usb (getAssertionMsg (text "a")) true, .enter .usb .plain]

/-- The wait is allowed, and the assertion signed. -/
def allowedRun : List Action := [.decide true (some 2), .wake .usb, .resume .usb .plain]

/-- While the second assertion waits the driver's own store is uploaded. -/
theorem Device.signsOwn_loginRun : ∃ d e, Runs (step .volatile) (SlotsKept .volatile) (boot none 0) waitingRun d ∧
    (∃ p, d.Picked p) ∧
    Runs (step .volatile) (SlotsKept .volatile) (boot none 0)
      (waitingRun ++ .blobWrite 0 (storeToDisk d.core.storage.store) true :: allowedRun) e ∧
    e.assertions.length = 2 ∧ e.SignsOwn := by
  let own (d : Device) : Device := d.setStorage { d.core.storage with
    store := d.core.storage.store.trim
    storeLoaded := true
    storeDirty := false
    storeGeneration := d.core.storage.storeGeneration + 1 }
  let picks (d : Device) : List Pick := ((d.worker .usb).rest.map Rest.picks).getD []
  have h : ((Runs.exec (step .volatile) leavesStore (boot none 0) waitingRun).bind fun d =>
      (Runs.exec (step .volatile) leavesStore (own d) allowedRun).map fun e =>
        (d.core.storage.staging.isNone, d.core.storage.store.pinSet, (picks d).length, e.assertions.length)) =
      some (true, false, 1, 2) := by decide +kernel
  obtain ⟨d, hd, h⟩ := Option.bind_eq_some_iff.mp h
  obtain ⟨e, he, hall⟩ := Option.map_eq_some_iff.mp h
  simp only [Prod.mk.injEq, Option.isNone_iff_eq_none] at hall
  obtain ⟨hstaging, hpin, hpicks, hlen⟩ := hall
  have hwaiting := Runs.of_exec (slotsKept_of_leavesStore (P := .volatile)) hd
  have hvalid : d.PicksValid := hwaiting.invariant (fun _ _ _ hI hok hstep => hI.step hok hstep) (.boot none 0)
  have hown : d.step .volatile (.blobWrite 0 (storeToDisk d.core.storage.store) true) = some (own d) := by
    simp only [step, blobWrite_own hstaging hpin, own]
  have hrun := hwaiting.append (.cons (hvalid.slotsKept_own hstaging hpin) hown
    (Runs.of_exec (slotsKept_of_leavesStore (P := .volatile)) he))
  obtain ⟨p, hp⟩ := List.length_eq_one_iff.mp hpicks
  have hpicked : d.Picked p := by
    right
    cases hrest : (d.worker .usb).rest with
    | none => simp [picks, hrest] at hp
    | some rest => exact ⟨.usb, rest, hrest, by simpa [picks, hrest] using congrArg (p ∈ ·) hp⟩
  exact ⟨d, e, hwaiting, ⟨p, hpicked⟩, hrun, hlen, signsOwn_of_slotsKept .volatile none 0 _ e hrun⟩

/-- After the credential for `a` has been made, an assertion for it waits for
approval while the other transport resets the key and makes a credential for
`b`; the approval of the reset ends both waits. -/
def replacedRun : List Action :=
  loginRun (text "a") ++
    [.tick 1000, .receive .usb (getAssertionMsg (text "a")) true, .enter .usb .plain,
      .receive .ctap [ctapReset] true, .enter .ctap .plain, .decide true (some 3), .wake .usb, .wake .ctap,
      .resume .ctap .plain, .receive .ctap (makeCredentialMsg 0x62) true, .enter .ctap .plain, .resume .usb .plain]

/-- The key of `b` signs for `a`. -/
theorem Device.exists_not_signsOwn : ∃ as d,
    Runs (step .volatile) (fun _ _ => True) (boot none 0) as d ∧ ¬ d.SignsOwn := by
  have h : (Runs.exec (step .volatile) (fun _ _ => true) (boot none 0) replacedRun).map
      (fun d => d.assertions.all fun s => rpMatchesRequest s.cred.rpId.str s.rpId) = some false := by decide +kernel
  obtain ⟨d, hd, hall⟩ := Option.map_eq_some_iff.mp h
  refine ⟨replacedRun, d, Runs.of_exec (fun _ _ _ => trivial) hd, fun hown => ?_⟩
  have htrue : (d.assertions.all fun s => rpMatchesRequest s.cred.rpId.str s.rpId) = true := by
    rw [List.all_eq_true]
    intro s hs
    obtain ⟨n, t, hmem⟩ := mem_assertions hs
    exact (hown n t s hmem).2.1
  rw [htrue] at hall
  cases hall

/-- The credential's own rp id, asked for plainly. -/
theorem Device.rpIdHash_loginRun : ∃ d n t s, Runs (step .volatile) (fun _ _ => True) (boot none 0) (loginRun (text "a")) d ∧
    (n, Event.effect t (.assertion s)) ∈ d.log ∧ s.authData.rpIdHash = Platform.volatile.sha256 s.cred.rpId.str := by
  have h : (Runs.exec (step .volatile) (fun _ _ => true) (boot none 0) (loginRun (text "a"))).map
      (fun d => d.assertions.map fun s => decide (s.rpId = s.cred.rpId.str)) = some [true] := by decide +kernel
  obtain ⟨d, hd, hsame⟩ := Option.map_eq_some_iff.mp h
  obtain ⟨s, hs, hrp⟩ := List.map_eq_singleton_iff.mp hsame
  obtain ⟨n, t, hmem⟩ := mem_assertions (d := d) (s := s) (by rw [hs]; exact .head _)
  have hrun : Runs (step .volatile) (fun _ _ => True) (boot none 0) (loginRun (text "a")) d :=
    Runs.of_exec (fun _ _ _ => trivial) hd
  exact ⟨d, n, t, s, hrun, hmem,
    (rpIdHash_iff .volatile Function.injective_id none 0 _ d hrun n t s hmem).mpr (of_decide_eq_true hrp)⟩

/-- The same credential, asked for by an address: the digest is another. -/
theorem Device.exists_foreign_rpIdHash : Function.Injective Platform.volatile.sha256 ∧
    ∃ as d n t s, Runs (step .volatile) (fun _ _ => True) (boot none 0) as d ∧
      (n, Event.effect t (.assertion s)) ∈ d.log ∧ rpMatchesRequest s.cred.rpId.str s.rpId = true ∧
      s.authData.rpIdHash ≠ Platform.volatile.sha256 s.cred.rpId.str := by
  refine ⟨Function.injective_id, ?_⟩
  have h : (Runs.exec (step .volatile) (fun _ _ => true) (boot none 0) (loginRun (text "https://a/"))).map
      (fun d => d.assertions.map fun s => rpMatchesRequest s.cred.rpId.str s.rpId &&
        decide (s.authData.rpIdHash ≠ Platform.volatile.sha256 s.cred.rpId.str)) = some [true] := by decide +kernel
  obtain ⟨d, hd, hother⟩ := Option.map_eq_some_iff.mp h
  obtain ⟨s, hs, hne⟩ := List.map_eq_singleton_iff.mp hother
  obtain ⟨n, t, hmem⟩ := mem_assertions (d := d) (s := s) (by rw [hs]; exact .head _)
  rw [Bool.and_eq_true] at hne
  exact ⟨_, d, n, t, s, Runs.of_exec (fun _ _ _ => trivial) hd, hmem, hne.1, of_decide_eq_true hne.2⟩

end AbkFido
