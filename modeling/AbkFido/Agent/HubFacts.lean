/-
What a step of the hub can do, and what holds however its goroutines take
turns: the subscription that is active is the newest and is open, and one
that is neither active nor closed is about to be closed.
-/
import AbkFido.Agent.Hub

namespace AbkFido

namespace Hub

variable {h h' : Hub} {a : HubAction}

/-! ## Small facts -/

section
variable (h : Hub) (id : Nat) (s : Subscription)

@[simp] theorem setSub_active : (h.setSub id s).active = h.active := rfl
@[simp] theorem setSub_pending : (h.setSub id s).pending = h.pending := rfl
@[simp] theorem setSub_reader : (h.setSub id s).reader = h.reader := rfl
@[simp] theorem setSub_next : (h.setSub id s).next = h.next := rfl
@[simp] theorem setSub_taken : (h.setSub id s).taken = h.taken := rfl
@[simp] theorem setSub_written : (h.setSub id s).written = h.written := rfl
@[simp] theorem setSub_same : (h.setSub id s).subs id = s := Function.update_self ..
theorem setSub_other {i : Nat} (hi : i ≠ id) : (h.setSub id s).subs i = h.subs i := Function.update_of_ne hi ..

/-- Closing changes nothing but the flag. -/
theorem closeIf_subs (o : Option Nat) (i : Nat) :
    (h.closeIf o).subs i = { h.subs i with done := if o = some i then true else (h.subs i).done } := by
  cases o with
  | none => rfl
  | some id =>
    by_cases hi : i = id
    · subst hi
      simp [closeIf, close]
    · have hne : ¬ some id = some i := fun heq => hi (Option.some.inj heq).symm
      rw [closeIf, close, setSub_other h id _ hi, if_neg hne]

@[simp] theorem closeIf_active (o : Option Nat) : (h.closeIf o).active = h.active := by cases o <;> rfl
@[simp] theorem closeIf_pending (o : Option Nat) : (h.closeIf o).pending = h.pending := by cases o <;> rfl
@[simp] theorem closeIf_reader (o : Option Nat) : (h.closeIf o).reader = h.reader := by cases o <;> rfl
@[simp] theorem closeIf_next (o : Option Nat) : (h.closeIf o).next = h.next := by cases o <;> rfl
@[simp] theorem closeIf_taken (o : Option Nat) : (h.closeIf o).taken = h.taken := by cases o <;> rfl

end

/-! ## The steps -/

/-- What a step can do. -/
inductive Stepped (h : Hub) : HubAction → Hub → Prop
  | readShort {p} : h.reader = .reading → Stepped h (.read p) h
  | read {p} : h.reader = .reading → Stepped h (.read p) { h with reader := .holding p h.served }
  | readFails : h.reader = .reading → Stepped h .readFails { h with active := none, reader := .failing h.active }
  | take {p u} : h.reader = .holding p u → Stepped h .take (h.runTake p u)
  | deliver {p u id} : h.reader = .sending p u id → h.hasRoom id = true →
      Stepped h .deliver { h.place id p with reader := .reading }
  | drop {p u id} : h.reader = .sending p u id → (h.subs id).done = true → Stepped h .drop { h with reader := .reading }
  | closeFailed {o} : h.reader = .failing o → Stepped h .closeFailed { h.closeIf o with reader := .stopped }
  | subscribe : Stepped h .subscribe h.takeOver
  | closePrevious {id o rest} : (h.subs id).call = .closing o rest →
      Stepped h (.closePrevious id) ((h.closeIf o).setCall id (.filling rest))
  | fill {id p rest} : (h.subs id).call = .filling (p :: rest) → h.hasRoom id = true →
      Stepped h (.fill id) ((h.place id p).setCall id (.filling rest))
  | fillDone {id p rest} : (h.subs id).call = .filling (p :: rest) → (h.subs id).done = true →
      Stepped h (.fillDone id) (h.setCall id .returned)
  | subscribed {id} : (h.subs id).call = .filling [] → Stepped h (.subscribed id) (h.setCall id .returned)
  | unsubscribe {id} : (h.subs id).call = .returned →
      Stepped h (.unsubscribe id) (setCall { h with active := if h.active = some id then none else h.active } id .unsubscribing)
  | closeOwn {id} : (h.subs id).call = .unsubscribing → Stepped h (.closeOwn id) ((h.close id).setCall id .gone)
  | receive {id p ps} : (h.subs id).packets = p :: ps → (h.subs id).call.hasReturned = true →
      Stepped h (.receive id) (h.setSub id { h.subs id with packets := ps, received := (h.subs id).received ++ [p] })
  | writeFails {id p} : Stepped h (.write id p) h
  | write {id p} : (h.subs id).done = false → h.active = some id →
      Stepped h (.write id p) { h with written := h.written ++ [(id, p)] }

theorem stepped (hstep : step h a = some h') : Stepped h a h' := by
  cases a with
  | read p =>
    simp only [step] at hstep
    split at hstep
    · next hr =>
      split at hstep
      · cases hstep; exact .readShort hr
      · cases hstep; exact .read hr
    · cases hstep
  | readFails =>
    simp only [step] at hstep
    split at hstep
    · next hr => cases hstep; exact .readFails hr
    · cases hstep
  | take =>
    simp only [step] at hstep
    split at hstep
    · next hr => cases hstep; exact .take hr
    · cases hstep
  | deliver =>
    simp only [step] at hstep
    split at hstep
    · next hr =>
      split at hstep
      · next hroom => cases hstep; exact .deliver hr hroom
      · cases hstep
    · cases hstep
  | drop =>
    simp only [step] at hstep
    split at hstep
    · next hr =>
      split at hstep
      · next hdone => cases hstep; exact .drop hr hdone
      · cases hstep
    · cases hstep
  | closeFailed =>
    simp only [step] at hstep
    split at hstep
    · next hr => cases hstep; exact .closeFailed hr
    · cases hstep
  | subscribe => cases hstep; exact .subscribe
  | closePrevious id =>
    simp only [step] at hstep
    split at hstep
    · next hc => cases hstep; exact .closePrevious hc
    · cases hstep
  | fill id =>
    simp only [step] at hstep
    split at hstep
    · next hc =>
      split at hstep
      · next hroom => cases hstep; exact .fill hc hroom
      · cases hstep
    · cases hstep
  | fillDone id =>
    simp only [step] at hstep
    split at hstep
    · next hc =>
      split at hstep
      · next hdone => cases hstep; exact .fillDone hc hdone
      · cases hstep
    · cases hstep
  | subscribed id =>
    simp only [step] at hstep
    split at hstep
    · next hc => cases hstep; exact .subscribed hc
    · cases hstep
  | unsubscribe id =>
    simp only [step] at hstep
    split at hstep
    · next hc =>
      cases hstep
      have hactive : (if h.active = some id then { h with active := none } else h) =
          { h with active := if h.active = some id then none else h.active } := by
        split <;> rfl
      rw [hactive]
      exact .unsubscribe hc
    · cases hstep
  | closeOwn id =>
    simp only [step] at hstep
    split at hstep
    · next hc => cases hstep; exact .closeOwn hc
    · cases hstep
  | receive id =>
    simp only [step] at hstep
    split at hstep
    · next hp =>
      split at hstep
      · next hc => cases hstep; exact .receive hp hc
      · cases hstep
    · cases hstep
  | write id p =>
    simp only [step] at hstep
    split at hstep
    · cases hstep; exact .writeFails
    split at hstep
    · cases hstep; exact .writeFails
    next hdone =>
    split at hstep
    · cases hstep; exact .writeFails
    · next hactive =>
      cases hstep
      exact .write (by simpa using hdone) (by simpa using hactive)

/-! ## The active subscription -/

/-- The active subscription is the newest, open, and not being given up. -/
structure Sound (h : Hub) : Prop where
  fresh : ∀ id, h.next ≤ id → (h.subs id).call = .none
  latest : ∀ id, h.active = some id → id + 1 = h.next
  isOpen : ∀ id, h.active = some id → (h.subs id).done = false
  staying : ∀ id, h.active = some id → (h.subs id).call ≠ .unsubscribing ∧ (h.subs id).call ≠ .gone
  previous : ∀ id i rest, (h.subs id).call = .closing (some i) rest → i < id
  failing : ∀ i, h.reader = .failing (some i) → i < h.next ∧ h.active ≠ some i

theorem sound_init : init.Sound where
  fresh _ _ := rfl
  latest id hid := by cases hid
  isOpen id hid := by cases hid
  staying id hid := by cases hid
  previous id i rest hc := by cases hc
  failing i hr := by cases hr

namespace Sound

theorem lt_next (hs : h.Sound) {id : Nat} (hc : (h.subs id).call ≠ .none) : id < h.next := by
  by_contra hno
  exact hc (hs.fresh id (by omega))

/-- A newer subscription than the active one there is not. -/
theorem not_active_of_lt (hs : h.Sound) {id n : Nat} (hn : n < h.next) (hlt : id < n) : h.active ≠ some id := by
  intro heq
  have := hs.latest id heq
  omega

/-- Steps that leave calls and flags alone. -/
theorem of_same (hs : h.Sound) (hactive : h'.active = h.active) (hnext : h'.next = h.next)
    (hcall : ∀ i, (h'.subs i).call = (h.subs i).call) (hdone : ∀ i, (h'.subs i).done = (h.subs i).done)
    (hfailing : ∀ i, h'.reader = .failing i → h.reader = .failing i) : h'.Sound where
  fresh id hid := by rw [hcall]; exact hs.fresh id (hnext ▸ hid)
  latest id hid := by rw [hnext]; exact hs.latest id (hactive ▸ hid)
  isOpen id hid := by rw [hdone]; exact hs.isOpen id (hactive ▸ hid)
  staying id hid := by rw [hcall]; exact hs.staying id (hactive ▸ hid)
  previous id i rest hc := hs.previous id i rest (hcall id ▸ hc)
  failing i hr := by rw [hactive, hnext]; exact hs.failing i (hfailing _ hr)

/-- A subscription whose packets change. -/
theorem setSub (hs : h.Sound) {id : Nat} {s : Subscription} (hcall : s.call = (h.subs id).call)
    (hdone : s.done = (h.subs id).done) : (h.setSub id s).Sound := by
  have hsame : ∀ i, ((h.setSub id s).subs i).call = (h.subs i).call ∧ ((h.setSub id s).subs i).done = (h.subs i).done := by
    intro i
    by_cases hi : i = id
    · subst hi
      simp [hcall, hdone]
    · rw [setSub_other h id _ hi]
      exact ⟨rfl, rfl⟩
  exact hs.of_same rfl rfl (fun i => (hsame i).1) (fun i => (hsame i).2) fun i hr => hr

theorem place (hs : h.Sound) (id : Nat) (p : HostPacket) : (h.place id p).Sound := hs.setSub rfl rfl

theorem closeIf (hs : h.Sound) {o : Option Nat} (ho : ∀ i, o = some i → h.active ≠ some i) : (h.closeIf o).Sound where
  fresh id hid := by rw [closeIf_subs]; exact hs.fresh id (by simpa using hid)
  latest id hid := by simpa using hs.latest id (by simpa using hid)
  isOpen id hid := by
    have hid : h.active = some id := by simpa using hid
    have hne : o ≠ some id := fun heq => ho id heq hid
    rw [closeIf_subs, if_neg hne]
    exact hs.isOpen id hid
  staying id hid := by rw [closeIf_subs]; exact hs.staying id (by simpa using hid)
  previous id i rest hc := hs.previous id i rest (by rwa [closeIf_subs] at hc)
  failing i hr := by simpa using hs.failing i (by simpa using hr)

theorem setCall (hs : h.Sound) {id : Nat} {c : Call} (hin : (h.subs id).call ≠ .none) (hc : ∀ o rest, c ≠ .closing o rest)
    (hstay : h.active = some id → c ≠ .unsubscribing ∧ c ≠ .gone) : (h.setCall id c).Sound where
  fresh i hi := by
    have hlt := hs.lt_next hin
    have hi : h.next ≤ i := hi
    have hne : i ≠ id := by omega
    rw [Hub.setCall, setSub_other h id _ hne]
    exact hs.fresh i hi
  latest := hs.latest
  isOpen i hi := by
    by_cases hne : i = id
    · subst hne
      simpa [Hub.setCall] using hs.isOpen i hi
    · rw [Hub.setCall, setSub_other h id _ hne]
      exact hs.isOpen i hi
  staying i hi := by
    by_cases hne : i = id
    · subst hne
      simpa [Hub.setCall] using hstay hi
    · rw [Hub.setCall, setSub_other h id _ hne]
      exact hs.staying i hi
  previous i j rest hcall := by
    by_cases hne : i = id
    · subst hne
      exact absurd (by simpa [Hub.setCall] using hcall) (hc (some j) rest)
    · rw [Hub.setCall, setSub_other h id _ hne] at hcall
      exact hs.previous i j rest hcall
  failing := hs.failing

theorem step (hs : h.Sound) (hstep : Hub.step h a = some h') : h'.Sound := by
  cases stepped hstep with
  | readShort | writeFails => exact hs
  | read _ | drop _ _ => exact hs.of_same rfl rfl (fun _ => rfl) (fun _ => rfl) fun i hr => by cases hr
  | write _ _ => exact hs.of_same rfl rfl (fun _ => rfl) (fun _ => rfl) fun i hr => hr
  | readFails hr =>
    exact
      { fresh := hs.fresh
        latest := fun id hid => by cases hid
        isOpen := fun id hid => by cases hid
        staying := fun id hid => by cases hid
        previous := hs.previous
        failing := fun i hi => by
          have hactive : h.active = some i := by simpa using hi
          have := hs.latest i hactive
          exact ⟨by show i < h.next; omega, by simp⟩ }
  | take _ =>
    unfold runTake
    split
    · exact hs.of_same rfl rfl (fun _ => rfl) (fun _ => rfl) fun i hr => by cases hr
    · exact hs.of_same rfl rfl (fun _ => rfl) (fun _ => rfl) fun i hr => by cases hr
  | @deliver p u id _ _ =>
    exact (hs.place id p).of_same rfl rfl (fun _ => rfl) (fun _ => rfl) fun i hr => by cases hr
  | @closeFailed o hr =>
    have hold : ∀ i, o = some i → h.active ≠ some i := fun i hi => (hs.failing i (hi ▸ hr)).2
    exact (hs.closeIf hold).of_same rfl rfl (fun _ => rfl) (fun _ => rfl) fun i hr => by cases hr
  | subscribe =>
    have hother : ∀ {i}, i ≠ h.next → h.takeOver.subs i = h.subs i := fun hi => Function.update_of_ne hi ..
    exact
      { fresh := fun id hid => by
          have hid : h.next + 1 ≤ id := hid
          rw [hother (by omega)]
          exact hs.fresh id (by omega)
        latest := fun id hid => by
          have hid : h.next = id := Option.some.inj hid
          rw [← hid]
          rfl
        isOpen := fun id hid => by
          have hid : h.next = id := Option.some.inj hid
          rw [← hid]
          simp [takeOver]
        staying := fun id hid => by
          have hid : h.next = id := Option.some.inj hid
          rw [← hid]
          simp [takeOver]
        previous := fun id i rest hc => by
          by_cases hid : id = h.next
          · subst hid
            have hactive : h.active = some i := by
              simp only [takeOver, Function.update_self, Call.closing.injEq] at hc
              exact hc.1
            have := hs.latest i hactive
            omega
          · rw [hother hid] at hc
            exact hs.previous id i rest hc
        failing := fun i hr => by
          have hlt := (hs.failing i hr).1
          refine ⟨by show i < h.next + 1; omega, fun heq => ?_⟩
          have heq : h.next = i := Option.some.inj heq
          omega }
  | @closePrevious id o rest hc =>
    have hin : (h.subs id).call ≠ .none := by rw [hc]; simp
    have hold : ∀ i, o = some i → h.active ≠ some i := by
      rintro i rfl
      exact hs.not_active_of_lt (hs.lt_next hin) (hs.previous id i rest hc)
    exact (hs.closeIf hold).setCall (by rw [closeIf_subs]; exact hin) (fun _ _ => by simp) fun _ => by simp
  | @fill id p rest hc _ =>
    have hin : ((h.place id p).subs id).call ≠ .none := by simp [Hub.place, hc]
    exact (hs.place id p).setCall hin (fun _ _ => by simp) fun _ => by simp
  | @fillDone id p rest hc _ => exact hs.setCall (by rw [hc]; simp) (fun _ _ => by simp) fun _ => by simp
  | @subscribed id hc => exact hs.setCall (by rw [hc]; simp) (fun _ _ => by simp) fun _ => by simp
  | @unsubscribe id hc =>
    have hleft : Sound { h with active := if h.active = some id then none else h.active } :=
      { fresh := hs.fresh
        latest := fun i hi => hs.latest i (by simp only at hi; split at hi <;> simp_all)
        isOpen := fun i hi => hs.isOpen i (by simp only at hi; split at hi <;> simp_all)
        staying := fun i hi => hs.staying i (by simp only at hi; split at hi <;> simp_all)
        previous := hs.previous
        failing := fun i hr => ⟨(hs.failing i hr).1, fun heq => (hs.failing i hr).2 (by
          simp only at heq; split at heq <;> simp_all)⟩ }
    refine hleft.setCall (by show (h.subs id).call ≠ .none; rw [hc]; simp) (fun _ _ => by simp) fun heq => ?_
    simp only at heq
    split at heq
    · cases heq
    · next hne => exact absurd heq hne
  | @closeOwn id hc =>
    have hactive : h.active ≠ some id := fun heq => (hs.staying id heq).1 hc
    have hclosed : (h.close id).Sound := hs.closeIf (o := some id) fun i hi => by cases hi; exact hactive
    have hin : ((h.close id).subs id).call ≠ .none := by simp [close, hc]
    exact hclosed.setCall hin (fun _ _ => by simp) fun heq => absurd heq hactive
  | @receive id p ps _ _ => exact hs.setSub rfl rfl

end Sound

end Hub

end AbkFido
