/-
Who has the transport lock: a step of the server that does not use the
endpoint lets the lock be, or it was free and is taken (`step_lock`).
-/
import AbkFido.Lan.Admission
import AbkFido.Lan.Shared

namespace AbkFido

namespace LanServer

variable {J : OrgJson} {autoAuthorize : Bool} {c c' : LanServer} {i : Nat} {t : ServedSession}

/-- A step that takes no lock: it may be let go by its holder, and no session
comes to hold it. -/
structure LetsBe (c c' : LanServer) : Prop where
  lock : c'.lock = c.lock ∨ c'.lock = none
  sessions : ∀ j t', c'.sessions j = some t' → t'.phase.Locks →
    (∃ t, c.sessions j = some t ∧ t'.phase = t.phase) ∧ (c.lock = some (.session j) → c'.lock = c.lock)

/-- The lock was free, and is taken. -/
structure Takes (c c' : LanServer) : Prop where
  free : c.lock = none
  taken : c'.lock ≠ none
  sessions : ∀ j t', c'.sessions j = some t' → t'.phase.Locks →
    (∃ t, c.sessions j = some t ∧ t'.phase = t.phase) ∨
      (c'.lock = some (.session j) ∧ ∃ packets, t'.phase = .writing (RelayRequest.isCancel packets) packets)

theorem letsBe_same (hlock : c'.lock = c.lock) (hsessions : c'.sessions = c.sessions) : c.LetsBe c' :=
  ⟨.inl hlock, fun _ t' hj _ => ⟨⟨t', hsessions ▸ hj, rfl⟩, fun _ => hlock⟩⟩

theorem LetsBe.setSession (h : c.LetsBe c') (ht : t.phase.Locks → ∃ u, c.sessions i = some u ∧ t.phase = u.phase)
    (hlock : t.phase.Locks → c'.lock = c.lock) : c.LetsBe (c'.setSession i t) := by
  refine ⟨h.lock, fun j t' hj ht' => ?_⟩
  have hj : Function.update c'.sessions i (some t) j = some t' := hj
  by_cases hij : j = i
  · subst hij
    rw [Function.update_self] at hj
    cases hj
    exact ⟨ht ht', fun _ => hlock ht'⟩
  · rw [Function.update_of_ne hij] at hj
    exact h.sessions j t' hj ht'

theorem LetsBe.endSession (h : c.LetsBe c') : c.LetsBe (c'.endSession i) := by
  constructor
  · show (if c'.lock = some (.session i) then none else c'.lock) = c.lock ∨
      (if c'.lock = some (.session i) then none else c'.lock) = none
    split
    · exact .inr rfl
    · exact h.lock
  · intro j t' hj ht'
    have hj : Function.update c'.sessions i none j = some t' := hj
    by_cases hij : j = i
    · subst hij
      rw [Function.update_self] at hj
      cases hj
    · rw [Function.update_of_ne hij] at hj
      obtain ⟨hwas, hkeeps⟩ := h.sessions j t' hj ht'
      refine ⟨hwas, fun hlock => ?_⟩
      have hne : c'.lock ≠ some (.session i) := by
        rw [hkeeps hlock, hlock]
        exact fun heq => hij (LockHolder.session.inj (Option.some.inj heq))
      exact (if_neg hne).trans (hkeeps hlock)

theorem letsBe_self : c.LetsBe c := letsBe_same rfl rfl

theorem letsBe_beginRequest (first : List UInt8) : c.LetsBe (c.beginRequest i t first) := by
  unfold beginRequest
  split
  · exact letsBe_self.setSession (fun h => h.elim) (fun h => h.elim)
  · exact letsBe_self.endSession

theorem letsBe_greet (now : Int) (frame : List UInt8) : c.LetsBe (c.greet J autoAuthorize i t now frame) := by
  unfold greet
  dsimp only
  split
  · exact LetsBe.setSession (letsBe_same rfl rfl) (fun h => h.elim) (fun h => h.elim)
  · exact LetsBe.endSession (letsBe_same rfl rfl)

theorem letsBe_receive {now : Int} {frame : List UInt8} (h : c.receive J autoAuthorize i t now frame = some c') :
    c.LetsBe c' := by
  unfold receive at h
  split at h
  · split at h <;> cases h
    exact letsBe_greet now frame
  · split at h
    · cases h
    split at h <;> cases h
    · exact letsBe_self.endSession
    · exact letsBe_beginRequest frame
  · split at h <;> cases h
    split
    · exact letsBe_self.setSession (fun h => h.elim) (fun h => h.elim)
    · exact letsBe_self.endSession
  · cases h

/-- A step that does not use the endpoint lets the lock be, or takes it. -/
theorem step_lock {a : LanAction} (ha : a.usesEndpoint = false) (h : c.step J autoAuthorize a = some c') :
    c.LetsBe c' ∨ c.Takes c' := by
  cases a with
  | start =>
    simp only [step] at h
    split at h <;> cases h
    exact .inl (letsBe_same rfl rfl)
  | stop =>
    cases h
    refine .inl ⟨.inl rfl, fun j t' hj ht' => ?_⟩
    obtain ⟨t, ht, rfl⟩ := Option.map_eq_some_iff.mp hj
    exact ⟨⟨t, ht, rfl⟩, fun _ => rfl⟩
  | restart =>
    cases h
    exact .inl ⟨.inr rfl, fun j t' hj => by cases hj⟩
  | flush | setStatus | remove =>
    cases h
    exact .inl (letsBe_same rfl rfl)
  | connect address =>
    simp only [step] at h
    split at h <;> cases h
    exact .inl (LetsBe.setSession (letsBe_same rfl rfl) (fun h => h.elim) (fun h => h.elim))
  | receive i now frame =>
    obtain ⟨t, ht, h⟩ := Option.bind_eq_some_iff.mp h
    split at h
    · cases h
    · exact .inl (letsBe_receive h)
  | takePending i =>
    obtain ⟨t, ht, h⟩ := Option.bind_eq_some_iff.mp h
    split at h
    · split at h <;> cases h
      exact .inl (letsBe_beginRequest _)
    · cases h
  | takeOver i =>
    obtain ⟨t, ht, h⟩ := Option.bind_eq_some_iff.mp h
    split at h
    · split at h <;> cases h
      exact .inl (LetsBe.setSession (letsBe_same rfl rfl) (fun h => h.elim) (fun h => h.elim))
    · cases h
  | close i =>
    simp only [step] at h
    split at h
    · cases h
    · obtain ⟨t, ht, rfl⟩ := Option.map_eq_some_iff.mp h
      exact .inl (letsBe_self.setSession (fun _ => ⟨t, ht, rfl⟩) (fun _ => rfl))
  | lock i =>
    obtain ⟨t, ht, h⟩ := Option.bind_eq_some_iff.mp h
    split at h
    · next packets hphase =>
      split at h <;> cases h
      next hfree =>
      unfold enterLock
      split
      · refine .inr ⟨hfree, Option.some_ne_none _, fun j t' hj ht' => ?_⟩
        have hj : Function.update c.sessions i (some { t with phase := .writing (RelayRequest.isCancel packets) packets }) j =
          some t' := hj
        by_cases hij : j = i
        · subst hij
          rw [Function.update_self] at hj
          cases hj
          exact .inr ⟨rfl, packets, rfl⟩
        · rw [Function.update_of_ne hij] at hj
          exact .inl ⟨t', hj, rfl⟩
      · exact .inl letsBe_self.endSession
    · cases h
  | write i | answered i => cases ha
  | fail i =>
    obtain ⟨t, -, rfl⟩ := Option.map_eq_some_iff.mp h
    exact .inl letsBe_self.endSession
  | providerLock =>
    simp only [step] at h
    split at h <;> cases h
    next hfree => exact .inr ⟨hfree, Option.some_ne_none _, fun j t' hj _ => .inl ⟨t', hj, rfl⟩⟩
  | providerUnlock =>
    simp only [step] at h
    split at h <;> cases h
    next hheld =>
      refine .inl ⟨.inr rfl, fun j t' hj _ => ⟨⟨t', hj, rfl⟩, fun hlock => ?_⟩⟩
      rw [hheld] at hlock
      cases hlock

end LanServer

end AbkFido
