/-
How `FidoSyncService` keeps up with the driver.

The service loop polls `store_generation`, asks for a sync when it has
changed, and starts a sync thread when one is asked for and none is at work.
Other components ask through `onStartCommand`, without the lock. Whatever is
asked for, at any moment, a sync begins after it (`catches_up`).
With nothing in between, the loop's steps are the functions of `SyncService`
(`Shows.round`).

The first generation that is read is the one later ones are compared with,
and no sync is asked for. So the loop has to read it before the sync that is
asked for at the start begins; where the driver cannot be read then, a change
may be missed for good (`exists_missed`).
-/
import AbkFido.App.Quiet

namespace AbkFido

/-- Where the service loop is. -/
inductive LoopPhase
  | polling
  /-- Another generation has been read; `syncRequested` is next, under the lock. -/
  | noticed
  | kicking
  /-- In `kickSyncIfNeeded`, under the lock: `syncRequested` is next. -/
  | clearing
  /-- Under the lock: `syncInFlight` is next. -/
  | marking
  /-- The lock is released; the thread is started next. -/
  | starting
  deriving DecidableEq

structure ServiceLoop where
  syncRequested : Bool
  syncInFlight : Bool
  lastObservedStoreGeneration : Int
  loop : LoopPhase
  /-- The `abk-fido-sync` threads that have not ended. -/
  syncs : Nat
  /-- The driver's `store_generation`. -/
  generation : Nat
  /-- What it was when each sync began, the newest first. -/
  begun : List Nat
  deriving DecidableEq

inductive LoopAction
  /-- The service loop's next step; `readable` tells whether `store_generation` can be read. -/
  | proceed (readable : Bool)
  /-- A sync ends. -/
  | finish
  /-- `onStartCommand` asks for a sync. -/
  | startCommand
  /-- The driver's store changes. -/
  | changed
  deriving DecidableEq

namespace ServiceLoop

/-- The service is created. -/
def init (generation : Nat) : ServiceLoop where
  syncRequested := true
  syncInFlight := false
  lastObservedStoreGeneration := -1
  loop := .polling
  syncs := 0
  generation := generation
  begun := []

/-- `maybeScheduleStoreSync`, up to its lock. -/
def poll (readable : Bool) (s : ServiceLoop) : ServiceLoop :=
  match if readable then toIntOrNull s.generation else none with
  | none => { s with loop := .kicking }
  | some generation =>
    if s.lastObservedStoreGeneration = -1 then { s with lastObservedStoreGeneration := generation, loop := .kicking }
    else if generation = s.lastObservedStoreGeneration then { s with loop := .kicking }
    else { s with lastObservedStoreGeneration := generation, loop := .noticed }

/-- The loop's next step. -/
def proceed (readable : Bool) (s : ServiceLoop) : ServiceLoop :=
  match s.loop with
  | .polling => s.poll readable
  | .noticed => { s with syncRequested := true, loop := .kicking }
  | .kicking => if !s.syncRequested || s.syncInFlight then { s with loop := .polling } else { s with loop := .clearing }
  | .clearing => { s with syncRequested := false, loop := .marking }
  | .marking => { s with syncInFlight := true, loop := .starting }
  | .starting => { s with syncs := s.syncs + 1, begun := s.generation :: s.begun, loop := .polling }

/-- The loop holds `syncStateLock`. -/
def locked (s : ServiceLoop) : Bool := s.loop = .clearing || s.loop = .marking

def step (s : ServiceLoop) : LoopAction → Option ServiceLoop
  | .proceed readable => some (s.proceed readable)
  | .finish => if s.syncs = 0 || s.locked then none else some { s with syncs := s.syncs - 1, syncInFlight := false }
  | .startCommand => some { s with syncRequested := true }
  | .changed => some { s with generation := s.generation + 1 }

/-- The first poll can read the driver, and an `Int` holds its generation. -/
def Watched (s : ServiceLoop) (a : LoopAction) : Prop :=
  s.generation < 2 ^ 31 ∧ (a = .proceed false → s.lastObservedStoreGeneration ≠ -1)

instance (s : ServiceLoop) (a : LoopAction) : Decidable (s.Watched a) := inferInstanceAs (Decidable (_ ∧ (_ → _)))

/-- What the service does of its own. -/
def Own (a : LoopAction) : Prop := a = .proceed true ∨ a = .finish

/-! ## Left alone, its steps are its functions -/

/-- What the loop shows of the service that `SyncService` has: the flags, and the generation the driver is at. -/
structure Shows (s : ServiceLoop) (v : SyncService) : Prop where
  requested : s.syncRequested = v.syncRequested
  inFlight : s.syncInFlight = v.syncInFlight
  observed : s.lastObservedStoreGeneration = v.lastObservedStoreGeneration
  generation : s.generation = v.sync.storage.storeGeneration.toNat

/-- The loop gets from `s` to `t` with nothing else happening. -/
def Proceeds (ok : Bool) (s t : ServiceLoop) : Prop :=
  ∃ n, Runs step (fun _ _ => True) s (List.replicate n (.proceed ok)) t

section
variable {s t u : ServiceLoop} {v : SyncService} {ok : Bool}

theorem Proceeds.refl (s : ServiceLoop) : Proceeds ok s s := ⟨0, .nil s⟩

theorem Proceeds.cons (h : Proceeds ok (s.proceed ok) t) : Proceeds ok s t := by
  obtain ⟨n, hrun⟩ := h
  exact ⟨n + 1, .cons trivial rfl hrun⟩

theorem Proceeds.trans (h : Proceeds ok s t) (h' : Proceeds ok t u) : Proceeds ok s u := by
  obtain ⟨n, hrun⟩ := h
  obtain ⟨m, hrun'⟩ := h'
  refine ⟨n + m, ?_⟩
  rw [List.replicate_add]
  exact hrun.append hrun'

theorem Shows.maybeScheduleStoreSync (h : s.Shows v) (hloop : s.loop = .polling) (ok : Bool) :
    ∃ t, Proceeds ok s t ∧ t.loop = .kicking ∧ t.Shows (v.maybeScheduleStoreSync ok) := by
  have hread : (if ok then toIntOrNull s.generation else none) = v.readStoreGeneration ok := by
    rw [SyncService.readStoreGeneration, h.generation]
  have hnext : s.proceed ok = s.poll ok := by rw [proceed, hloop]
  have hpoll : ∀ {u : ServiceLoop}, s.poll ok = u → Proceeds ok s u := by
    rintro u rfl
    exact .cons (hnext ▸ .refl _)
  cases hgen : v.readStoreGeneration ok with
  | none =>
    have hidle : s.poll ok = { s with loop := .kicking } := by simp only [poll, hread, hgen]
    rw [SyncService.maybeScheduleStoreSync, hgen]
    exact ⟨_, hpoll hidle, rfl, h.requested, h.inFlight, h.observed, h.generation⟩
  | some generation =>
    have heq : s.poll ok = if v.lastObservedStoreGeneration = -1 then
          { s with lastObservedStoreGeneration := generation, loop := .kicking }
        else if generation = v.lastObservedStoreGeneration then { s with loop := .kicking }
        else { s with lastObservedStoreGeneration := generation, loop := .noticed } := by
      simp only [poll, hread, hgen, h.observed]
    simp only [SyncService.maybeScheduleStoreSync, hgen]
    split_ifs at heq ⊢ with hfirst hsame
    · exact ⟨_, hpoll heq, rfl, h.requested, h.inFlight, rfl, h.generation⟩
    · exact ⟨_, hpoll heq, rfl, h.requested, h.inFlight, h.observed, h.generation⟩
    · exact ⟨_, (hpoll heq).trans (.cons (.refl _)), rfl, rfl, h.inFlight, rfl, h.generation⟩

theorem Shows.kickSyncIfNeeded (h : s.Shows v) (hloop : s.loop = .kicking) (ok : Bool) :
    ∃ t, Proceeds ok s t ∧ t.loop = .polling ∧ t.Shows v.kickSyncIfNeeded := by
  have hnext : s.proceed ok =
      if !v.syncRequested || v.syncInFlight then { s with loop := .polling } else { s with loop := .clearing } := by
    simp only [proceed, hloop, h.requested, h.inFlight]
  rw [SyncService.kickSyncIfNeeded]
  split_ifs at hnext ⊢ with hidle
  · refine ⟨{ s with loop := .polling }, .cons ?_, rfl, h.requested, h.inFlight, h.observed, h.generation⟩
    rw [hnext]
    exact .refl _
  · let t : ServiceLoop :=
      { s with
        syncRequested := false
        syncInFlight := true
        loop := .polling
        syncs := s.syncs + 1
        begun := s.generation :: s.begun }
    refine ⟨t, .cons ?_, rfl, rfl, rfl, h.observed, h.generation⟩
    rw [hnext]
    exact .cons (.cons (.cons (.refl _)))

/-- A round of the loop is a poll and a kick of `SyncService`. -/
theorem Shows.round (h : s.Shows v) (hloop : s.loop = .polling) (ok : Bool) :
    ∃ t, Proceeds ok s t ∧ t.loop = .polling ∧ t.Shows (v.maybeScheduleStoreSync ok).kickSyncIfNeeded := by
  obtain ⟨t, hpoll, hkicking, ht⟩ := h.maybeScheduleStoreSync hloop ok
  obtain ⟨u, hkick, hpolling, hu⟩ := ht.kickSyncIfNeeded hkicking ok
  exact ⟨u, hpoll.trans hkick, hpolling, hu⟩

end

/-! ## Between two steps -/

/-- A sync is asked for, or about to be asked for or started. -/
def Owed (s : ServiceLoop) : Prop :=
  s.syncRequested = true ∨ s.loop = .noticed ∨ s.loop = .marking ∨ s.loop = .starting

structure Sound (s : ServiceLoop) : Prop where
  /-- The flag stands for the one sync that is at work. -/
  single : s.syncs + (if s.loop = .starting then 1 else 0) = if s.syncInFlight then 1 else 0
  free : s.locked = true → s.syncInFlight = false
  observed : s.lastObservedStoreGeneration ≤ s.generation
  /-- Until the first generation is read, nothing is started. -/
  first : s.lastObservedStoreGeneration = -1 → s.loop = .polling ∧ s.syncRequested = true
  /-- The last sync has seen what the loop has. -/
  covered : s.Owed ∨ ∃ b ∈ s.begun.head?, s.lastObservedStoreGeneration ≤ (b : Int)
  /-- And nothing it could not have seen. -/
  begun : ∀ b ∈ s.begun, b ≤ s.generation

variable {s t : ServiceLoop} {a : LoopAction}

theorem sound_init (generation : Nat) : (init generation).Sound where
  single := rfl
  free := nofun
  observed := by simp [init]
  first _ := ⟨rfl, rfl⟩
  covered := .inl (.inl rfl)
  begun := nofun

/-- A sync that is owed stays so until one begins. -/
theorem step_begun (hstep : s.step a = some t) :
    t.begun = s.begun ∧ (s.Owed → t.Owed) ∨ t.begun = s.generation :: s.begun := by
  cases a with
  | proceed readable =>
    cases hstep
    cases hloop : s.loop with
    | polling =>
      have hkeep : s.Owed → s.syncRequested = true := by simp [Owed, hloop]
      simp only [ServiceLoop.proceed, hloop, ServiceLoop.poll]
      refine .inl ?_
      split
      · exact ⟨rfl, fun h => .inl (hkeep h)⟩
      split
      · exact ⟨rfl, fun h => .inl (hkeep h)⟩
      split <;> exact ⟨rfl, fun h => .inl (hkeep h)⟩
    | noticed =>
      simp only [ServiceLoop.proceed, hloop]
      exact .inl ⟨trivial, fun _ => .inl rfl⟩
    | kicking =>
      have hkeep : s.Owed → s.syncRequested = true := by simp [Owed, hloop]
      simp only [ServiceLoop.proceed, hloop]
      split <;> exact .inl ⟨rfl, fun h => .inl (hkeep h)⟩
    | clearing =>
      simp only [ServiceLoop.proceed, hloop]
      exact .inl ⟨trivial, fun _ => .inr (.inr (.inl rfl))⟩
    | marking =>
      simp only [ServiceLoop.proceed, hloop]
      exact .inl ⟨trivial, fun _ => .inr (.inr (.inr rfl))⟩
    | starting =>
      refine .inr ?_
      simp only [ServiceLoop.proceed, hloop]
  | finish =>
    simp only [ServiceLoop.step] at hstep
    split at hstep <;> cases hstep
    exact .inl ⟨rfl, id⟩
  | startCommand =>
    cases hstep
    exact .inl ⟨rfl, fun _ => .inl rfl⟩
  | changed =>
    cases hstep
    exact .inl ⟨rfl, id⟩

/-- Where a sync was owed, it still is or one has begun since. -/
def Follows (s t : ServiceLoop) : Prop :=
  s.begun.length ≤ t.begun.length ∧ (s.Owed → t.Owed ∨ s.begun.length < t.begun.length)

theorem Follows.step {u : ServiceLoop} (h : s.Follows t) (hstep : t.step a = some u) : s.Follows u := by
  rcases step_begun hstep with ⟨hbegun, howed⟩ | hbegun
  · rw [Follows, hbegun]
    exact ⟨h.1, fun hs => (h.2 hs).imp_left howed⟩
  · rw [Follows, hbegun, List.length_cons]
    exact ⟨h.1.trans (Nat.le_succ _), fun _ => .inr (Nat.lt_succ_of_le h.1)⟩

/-- What a poll does where the driver can be read. -/
theorem poll_cases (hlt : s.generation < 2 ^ 31) (readable : Bool) : (readable = false ∧ s.poll readable = { s with loop := .kicking }) ∨
    (s.lastObservedStoreGeneration = -1 ∧
      s.poll readable = { s with lastObservedStoreGeneration := s.generation, loop := .kicking }) ∨
    (s.lastObservedStoreGeneration = s.generation ∧ s.poll readable = { s with loop := .kicking }) ∨
    s.poll readable = { s with lastObservedStoreGeneration := s.generation, loop := .noticed } := by
  cases readable with
  | false => exact .inl ⟨rfl, rfl⟩
  | true =>
    simp only [poll, if_true, toIntOrNull, if_pos hlt]
    split
    · next hfirst => exact .inr (.inl ⟨hfirst, rfl⟩)
    · split
      · next heq => exact .inr (.inr (.inl ⟨heq.symm, rfl⟩))
      · exact .inr (.inr (.inr rfl))

theorem Sound.poll (h : s.Sound) (hloop : s.loop = .polling) {readable : Bool} (hok : s.Watched (.proceed readable)) :
    (s.poll readable).Sound := by
  have hsingle := h.single
  rw [hloop, if_neg (by decide), Nat.add_zero] at hsingle
  have hread : ((s.generation : Int) = -1) → False := by omega
  have howed : s.syncRequested = true ∨ ∃ b ∈ s.begun.head?, s.lastObservedStoreGeneration ≤ (b : Int) := by
    have hcov := h.covered
    simp only [Owed, hloop, reduceCtorEq, or_false] at hcov
    exact hcov
  rcases poll_cases hok.1 readable with ⟨rfl, heq⟩ | ⟨hfirst, heq⟩ | ⟨hsame, heq⟩ | heq <;> rw [heq]
  · exact ⟨hsingle, nofun, h.observed, fun hL => absurd hL (hok.2 rfl), howed.imp_left .inl, h.begun⟩
  · exact ⟨hsingle, nofun, Int.le_refl _, fun hL => (hread hL).elim, .inl (.inl (h.first hfirst).2), h.begun⟩
  · exact ⟨hsingle, nofun, h.observed, fun hL => (hread (hsame ▸ hL)).elim, howed.imp_left .inl, h.begun⟩
  · exact ⟨hsingle, nofun, Int.le_refl _, fun hL => (hread hL).elim, .inl (.inr (.inl rfl)), h.begun⟩

theorem Sound.proceed (h : s.Sound) {readable : Bool} (hok : s.Watched (.proceed readable)) : (s.proceed readable).Sound := by
  obtain ⟨hsingle, hfree, hobserved, hfirst, hcovered, hbegun⟩ := h
  cases hloop : s.loop with
  | polling =>
    rw [ServiceLoop.proceed, hloop]
    exact Sound.poll ⟨hsingle, hfree, hobserved, hfirst, hcovered, hbegun⟩ hloop hok
  | noticed =>
    simp only [hloop, reduceCtorEq, if_false, Nat.add_zero, false_and, imp_false] at hsingle hfirst
    simp only [ServiceLoop.proceed, hloop]
    exact ⟨hsingle, nofun, hobserved, fun hL => (hfirst hL).elim, .inl (.inl rfl), hbegun⟩
  | kicking =>
    simp only [Owed, hloop, reduceCtorEq, if_false, Nat.add_zero, false_and, imp_false, or_false] at hsingle hfirst hcovered
    simp only [ServiceLoop.proceed, hloop]
    split
    · exact ⟨hsingle, nofun, hobserved, fun hL => (hfirst hL).elim, hcovered.imp_left .inl, hbegun⟩
    · next hkick =>
      simp only [Bool.or_eq_true, Bool.not_eq_true', not_or, Bool.not_eq_false, Bool.not_eq_true] at hkick
      exact ⟨hsingle, fun _ => hkick.2, hobserved, fun hL => (hfirst hL).elim, .inl (.inl hkick.1), hbegun⟩
  | clearing =>
    simp only [hloop, reduceCtorEq, if_false, Nat.add_zero, false_and, imp_false] at hsingle hfirst
    simp only [ServiceLoop.proceed, hloop]
    exact ⟨hsingle, fun _ => hfree (by simp [locked, hloop]), hobserved, fun hL => (hfirst hL).elim,
      .inl (.inr (.inr (.inl rfl))), hbegun⟩
  | marking =>
    simp only [hloop, reduceCtorEq, if_false, Nat.add_zero, false_and, imp_false, hfree (by simp [locked, hloop]),
      Bool.false_eq_true] at hsingle hfirst
    simp only [ServiceLoop.proceed, hloop]
    exact ⟨by simp [hsingle], nofun, hobserved, fun hL => (hfirst hL).elim, .inl (.inr (.inr (.inr rfl))), hbegun⟩
  | starting =>
    simp only [hloop, reduceCtorEq, if_true, false_and, imp_false] at hsingle hfirst
    simp only [ServiceLoop.proceed, hloop]
    exact ⟨hsingle, nofun, hobserved, fun hL => (hfirst hL).elim, .inr ⟨_, rfl, hobserved⟩,
      List.forall_mem_cons.mpr ⟨Nat.le_refl _, hbegun⟩⟩

theorem Sound.step (h : s.Sound) (hok : s.Watched a) (hstep : s.step a = some t) : t.Sound := by
  cases a with
  | proceed readable =>
    cases hstep
    exact h.proceed hok
  | finish =>
    simp only [ServiceLoop.step] at hstep
    split at hstep <;> cases hstep
    next hfree =>
    simp only [Bool.or_eq_true, decide_eq_true_eq, not_or, Bool.not_eq_true] at hfree
    have hsingle := h.single
    refine ⟨?_, fun hlocked => ?_, h.observed, h.first, h.covered, h.begun⟩
    · split_ifs at hsingle <;> simp_all
    · cases hlocked.symm.trans hfree.2
  | startCommand =>
    cases hstep
    exact ⟨h.single, h.free, h.observed, fun hL => ⟨(h.first hL).1, rfl⟩, .inl (.inl rfl), h.begun⟩
  | changed =>
    cases hstep
    exact ⟨h.single, h.free, h.observed.trans (by simp), h.first, h.covered, fun b hb => (h.begun b hb).trans (Nat.le_succ _)⟩

theorem sound_run {generation : Nat} {as : List LoopAction} (h : Runs step Watched (init generation) as s) : s.Sound :=
  h.invariant (fun _ _ _ hs hok hstep => hs.step hok hstep) (sound_init generation)

/-! ## Left alone, the service catches up -/

/-- The service gets there of its own in `n` steps at most. -/
def Settles (n : Nat) (s t : ServiceLoop) : Prop :=
  ∃ as, (∀ a ∈ as, Own a) ∧ as.length ≤ n ∧ Runs step Watched s as t

theorem Settles.refl (n : Nat) (s : ServiceLoop) : s.Settles n s := ⟨[], nofun, Nat.zero_le _, .nil s⟩

theorem Settles.trans {u : ServiceLoop} {m n : Nat} (h : s.Settles m t) (h' : t.Settles n u) : s.Settles (m + n) u := by
  obtain ⟨as, hown, hle, hrun⟩ := h
  obtain ⟨bs, hown', hle', hrun'⟩ := h'
  refine ⟨as ++ bs, fun a ha => (List.mem_append.mp ha).elim (hown a) (hown' a), ?_, hrun.append hrun'⟩
  rw [List.length_append]
  exact Nat.add_le_add hle hle'

theorem settles_proceed (hlt : s.generation < 2 ^ 31) : s.Settles 1 (s.proceed true) :=
  ⟨[.proceed true], by simp [Own], Nat.le_refl _, .cons ⟨hlt, nofun⟩ rfl (.nil _)⟩

/-- A sync that is asked for is started, where the loop is about to look. -/
theorem settles_kick (hlt : s.generation < 2 ^ 31) (hloop : s.loop = .kicking) (hreq : s.syncRequested = true)
    (hfree : s.syncInFlight = false) : s.Settles 4
      { s with
        syncRequested := false
        syncInFlight := true
        loop := .polling
        syncs := s.syncs + 1
        begun := s.generation :: s.begun } := by
  have h := ((settles_proceed (s := s) hlt).trans (settles_proceed (by simpa [ServiceLoop.proceed, hloop, hreq, hfree]))).trans
    ((settles_proceed (by simpa [ServiceLoop.proceed, hloop, hreq, hfree])).trans
      (settles_proceed (by simpa [ServiceLoop.proceed, hloop, hreq, hfree])))
  simpa [ServiceLoop.proceed, hloop, hreq, hfree] using h

/-- How many steps the loop may be from its next poll. -/
def away : LoopPhase → Nat
  | .polling => 0
  | .starting => 1
  | .marking => 2
  | .clearing => 3
  | .kicking => 4
  | .noticed => 5

theorem away_proceed (hloop : s.loop ≠ .polling) : away (s.proceed true).loop < away s.loop ∧
    (s.proceed true).generation = s.generation := by
  cases h : s.loop with
  | polling => exact absurd h hloop
  | kicking =>
    simp only [ServiceLoop.proceed, h]
    split <;> exact ⟨by simp [away], rfl⟩
  | noticed | clearing | marking | starting =>
    simp only [ServiceLoop.proceed, h]
    exact ⟨by decide, trivial⟩

theorem settles_polling (hlt : s.generation < 2 ^ 31) : ∃ t, s.Settles (away s.loop) t ∧ t.loop = .polling ∧
    t.generation = s.generation := by
  induction hn : away s.loop using Nat.strong_induction_on generalizing s with
  | _ n ih =>
    subst hn
    by_cases hloop : s.loop = .polling
    · exact ⟨s, .refl _ s, hloop, rfl⟩
    · obtain ⟨haway, hgen⟩ := away_proceed hloop
      obtain ⟨t, ht, hpolling, hgent⟩ := ih _ haway (by rwa [hgen]) rfl
      refine ⟨t, ?_, hpolling, hgent.trans hgen⟩
      obtain ⟨as, hown, hle, hrun⟩ := (settles_proceed hlt).trans ht
      exact ⟨as, hown, by omega, hrun⟩

theorem Settles.sound {n : Nat} (h : s.Settles n t) (hs : s.Sound) : t.Sound := by
  obtain ⟨as, _, _, hrun⟩ := h
  exact hrun.invariant (fun _ _ _ hs hok hstep => hs.step hok hstep) hs

theorem Settles.follows {n : Nat} (h : s.Settles n t) : s.Follows t := by
  obtain ⟨as, _, _, hrun⟩ := h
  exact hrun.invariant (fun _ _ _ hs _ hstep => hs.step hstep) ⟨Nat.le_refl _, .inl⟩

/-- Where the loop polls, whatever sync is at work may end. -/
theorem settles_finish (h : s.Sound) (hlt : s.generation < 2 ^ 31) (hloop : s.loop = .polling) :
    s.Settles 1 { s with syncs := 0, syncInFlight := false } := by
  have hsingle := h.single
  rw [hloop, if_neg (by decide), Nat.add_zero] at hsingle
  cases hflight : s.syncInFlight with
  | false =>
    rw [hflight] at hsingle
    rw [← hflight, ← show s.syncs = 0 from hsingle]
    exact .refl 1 s
  | true =>
    rw [hflight] at hsingle
    refine ⟨[.finish], by simp [Own], Nat.le_refl _, .cons ⟨hlt, nofun⟩ ?_ (.nil _)⟩
    simp [ServiceLoop.step, locked, hloop, show s.syncs = 1 from hsingle]

/-- One round of the loop, with no sync at work. -/
theorem settles_round (h : s.Sound) (hlt : s.generation < 2 ^ 31) (hloop : s.loop = .polling) (hfree : s.syncInFlight = false) :
    ∃ t, s.Settles 6 t ∧ t.generation = s.generation ∧ t.begun.head? = some s.generation ∧ ¬ t.Owed := by
  have hpoll : s.Settles 1 (s.poll true) := by
    have hnext := settles_proceed hlt
    rwa [ServiceLoop.proceed, hloop] at hnext
  have hkick : ∀ {u : ServiceLoop}, s.Settles 2 u → u.loop = .kicking → u.syncRequested = true → u.syncInFlight = false →
      u.generation = s.generation →
        ∃ t, s.Settles 6 t ∧ t.generation = s.generation ∧ t.begun.head? = some s.generation ∧ ¬ t.Owed := by
    intro u hu hkicking hreq hinflight hgen
    refine ⟨_, hu.trans (settles_kick (hgen ▸ hlt) hkicking hreq hinflight), hgen, ?_, by simp [Owed]⟩
    rw [List.head?_cons, hgen]
  have hsteps : ∀ {u : ServiceLoop}, s.poll true = u → s.Settles 2 u := by
    rintro u rfl
    exact hpoll.trans (.refl 1 _)
  rcases poll_cases hlt true with ⟨hfalse, _⟩ | ⟨hfirst, heq⟩ | ⟨hsame, heq⟩ | heq
  · cases hfalse
  · exact hkick (hsteps heq) rfl (h.first hfirst).2 hfree rfl
  · by_cases hreq : s.syncRequested = true
    · exact hkick (hsteps heq) rfl hreq hfree rfl
    · -- nothing is owed, so the last sync began on this very store
      have hcovered := h.covered
      simp only [Owed, hloop, hreq, reduceCtorEq, or_false, false_or, Bool.false_eq_true] at hcovered
      obtain ⟨b, hb, hle⟩ := hcovered
      have hseen := h.begun b (List.mem_of_mem_head? hb)
      refine ⟨s, .refl 6 s, rfl, hb.trans ?_, by simp [Owed, hloop, hreq]⟩
      rw [hsame] at hle
      exact congrArg some (by omega)
  · have hnoticed := hpoll.trans (settles_proceed (s := s.poll true) (by rw [heq]; exact hlt))
    rw [heq] at hnoticed
    exact hkick hnoticed rfl rfl hfree rfl

/-- **The service keeps up with the driver.** No two syncs are at work at a
time. And whatever has happened, the service comes of its own to a point where
the last sync began on the store as it is; and where a sync was owed, one has
begun since. -/
theorem catches_up {generation : Nat} {as : List LoopAction} (h : Runs step Watched (init generation) as s)
    (hlt : s.generation < 2 ^ 31) : s.syncs ≤ 1 ∧
      ∃ t, s.Settles 12 t ∧ t.generation = s.generation ∧ t.begun.head? = some s.generation ∧
        (s.Owed → s.begun.length < t.begun.length) := by
  have hs := sound_run h
  refine ⟨?_, ?_⟩
  · have hsingle := hs.single
    split_ifs at hsingle <;> omega
  obtain ⟨t, ht, hpolling, hgen⟩ := settles_polling hlt
  have haway : away s.loop ≤ 5 := by cases s.loop <;> decide
  have hfinish := settles_finish (ht.sound hs) (hgen ▸ hlt) hpolling
  obtain ⟨u, hu, hgenu, hbegun, hrest⟩ := settles_round (hfinish.sound (ht.sound hs)) (hgen ▸ hlt) hpolling rfl
  have hall := ht.trans (hfinish.trans hu)
  have hfollows := hall.follows
  obtain ⟨bs, hown, hle, hrun⟩ := hall
  exact ⟨u, ⟨bs, hown, by omega, hrun⟩, hgenu.trans hgen, hbegun.trans (congrArg some hgen),
    fun howed => (hfollows.2 howed).resolve_left hrest⟩

/-- A change, and a request that comes while the first sync is at work. -/
def busyRun : List LoopAction :=
  [.proceed true, .proceed true, .proceed true, .proceed true, .proceed true, .changed, .startCommand, .proceed true]

theorem catches_up_busyRun : ∃ s, Runs step Watched (init 7) busyRun s ∧ s.syncs = 1 ∧ s.begun = [7] ∧
    ∃ t, s.Settles 12 t ∧ t.begun.head? = some 8 ∧ 1 < t.begun.length := by
  have h : (Runs.exec step (fun s a => decide (s.Watched a)) (init 7) busyRun).map
      (fun s => (s.syncs, s.begun, s.generation, s.syncRequested)) = some (1, [7], 8, true) := by decide
  obtain ⟨s, hs, heq⟩ := Option.map_eq_some_iff.mp h
  simp only [Prod.mk.injEq] at heq
  have hrun : Runs step Watched (init 7) busyRun s := Runs.of_exec (fun _ _ => of_decide_eq_true) hs
  obtain ⟨t, ht, _, hbegun, hfollows⟩ := (catches_up hrun (by rw [heq.2.2.1]; decide)).2
  have hlonger := hfollows (.inl heq.2.2.2)
  rw [heq.2.1] at hlonger
  exact ⟨s, hrun, heq.1, heq.2.1, t, ht, by rw [hbegun, heq.2.2.1], hlonger⟩

/-- The driver could not be read at first: the change in between is taken for
the state of things, and no sync is ever asked for. -/
def missedRun : List LoopAction :=
  [.proceed false, .proceed true, .proceed true, .proceed true, .proceed true, .finish, .changed, .proceed true, .proceed true]

theorem exists_missed : ∃ s, Runs step (fun _ _ => True) (init 7) missedRun s ∧ s.begun = [7] ∧ s.generation = 8 ∧
    (s.proceed true).proceed true = s := by
  have h : (Runs.exec step (fun _ _ => true) (init 7) missedRun).map
      (fun s => (s.begun, s.generation, decide ((s.proceed true).proceed true = s))) = some ([7], 8, true) := by decide
  obtain ⟨s, hs, heq⟩ := Option.map_eq_some_iff.mp h
  simp only [Prod.mk.injEq, decide_eq_true_eq] at heq
  exact ⟨s, Runs.of_exec (fun _ _ _ => trivial) hs, heq⟩

end ServiceLoop

end AbkFido
