/-
Which channel ids INIT hands out.

The counter starts at 1 and skips 0 and the broadcast id, but where it does
it is left standing at the id it has just handed out, and no INIT looks
whether its id is on a channel already. So the ids of a run are distinct,
within the counter's period, exactly while the counter has not come past its
end and no packet has put a channel where the counter then comes to
(`uniqueCids_iff`).
-/
import AbkFido.HidFacts

namespace AbkFido

/-- The ids that were handed out, the newest first, each with the ids of the
channels in use at that moment. -/
def handedOut (log : List HidEvent) : List (UInt32 × List UInt32) := log.filterMap fun
  | .handed cid inUse => some (cid, inUse)
  | _ => none

structure UniqueCids (log : List HidEvent) : Prop where
  valid : ∀ e ∈ handedOut log, e.1 ≠ 0 ∧ e.1 ≠ cidBroadcast
  free : ∀ e ∈ handedOut log, e.1 ∉ e.2
  /-- INITs that are less than the counter's period apart. -/
  distinct : ∀ i j a b, i < j → j - i < 2 ^ 32 - 2 → (handedOut log)[i]? = some a → (handedOut log)[j]? = some b →
    a.1 ≠ b.1

/-- The id at which the counter stands; at its end it goes back to 1. -/
def Hid.counter (h : Hid) : UInt32 := if h.nextCid = cidBroadcast then 1 else h.nextCid

/-- An INIT that is no more than the `2 ^ 32 - 1`st finds no channel in use
where the counter stands. -/
def HidLayer.FreshInit (s : HidLayer) : HidAction → Prop
  | .serve t => ∀ m, s.serving t = some m → m.IsInit →
      (handedOut s.log).length < 2 ^ 32 - 1 ∧ s.hid.counter ∉ s.hid.cidsInUse
  | _ => True

/-- Whatever the counter stands at, neither 0 nor the broadcast id is handed out. -/
theorem Hid.nextCid_valid (h : Hid) : h.nextCidLocked.1 ≠ 0 ∧ h.nextCidLocked.1 ≠ cidBroadcast := by
  unfold nextCidLocked
  dsimp only
  split
  · next hskip =>
    rcases hskip with hz | hb
    · rw [hz]; exact ⟨by simp, by simp [cidBroadcast]⟩
    · rw [hb]; exact ⟨by simp [cidBroadcast], by simp [cidBroadcast]⟩
  · next hskip =>
    rw [not_or] at hskip
    exact hskip

/-- Unless it is 0, the id handed out is the one the counter stands at. -/
theorem Hid.nextCid_eq_counter {h : Hid} (hz : h.nextCid ≠ 0) : h.nextCidLocked.1 = h.counter := by
  unfold nextCidLocked counter
  by_cases hb : h.nextCid = cidBroadcast
  · rw [if_pos hb, if_pos (.inr hb), hb]
    rfl
  · rw [if_neg hb, if_neg (by simp [hz, hb])]

/-- Past its end the counter is left at the id that was handed out. -/
example (channels : Fin maxChannels → Channel) :
    (Hid.mk channels cidBroadcast).nextCidLocked = (1, Hid.mk channels 1) := by
  simp [Hid.nextCidLocked, cidBroadcast]

/-! ## Counting -/

/-- The id of the `k`th INIT. -/
def nthCid (k : Nat) : Nat := if k = 2 ^ 32 - 1 then 1 else k

/-- What the ids and the counter are after `n` INITs. -/
structure HidLayer.Counted (s : HidLayer) : Prop where
  le : (handedOut s.log).length ≤ 2 ^ 32 - 1
  cids : ∀ i e, (handedOut s.log)[i]? = some e → e.1.toNat = nthCid ((handedOut s.log).length - i)
  next : s.hid.nextCid.toNat = if (handedOut s.log).length = 2 ^ 32 - 1 then 1 else (handedOut s.log).length + 1
  valid : ∀ e ∈ handedOut s.log, e.1 ≠ 0 ∧ e.1 ≠ cidBroadcast
  free : ∀ e ∈ handedOut s.log, e.1 ∉ e.2

namespace HidLayer.Counted

variable {s s' : HidLayer}

theorem boot : HidLayer.boot.Counted where
  le := by simp [HidLayer.boot, handedOut]
  cids i e h := by simp [HidLayer.boot, handedOut] at h
  next := rfl
  valid e h := by simp [HidLayer.boot, handedOut] at h
  free e h := by simp [HidLayer.boot, handedOut] at h

theorem uniqueCids (h : s.Counted) : UniqueCids s.log where
  valid := h.valid
  free := h.free
  distinct i j a b hij hperiod ha hb heq := by
    have hi : i < (handedOut s.log).length := (List.getElem?_eq_some_iff.mp ha).1
    have hj : j < (handedOut s.log).length := (List.getElem?_eq_some_iff.mp hb).1
    have hnth := h.cids i a ha
    rw [heq, h.cids j b hb, nthCid, nthCid] at hnth
    have hle := h.le
    split at hnth <;> split at hnth <;> omega

theorem nextCid_ne_zero (h : s.Counted) : s.hid.nextCid ≠ 0 := by
  intro hz
  have hnext := h.next
  rw [hz] at hnext
  split at hnext <;> simp at hnext

/-- What is not an INIT changes neither the counter nor the ids. -/
theorem of_same (h : s.Counted) (hlog : handedOut s'.log = handedOut s.log) (hnext : s'.hid.nextCid = s.hid.nextCid) :
    s'.Counted where
  le := by rw [hlog]; exact h.le
  cids := by rw [hlog]; exact h.cids
  next := by rw [hlog, hnext]; exact h.next
  valid := by rw [hlog]; exact h.valid
  free := by rw [hlog]; exact h.free

theorem alloc_nextCid (cid : UInt32) (h : Hid) : (h.allocChannelLocked cid).2.nextCid = h.nextCid := by
  unfold Hid.allocChannelLocked
  split <;> rfl

/-- The counter after an INIT. -/
theorem nextCid_after (h : s.Counted) (hlt : (handedOut s.log).length < 2 ^ 32 - 1) :
    s.hid.nextCidLocked.1.toNat = nthCid ((handedOut s.log).length + 1) ∧
      s.hid.nextCidLocked.2.nextCid.toNat =
        if (handedOut s.log).length + 1 = 2 ^ 32 - 1 then 1 else (handedOut s.log).length + 1 + 1 := by
  have hnext := h.next
  rw [if_neg (by omega)] at hnext
  have hz := h.nextCid_ne_zero
  unfold Hid.nextCidLocked nthCid
  dsimp only
  by_cases hb : s.hid.nextCid = cidBroadcast
  · rw [hb] at hnext
    have hn : (handedOut s.log).length + 1 = 2 ^ 32 - 1 := by
      simp [cidBroadcast] at hnext
      omega
    rw [if_pos (.inr hb), hn, hb]
    exact ⟨rfl, rfl⟩
  · have hn : (handedOut s.log).length + 1 ≠ 2 ^ 32 - 1 := by
      intro heq
      refine hb (UInt32.toNat_inj.mp ?_)
      rw [hnext, heq]
      rfl
    rw [if_neg (by simp [hz, hb]), if_neg hn, if_neg hn]
    refine ⟨hnext, ?_⟩
    rw [UInt32.toNat_add, hnext]
    exact Nat.mod_eq_of_lt (show (handedOut s.log).length + 1 + 1 < 2 ^ 32 by omega)

theorem init (h : s.Counted) (hlt : (handedOut s.log).length < 2 ^ 32 - 1) (hfresh : s.hid.counter ∉ s.hid.cidsInUse)
    (hlog : s'.log = .handed s.hid.nextCidLocked.1 s.hid.cidsInUse :: s.log)
    (hnext : s'.hid.nextCid = s.hid.nextCidLocked.2.nextCid) : s'.Counted := by
  have hlog' : handedOut s'.log = (s.hid.nextCidLocked.1, s.hid.cidsInUse) :: handedOut s.log := by rw [hlog]; rfl
  obtain ⟨hcid, hcounter⟩ := h.nextCid_after hlt
  refine ⟨?_, fun i e he => ?_, ?_, ?_, ?_⟩
  · rw [hlog', List.length_cons]
    omega
  · rw [hlog'] at he ⊢
    cases i with
    | zero =>
      cases he
      exact hcid
    | succ i =>
      rw [List.getElem?_cons_succ] at he
      rw [h.cids i e he, List.length_cons, Nat.add_sub_add_right]
  · rw [hnext, hlog', List.length_cons, hcounter]
  · rw [hlog']
    exact List.forall_mem_cons.mpr ⟨s.hid.nextCid_valid, h.valid⟩
  · rw [hlog']
    refine List.forall_mem_cons.mpr ⟨?_, h.free⟩
    rw [Hid.nextCid_eq_counter h.nextCid_ne_zero]
    exact hfresh

theorem step (h : s.Counted) {a : HidAction} (hok : s.FreshInit a) (hstep : s.step a = some s') : s'.Counted := by
  cases a with
  | packet t p allocOk =>
    obtain ⟨_, hhid, hcases⟩ := packet_step hstep
    have hnext : s'.hid.nextCid = s.hid.nextCid := by rw [hhid, Hid.process_nextCid]
    rcases hcases with ⟨cmd, data, _, _, hlog⟩ | ⟨_, _, hlog⟩
    · exact h.of_same (by rw [hlog]; rfl) hnext
    · exact h.of_same (by rw [hlog]; rfl) hnext
  | serve t =>
    obtain ⟨m, hm, hhid, _, ⟨hi, hlog⟩ | ⟨hi, hlog⟩⟩ := serve_step hstep
    · obtain ⟨hlt, hfresh⟩ := hok m hm hi
      refine h.init hlt hfresh hlog ?_
      rcases s.hid.dispatch_cases m with ⟨_, heq⟩ | ⟨hi', _⟩
      · rw [hhid, heq]
        exact alloc_nextCid ..
      · exact absurd hi hi'
    · refine h.of_same (by rw [hlog]) ?_
      rcases s.hid.dispatch_cases m with ⟨hi', _⟩ | ⟨_, heq | ⟨i, heq⟩⟩
      · exact absurd hi' hi
      · rw [hhid, heq]
      · rw [hhid, heq]
        rfl

end HidLayer.Counted

/-! ## Runs -/

theorem handedOut_append (newer older : List HidEvent) : handedOut (newer ++ older) = handedOut newer ++ handedOut older :=
  List.filterMap_append ..

/-- What holds of a log held before. -/
theorem UniqueCids.of_append {newer older : List HidEvent} (h : UniqueCids (newer ++ older)) : UniqueCids older where
  valid e he := h.valid e (by rw [handedOut_append]; exact List.mem_append_right _ he)
  free e he := h.free e (by rw [handedOut_append]; exact List.mem_append_right _ he)
  distinct i j a b hij hperiod ha hb := by
    have hget : ∀ k, (handedOut (newer ++ older))[(handedOut newer).length + k]? = (handedOut older)[k]? := by
      intro k
      rw [handedOut_append, List.getElem?_append_right (Nat.le_add_right _ _), Nat.add_sub_cancel_left]
    exact h.distinct _ _ a b (Nat.add_lt_add_left hij _) (by omega) ((hget i).trans ha) ((hget j).trans hb)

namespace HidLayer

/-- An INIT whose id leaves the ids of the run unique was a fresh one. -/
theorem Counted.freshInit {s s' : HidLayer} (h : s.Counted) {a : HidAction} (hstep : s.step a = some s')
    (hu : UniqueCids s'.log) : s.FreshInit a := by
  cases a with
  | packet t p allocOk => trivial
  | serve t =>
    intro m hm hi
    obtain ⟨m', hm', _, _, ⟨_, hlog⟩ | ⟨hi', _⟩⟩ := serve_step hstep
    · have hlog' : handedOut s'.log = (s.hid.nextCidLocked.1, s.hid.cidsInUse) :: handedOut s.log := by rw [hlog]; rfl
      have hcid := Hid.nextCid_eq_counter h.nextCid_ne_zero
      refine ⟨?_, ?_⟩
      · -- At its end the counter stands at the id it has just handed out.
        by_contra hlt
        have hn : (handedOut s.log).length = 2 ^ 32 - 1 := by
          have hle := h.le
          omega
        obtain ⟨e, he⟩ : ∃ e, (handedOut s.log)[0]? = some e :=
          ⟨_, List.getElem?_eq_getElem (by omega)⟩
        have hlast := h.cids 0 e he
        have hnext := h.next
        rw [if_pos hn] at hnext
        rw [hn] at hlast
        have hcounter : s.hid.counter = s.hid.nextCid := by
          rw [Hid.counter, if_neg]
          intro hb
          rw [hb] at hnext
          cases hnext
        refine hu.distinct 0 1 (s.hid.nextCidLocked.1, s.hid.cidsInUse) e Nat.zero_lt_one (by decide) (by rw [hlog']; rfl)
          (by rw [hlog']; exact he) (UInt32.toNat_inj.mp ?_)
        rw [hcid, hcounter, hnext, hlast]
        rfl
      · have hfree := hu.free (s.hid.nextCidLocked.1, s.hid.cidsInUse) (by rw [hlog']; exact List.mem_cons_self)
        rwa [hcid] at hfree
    · rw [hm] at hm'
      cases hm'
      exact absurd hi hi'

theorem Counted.runs_freshInit {s s' : HidLayer} {as : List HidAction}
    (h : Runs HidLayer.step (fun _ _ => True) s as s') (hI : s.Counted) (hu : UniqueCids s'.log) :
    Runs HidLayer.step FreshInit s as s' := by
  induction h with
  | nil s => exact .nil s
  | cons _ hstep hrest ih =>
    obtain ⟨newer, hlog⟩ := log_of_runs hrest
    have hfresh := hI.freshInit hstep (UniqueCids.of_append (hlog ▸ hu))
    exact .cons hfresh hstep (ih (hI.step hfresh hstep) hu)

/-- **The ids of a run are unique exactly if each of its INITs was fresh.** -/
theorem uniqueCids_iff (as : List HidAction) (s : HidLayer) (h : Runs step (fun _ _ => True) boot as s) :
    UniqueCids s.log ↔ Runs step FreshInit boot as s := by
  constructor
  · exact Counted.boot.runs_freshInit h
  · intro h
    exact (h.invariant (I := Counted) (fun _ _ _ hI hok hstep => hI.step hok hstep) .boot).uniqueCids

/-- An INIT on the broadcast channel of each transport, both taken before
either is served. -/
def initRun : List HidAction :=
  [.packet .usb (initPacket cidBroadcast hidInit 8 (List.replicate 8 0)) true,
    .packet .ctap (initPacket cidBroadcast hidInit 8 (List.replicate 8 0)) true, .serve .ctap, .serve .usb]

instance (s : HidLayer) : ∀ a, Decidable (s.FreshInit a)
  | .packet .. => inferInstanceAs (Decidable True)
  | .serve t => inferInstanceAs (Decidable (∀ m ∈ s.serving t, m.IsInit →
      (handedOut s.log).length < 2 ^ 32 - 1 ∧ s.hid.counter ∉ s.hid.cidsInUse))

theorem uniqueCids_initRun : ∃ s, Runs step (fun _ _ => True) boot initRun s ∧ handedOut s.log = [(2, [1]), (1, [])] ∧
    UniqueCids s.log := by
  have hexec : (Runs.exec step (fun s a => decide (s.FreshInit a)) boot initRun).map (fun s => handedOut s.log) =
      some [(2, [1]), (1, [])] := by decide +kernel
  obtain ⟨s, hs, hlog⟩ := Option.map_eq_some_iff.mp hexec
  have hrun : Runs step FreshInit boot initRun s := Runs.of_exec (fun _ _ => of_decide_eq_true) hs
  have hany : Runs step (fun _ _ => True) boot initRun s := hrun.mono fun _ _ _ => trivial
  exact ⟨s, hany, hlog, (uniqueCids_iff initRun s hany).mpr hrun⟩

/-- A message that is begun on channel 1, before any INIT, keeps that channel
in use; the first INIT hands it out. -/
def collidingRun : List HidAction :=
  .packet .usb (initPacket 1 hidPing 100 []) true :: initRun

theorem exists_not_uniqueCids : ∃ s, Runs step (fun _ _ => True) boot collidingRun s ∧ ¬ UniqueCids s.log := by
  have hexec : (Runs.exec step (fun _ _ => true) boot collidingRun).map (fun s => handedOut s.log) =
      some [(2, [1, 1]), (1, [1])] := by decide +kernel
  obtain ⟨s, hs, hlog⟩ := Option.map_eq_some_iff.mp hexec
  refine ⟨s, Runs.of_exec (fun _ _ _ => trivial) hs, fun h => ?_⟩
  have hfree := h.free (1, [1]) (by rw [hlog]; simp)
  exact hfree (by simp)

end HidLayer

end AbkFido
