/-
No request is freed or queued while the endpoint holds it or after it is
gone, as long as connections begin and end in a quiet moment; what is
allocated is what the function points to, and all of it is given back with
the connection (`accounted_of_runs`). A report that was pushed before a
disconnect is never sent after it (`session_of_runs`).

A disconnect in the middle of a kick frees the request under it
(`exists_fault`).
-/
import AbkFido.Gadget

namespace AbkFido.Gadget

variable {s s' : Gadget}

/-! ## The ledger -/

/-- The function points to the request. -/
def Points (s : Gadget) (r : Nat) : Prop := s.inReq = some r ∨ ∃ i, s.outReq i = some r

/-- Every request is pointed to once, and an endpoint holds only requests of its own. -/
structure Owned (s : Gadget) : Prop where
  safe : s.faulted = false
  live : ∀ r, r ∈ s.live ↔ s.Points r
  fresh : ∀ r ∈ s.live, r < s.fresh
  in_ne_out : ∀ i r, s.inReq = some r → s.outReq i ≠ some r
  out_inj : ∀ i j r, s.outReq i = some r → s.outReq j = some r → i = j
  inHeld : ∀ r ∈ s.inEp.queued, s.inReq = some r
  outHeld : ∀ r ∈ s.outEp.queued, ∃ i, s.outReq i = some r
  inNodup : s.inEp.queued.Nodup
  outNodup : s.outEp.queued.Nodup

/-- The endpoints hold nothing and take nothing. -/
def Off (s : Gadget) : Prop := s.inEp = ⟨false, []⟩ ∧ s.outEp = ⟨false, []⟩

theorem Off.not_lent (h : s.Off) (r : Nat) : ¬ s.lent r := by
  rintro (hr | hr)
  · rw [h.1] at hr
    cases hr
  · rw [h.2] at hr
    cases hr

/-- The IN request, where the endpoint does not have it. -/
theorem Owned.in_ready (h : s.Owned) {r : Nat} (hr : s.inReq = some r) (hin : s.inEp.queued = []) : r ∈ s.live ∧ ¬ s.lent r := by
  refine ⟨(h.live r).mpr (.inl hr), ?_⟩
  rintro (hlent | hlent)
  · rw [hin] at hlent
    cases hlent
  · obtain ⟨i, hi⟩ := h.outHeld r hlent
    exact h.in_ne_out i r hr hi

theorem queueIn_eq {r : Nat} (hlive : r ∈ s.live) (hlent : ¬ s.lent r) (taken : Bool) : s.queueIn r taken =
    if taken && s.inEp.enabled then (true, { s with inEp := { s.inEp with queued := s.inEp.queued ++ [r] } }) else (false, s) := by
  rw [queueIn, if_neg (by simp [hlive, hlent])]

theorem queueOut_eq {r : Nat} (hlive : r ∈ s.live) (hlent : ¬ s.lent r) (taken : Bool) : s.queueOut r taken =
    if taken && s.outEp.enabled then (true, { s with outEp := { s.outEp with queued := s.outEp.queued ++ [r] } })
    else (false, { s with refused := insert r s.refused }) := by
  rw [queueOut, if_neg (by simp [hlive, hlent])]

/-- The request is handed over, or `tx_pending` is cleared again. -/
theorem hand_eq {r : Nat} (hr : s.inReq = some r) (hlive : r ∈ s.live) (hlent : ¬ s.lent r) (report : Report) (taken : Bool) :
    s.hand report taken = if taken && s.inEp.enabled then
      { s with inEp := { s.inEp with queued := s.inEp.queued ++ [r] }, session := s.session ++ [report] }
    else { s with pending := false } := by
  have hqueue := queueIn_eq hlive hlent taken
  rw [hand]
  split
  · next hnone => rw [hr] at hnone; cases hnone
  next r' hr' =>
  obtain rfl : r = r' := Option.some.inj (hr.symm.trans hr')
  by_cases htaken : (taken && s.inEp.enabled) = true
  · rw [if_pos htaken] at hqueue ⊢
    rw [hqueue]
  · rw [if_neg htaken] at hqueue ⊢
    rw [hqueue]

/-! ### Giving back -/

/-- A kick on an endpoint that takes nothing loses the report it took out. -/
theorem Owned.txKick_disabled (h : s.Owned) (hin : s.inEp = ⟨false, []⟩) (hpending : s.pending = false) :
    ∃ q, s.txKick = { s with txPackets := q } := by
  rw [txKick]
  split
  · exact ⟨s.txPackets, rfl⟩
  next hreq =>
  split
  · exact ⟨s.txPackets, rfl⟩
  next r q _ =>
  obtain ⟨req, hreq⟩ : ∃ req, s.inReq = some req := by
    cases hreq' : s.inReq with
    | none => simp [hreq'] at hreq
    | some req => exact ⟨req, rfl⟩
  obtain ⟨hlive, hlent⟩ := h.in_ready hreq (by rw [hin])
  refine ⟨q, ?_⟩
  simp only [hpending, Bool.false_eq_true, if_false]
  rw [hand_eq (s := { s with txPackets := q, pending := true }) hreq hlive hlent, if_neg (by simp [hin]), ← hpending]

/-- What the ledger is about stays. -/
theorem Owned.congr (h : s.Owned) {t : Gadget} (hfault : t.faulted = s.faulted) (hlive : t.live = s.live) (hfresh : t.fresh = s.fresh)
    (hinReq : t.inReq = s.inReq) (houtReq : t.outReq = s.outReq) (hin : t.inEp.queued = s.inEp.queued)
    (hout : t.outEp.queued = s.outEp.queued) : t.Owned := by
  constructor
  · rw [hfault]; exact h.safe
  · intro r; rw [hlive, Points, hinReq, houtReq]; exact h.live r
  · rw [hlive, hfresh]; exact h.fresh
  · rw [hinReq, houtReq]; exact h.in_ne_out
  · rw [houtReq]; exact h.out_inj
  · rw [hin, hinReq]; exact h.inHeld
  · rw [hout, houtReq]; exact h.outHeld
  · rw [hin]; exact h.inNodup
  · rw [hout]; exact h.outNodup

/-- The IN endpoint gives its request back. -/
theorem Owned.giveBackIn (h : s.Owned) {queued : List Nat} (hqueued : queued.Sublist s.inEp.queued) (enabled : Bool) :
    Owned { s with inEp := ⟨enabled, queued⟩ } :=
  { h with
    inHeld := fun r hr => h.inHeld r (hqueued.subset hr)
    inNodup := h.inNodup.sublist hqueued }

theorem Owned.giveBackOut (h : s.Owned) {queued : List Nat} (hqueued : queued.Sublist s.outEp.queued) (enabled : Bool) :
    Owned { s with outEp := ⟨enabled, queued⟩ } :=
  { h with
    outHeld := fun r hr => h.outHeld r (hqueued.subset hr)
    outNodup := h.outNodup.sublist hqueued }

/-- The IN endpoint is disabled: the kicks of the completions lose reports. -/
theorem Owned.disableIn_eq (h : s.Owned) : ∃ q pending, s.disableIn = { s with inEp := ⟨false, []⟩, pending := pending, txPackets := q } := by
  have key : ∀ (rs : List Nat) (t : Gadget), t.Owned → t.inEp = ⟨false, []⟩ → ∃ q pending,
      rs.foldl (fun s _ => { s with pending := false }.txKick) t = { t with pending := pending, txPackets := q } := by
    intro rs
    induction rs with
    | nil => exact fun t _ _ => ⟨t.txPackets, t.pending, rfl⟩
    | cons r rs ih =>
      intro t ht hin
      obtain ⟨q, hq⟩ := Owned.txKick_disabled (s := { t with pending := false }) (ht.congr rfl rfl rfl rfl rfl rfl rfl) hin rfl
      rw [List.foldl_cons, hq]
      exact ih _ (ht.congr rfl rfl rfl rfl rfl rfl rfl) hin
  exact key s.inEp.queued _ (h.giveBackIn (List.nil_sublist _) false) rfl

/-- The OUT endpoint is disabled: it takes none of its requests again. -/
theorem Owned.disableOut_eq (h : s.Owned) (hin : s.inEp.queued = []) :
    ∃ refused, s.disableOut = { s with outEp := ⟨false, []⟩, refused := refused } := by
  have key : ∀ (rs : List Nat) (t : Gadget), (∀ r ∈ rs, r ∈ t.live) → t.inEp.queued = [] → t.outEp = ⟨false, []⟩ →
      ∃ refused, rs.foldl (fun s r => s.outComplete r none true) t = { t with refused := refused } := by
    intro rs
    induction rs with
    | nil => exact fun t _ _ _ => ⟨t.refused, rfl⟩
    | cons r rs ih =>
      intro t hrs hin hout
      have hlent : ¬ t.lent r := by simp [lent, hin, hout]
      have hstep : t.outComplete r none true = { t with refused := insert r t.refused } := by
        simp only [outComplete, queueOut_eq (hrs r (.head _)) hlent, hout, Bool.and_false, Bool.false_eq_true, if_false]
      rw [List.foldl_cons, hstep]
      exact ih { t with refused := insert r t.refused } (fun r' hr' => hrs r' (.tail _ hr')) hin hout
  refine key s.outEp.queued { s with outEp := ⟨false, []⟩ } (fun r hr => ?_) hin rfl
  obtain ⟨i, hi⟩ := h.outHeld r hr
  exact (h.live r).mpr (.inr ⟨i, hi⟩)

theorem free_eq {r : Nat} (hlive : r ∈ s.live) (hlent : ¬ s.lent r) : s.free r = { s with live := s.live.erase r } := by
  rw [free, if_pos ⟨hlive, hlent⟩]

theorem Owned.freeIn (h : s.Owned) (hoff : s.Off) : s.freeIn.Owned ∧ ∃ live, s.freeIn = { s with inReq := none, live := live } := by
  unfold Gadget.freeIn
  split
  · next r hr =>
    have hlive : r ∈ s.live := (h.live r).mpr (.inl hr)
    rw [free_eq hlive (hoff.not_lent r)]
    refine ⟨?_, _, rfl⟩
    refine { h with
      live := fun r' => ?_
      fresh := fun r' hr' => h.fresh r' (Finset.mem_of_mem_erase hr')
      in_ne_out := fun i r' hr' => nomatch hr'
      inHeld := ?_ }
    · show r' ∈ s.live.erase r ↔ none = some r' ∨ ∃ i, s.outReq i = some r'
      rw [Finset.mem_erase, h.live r', Points, hr]
      constructor
      · rintro ⟨hne, heq | hout⟩
        · exact absurd (Option.some.inj heq).symm hne
        · exact .inr hout
      · rintro (heq | ⟨i, hi⟩)
        · cases heq
        · exact ⟨fun heq => h.in_ne_out i r hr (heq ▸ hi), .inr ⟨i, hi⟩⟩
    · show ∀ r' ∈ s.inEp.queued, none = some r'
      rw [hoff.1]
      nofun
  · next hnone =>
    exact ⟨h, s.live, by rw [← hnone]⟩

theorem Owned.freeOut (h : s.Owned) (hoff : s.Off) (i : Fin outRequests) : (s.freeOut i).Owned ∧
    ∃ live, s.freeOut i = { s with outReq := Function.update s.outReq i none, live := live } := by
  unfold Gadget.freeOut
  split
  · next r hr =>
    have hlive : r ∈ s.live := (h.live r).mpr (.inr ⟨i, hr⟩)
    rw [free_eq hlive (hoff.not_lent r)]
    refine ⟨?_, _, rfl⟩
    have hupdate : ∀ {j r'}, Function.update s.outReq i none j = some r' → j ≠ i ∧ s.outReq j = some r' := by
      intro j r' hj
      by_cases hji : j = i
      · rw [hji, Function.update_self] at hj
        cases hj
      · rw [Function.update_of_ne hji] at hj
        exact ⟨hji, hj⟩
    refine { h with
      live := fun r' => ?_
      fresh := fun r' hr' => h.fresh r' (Finset.mem_of_mem_erase hr')
      in_ne_out := fun j r' hr' hj => h.in_ne_out j r' hr' (hupdate hj).2
      out_inj := fun j k r' hj hk => h.out_inj j k r' (hupdate hj).2 (hupdate hk).2
      outHeld := ?_ }
    · show r' ∈ s.live.erase r ↔ s.inReq = some r' ∨ ∃ j, Function.update s.outReq i none j = some r'
      rw [Finset.mem_erase, h.live r', Points]
      constructor
      · rintro ⟨hne, hin | ⟨j, hj⟩⟩
        · exact .inl hin
        · refine .inr ⟨j, ?_⟩
          have hji : j ≠ i := fun heq => hne (Option.some.inj (hj.symm.trans (heq ▸ hr)))
          rw [Function.update_of_ne hji, hj]
      · rintro (hin | ⟨j, hj⟩)
        · exact ⟨fun heq => h.in_ne_out i r (heq ▸ hin) hr, .inl hin⟩
        · obtain ⟨hji, hj⟩ := hupdate hj
          exact ⟨fun heq => hji (h.out_inj j i r (heq ▸ hj) hr), .inr ⟨j, hj⟩⟩
    · show ∀ r' ∈ s.outEp.queued, _
      rw [hoff.2]
      nofun
  · next hnone =>
    refine ⟨h, s.live, ?_⟩
    rw [← hnone, Function.update_eq_self]

/-- Of all OUT requests. -/
theorem Owned.freeOuts (h : s.Owned) (hoff : s.Off) (is : List (Fin outRequests)) : (is.foldl Gadget.freeOut s).Owned ∧
    ∃ live outReq, is.foldl Gadget.freeOut s = { s with outReq := outReq, live := live } ∧ (∀ i ∈ is, outReq i = none) ∧
      ∀ i, s.outReq i = none → outReq i = none := by
  induction is generalizing s with
  | nil => exact ⟨h, s.live, s.outReq, rfl, by simp, fun _ hi => hi⟩
  | cons i is ih =>
    obtain ⟨hfreed, live, heq⟩ := h.freeOut hoff i
    rw [heq] at hfreed
    obtain ⟨howned, live', outReq, heq', hnone, hkept⟩ := ih hfreed hoff
    have hi : outReq i = none := hkept i (Function.update_self ..)
    rw [List.foldl_cons, heq]
    refine ⟨howned, live', outReq, heq', fun j hj => ?_, fun j hj => hkept j ?_⟩
    · rcases List.mem_cons.mp hj with rfl | hj
      · exact hi
      · exact hnone j hj
    · by_cases hji : j = i
      · rw [hji]
        exact Function.update_self ..
      · show Function.update s.outReq i none j = none
        rw [Function.update_of_ne hji, hj]

theorem toList_drain : ∀ (n : Nat) (q : RingBuffer Report queueDepth), q.toList.length ≤ n → (drain n q).toList = []
  | 0, q, h => List.length_eq_zero_iff.mp (Nat.le_zero.mp h)
  | n + 1, q, h => by
    rw [drain]
    split
    · next r q' hpop =>
      rw [RingBuffer.toList_pop hpop] at h
      exact toList_drain n q' (Nat.le_of_succ_le_succ h)
    · next hnone => exact RingBuffer.pop_eq_none.mp hnone

/-- Nothing is left of a connection. -/
structure Released (s : Gadget) : Prop where
  safe : s.faulted = false
  live : s.live = ∅
  inReq : s.inReq = none
  outReq : ∀ i, s.outReq i = none
  off : s.Off
  pending : s.pending = false
  offline : s.online = false
  unbound : s.bound = false
  noTx : s.txPackets.toList = []
  noSession : s.session = []
  since : s.since = s.pushed

/-- **A disconnect gives everything back**, whatever the endpoints held. -/
theorem Owned.disable (h : s.Owned) : s.disable.Released ∧ s.disable.thread = s.thread ∧ s.disable.pushed = s.pushed ∧
    s.disable.fresh = s.fresh := by
  obtain ⟨q, pending, hdisableIn⟩ := h.disableIn_eq
  have hin := (h.giveBackIn (List.nil_sublist _) false).congr
    (t := { s with inEp := ⟨false, []⟩, pending := pending, txPackets := q }) rfl rfl rfl rfl rfl rfl rfl
  obtain ⟨refused, hdisableOut⟩ := hin.disableOut_eq rfl
  have hout := (hin.giveBackOut (List.nil_sublist _) false).congr
    (t := { s with
      inEp := ⟨false, []⟩, outEp := ⟨false, []⟩, pending := false, online := false, refused := refused
      txPackets := drain queueDepth q }) rfl rfl rfl rfl rfl rfl rfl
  obtain ⟨hfreed, live, hfreeIn⟩ := hout.freeIn ⟨rfl, rfl⟩
  rw [hfreeIn] at hfreed
  obtain ⟨hfreed, live', outReq, hfreeOut, hnone, _⟩ := hfreed.freeOuts ⟨rfl, rfl⟩ (List.finRange outRequests)
  have hdisable : s.disable = { s with
      inEp := ⟨false, []⟩, outEp := ⟨false, []⟩, inReq := none, outReq := outReq, pending := false, online := false
      txPackets := drain queueDepth q, live := live', refused := refused, bound := false, since := s.pushed, session := [] } := by
    simp only [Gadget.disable, hdisableIn, hdisableOut, hfreeIn, hfreeOut]
  have houtReq : ∀ i, outReq i = none := fun i => hnone i (List.mem_finRange i)
  rw [hfreeOut] at hfreed
  refine ⟨?_, ?_, ?_, ?_⟩ <;> rw [hdisable]
  refine ⟨hfreed.safe, ?_, rfl, houtReq, ⟨rfl, rfl⟩, rfl, rfl, rfl, ?_, rfl, rfl⟩
  · refine Finset.eq_empty_of_forall_notMem fun r hr => ?_
    rcases (hfreed.live r).mp hr with hr | ⟨i, hr⟩
    · cases hr
    · cases (houtReq i).symm.trans hr
  · exact toList_drain queueDepth q (RingBuffer.length_toList_le q)

/-! ### Taking -/

/-- A request of a new address. -/
theorem Owned.alloc_not_points (h : s.Owned) : ¬ s.Points s.fresh :=
  fun hpoints => absurd (h.fresh _ ((h.live _).mpr hpoints)) (Nat.lt_irrefl _)

theorem Owned.allocIn (h : s.Owned) (hnone : s.inReq = none) : Owned { s.alloc.2 with inReq := some s.fresh } where
  safe := h.safe
  live r := by
    show r ∈ insert s.fresh s.live ↔ some s.fresh = some r ∨ ∃ i, s.outReq i = some r
    rw [Finset.mem_insert, h.live r, Points, hnone, Option.some.injEq]
    constructor
    · rintro (rfl | hnone | hout)
      · exact .inl rfl
      · cases hnone
      · exact .inr hout
    · rintro (rfl | hout)
      · exact .inl rfl
      · exact .inr (.inr hout)
  fresh r hr := by
    rcases Finset.mem_insert.mp hr with rfl | hr
    · exact Nat.lt_succ_self _
    · exact Nat.lt_succ_of_lt (h.fresh r hr)
  in_ne_out i r hr hi := by
    cases hr
    exact h.alloc_not_points (.inr ⟨i, hi⟩)
  out_inj := h.out_inj
  inHeld r hr := by cases hnone.symm.trans (h.inHeld r hr)
  outHeld := h.outHeld
  inNodup := h.inNodup
  outNodup := h.outNodup

theorem Owned.allocOut (h : s.Owned) {i : Fin outRequests} (hnone : s.outReq i = none) :
    Owned { s.alloc.2 with outReq := Function.update s.outReq i (some s.fresh) } := by
  have hupdate : ∀ {j r}, Function.update s.outReq i (some s.fresh) j = some r → (j = i ∧ r = s.fresh) ∨ s.outReq j = some r := by
    intro j r hj
    by_cases hji : j = i
    · rw [hji, Function.update_self, Option.some.injEq] at hj
      exact .inl ⟨hji, hj.symm⟩
    · rw [Function.update_of_ne hji] at hj
      exact .inr hj
  have hkept : ∀ {j r}, s.outReq j = some r → Function.update s.outReq i (some s.fresh) j = some r := by
    intro j r hj
    by_cases hji : j = i
    · rw [hji, hnone] at hj
      cases hj
    · rw [Function.update_of_ne hji, hj]
  refine { h with
    live := fun r => ?_
    fresh := fun r hr => ?_
    in_ne_out := fun j r hr hj => ?_
    out_inj := fun j k r hj hk => ?_
    outHeld := fun r hr => ?_ }
  · show r ∈ insert s.fresh s.live ↔ s.inReq = some r ∨ ∃ j, Function.update s.outReq i (some s.fresh) j = some r
    rw [Finset.mem_insert, h.live r, Points]
    constructor
    · rintro (rfl | hin | ⟨j, hj⟩)
      · exact .inr ⟨i, Function.update_self ..⟩
      · exact .inl hin
      · exact .inr ⟨j, hkept hj⟩
    · rintro (hin | ⟨j, hj⟩)
      · exact .inr (.inl hin)
      · rcases hupdate hj with ⟨_, rfl⟩ | hj
        · exact .inl rfl
        · exact .inr (.inr ⟨j, hj⟩)
  · rcases Finset.mem_insert.mp hr with rfl | hr
    · exact Nat.lt_succ_self _
    · exact Nat.lt_succ_of_lt (h.fresh r hr)
  · rcases hupdate hj with ⟨_, rfl⟩ | hj
    · exact h.alloc_not_points (.inl hr)
    · exact h.in_ne_out j r hr hj
  · rcases hupdate hj with ⟨rfl, rfl⟩ | hj' <;> rcases hupdate hk with ⟨rfl, hr⟩ | hk'
    · rfl
    · exact absurd (.inr ⟨k, hk'⟩) h.alloc_not_points
    · exact absurd (.inr ⟨j, hr ▸ hj'⟩) h.alloc_not_points
    · exact h.out_inj j k r hj' hk'
  · obtain ⟨j, hj⟩ := h.outHeld r hr
    exact ⟨j, hkept hj⟩

/-- The endpoint takes a request of its own that it does not have. -/
theorem Owned.queueOut (h : s.Owned) {i : Fin outRequests} {r : Nat} (hr : s.outReq i = some r) (hqueued : r ∉ s.outEp.queued)
    (taken : Bool) : (s.queueOut r taken).2.Owned := by
  have hlive : r ∈ s.live := (h.live r).mpr (.inr ⟨i, hr⟩)
  have hlent : ¬ s.lent r := by
    rintro (hin | hout)
    · exact h.in_ne_out i r (h.inHeld r hin) hr
    · exact hqueued hout
  rw [queueOut_eq hlive hlent]
  split
  · refine { h with
      outHeld := fun r' hr' => ?_
      outNodup := List.nodup_append.mpr ⟨h.outNodup, List.nodup_singleton r, ?_⟩ }
    · rcases List.mem_append.mp hr' with hr' | hr'
      · exact h.outHeld r' hr'
      · exact ⟨i, List.mem_singleton.mp hr' ▸ hr⟩
    · rintro a ha b hb rfl
      exact hqueued (List.mem_singleton.mp hb ▸ ha)
  · exact h.congr rfl rfl rfl rfl rfl rfl rfl

theorem Owned.queueIn (h : s.Owned) {r : Nat} (hr : s.inReq = some r) (hqueued : s.inEp.queued = []) :
    Owned { s with inEp := { s.inEp with queued := s.inEp.queued ++ [r] } } :=
  { h with
    inHeld := fun r' hr' => by
      rw [hqueued, List.nil_append, List.mem_singleton] at hr'
      rw [hr', ← hr]
    inNodup := by rw [hqueued]; exact List.nodup_singleton r }

/-- The loop over the OUT requests, as far as it gets. -/
theorem Owned.fillOut (h : s.Owned) (io : SetAltIo) {is : List (Fin outRequests)} (hnodup : is.Nodup)
    (hnone : ∀ i ∈ is, s.outReq i = none) : (s.fillOut io is).2.Owned ∧ ∃ outReq queued live fresh refused,
      (s.fillOut io is).2 = { s with
        outReq := outReq, outEp := ⟨s.outEp.enabled, queued⟩, live := live, fresh := fresh, refused := refused } ∧
      s.outEp.queued ⊆ queued ∧ (∀ i ∉ is, outReq i = s.outReq i) ∧
        ((s.fillOut io is).1 = true → ∀ i ∈ is, ∃ r ∈ queued, outReq i = some r) := by
  induction is generalizing s with
  | nil => exact ⟨h, s.outReq, s.outEp.queued, s.live, s.fresh, s.refused, rfl, List.Subset.refl _, fun _ _ => rfl, by simp⟩
  | cons i is ih =>
    obtain ⟨hi, hnodup⟩ := List.nodup_cons.mp hnodup
    simp only [Gadget.fillOut]
    split
    · exact ⟨h, s.outReq, s.outEp.queued, s.live, s.fresh, s.refused, rfl, List.Subset.refl _, fun _ _ => rfl, by simp⟩
    have halloc := h.allocOut (hnone i (.head _))
    have hpoint : Function.update s.outReq i (some s.fresh) i = some s.fresh := Function.update_self ..
    have hnew : s.fresh ∉ s.outEp.queued := fun hmem => h.alloc_not_points (.inr (h.outHeld _ hmem))
    have hqueued := halloc.queueOut hpoint hnew (io.queueOut i)
    have hrest : ∀ j ∈ is, Function.update s.outReq i (some s.fresh) j = none := by
      intro j hj
      have hji : j ≠ i := fun heq => hi (heq ▸ hj)
      rw [Function.update_of_ne hji]
      exact hnone j (.tail _ hj)
    have hlive : s.fresh ∈ insert s.fresh s.live := Finset.mem_insert_self ..
    have hlent : ¬ s.lent s.fresh := by
      rintro (hin | hout)
      · exact h.alloc_not_points (.inl (h.inHeld _ hin))
      · exact hnew hout
    have hother : ∀ j, j ∉ i :: is → Function.update s.outReq i (some s.fresh) j = s.outReq j := by
      intro j hj
      have hji : j ≠ i := fun heq => hj (heq ▸ .head _)
      rw [Function.update_of_ne hji]
    have heq := queueOut_eq (s := { s.alloc.2 with outReq := Function.update s.outReq i (some s.fresh) }) hlive hlent (io.queueOut i)
    split
    · next t ht =>
      have howned : t.Owned := by
        rw [show t = _ from (congrArg Prod.snd ht).symm]
        exact hqueued
      replace heq := ht.symm.trans heq
      split at heq
      · cases heq
        obtain ⟨howned, outReq, queued, live, fresh, refused, hfill, hsub, hsame, hall⟩ := ih howned hnodup hrest
        refine ⟨howned, outReq, queued, live, fresh, refused, hfill, fun r hr => hsub (List.mem_append_left _ hr),
          fun j hj => (hsame j fun hmem => hj (.tail _ hmem)).trans (hother j hj), fun hok j hj => ?_⟩
        rcases List.mem_cons.mp hj with rfl | hj
        · exact ⟨s.fresh, hsub (List.mem_append_right _ (.head _)), (hsame j hi).trans hpoint⟩
        · exact hall hok j hj
      · cases heq
    · next t ht =>
      have howned : t.Owned := by
        rw [show t = _ from (congrArg Prod.snd ht).symm]
        exact hqueued
      replace heq := ht.symm.trans heq
      split at heq
      · cases heq
      · cases heq
        exact ⟨howned, _, s.outEp.queued, _, _, _, rfl, List.Subset.refl _, hother, nofun⟩

/-! ## Runs -/

/-- Every OUT request is with the endpoint, or was refused when it was to go back there. -/
def Listening (s : Gadget) : Prop := ∀ i, ∃ r, s.outReq i = some r ∧ (r ∈ s.outEp.queued ∨ r ∈ s.refused)

/-- The IN endpoint has the request. -/
def inFlight (s : Gadget) : Bool := !s.inEp.queued.isEmpty

structure Sound (s : Gadget) : Prop where
  owned : s.Owned
  flow : Flow s.pending s.inFlight s.thread
  on : s.online = true → s.inReq.isSome = true ∧ s.inEp.enabled = true ∧ s.outEp.enabled = true ∧ s.Listening
  off : s.online = false → s.inReq = none ∧ (∀ i, s.outReq i = none) ∧ s.Off
  bound : s.bound = s.online
  busy : ∀ k, (s.thread k).held.isSome = true ∨ (s.thread k).owns = true → s.online = true
  queued : ∀ r ∈ s.txPackets.toList, s.since ≤ r.num
  held : ∀ k r, (s.thread k).held = some r → s.since ≤ r.num
  session : ∀ r ∈ s.session, s.since ≤ r.num
  since_le : s.since ≤ s.pushed

/-- A moment without a connection. -/
theorem Released.sound (h : s.Released) (hquiet : s.Quiet) : s.Sound where
  owned :=
    { safe := h.safe
      live := fun r => by
        rw [h.live, Points, h.inReq]
        simp [h.outReq]
      fresh := fun r hr => by
        rw [h.live] at hr
        cases hr
      in_ne_out := fun i r hr => by cases h.inReq.symm.trans hr
      out_inj := fun i j r hi => by cases (h.outReq i).symm.trans hi
      inHeld := by rw [h.off.1]; nofun
      outHeld := by rw [h.off.2]; nofun
      inNodup := by rw [h.off.1]; exact List.nodup_nil
      outNodup := by rw [h.off.2]; exact List.nodup_nil }
  flow := by
    rw [h.pending, inFlight, h.off.1]
    exact ⟨fun k hk => (by cases (hquiet k).2.symm.trans hk), nofun, nofun⟩
  on hon := by cases h.offline.symm.trans hon
  off _ := ⟨h.inReq, h.outReq, h.off⟩
  bound := by rw [h.unbound, h.offline]
  busy k hk := by
    rcases hk with hk | hk
    · rw [(hquiet k).1] at hk
      cases hk
    · cases (hquiet k).2.symm.trans hk
  queued := by rw [h.noTx]; nofun
  held k r hr := by cases (hquiet k).1.symm.trans hr
  session := by rw [h.noSession]; nofun
  since_le := h.since.le

theorem Quiet.congr (h : s.Quiet) (ht : s'.thread = s.thread) : s'.Quiet := by
  intro k
  rw [ht]
  exact h k

theorem Owned.sound_disable (h : s.Owned) (hquiet : s.Quiet) : s.disable.Sound :=
  h.disable.1.sound (hquiet.congr h.disable.2.1)

/-- What a thread does that takes no report and not the transfer. -/
theorem Sound.setThread (h : s.Sound) {k : Nat} {g : TxStage} (hheld : ∀ r, g.held = some r → s.since ≤ r.num)
    (howns : g.owns = (s.thread k).owns) (hbusy : g.held.isSome = true ∨ g.owns = true → s.online = true) :
    (s.setThread k g).Sound :=
  { h with
    owned := h.owned.congr rfl rfl rfl rfl rfl rfl rfl
    flow := h.flow.setThread howns
    busy := fun j hj => by
      by_cases hjk : j = k
      · subst hjk
        refine hbusy ?_
        simpa only [Gadget.setThread, Function.update_self] using hj
      · refine h.busy j ?_
        simpa only [Gadget.setThread, Function.update_of_ne hjk] using hj
    held := fun j r hj => by
      by_cases hjk : j = k
      · subst hjk
        refine hheld r ?_
        simpa only [Gadget.setThread, Function.update_self] using hj
      · refine h.held j r ?_
        simpa only [Gadget.setThread, Function.update_of_ne hjk] using hj }

theorem Sound.calm (h : s.Sound) {k : Nat} {g : TxStage} (hheld : g.held = none) (howns : g.owns = false)
    (hk : (s.thread k).owns = false) : (s.setThread k g).Sound :=
  h.setThread (fun r hr => by cases hheld.symm.trans hr) (howns.trans hk.symm) (by simp [hheld, howns])

theorem sound_init : init.Sound :=
  Released.sound ⟨rfl, rfl, rfl, fun _ => rfl, ⟨rfl, rfl⟩, rfl, rfl, rfl, rfl, rfl, rfl⟩ fun _ => ⟨rfl, rfl⟩

/-- **A connection is made whole, or not at all.** -/
theorem Sound.setAlt (h : s.Sound) (hquiet : s.Quiet) {k : Nat} (hk : s.thread k = .idle) (io : SetAltIo) : (s.setAlt k io).Sound := by
  -- A new choice of the interface ends the connection before it.
  obtain ⟨t, ht, hsound, hoff, hthread⟩ : ∃ t : Gadget, (if s.inReq.isSome then s.disable else s) = t ∧ t.Sound ∧ t.online = false ∧
      t.thread = s.thread := by
    split
    · exact ⟨s.disable, rfl, h.owned.sound_disable hquiet, h.owned.disable.1.offline, h.owned.disable.2.1⟩
    · next hnone =>
      refine ⟨s, rfl, h, ?_, rfl⟩
      by_contra hon
      exact hnone (h.on (by simpa using hon)).1
  have hquiet : t.Quiet := hquiet.congr hthread
  obtain ⟨hin, hout, hinEp, houtEp⟩ := hsound.off hoff
  rw [Gadget.setAlt, ht]
  dsimp only
  split
  · exact hsound
  split
  · have hback : ({ t with inEp := { t.inEp with enabled := true } } : Gadget).disableIn = t := by
      simp only [disableIn, hinEp, List.foldl_nil]
      rw [← hinEp]
    rw [hback]
    exact hsound
  split
  · refine Owned.sound_disable ?_ hquiet
    exact hsound.owned.congr rfl rfl rfl rfl rfl rfl rfl
  have howned : Owned { t with inEp := { t.inEp with enabled := true }, outEp := { t.outEp with enabled := true } } :=
    hsound.owned.congr rfl rfl rfl rfl rfl rfl rfl
  obtain ⟨hfilled, outReq, queued, live, fresh, refused, hfill, _, _, hall⟩ := (howned.allocIn hin).fillOut io
    (List.nodup_finRange outRequests) fun i _ => hout i
  split
  · next u hu =>
    have hu : u = _ := (congrArg Prod.snd hu).symm.trans hfill
    have huOwned : u.Owned := by
      rw [hu, ← hfill]
      exact hfilled
    refine huOwned.sound_disable (hquiet.congr ?_)
    rw [hu]
    rfl
  · next u hu =>
    have hall := hall (congrArg Prod.fst hu)
    have hu : u = _ := (congrArg Prod.snd hu).symm.trans hfill
    have huOwned : u.Owned := by
      rw [hu, ← hfill]
      exact hfilled
    subst hu
    refine Sound.calm ?_ rfl rfl (by rw [← hthread] at hk; exact congrArg TxStage.owns hk)
    refine
      { owned := huOwned.congr rfl rfl rfl rfl rfl rfl rfl
        flow := hsound.flow
        on := fun _ => ⟨rfl, rfl, rfl, fun i => ?_⟩
        off := nofun
        bound := rfl
        busy := fun _ _ => rfl
        queued := hsound.queued
        held := hsound.held
        session := hsound.session
        since_le := hsound.since_le }
    obtain ⟨r, hr, hi⟩ := hall i (List.mem_finRange i)
    exact ⟨r, hi, .inl hr⟩

/-- A report is pushed, if there is room. -/
theorem Sound.pushNew (h : s.Sound) {p : Packet} (hs : s.pushNew p = some s') : s'.Sound ∧ s'.thread = s.thread := by
  rw [Gadget.pushNew, Option.map_eq_some_iff] at hs
  obtain ⟨q, hpush, rfl⟩ := hs
  refine ⟨{ h with
    owned := h.owned.congr rfl rfl rfl rfl rfl rfl rfl
    queued := fun r hr => ?_
    since_le := Nat.le_succ_of_le h.since_le }, rfl⟩
  rw [RingBuffer.toList_push hpush, List.mem_append, List.mem_singleton] at hr
  rcases hr with hr | rfl
  · exact h.queued r hr
  · exact h.since_le

theorem Sound.putBack (h : s.Sound) {r : Report} (hr : s.since ≤ r.num) : (s.putBack r).Sound := by
  refine { h with
    owned := h.owned.congr rfl rfl rfl rfl rfl rfl rfl
    queued := fun r' hr' => ?_ }
  cases hpush : s.txPackets.push r with
  | none =>
    simp only [Gadget.putBack, hpush, Option.getD_none] at hr'
    exact h.queued r' hr'
  | some q =>
    simp only [Gadget.putBack, hpush, Option.getD_some, RingBuffer.toList_push hpush, List.mem_append, List.mem_singleton] at hr'
    rcases hr' with hr' | rfl
    · exact h.queued r' hr'
    · exact hr

/-- The IN endpoint has one request at most. -/
theorem Owned.queued_eq (h : s.Owned) {r : Nat} {rest : List Nat} (hqueued : s.inEp.queued = r :: rest) : rest = [] := by
  cases rest with
  | nil => rfl
  | cons r' rest =>
    have hin := h.inHeld
    have hnodup := h.inNodup
    rw [hqueued] at hin hnodup
    obtain rfl : r = r' := Option.some.inj ((hin r (.head _)).symm.trans (hin r' (.tail _ (.head _))))
    exact absurd (.head _) (List.nodup_cons.mp hnodup).1

/-- A request that an endpoint holds is one of a connection. -/
theorem Sound.online_of_out (h : s.Sound) {r : Nat} (hr : r ∈ s.outEp.queued) : s.online = true := by
  by_contra hoff
  rw [(h.off (by simpa using hoff)).2.2.2] at hr
  cases hr

theorem Sound.queueOut (h : s.Sound) {r : Nat} (hr : r ∈ s.outEp.queued) (debugRx rxPackets : RingBuffer Packet queueDepth)
    (taken : Bool) : (Gadget.queueOut r taken { s with
      outEp := ⟨s.outEp.enabled, s.outEp.queued.erase r⟩, debugRx := debugRx, rxPackets := rxPackets }).2.Sound := by
  have hon := h.online_of_out hr
  obtain ⟨i, hi⟩ := h.owned.outHeld r hr
  have hgone : r ∉ s.outEp.queued.erase r := List.Nodup.not_mem_erase h.owned.outNodup
  have hback : Owned { s with
      outEp := ⟨s.outEp.enabled, s.outEp.queued.erase r⟩, debugRx := debugRx, rxPackets := rxPackets } :=
    (h.owned.giveBackOut (List.erase_sublist (a := r)) s.outEp.enabled).congr rfl rfl rfl rfl rfl rfl rfl
  have howned := hback.queueOut hi hgone taken
  obtain ⟨hlive, hlent⟩ : r ∈ s.live ∧ ¬ (r ∈ s.inEp.queued ∨ r ∈ s.outEp.queued.erase r) := by
    refine ⟨(h.owned.live r).mpr (.inr ⟨i, hi⟩), ?_⟩
    rintro (hin | hout)
    · exact h.owned.in_ne_out i r (h.owned.inHeld r hin) hi
    · exact hgone hout
  obtain ⟨hreq, hinEp, houtEp, hall⟩ := h.on hon
  have hkept : ∀ j, ∃ r', s.outReq j = some r' ∧ (r' = r ∨ r' ∈ s.outEp.queued.erase r ∨ r' ∈ s.refused) := by
    intro j
    obtain ⟨r', hj, hr'⟩ := hall j
    refine ⟨r', hj, ?_⟩
    by_cases hrr' : r' = r
    · exact .inl hrr'
    · exact .inr (hr'.imp_left (List.mem_erase_of_ne hrr').mpr)
  have hoff : ∀ {p : Prop}, s.online = false → p := fun hoff => by cases hon.symm.trans hoff
  generalize hres : Gadget.queueOut r taken _ = res at howned ⊢
  rw [Gadget.queueOut, if_neg (by rintro (hdead | hout); exacts [hdead hlive, hlent hout])] at hres
  split at hres <;> subst hres
  · refine { h with owned := howned, on := fun _ => ⟨hreq, hinEp, houtEp, fun j => ?_⟩, off := fun h => hoff h }
    obtain ⟨r', hj, hr'⟩ := hkept j
    refine ⟨r', hj, ?_⟩
    rcases hr' with rfl | hr' | hr'
    · exact .inl (List.mem_append_right _ (.head _))
    · exact .inl (List.mem_append_left _ hr')
    · exact .inr hr'
  · refine { h with owned := howned, on := fun _ => ⟨hreq, hinEp, houtEp, fun j => ?_⟩, off := fun h => hoff h }
    obtain ⟨r', hj, hr'⟩ := hkept j
    refine ⟨r', hj, ?_⟩
    rcases hr' with rfl | hr' | hr'
    · exact .inr (Finset.mem_insert_self ..)
    · exact .inl hr'
    · exact .inr (Finset.mem_insert_of_mem hr')

theorem Sound.outComplete (h : s.Sound) {r : Nat} (hr : r ∈ s.outEp.queued) (report : Option Packet) (taken : Bool) :
    ({ s with outEp := { s.outEp with queued := s.outEp.queued.erase r } }.outComplete r report taken).Sound := by
  cases report with
  | none => exact h.queueOut hr s.debugRx s.rxPackets taken
  | some p => exact h.queueOut hr _ _ taken

/-- The transfer goes from one hand to another. -/
theorem Sound.transfer (h : s.Sound) {k : Nat} {g : TxStage} {pending : Bool} {queued : List Nat} {session : List Report}
    (howned : Owned { s with inEp := ⟨s.inEp.enabled, queued⟩ })
    (hflow : Flow pending (!queued.isEmpty) (Function.update s.thread k g)) (hheld : ∀ r, g.held = some r → s.since ≤ r.num)
    (hsession : ∀ r ∈ session, s.since ≤ r.num) (hon : s.online = true) :
    Sound ({ s with inEp := ⟨s.inEp.enabled, queued⟩, pending := pending, session := session }.setThread k g) :=
  { h with
    owned := howned.congr rfl rfl rfl rfl rfl rfl rfl
    flow := hflow
    on := h.on
    off := fun hoff => by cases hon.symm.trans hoff
    busy := fun _ _ => hon
    held := fun j r hj => by
      by_cases hjk : j = k
      · subst hjk
        refine hheld r ?_
        simpa only [Gadget.setThread, Function.update_self] using hj
      · refine h.held j r ?_
        simpa only [Gadget.setThread, Function.update_of_ne hjk] using hj
    session := hsession }

/-- The request is handed over, or `tx_pending` is cleared again. -/
theorem Sound.hand (h : s.Sound) {k : Nat} {r : Report} (hk : s.thread k = .handing r) (taken : Bool) :
    ((s.hand r taken).setThread k .idle).Sound := by
  have hon : s.online = true := h.busy k (.inl (by rw [hk]; rfl))
  obtain ⟨hpending, hflight, hothers⟩ := h.flow.owner k (by rw [hk]; rfl)
  have hqueued : s.inEp.queued = [] := by simpa [inFlight] using hflight
  obtain ⟨req, hreq⟩ := Option.isSome_iff_exists.mp (h.on hon).1
  obtain ⟨hlive, hlent⟩ := h.owned.in_ready hreq hqueued
  rw [hand_eq hreq hlive hlent]
  split
  · refine h.transfer (h.owned.queueIn hreq hqueued) ?_ nofun (fun r' hr' => ?_) hon
    · rw [hpending, hqueued]
      exact flow_unowned rfl hothers true
    · rcases List.mem_append.mp hr' with hr' | hr'
      · exact h.session r' hr'
      · rw [List.mem_singleton.mp hr']
        exact h.held k r (by rw [hk]; rfl)
  · refine h.transfer h.owned ?_ nofun h.session hon
    rw [hqueued]
    exact flow_unowned rfl hothers false

/-- **Every step keeps the ledger**, if connections begin and end in quiet moments. -/
theorem Sound.step (h : s.Sound) {a : GadgetAction} (hok : s.Undisturbed a) (hstep : s.step a = some s') : s'.Sound := by
  cases a with
  | setAlt k io =>
    simp only [Gadget.step] at hstep
    split at hstep <;> cases hstep
    next hk => exact h.setAlt hok hk io
  | disable =>
    cases hstep
    exact h.owned.sound_disable hok
  | outComplete r report taken =>
    simp only [Gadget.step] at hstep
    split at hstep <;> cases hstep
    next hr => exact h.outComplete hr report taken
  | send k cid cmd payload =>
    simp only [Gadget.step] at hstep
    split at hstep <;> cases hstep
    next hk => exact h.calm rfl rfl (by rw [hk]; rfl)
  | push k =>
    simp only [Gadget.step] at hstep
    split at hstep
    · next p packets hk =>
      cases hstep
      cases hpush : s.pushNew p with
      | none => exact h.calm rfl rfl (by rw [hk]; rfl)
      | some t =>
        obtain ⟨ht, hthread⟩ := h.pushNew hpush
        exact ht.calm rfl rfl (by rw [hthread, hk]; rfl)
    · next hk =>
      cases hstep
      exact h.calm rfl rfl (by rw [hk]; rfl)
    · cases hstep
  | miscWrite k p =>
    simp only [Gadget.step] at hstep
    split at hstep <;> cases hstep
    next hk =>
    cases hpush : s.pushNew p with
    | none => exact h
    | some t =>
      obtain ⟨ht, hthread⟩ := h.pushNew hpush
      exact ht.calm rfl rfl (by rw [hthread, hk]; rfl)
  | kick k =>
    simp only [Gadget.step] at hstep
    split at hstep <;> cases hstep
    next hk => exact h.calm rfl rfl (by rw [hk]; rfl)
  | pop k =>
    simp only [Gadget.step] at hstep
    split at hstep
    · next hk =>
      split at hstep
      · cases hstep
        exact h.calm rfl rfl (by rw [hk]; rfl)
      next hon =>
      split at hstep <;> cases hstep
      · next r q hpop =>
        have hr : s.since ≤ r.num := h.queued r (by rw [RingBuffer.toList_pop hpop]; exact .head _)
        have hpopped : Sound { s with txPackets := q } := { h with
          owned := h.owned.congr rfl rfl rfl rfl rfl rfl rfl
          queued := fun r' hr' => h.queued r' (by rw [RingBuffer.toList_pop hpop]; exact .tail _ hr') }
        refine hpopped.setThread (fun r' hr' => ?_) (by rw [hk]; rfl) fun _ => ?_
        · cases hr'
          exact hr
        · show s.online = true
          by_contra hoff
          simp [hoff] at hon
      · exact h.calm rfl rfl (by rw [hk]; rfl)
    · cases hstep
  | check k =>
    simp only [Gadget.step] at hstep
    split at hstep
    · next r hk =>
      have hr : s.since ≤ r.num := h.held k r (by rw [hk]; rfl)
      have hon : s.online = true := h.busy k (.inl (by rw [hk]; rfl))
      split at hstep <;> cases hstep
      · exact h.setThread (fun r' hr' => by cases hr'; exact hr) (by rw [hk]; rfl) fun _ => hon
      · next hclear =>
        have hflow := h.flow
        rw [show s.pending = false by simpa using hclear] at hflow
        obtain ⟨hflight, hnone⟩ := hflow.free
        refine h.transfer h.owned ?_ (fun r' hr' => by cases hr'; exact hr) h.session hon
        change Flow true s.inFlight _
        rw [hflight]
        exact flow_owned rfl fun j _ => hnone j
    · cases hstep
  | putBack k =>
    simp only [Gadget.step] at hstep
    split at hstep <;> cases hstep
    next r hk =>
    exact (h.putBack (h.held k r (by rw [hk]; rfl))).calm rfl rfl (by show (s.thread k).owns = false; rw [hk]; rfl)
  | queue k taken =>
    simp only [Gadget.step] at hstep
    split at hstep <;> cases hstep
    next r hk =>
    exact h.hand hk taken
  | complete k =>
    simp only [Gadget.step] at hstep
    split at hstep <;> cases hstep
    next r queued hk hqueued =>
    obtain rfl := h.owned.queued_eq hqueued
    have hon : s.online = true := by
      by_contra hoff
      rw [(h.off (by simpa using hoff)).2.2.1] at hqueued
      cases hqueued
    obtain ⟨hpending, hnone⟩ := h.flow.flight (by rw [inFlight, hqueued]; rfl)
    refine h.transfer (h.owned.giveBackIn (List.nil_sublist _) _) ?_ nofun h.session hon
    rw [hpending]
    exact flow_owned rfl fun j _ => hnone j
  | clear k =>
    simp only [Gadget.step] at hstep
    split at hstep <;> cases hstep
    next hk =>
    obtain ⟨_, hflight, hothers⟩ := h.flow.owner k (by rw [hk]; rfl)
    refine h.transfer h.owned ?_ nofun h.session (h.busy k (.inr (by rw [hk]; rfl)))
    change Flow false s.inFlight _
    rw [hflight]
    exact flow_unowned rfl hothers false

/-- Where the requests are. -/
structure Accounted (s : Gadget) : Prop where
  /-- None was freed or queued while an endpoint held it, or after it was gone. -/
  safe : s.faulted = false
  /-- What is allocated is what the function points to. -/
  live : ∀ r, r ∈ s.live ↔ s.Points r
  /-- By one pointer each, -/
  in_ne_out : ∀ i r, s.inReq = some r → s.outReq i ≠ some r
  out_inj : ∀ i j r, s.outReq i = some r → s.outReq j = some r → i = j
  /-- and the endpoint it belongs to holds it once, or not at all. -/
  inHeld : ∀ r ∈ s.inEp.queued, s.inReq = some r
  outHeld : ∀ r ∈ s.outEp.queued, ∃ i, s.outReq i = some r
  inNodup : s.inEp.queued.Nodup
  outNodup : s.outEp.queued.Nodup
  /-- A connection is whole: the host is listened to. -/
  on : s.online = true → s.inReq.isSome = true ∧ s.inEp.enabled = true ∧ s.outEp.enabled = true ∧ s.Listening
  /-- Without one nothing is left of it. -/
  off : s.online = false → s.live = ∅ ∧ s.Off
  bound : s.bound = s.online
  /-- `tx_pending` does not stick. -/
  pending : (∀ k, s.thread k = .idle) → s.pending = s.inFlight

theorem Sound.accounted (h : s.Sound) : s.Accounted where
  safe := h.owned.safe
  live := h.owned.live
  in_ne_out := h.owned.in_ne_out
  out_inj := h.owned.out_inj
  inHeld := h.owned.inHeld
  outHeld := h.owned.outHeld
  inNodup := h.owned.inNodup
  outNodup := h.owned.outNodup
  on := h.on
  off hoff := by
    obtain ⟨hin, hout, hnone⟩ := h.off hoff
    refine ⟨Finset.eq_empty_of_forall_notMem fun r hr => ?_, hnone⟩
    rcases (h.owned.live r).mp hr with hr | ⟨i, hr⟩
    · cases hin.symm.trans hr
    · cases (hout i).symm.trans hr
  bound := h.bound
  pending hidle := by
    cases hflight : s.inFlight with
    | true => exact (h.flow.flight hflight).1
    | false =>
      by_contra hpending
      rcases h.flow.pending (by simpa using hpending) with hf | ⟨k, hk⟩
      · cases hflight.symm.trans hf
      · rw [hidle k] at hk
        cases hk

theorem sound_of_runs {as : List GadgetAction} (h : Runs Gadget.step Undisturbed init as s) : s.Sound :=
  h.invariant (fun _ _ _ hI hok hstep => hI.step hok hstep) sound_init

/-- **Requests are accounted for** at any moment of any run. -/
theorem accounted_of_runs {as : List GadgetAction} (h : Runs Gadget.step Undisturbed init as s) : s.Accounted :=
  (sound_of_runs h).accounted

/-- **Nothing from before a disconnect is sent after it.** -/
theorem session_of_runs {as : List GadgetAction} (h : Runs Gadget.step Undisturbed init as s) :
    ∀ r ∈ s.session, s.since ≤ r.num := (sound_of_runs h).session

/-- Every call succeeds. -/
def allSucceed : SetAltIo := ⟨true, true, true, true, true, fun _ => true, fun _ => true⟩

/-- A report is written and the host goes before it is sent; the next one is
sent to the host when it is back. -/
def reconnectRun : List GadgetAction :=
  [.setAlt 0 allSucceed, .pop 0, .miscWrite 0 (zeros 64), .disable, .setAlt 1 allSucceed, .pop 1, .miscWrite 1 (zeros 64),
    .pop 1, .check 1, .queue 1 true]

theorem Quiet.setThread (h : s.Quiet) {k : Nat} {g : TxStage} (hheld : g.held = none) (howns : g.owns = false) :
    (s.setThread k g).Quiet := by
  intro j
  show (Function.update s.thread k g j).held = none ∧ (Function.update s.thread k g j).owns = false
  by_cases hj : j = k
  · rw [hj, Function.update_self]
    exact ⟨hheld, howns⟩
  · rw [Function.update_of_ne hj]
    exact h j

theorem runs_reconnectRun : ∃ s, Runs Gadget.step Undisturbed init reconnectRun s ∧ s.session.map Report.num = [1] ∧
    s.since = 1 ∧ s.pending = true := by
  have hinit : init.Quiet := fun _ => ⟨rfl, rfl⟩
  have hfirst : Runs Gadget.step Undisturbed init [.setAlt 0 allSucceed, .pop 0, .miscWrite 0 (zeros 64)] _ :=
    .cons hinit rfl (.cons trivial rfl (.cons trivial rfl (.nil _)))
  have hquiet : ((init.setThread 0 .kicking).setThread 0 .idle |>.setThread 0 .kicking).Quiet :=
    ((hinit.setThread rfl rfl).setThread rfl rfl).setThread rfl rfl
  exact ⟨_, hfirst.append (.cons hquiet rfl (.cons (hquiet.congr (sound_of_runs hfirst).owned.disable.2.1) rfl
    (.cons trivial rfl (.cons trivial rfl (.cons trivial rfl (.cons trivial rfl (.cons trivial rfl (.nil _)))))))), rfl, rfl, rfl⟩

theorem accounted_reconnectRun : ∃ s, Runs Gadget.step Undisturbed init reconnectRun s ∧ s.pending = true ∧ s.Accounted := by
  obtain ⟨s, hrun, _, _, hpending⟩ := runs_reconnectRun
  exact ⟨s, hrun, hpending, accounted_of_runs hrun⟩

theorem session_reconnectRun : ∃ s, Runs Gadget.step Undisturbed init reconnectRun s ∧ s.session.map Report.num = [1] ∧
    ∀ r ∈ s.session, s.since ≤ r.num := by
  obtain ⟨s, hrun, hsession, _⟩ := runs_reconnectRun
  exact ⟨s, hrun, hsession, session_of_runs hrun⟩

/-- The host goes while a kick has the request in its hands. -/
theorem exists_fault : ∃ s, Runs Gadget.step (fun _ _ => True) init
    [.setAlt 0 allSucceed, .pop 0, .miscWrite 0 (zeros 64), .pop 0, .check 0, .disable, .queue 0 true] s ∧ s.faulted = true :=
  ⟨_, .cons trivial rfl (.cons trivial rfl (.cons trivial rfl (.cons trivial rfl (.cons trivial rfl (.cons trivial rfl
    (.cons trivial rfl (.nil _))))))), rfl⟩

end AbkFido.Gadget
