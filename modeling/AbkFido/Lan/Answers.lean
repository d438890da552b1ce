/-
Whose answer a LAN session is relayed.

`relayResponse` knows the answer by its channel, its command and, on the
broadcast channel, the nonce of an INIT. What a session that failed had asked
for may still come, and then the next one on the channel is relayed it. Where
a session writes a request only when nothing in the node can be taken for the
answer to it (`Fresh`), it is relayed its own (`own_of_fresh`).
-/
import AbkFido.Lan.Lock
import AbkFido.Lan.NodeFacts

namespace AbkFido

variable {P : Platform}

/-! ## What a turn takes -/

namespace RelayedRequest

variable {request : RelayedRequest} {p : Packet} {phase : RelayPhase} {turn : RelayTurn} {written : List Packet}

/-- The packet begins the answer, or is read while the answer goes through. -/
def Answering (request : RelayedRequest) (p : Packet) (phase : RelayPhase) : Prop :=
  (phase = .between ∧ request.takes p = true) ∨ ∃ cid remaining sequence, phase = .inside cid true remaining sequence

/-- A packet that is written as one of the answer. -/
def Forwards (p : Packet) (written : List Packet) : Prop := written ≠ [] ∧ ¬ (p.starts = true ∧ p.cmd = hidKeepalive)

theorem forward_of_goOn {cid : UInt32} {forward : Bool} {remaining sequence : Nat}
    (h : goOn cid forward remaining sequence = .returns ∨
      ∃ cid' remaining' sequence', goOn cid forward remaining sequence = .goesOn (.inside cid' true remaining' sequence')) :
    forward = true := by
  unfold goOn at h
  split at h
  · rcases h with h | ⟨_, _, _, h⟩ <;> cases h
    rfl
  · split at h
    · assumption
    · rcases h with h | ⟨_, _, _, h⟩ <;> cases h

theorem answering_of_turn (h : request.turn p phase = (turn, written))
    (hturn : Forwards p written ∨ ∃ cid remaining sequence, turn = .goesOn (.inside cid true remaining sequence)) :
    request.Answering p phase := by
  have hno : ¬ Forwards p [] := fun hf => hf.1 rfl
  cases phase with
  | between =>
    refine .inl ⟨rfl, ?_⟩
    simp only [RelayedRequest.turn] at h
    split at h
    · cases h
      rcases hturn with hf | ⟨_, _, _, h⟩
      · exact absurd hf hno
      · cases h
    next hp =>
    rw [Bool.not_eq_true', Bool.not_eq_false] at hp
    split at h
    · cases h
      rcases hturn with hf | ⟨_, _, _, h⟩
      · exact absurd hf hno
      · cases h
    split at h
    · next hcmd =>
      cases h
      rcases hturn with hf | ⟨_, _, _, h⟩
      · exact absurd ⟨hp, hcmd⟩ hf.2
      · cases h
    · next hcmd =>
      cases h
      have hown : request.answeredBy p = true := by
        rcases hturn with hf | hgo
        · by_contra hown
          rw [if_neg hown] at hf
          exact hno hf
        · exact forward_of_goOn (.inr hgo)
      simp [takes, hp, hcmd, hown]
  | inside cid forward remaining sequence =>
    refine .inr ⟨cid, remaining, sequence, ?_⟩
    suffices hforward : forward = true by rw [hforward]
    simp only [RelayedRequest.turn] at h
    split at h
    · next hp =>
      cases h
      rcases hturn with hf | ⟨_, _, _, h⟩
      · by_cases hkeeps : request.keepsAlive p = true
        · simp only [keepsAlive, Bool.and_eq_true, beq_iff_eq] at hkeeps
          exact absurd ⟨hp, hkeeps.2⟩ hf.2
        · rw [if_neg hkeeps] at hf
          exact absurd hf hno
      · cases h
        rfl
    split at h
    · cases h
      rcases hturn with hf | ⟨_, _, _, h⟩
      · exact absurd hf hno
      · cases h
    · cases h
      rcases hturn with hf | hgo
      · by_contra hforward
        rw [if_neg hforward] at hf
        exact hno hf
      · exact forward_of_goOn (.inr hgo)

theorem forwards_of_returns (h : request.turn p phase = (.returns, written)) : Forwards p written := by
  cases phase with
  | between =>
    simp only [RelayedRequest.turn] at h
    split at h
    · cases h
    split at h
    · cases h
    split at h
    · cases h
    · next hcmd =>
      obtain ⟨hgo, rfl⟩ := Prod.mk.inj h
      rw [if_pos (forward_of_goOn (.inl hgo))]
      exact ⟨List.cons_ne_nil p [], fun hf => hcmd hf.2⟩
  | inside cid forward remaining sequence =>
    simp only [RelayedRequest.turn] at h
    split at h
    · cases h
    next hp =>
    split at h
    · cases h
    · obtain ⟨hgo, rfl⟩ := Prod.mk.inj h
      rw [if_pos (forward_of_goOn (.inl hgo))]
      exact ⟨List.cons_ne_nil p [], fun hf => hp hf.1⟩

end RelayedRequest

namespace Node

/-- Nothing in the node can still answer the request. -/
structure Settled (request : RelayedRequest) (d : Node) : Prop where
  queued : ∀ x ∈ d.txPackets.toList ++ d.sending, request.takes x.packet = false
  owed : ∀ f, (d.link.stage .ctap).Owes f → request.Misses f
  waiting : ∀ x ∈ d.waiting, request.Harmless x.packet

theorem Settled.clean {request : RelayedRequest} {d : Node} (h : d.Settled request) (n : Nat) : d.Clean request n :=
  ⟨fun x hx _ => h.queued x hx, fun _ => h.owed, fun x hx _ => h.waiting x hx⟩

end Node

/-- What a session with the lock has written. -/
def LanPhase.Begun (request : Option Packet) : LanPhase → Prop
  | .writing cancel rest =>
    match request with
    | none => cancel = RelayRequest.isCancel rest
    | some p => cancel = (p.cmd == hidCancel)
  | .relaying => ∃ p, request = some p ∧ p.cmd ≠ hidCancel
  | _ => True

namespace RelaySystem

variable {J : OrgJson} {autoAuthorize : Bool} {s s' : RelaySystem} {a : RelayAction}

/-- When a session begins to write a request, nothing in the node can still be
answered with what is taken for the answer to it. A left-over packet on its
channel, a CANCEL say, is answered after all where there is no memory for it. -/
def Fresh (s : RelaySystem) : RelayAction → Prop
  | .write i => s.request = none → ∀ p, s.nextPacket i = some p → p.cmd ≠ hidCancel → s.node.Settled (.of p)
  | .drive a => ∀ i p, s.server.lock = some (.session i) → s.request = some p → p.cmd ≠ hidCancel →
    s.node.Affords (.of p) s.exchange a
  | _ => True

/-- The packets of the answer were sent for the exchange the session wrote its
request in, and nobody else wrote in it. -/
structure OwnAnswer (log : List RelayEvent) (i n : Nat) (answer : List Tagged) : Prop where
  ne_nil : answer ≠ []
  exchange : ∀ x ∈ answer, x.exchange = n
  asked : ∃ p, .wrote (.session i) n p ∈ log
  alone : ∀ who p, .wrote who n p ∈ log → who = .session i

def Own (s : RelaySystem) : Prop := ∀ i n answer, .relayed i n answer ∈ s.log → OwnAnswer s.log i n answer

/-- What holds of the system whatever happens. -/
structure Sound (s : RelaySystem) : Prop where
  ordered : s.node.Ordered s.exchange
  held : ∀ i t, s.server.sessions i = some t → t.phase.Locks →
    s.server.lock = some (.session i) ∧ t.phase.Begun s.request
  clean : ∀ i p, s.server.lock = some (.session i) → s.request = some p → p.cmd ≠ hidCancel →
    s.node.Clean (.of p) s.exchange
  answer : ∀ i, s.server.lock = some (.session i) → ∀ x ∈ s.answer, x.exchange = s.exchange
  inside : ∀ i cid remaining sequence, s.server.lock = some (.session i) → s.relay = .inside cid true remaining sequence →
    ∀ k ∈ s.node.timeline, k = s.exchange
  asked : ∀ who p, s.server.lock = some who → s.request = some p → .wrote who s.exchange p ∈ s.log
  wrote : ∀ who n p, .wrote who n p ∈ s.log → n ≤ s.exchange ∧
    (n = s.exchange → ∀ w, s.server.lock = some w → w = who)
  relayed : ∀ i n answer, .relayed i n answer ∈ s.log → n ≤ s.exchange ∧ (n = s.exchange → s.server.lock = none)
  own : s.Own

/-- While the answer goes through, whatever the node does, nothing older comes into it. -/
theorem Sound.inside_of_keeps (h : s.Sound) {node : Node} (hkeeps : Node.Keeps s.exchange s.node node) (i : Nat) (cid : UInt32)
    (remaining sequence : Nat) (hlock : s.server.lock = some (.session i))
    (hrelay : s.relay = .inside cid true remaining sequence) : ∀ k ∈ node.timeline, k = s.exchange := fun k hk =>
  (hkeeps.timeline k hk).elim (h.inside i cid remaining sequence hlock hrelay k) id

/-- A step of the node that writes nothing, with what `relayResponse` makes of it. -/
theorem Sound.ofRead (h : s.Sound) {node : Node} {answer : List Tagged} {relay : RelayPhase}
    (hkeeps : Node.Keeps s.exchange s.node node)
    (hclean : ∀ i p, s.server.lock = some (.session i) → s.request = some p → p.cmd ≠ hidCancel →
      node.Clean (.of p) s.exchange)
    (hanswer : ∀ i, s.server.lock = some (.session i) → ∀ x ∈ answer, x.exchange = s.exchange)
    (hinside : ∀ i cid remaining sequence, s.server.lock = some (.session i) →
      relay = .inside cid true remaining sequence → ∀ k ∈ node.timeline, k = s.exchange) :
    Sound { s with node := node, relay := relay, answer := answer } where
  ordered := hkeeps.ordered
  held := h.held
  clean := hclean
  answer := hanswer
  inside := hinside
  asked := h.asked
  wrote := h.wrote
  relayed := h.relayed
  own := h.own

theorem Sound.ofNode (h : s.Sound) {node : Node} (hkeeps : Node.Keeps s.exchange s.node node)
    (hclean : ∀ i p, s.server.lock = some (.session i) → s.request = some p → p.cmd ≠ hidCancel →
      node.Clean (.of p) s.exchange) : Sound { s with node := node } :=
  h.ofRead hkeeps hclean h.answer (h.inside_of_keeps hkeeps)

/-- A step of the server that takes no lock. -/
theorem Sound.ofServer (h : s.Sound) {c : LanServer} (hc : c.lock = s.server.lock ∨ c.lock = none)
    (hheld : ∀ i t, c.sessions i = some t → t.phase.Locks → c.lock = some (.session i) ∧ t.phase.Begun s.request) :
    Sound { s with server := c } := by
  have hlock : ∀ {w}, c.lock = some w → s.server.lock = some w := by
    intro w hw
    rcases hc with heq | heq
    · rw [← heq, hw]
    · rw [heq] at hw
      cases hw
  refine
    { ordered := h.ordered
      held := hheld
      clean := fun i p hi => h.clean i p (hlock hi)
      answer := fun i hi => h.answer i (hlock hi)
      inside := fun i cid remaining sequence hi => h.inside i cid remaining sequence (hlock hi)
      asked := fun who p hwho => h.asked who p (hlock hwho)
      wrote := fun who n p hmem => ⟨(h.wrote who n p hmem).1, fun hn w hw => (h.wrote who n p hmem).2 hn w (hlock hw)⟩
      relayed := fun i n answer hmem => ⟨(h.relayed i n answer hmem).1, fun hn => ?_⟩
      own := h.own }
  have hnone := (h.relayed i n answer hmem).2 hn
  rcases hc with heq | heq
  · exact heq.trans hnone
  · exact heq

theorem Sound.letsBe (h : s.Sound) {c : LanServer} (hc : s.server.LetsBe c) : Sound { s with server := c } := by
  refine h.ofServer hc.lock fun i t ht hlocks => ?_
  obtain ⟨⟨u, hu, hphase⟩, hkeeps⟩ := hc.sessions i t ht hlocks
  rw [hphase] at hlocks ⊢
  obtain ⟨hheld, hbegun⟩ := h.held i u hu hlocks
  exact ⟨(hkeeps hheld).trans hheld, hbegun⟩

theorem Sound.takes (h : s.Sound) {c : LanServer} (hc : s.server.Takes c) :
    Sound { s with server := c, exchange := s.exchange + 1, request := none, relay := .between, answer := [] } := by
  refine
    { ordered := h.ordered.mono (Nat.le_succ _)
      held := fun i t ht hlocks => ?_
      clean := nofun
      answer := nofun
      inside := nofun
      asked := nofun
      wrote := fun who n p hmem => ?_
      relayed := fun i n answer hmem => ?_
      own := h.own }
  · rcases hc.sessions i t ht hlocks with ⟨u, hu, hphase⟩ | ⟨hlock, packets, hphase⟩
    · rw [hphase] at hlocks
      have hheld := (h.held i u hu hlocks).1
      rw [hc.free] at hheld
      cases hheld
    · refine ⟨hlock, ?_⟩
      rw [hphase]
      rfl
  · have hle := (h.wrote who n p hmem).1
    exact ⟨Nat.le_succ_of_le hle, fun hn => absurd (hn.symm.le.trans hle) (Nat.not_succ_le_self _)⟩
  · have hle := (h.relayed i n answer hmem).1
    exact ⟨Nat.le_succ_of_le hle, fun hn => absurd (hn.symm.le.trans hle) (Nat.not_succ_le_self _)⟩

theorem Sound.server (h : s.Sound) {b : LanAction} (hb : b.usesEndpoint = false) {c : LanServer}
    (hstep : s.server.step J autoAuthorize b = some c) : (s.withServer c).Sound := by
  unfold withServer
  rcases LanServer.step_lock hb hstep with hc | hc
  · rw [if_neg]
    · exact h.letsBe hc
    · rintro ⟨hnone, hsome⟩
      rcases hc.lock with heq | heq
      · exact hsome (heq.trans hnone)
      · exact hsome heq
  · rw [if_pos ⟨hc.free, hc.taken⟩]
    exact h.takes hc

theorem OwnAnswer.wrote {log : List RelayEvent} {i n m : Nat} {answer : List Tagged} (h : OwnAnswer log i n answer)
    {who : LockHolder} (p : Packet) (hne : m ≠ n) : OwnAnswer (.wrote who m p :: log) i n answer where
  ne_nil := h.ne_nil
  exchange := h.exchange
  asked := h.asked.imp fun _ => .tail _
  alone who' q hmem := by
    rcases List.mem_cons.mp hmem with heq | hmem
    · cases heq
      exact absurd rfl hne
    · exact h.alone who' q hmem

/-- The holder of the lock writes a packet. -/
theorem Sound.write (h : s.Sound) {who : LockHolder} {p : Packet} (hlock : s.server.lock = some who)
    (hfresh : s.request = none → ∀ i, who = .session i → p.cmd ≠ hidCancel → s.node.Settled (.of p))
    (hbegun : ∀ i t, s.server.sessions i = some t → t.phase.Locks → t.phase.Begun (s.request <|> some p))
    (hstep : s.write P who p = some s') : s'.Sound := by
  obtain ⟨node, hnode, rfl⟩ := Option.map_eq_some_iff.mp hstep
  have hkeeps := h.ordered.write hnode
  have hbusy : ∀ {i n answer}, .relayed i n answer ∈ s.log → n ≠ s.exchange := by
    intro i n answer hmem hn
    have hnone := (h.relayed i n answer hmem).2 hn
    rw [hlock] at hnone
    cases hnone
  refine
    { ordered := hkeeps.ordered
      held := fun i t ht hlocks => ⟨(h.held i t ht hlocks).1, hbegun i t ht hlocks⟩
      clean := fun i q hi hq hcmd => ?_
      answer := h.answer
      inside := h.inside_of_keeps hkeeps
      asked := fun w q hw hq => ?_
      wrote := fun w n q hmem => ?_
      relayed := fun i n answer hmem => ?_
      own := fun i n answer hmem => ?_ }
  · cases hreq : s.request with
    | none =>
      rw [hreq] at hq
      cases hq
      exact ((hfresh hreq i (Option.some.inj (hlock.symm.trans hi)) hcmd).clean _).write hnode
    | some first =>
      rw [hreq] at hq
      cases hq
      exact (h.clean i q hi hreq hcmd).write hnode
  · cases hreq : s.request with
    | none =>
      rw [hreq] at hq
      cases hq
      cases hlock.symm.trans hw
      exact .head _
    | some first =>
      rw [hreq] at hq
      cases hq
      exact .tail _ (h.asked w q hw hreq)
  · rcases List.mem_cons.mp hmem with heq | hmem
    · cases heq
      exact ⟨le_rfl, fun _ w hw => Option.some.inj (hw.symm.trans hlock)⟩
    · exact h.wrote w n q hmem
  · rcases List.mem_cons.mp hmem with heq | hmem
    · cases heq
    · exact h.relayed i n answer hmem
  · rcases List.mem_cons.mp hmem with heq | hmem
    · cases heq
    · exact (h.own i n answer hmem).wrote p (hbusy hmem).symm

/-- No other session has the lock. -/
theorem Sound.eq_of_locks (h : s.Sound) {i j : Nat} {t : ServedSession} (hlock : s.server.lock = some (.session i))
    (hj : s.server.sessions j = some t) (ht : t.phase.Locks) : j = i :=
  LockHolder.session.inj (Option.some.inj ((h.held j t hj ht).1.symm.trans hlock))

/-- The step of a session that has the lock. -/
theorem Sound.ofSession (h : s.Sound) {i : Nat} {t : ServedSession} {c : LanServer}
    (hlock : s.server.lock = some (.session i)) (hc : c.lock = s.server.lock ∨ c.lock = none)
    (hsessions : c.sessions = s.server.sessions) (ht : t.phase.Locks → c.lock = s.server.lock ∧ t.phase.Begun s.request) :
    Sound { s with server := c.setSession i t } := by
  refine h.ofServer hc fun j u hj hu => ?_
  have hj : Function.update c.sessions i (some t) j = some u := hj
  by_cases hij : j = i
  · subst hij
    rw [Function.update_self] at hj
    cases hj
    exact ⟨(ht hu).1.trans hlock, (ht hu).2⟩
  · rw [Function.update_of_ne hij, hsessions] at hj
    exact absurd (h.eq_of_locks hlock hj hu) hij

theorem nextPacket_eq_some {i : Nat} {p : Packet} (h : s.nextPacket i = some p) :
    ∃ t cancel rest, s.server.sessions i = some t ∧ t.phase = .writing cancel (p.toList :: rest) := by
  obtain ⟨t, ht, h⟩ := Option.bind_eq_some_iff.mp h
  split at h
  · next cancel packet rest hphase =>
    split at h <;> cases h
    exact ⟨t, cancel, rest, ht, hphase⟩
  · cases h

/-- With its next packet the session has begun a request. -/
theorem begun_next {request : Option Packet} {cancel : Bool} {p : Packet} {rest : List (List UInt8)}
    (h : (LanPhase.writing cancel (p.toList :: rest)).Begun request) :
    ∃ q, (request <|> some p) = some q ∧ cancel = (q.cmd == hidCancel) := by
  cases request with
  | none =>
    refine ⟨p, rfl, ?_⟩
    rw [show cancel = RelayRequest.isCancel (p.toList :: rest) from h, RelayRequest.isCancel, List.headD_cons, p.getD_header]
    rfl
  | some q => exact ⟨q, rfl, h⟩

theorem Sound.writeStep (h : s.Sound) {i : Nat} (hok : s.Fresh (.write i))
    (hstep : s.step P J autoAuthorize (.write i) = some s') : s'.Sound := by
  obtain ⟨p, hp, hstep⟩ := Option.bind_eq_some_iff.mp hstep
  obtain ⟨s₁, hwrite, hstep⟩ := Option.bind_eq_some_iff.mp hstep
  obtain ⟨c, hc, rfl⟩ := Option.map_eq_some_iff.mp hstep
  obtain ⟨t, cancel, rest, ht, hphase⟩ := nextPacket_eq_some hp
  obtain ⟨hlock, hbegun⟩ := h.held i t ht (by rw [hphase]; trivial)
  rw [hphase] at hbegun
  obtain ⟨q, hq, hcancel⟩ := begun_next hbegun
  have hsound : s₁.Sound := by
    refine h.write hlock (fun hnone _ _ => hok hnone p hp) (fun j u hj hu => ?_) hwrite
    obtain rfl := h.eq_of_locks hlock hj hu
    cases ht.symm.trans hj
    rw [hphase, hq]
    exact hcancel
  obtain ⟨node, -, rfl⟩ := Option.map_eq_some_iff.mp hwrite
  obtain ⟨u, hu, hc⟩ := Option.bind_eq_some_iff.mp hc
  cases ht.symm.trans hu
  simp only [hphase, Option.some.injEq] at hc
  subst hc
  unfold LanServer.writePacket
  dsimp only
  split
  · refine hsound.ofSession hlock (.inl rfl) rfl fun _ => ⟨rfl, ?_⟩
    show (LanPhase.writing cancel rest).Begun (s.request <|> some p)
    rw [hq]
    exact hcancel
  split
  · exact hsound.ofSession hlock (.inr rfl) rfl (fun h => h.elim)
  · next hsends =>
    refine hsound.ofSession hlock (.inl rfl) rfl fun _ => ⟨rfl, q, hq, fun hcmd => hsends ?_⟩
    rw [hcancel, hcmd]
    rfl

theorem Sound.relayedAs (h : s.Sound) (hfree : s.server.lock = none) {i : Nat} (hown : OwnAnswer s.log i s.exchange s.answer) :
    Sound { s with log := .relayed i s.exchange s.answer :: s.log } := by
  have hgrows : ∀ {j n answer}, OwnAnswer s.log j n answer →
      OwnAnswer (.relayed i s.exchange s.answer :: s.log) j n answer := by
    intro j n answer ho
    refine ⟨ho.ne_nil, ho.exchange, ho.asked.imp fun _ => .tail _, fun who p hmem => ?_⟩
    rcases List.mem_cons.mp hmem with heq | hmem
    · cases heq
    · exact ho.alone who p hmem
  refine { h with asked := ?_, wrote := ?_, relayed := ?_, own := ?_ }
  · intro who p hw
    rw [show s.server.lock = some who from hw] at hfree
    cases hfree
  · intro who n p hmem
    rcases List.mem_cons.mp hmem with heq | hmem
    · cases heq
    · exact h.wrote who n p hmem
  · intro j n answer hmem
    rcases List.mem_cons.mp hmem with heq | hmem
    · cases heq
      exact ⟨le_rfl, fun _ => hfree⟩
    · exact h.relayed j n answer hmem
  · intro j n answer hmem
    rcases List.mem_cons.mp hmem with heq | hmem
    · cases heq
      exact hgrows hown
    · exact hgrows (h.own j n answer hmem)

theorem answerWith_forwards {x : Tagged} {written : List Packet} (h : RelayedRequest.Forwards x.packet written) :
    s.answerWith x written = s.answer ++ [x] :=
  if_neg fun hnot => hnot.elim h.1 h.2

theorem mem_answerWith {x y : Tagged} {written : List Packet} (h : y ∈ s.answerWith x written) :
    y ∈ s.answer ∨ (y = x ∧ RelayedRequest.Forwards x.packet written) := by
  by_cases hf : RelayedRequest.Forwards x.packet written
  · rw [answerWith_forwards hf, List.mem_append, List.mem_singleton] at h
    exact h.imp_right fun heq => ⟨heq, hf⟩
  · rw [answerWith, if_pos] at h
    · exact .inl h
    · by_contra hnot
      exact hf ⟨fun hnil => hnot (.inl hnil), fun hkeep => hnot (.inr hkeep)⟩

/-- A packet of the answer is of the session's exchange, and so is all that is behind it. -/
theorem Sound.eq_of_answering (h : s.Sound) {i : Nat} {first : Packet} {x : Tagged} {node : Node}
    (hlock : s.server.lock = some (.session i)) (hfirst : s.request = some first) (hcmd : first.cmd ≠ hidCancel)
    (hread : s.node.read = some (x, node)) (hanswering : (RelayedRequest.of first).Answering x.packet s.relay) :
    x.exchange = s.exchange ∧ ∀ k ∈ node.timeline, k = s.exchange := by
  rcases hanswering with ⟨-, htakes⟩ | ⟨cid, remaining, sequence, hinside⟩
  · have hx := ((h.clean i first hlock hfirst hcmd).read hread).2 htakes
    exact ⟨hx, h.ordered.all_eq hx hread⟩
  · have hall := h.inside i cid remaining sequence hlock hinside
    rw [Node.timeline_read hread] at hall
    exact ⟨hall _ (.head _), fun k hk => hall k (.tail _ hk)⟩

theorem Sound.readStep (h : s.Sound) {i : Nat} {ok : Bool} (hstep : s.step P J autoAuthorize (.read i ok) = some s') :
    s'.Sound := by
  obtain ⟨t, ht, hstep⟩ := Option.bind_eq_some_iff.mp hstep
  split at hstep
  · next first hphase hfirst =>
    obtain ⟨⟨x, node⟩, hread, hstep⟩ := Option.bind_eq_some_iff.mp hstep
    obtain ⟨hlock, hbegun⟩ := h.held i t ht (by rw [hphase]; trivial)
    rw [hphase] at hbegun
    obtain ⟨p, hp, hcmd⟩ := hbegun
    cases hfirst.symm.trans hp
    have hkeeps := h.ordered.read hread
    rcases hturn : (RelayedRequest.of first).turn x.packet s.relay with ⟨turn, written⟩
    simp only [hturn] at hstep
    have hown := h.eq_of_answering hlock hfirst hcmd hread
    have hanswer : ∀ y ∈ s.answerWith x written, y.exchange = s.exchange := by
      intro y hy
      rcases mem_answerWith hy with hy | ⟨rfl, hf⟩
      · exact h.answer i hlock y hy
      · exact (hown (RelayedRequest.answering_of_turn hturn (.inl hf))).1
    have hclean : ∀ j q, s.server.lock = some (.session j) → s.request = some q → q.cmd ≠ hidCancel →
        node.Clean (.of q) s.exchange := by
      intro j q _ hq _
      cases hfirst.symm.trans hq
      exact ((h.clean i first hlock hfirst hcmd).read hread).1
    have hsame : Sound { s with node := node, answer := s.answerWith x written } :=
      h.ofRead hkeeps hclean (fun _ _ => hanswer) (h.inside_of_keeps hkeeps)
    cases hcase : (if ok then turn else .throws) with
    | goesOn phase =>
      simp only [hcase] at hstep
      cases hstep
      refine h.ofRead hkeeps hclean (fun _ _ => hanswer) fun _ cid remaining sequence _ hrelay => ?_
      have hgoes : turn = .goesOn phase := by
        split at hcase
        · exact hcase
        · cases hcase
      exact (hown (RelayedRequest.answering_of_turn hturn (.inr ⟨cid, remaining, sequence, by rw [hgoes, hrelay]⟩))).2
    | returns =>
      simp only [hcase] at hstep
      obtain ⟨c, hc, rfl⟩ := Option.map_eq_some_iff.mp hstep
      have hreturns : turn = .returns := by
        split at hcase
        · exact hcase
        · cases hcase
      rw [hreturns] at hturn
      -- It returns only behind a packet it has forwarded.
      have hforwards := RelayedRequest.forwards_of_returns hturn
      obtain ⟨u, hu, hc⟩ := Option.bind_eq_some_iff.mp hc
      cases ht.symm.trans hu
      simp only [hphase, Option.some.injEq] at hc
      subst hc
      have hfree : Sound { s with
          node := node
          answer := s.answerWith x written
          server := s.server.unlock.setSession i { t with phase := .idle none } } :=
        hsame.ofSession hlock (.inr rfl) rfl (fun h => h.elim)
      refine hfree.relayedAs rfl ⟨?_, hanswer, ⟨first, h.asked _ _ hlock hfirst⟩, fun who q hmem => ?_⟩
      · show s.answerWith x written ≠ []
        rw [answerWith_forwards hforwards]
        simp
      · exact ((h.wrote who _ q hmem).2 rfl _ hlock).symm
    | throws =>
      simp only [hcase] at hstep
      obtain ⟨c, hc, rfl⟩ := Option.map_eq_some_iff.mp hstep
      rcases LanServer.step_lock rfl hc with hlets | htakes
      · exact hsame.letsBe hlets
      · have hfree := htakes.free
        rw [show _ = some _ from hlock] at hfree
        cases hfree
  · cases hstep

theorem Sound.step (h : s.Sound) (hok : s.Fresh a) (hstep : s.step P J autoAuthorize a = some s') : s'.Sound := by
  cases a with
  | server b =>
    simp only [RelaySystem.step] at hstep
    split at hstep
    · cases hstep
    · next hb =>
      obtain ⟨c, hc, rfl⟩ := Option.map_eq_some_iff.mp hstep
      exact h.server (eq_false_of_ne_true hb) hc
  | write i => exact h.writeStep hok hstep
  | read i ok => exact h.readStep hstep
  | providerWrite p =>
    simp only [RelaySystem.step] at hstep
    split at hstep
    · next hlock =>
      refine h.write hlock (fun _ i hi => by cases hi) (fun i t hi ht => ?_) hstep
      have heq := (h.held i t hi ht).1
      rw [hlock] at heq
      cases heq
    · cases hstep
  | providerRead =>
    simp only [RelaySystem.step] at hstep
    split at hstep
    · next hlock =>
      obtain ⟨⟨x, node⟩, hread, rfl⟩ := Option.map_eq_some_iff.mp hstep
      refine h.ofNode (h.ordered.read hread) fun i p hi => ?_
      rw [hlock] at hi
      cases hi
    · cases hstep
  | drive b =>
    obtain ⟨node, hnode, rfl⟩ := Option.map_eq_some_iff.mp hstep
    exact h.ofNode (h.ordered.drive hnode) fun i p hi hp hcmd =>
      (h.clean i p hi hp hcmd).drive h.ordered (hok i p hi hp hcmd) hnode
  | push =>
    obtain ⟨node, hnode, rfl⟩ := Option.map_eq_some_iff.mp hstep
    exact h.ofNode (h.ordered.push hnode) fun i p hi hp hcmd => (h.clean i p hi hp hcmd).push hnode

/-- A session whose client begins with this packet, up to its first write. -/
def begins (i : Nat) (first : Packet) : List RelayAction :=
  [.server (.connect (some LanServer.sampleAddress)), .server (.receive i 1 first.toList), .server (.takePending i),
    .server (.takeOver i), .server (.lock i), .write i]

/-- The worker is idle, and only a CANCEL waits for it on the request's channel. -/
def quiet (request : RelayedRequest) (d : Node) : Bool :=
  (d.txPackets.toList ++ d.sending).all (fun x => !request.takes x.packet) &&
    (match d.link.stage .ctap with | .idle => true | _ => false) &&
    d.waiting.all fun x => x.packet.cid != request.cid ||
      (x.packet.starts && x.packet.cmd == hidCancel && decide (x.packet.expected ≤ maxMsg))

def quietly (s : RelaySystem) : RelayAction → Bool
  | .write i => s.request.isSome || (s.nextPacket i).all fun p => p.cmd == hidCancel || quiet (.of p) s.node
  | .drive (.take _ allocOk) => allocOk
  | _ => true

end RelaySystem

end AbkFido
