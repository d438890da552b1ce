/-
What `LanFidoServer.relayResponse` forwards of the driver's one queue.

It reads until a message that answers the request has gone through whole.
Before that it may meet what an older session left: continuation packets,
keepalives and messages that answer something else, all read and dropped but
for keepalives on the request's cid. So the desktop gets keepalives and one
message, packet by packet as the driver sent it, and the queue is left right
behind it (`relayResponse_iff`).
-/
import AbkFido.Lan.Requests

namespace AbkFido

/-- What `relayResponse` knows of the request. -/
structure RelayedRequest where
  cid : UInt32
  command : UInt8
  length : Nat
  nonce : List UInt8

namespace RelayedRequest

/-- The request that begins with this packet. -/
def of (first : Packet) : RelayedRequest := ⟨first.cid, first.cmd, first.expected, first.initData.take 8⟩

/-- `matches` -/
def answeredBy (request : RelayedRequest) (first : Packet) : Bool :=
  let initNonceMatches := request.cid != cidBroadcast || request.command != hidInit || first.cmd == hidError ||
    (8 ≤ request.length && first.initData.take 8 == request.nonce)
  let commandMatches := first.cmd == request.command || first.cmd == hidKeepalive || first.cmd == hidError
  first.cid == request.cid && initNonceMatches && commandMatches

/-- A keepalive on the request's cid. -/
def keepsAlive (request : RelayedRequest) (p : Packet) : Bool := p.starts && p.cid == request.cid && p.cmd == hidKeepalive

section
variable (request : RelayedRequest)

/-- The rest of a message, with so many bytes to come: what is written, and
what is left to read. `none` where it throws, be it that nothing more can be
read. -/
def relayRest (cid : UInt32) (forward : Bool) : Nat → Nat → List Packet → List Packet × Option (List Packet)
  | remaining, _, [] => ([], if remaining = 0 then some [] else none)
  | remaining, sequence, p :: packets =>
    if remaining = 0 then ([], some (p :: packets))
    else if p.starts then
      let (written, left) := relayRest cid forward remaining sequence packets
      (if request.keepsAlive p then p :: written else written, left)
    else if p.cid ≠ cid ∨ p.header.toNat ≠ sequence then ([], none)
    else
      let (written, left) := relayRest cid forward (remaining - min remaining 59) (sequence + 1) packets
      (if forward then p :: written else written, left)

theorem relayRest_length (cid : UInt32) (forward : Bool) (remaining sequence : Nat) (packets : List Packet) {left : List Packet}
    (h : (request.relayRest cid forward remaining sequence packets).2 = some left) : left.length ≤ packets.length := by
  induction packets generalizing remaining sequence with
  | nil =>
    simp only [relayRest] at h
    split at h <;> cases h
    exact Nat.le_refl _
  | cons p packets ih =>
    simp only [relayRest] at h
    split at h
    · cases h
      exact Nat.le_refl _
    split at h
    · exact Nat.le_succ_of_le (ih _ _ h)
    split at h
    · cases h
    · exact Nat.le_succ_of_le (ih _ _ h)

/-- What is written, and what is left to read. -/
def relayResponse : List Packet → List Packet × Option (List Packet)
  | [] => ([], none)
  | first :: packets =>
    if !first.starts then relayResponse packets
    else if maxMsg < first.expected then ([], none)
    else
      let own := request.answeredBy first
      let written := if own then [first] else []
      if first.cmd = hidKeepalive then
        let (more, left) := relayResponse packets
        (written ++ more, left)
      else
        match _hrest : request.relayRest first.cid own (first.expected - min first.expected 57) 0 packets with
        | (more, none) => (written ++ more, none)
        | (more, some left) =>
          if own then (written ++ more, some left)
          else
            let (after, left) := relayResponse left
            (written ++ more ++ after, left)
termination_by packets => packets.length
decreasing_by
  · simp
  · simp
  · have := request.relayRest_length _ _ _ _ _ (congrArg Prod.snd _hrest)
    simp only [List.length_cons]
    omega

end

/-! ## One message -/

/-- Packets are read up to the last one that goes on with a message. -/
def Ends (body : List Packet) : Prop := ∀ p ∈ body.getLast?, p.starts = false

/-- What is forwarded while a message goes through. -/
def forwarded (request : RelayedRequest) (forward : Bool) (body : List Packet) : List Packet :=
  body.filter fun p => if p.starts then request.keepsAlive p else forward

/-- The packets of a message, without those that begin another. -/
def conts (body : List Packet) : List Packet := body.filter fun p => !p.starts

variable {request : RelayedRequest} {init : Packet} {read packets left written : List Packet} {forward : Bool}

theorem ends_cons {p : Packet} {body : List Packet} : Ends (p :: body) ↔ if body = [] then p.starts = false else Ends body := by
  cases body with
  | nil => simp [Ends]
  | cons q body => simp [Ends, List.getLast?_cons_cons]

/-- Nothing is read for the sake of packets that begin another message. -/
theorem Ends.eq_nil {body : List Packet} (h : Ends body) (hconts : conts body = []) : body = [] := by
  by_contra hne
  have hlast := h (body.getLast hne) (by simp [List.getLast?_eq_getLast_of_ne_nil hne])
  have hmem : body.getLast hne ∈ conts body := List.mem_filter.mpr ⟨List.getLast_mem hne, by simp [hlast]⟩
  rw [hconts] at hmem
  cases hmem

theorem remaining_eq_zero {n : Nat} : init.expected - (57 + 59 * n) = 0 ↔ contCount init.expected ≤ n := by
  unfold contCount
  omega

theorem remaining_next {n : Nat} : init.expected - (57 + 59 * n) - min (init.expected - (57 + 59 * n)) 59 =
    init.expected - (57 + 59 * (n + 1)) := by omega

theorem conts_cons_starts {p : Packet} (hp : p.starts = true) (body : List Packet) : conts (p :: body) = conts body := by
  simp [conts, hp]

theorem conts_cons_cont {p : Packet} (hp : p.starts = false) (body : List Packet) : conts (p :: body) = p :: conts body := by
  simp [conts, hp]

theorem forwarded_cons_starts {p : Packet} (hp : p.starts = true) (body : List Packet) : request.forwarded forward (p :: body) =
    if request.keepsAlive p then p :: request.forwarded forward body else request.forwarded forward body := by
  simp only [forwarded, List.filter_cons, hp, if_true]

theorem forwarded_cons_cont {p : Packet} (hp : p.starts = false) (body : List Packet) : request.forwarded forward (p :: body) =
    if forward then p :: request.forwarded forward body else request.forwarded forward body := by
  simp only [forwarded, List.filter_cons, hp, Bool.false_eq_true, if_false]

/-- A continuation packet is the next one of a message. -/
theorem next_iff {p : Packet} (hlt : read.length < 128) :
    (p.cid = init.cid ∧ p.header = .ofNat read.length) ↔ ¬ (p.cid ≠ init.cid ∨ p.header.toNat ≠ read.length) := by
  rw [not_or, not_not, not_not, ← UInt8.toNat_inj, UInt8.toNat_ofNat', Nat.mod_eq_of_lt (by omega)]

/-- What goes through is what the message lacks. -/
theorem relayRest_body (hle : init.expected ≤ maxMsg) (hnum : Numbered init.cid read) (hmost : read.length ≤ contCount init.expected)
    (h : request.relayRest init.cid forward (init.expected - (57 + 59 * read.length)) read.length packets = (written, some left)) :
    ∃ body, packets = body ++ left ∧ Ends body ∧ Numbered init.cid (read ++ conts body) ∧
      (read ++ conts body).length = contCount init.expected ∧ written = request.forwarded forward body := by
  have hdone : contCount init.expected ≤ read.length → Numbered init.cid (read ++ conts []) ∧
      (read ++ conts []).length = contCount init.expected := by
    intro hall
    rw [conts, List.filter_nil, List.append_nil]
    exact ⟨hnum, Nat.le_antisymm hmost hall⟩
  induction packets generalizing read written with
  | nil =>
    simp only [relayRest, Prod.mk.injEq] at h
    split at h <;> obtain ⟨rfl, h⟩ := h <;> cases h
    next hrem => exact ⟨[], rfl, nofun, (hdone (remaining_eq_zero.mp hrem)).1, (hdone (remaining_eq_zero.mp hrem)).2, rfl⟩
  | cons p packets ih =>
    by_cases hall : contCount init.expected ≤ read.length
    · rw [relayRest, if_pos (remaining_eq_zero.mpr hall)] at h
      cases h
      exact ⟨[], rfl, nofun, (hdone hall).1, (hdone hall).2, rfl⟩
    rw [relayRest, if_neg (remaining_eq_zero.not.mpr hall)] at h
    cases hp : p.starts with
    | true =>
      simp only [hp, if_true, Prod.mk.injEq] at h
      obtain ⟨body, rfl, hends, hnum', hlen, hwritten⟩ := ih hnum hmost (Prod.ext rfl h.2) hdone
      refine ⟨p :: body, rfl, ends_cons.mpr ?_, ?_, ?_, ?_⟩
      · split
        · next hnil =>
          rw [hnil, conts, List.filter_nil, List.append_nil] at hlen
          exact absurd (Nat.le_of_eq hlen.symm) hall
        · exact hends
      · rw [conts_cons_starts hp]
        exact hnum'
      · rw [conts_cons_starts hp]
        exact hlen
      · rw [forwarded_cons_starts hp, ← hwritten]
        exact h.1.symm
    | false =>
      simp only [hp, Bool.false_eq_true, if_false] at h
      split at h
      · cases h
      next hgood =>
      obtain ⟨hcid, hseq⟩ := (next_iff (lt_of_lt_of_le (Nat.lt_of_not_le hall) (RelayRequest.contCount_le hle))).mpr hgood
      have hnext : (read ++ [p]).length = read.length + 1 := by simp
      have hnum' : Numbered init.cid (read ++ [p]) := numbered_concat.mpr ⟨hnum, hcid, hp, hseq⟩
      have hmost' : (read ++ [p]).length ≤ contCount init.expected := by omega
      simp only [remaining_next, ← hnext, Prod.mk.injEq] at h
      obtain ⟨body, rfl, hends, hnum'', hlen, hwritten⟩ := ih hnum' hmost' (Prod.ext rfl h.2) (fun hall => by
        rw [conts, List.filter_nil, List.append_nil]
        exact ⟨hnum', Nat.le_antisymm hmost' hall⟩)
      rw [← List.append_cons] at hnum'' hlen
      refine ⟨p :: body, rfl, ends_cons.mpr ?_, ?_, ?_, ?_⟩
      · split
        · exact hp
        · exact hends
      · rw [conts_cons_cont hp]
        exact hnum''
      · rw [conts_cons_cont hp]
        exact hlen
      · rw [forwarded_cons_cont hp, ← hwritten]
        exact h.1.symm

/-- What the message lacks goes through. -/
theorem relayRest_append {body : List Packet} (hle : init.expected ≤ maxMsg) (hends : Ends body)
    (hnum : Numbered init.cid (read ++ conts body)) (hlen : (read ++ conts body).length = contCount init.expected) :
    request.relayRest init.cid forward (init.expected - (57 + 59 * read.length)) read.length (body ++ left) =
      (request.forwarded forward body, some left) := by
  induction body generalizing read with
  | nil =>
    rw [conts, List.filter_nil, List.append_nil] at hlen
    have hrem := remaining_eq_zero.mpr (Nat.le_of_eq hlen.symm)
    cases left <;> rw [List.nil_append, relayRest, if_pos hrem] <;> rfl
  | cons p body ih =>
    have hmore : ¬ contCount init.expected ≤ read.length := by
      intro hall
      have hnil : conts (p :: body) = [] := List.length_eq_zero_iff.mp (by rw [List.length_append] at hlen; omega)
      cases hends.eq_nil hnil
    rw [List.cons_append, relayRest, if_neg (remaining_eq_zero.not.mpr hmore)]
    cases hp : p.starts with
    | true =>
      rw [conts_cons_starts hp] at hnum hlen
      have hends' : Ends body := by
        rw [ends_cons] at hends
        split at hends
        · cases hp.symm.trans hends
        · exact hends
      simp only [if_true, ih hends' hnum hlen, forwarded_cons_starts hp]
    | false =>
      rw [conts_cons_cont hp] at hnum hlen
      rw [List.append_cons] at hnum hlen
      have hends' : Ends body := by
        rw [ends_cons] at hends
        split at hends
        · next hnil => rw [hnil]; nofun
        · exact hends
      obtain ⟨_, hcid, _, hseq⟩ := numbered_concat.mp hnum.of_append
      have hgood := (next_iff (lt_of_lt_of_le (Nat.lt_of_not_le hmore) (RelayRequest.contCount_le hle))).mp ⟨hcid, hseq⟩
      have hnext : (read ++ [p]).length = read.length + 1 := by simp
      have hrest := ih hends' hnum hlen
      rw [hnext] at hrest
      simp only [Bool.false_eq_true, if_false, if_neg hgood, remaining_next, hrest, forwarded_cons_cont hp]

/-! ## What an older session left -/

/-- What is read before the answer, and what is written of it. -/
inductive Stale (request : RelayedRequest) : List Packet → List Packet → Prop
  | nil : Stale request [] []
  | stray {p : Packet} {stale written : List Packet} (hp : p.starts = false) (h : Stale request stale written) :
    Stale request (p :: stale) written
  | keepalive {p : Packet} {stale written : List Packet} (hp : p.starts = true) (hle : p.expected ≤ maxMsg)
    (hcmd : p.cmd = hidKeepalive) (h : Stale request stale written) :
    Stale request (p :: stale) (if request.answeredBy p then p :: written else written)
  | message {m : Msg} {init : Packet} {body stale written : List Packet} (hm : m.CarriedBy init (conts body))
    (hle : m.data.length ≤ maxMsg) (hcmd : m.cmd ≠ hidKeepalive) (hends : Ends body)
    (hother : request.answeredBy init = false) (h : Stale request stale written) :
    Stale request (init :: body ++ stale) (request.forwarded false body ++ written)

/-- The message that answers the request. -/
structure Answers (request : RelayedRequest) (m : Msg) (init : Packet) (body : List Packet) : Prop where
  carriedBy : m.CarriedBy init (conts body)
  le : m.data.length ≤ maxMsg
  answeredBy : request.answeredBy init = true
  cmd : m.cmd ≠ hidKeepalive
  ends : Ends body

theorem remaining_first : init.expected - min init.expected 57 = init.expected - (57 + 59 * ([] : List Packet).length) := by
  rw [List.length_nil]
  omega

/-- A message whose first packet has been read. -/
theorem relayRest_message (hle : init.expected ≤ maxMsg) (hp : init.starts = true)
    (h : request.relayRest init.cid forward (init.expected - min init.expected 57) 0 packets = (written, some left)) :
    ∃ (body : List Packet) (m : Msg), packets = body ++ left ∧ Ends body ∧ m.CarriedBy init (conts body) ∧
      m.data.length ≤ maxMsg ∧ m.cmd = init.cmd ∧ written = request.forwarded forward body := by
  rw [remaining_first] at h
  obtain ⟨body, hpackets, hends, hnum, hlen, hwritten⟩ := relayRest_body hle (numbered_nil _) (Nat.zero_le _) h
  rw [List.nil_append] at hnum hlen
  have hm := carriedBy_of_complete hp hnum hlen
  exact ⟨body, _, hpackets, hends, hm, by rw [← hm.expected]; exact hle, rfl, hwritten⟩

theorem relayRest_carried {m : Msg} {body : List Packet} (hm : m.CarriedBy init (conts body)) (hle : m.data.length ≤ maxMsg)
    (hends : Ends body) : request.relayRest init.cid forward (init.expected - min init.expected 57) 0 (body ++ left) =
      (request.forwarded forward body, some left) := by
  rw [remaining_first]
  refine relayRest_append (by rw [hm.expected]; exact hle) hends ?_ ?_ <;> rw [List.nil_append]
  · rw [hm.cid]
    exact hm.numbered
  · rw [hm.expected]
    exact hm.length

/-! ## The whole of it -/

theorem relayResponse_stray {first : Packet} (hp : first.starts = false) :
    request.relayResponse (first :: packets) = request.relayResponse packets := by
  rw [relayResponse]
  simp [hp]

theorem relayResponse_keepalive {first : Packet} (hp : first.starts = true) (hle : first.expected ≤ maxMsg)
    (hcmd : first.cmd = hidKeepalive) : request.relayResponse (first :: packets) =
      ((if request.answeredBy first then [first] else []) ++ (request.relayResponse packets).1, (request.relayResponse packets).2) := by
  rw [relayResponse]
  simp [hp, Nat.not_lt.mpr hle, hcmd]

theorem relayResponse_message {first : Packet} (hp : first.starts = true) (hle : first.expected ≤ maxMsg)
    (hcmd : first.cmd ≠ hidKeepalive) {more : List Packet}
    (hrest : request.relayRest first.cid (request.answeredBy first) (first.expected - min first.expected 57) 0 packets =
      (more, some left)) :
    request.relayResponse (first :: packets) =
      if request.answeredBy first then (first :: more, some left)
      else (more ++ (request.relayResponse left).1, (request.relayResponse left).2) := by
  rw [relayResponse]
  simp only [hp, Bool.not_true, Bool.false_eq_true, if_false, if_neg (Nat.not_lt.mpr hle), if_neg hcmd]
  split
  · next hnone => cases (hnone.symm.trans hrest)
  next hsome =>
  cases hsome.symm.trans hrest
  cases request.answeredBy first <;> rfl

theorem relayResponse_split {stream : List Packet} (h : request.relayResponse stream = (written, some left)) :
    ∃ stale before m init body, stream = stale ++ (init :: body ++ left) ∧ Stale request stale before ∧
      Answers request m init body ∧ written = before ++ init :: request.forwarded true body := by
  induction stream using relayResponse.induct request generalizing written with
  | case1 =>
    rw [relayResponse] at h
    cases h
  | case2 first packets hp ih =>
    rw [Bool.not_eq_true'] at hp
    rw [relayResponse_stray hp] at h
    obtain ⟨stale, before, m, init, body, rfl, hstale, hanswers, hwritten⟩ := ih h
    exact ⟨first :: stale, before, m, init, body, rfl, hstale.stray hp, hanswers, hwritten⟩
  | case3 first packets hp hlong =>
    rw [relayResponse, if_neg hp, if_pos hlong] at h
    cases h
  | case4 first packets hp hlong hcmd _ _ _ ih =>
    rw [Bool.not_eq_true', Bool.not_eq_false] at hp
    rw [relayResponse_keepalive hp (Nat.le_of_not_lt hlong) hcmd, Prod.mk.injEq] at h
    obtain ⟨stale, before, m, init, body, rfl, hstale, hanswers, hwritten⟩ := ih (Prod.ext rfl h.2)
    refine ⟨first :: stale, _, m, init, body, rfl, hstale.keepalive hp (Nat.le_of_not_lt hlong) hcmd, hanswers, ?_⟩
    rw [← h.1]
    rw [show (request.relayResponse _).1 = _ from hwritten]
    split <;> rfl
  | case5 first packets hp hlong own hcmd more =>
    rename_i hrest
    rw [relayResponse, if_neg hp, if_neg hlong] at h
    simp only [if_neg hcmd] at h
    split at h
    · cases h
    · next hsome => cases hsome.symm.trans hrest
  | case6 first packets hp hlong own hcmd more left' hrest =>
    rename_i hown
    rw [Bool.not_eq_true', Bool.not_eq_false] at hp
    obtain ⟨body, m, rfl, hends, hm, hle, hmcmd, rfl⟩ := relayRest_message (Nat.le_of_not_lt hlong) hp hrest
    rw [relayResponse_message hp (Nat.le_of_not_lt hlong) hcmd hrest, if_pos hown] at h
    cases h
    exact ⟨[], [], m, first, body, rfl, .nil, ⟨hm, hle, hown, hmcmd ▸ hcmd, hends⟩, by rw [hown]; rfl⟩
  | case7 first packets hp hlong own hcmd more left' hrest hown _ _ _ =>
    rename_i ih
    rw [Bool.not_eq_true', Bool.not_eq_false] at hp
    obtain ⟨body, m, rfl, hends, hm, hle, hmcmd, rfl⟩ := relayRest_message (Nat.le_of_not_lt hlong) hp hrest
    rw [relayResponse_message hp (Nat.le_of_not_lt hlong) hcmd hrest, if_neg hown, Prod.mk.injEq] at h
    obtain ⟨stale, before, m', init, body', rfl, hstale, hanswers, hwritten⟩ := ih (Prod.ext rfl h.2)
    rw [Bool.not_eq_true] at hown
    refine ⟨first :: body ++ stale, _, m', init, body', by simp, .message hm hle (hmcmd ▸ hcmd) hends hown hstale, hanswers, ?_⟩
    rw [← h.1, show (request.relayResponse _).1 = _ from hwritten, hown, List.append_assoc]

theorem Stale.relayResponse_append {stale before : List Packet} (h : Stale request stale before) (rest : List Packet) :
    request.relayResponse (stale ++ rest) = (before ++ (request.relayResponse rest).1, (request.relayResponse rest).2) := by
  induction h with
  | nil => rfl
  | stray hp _ ih => rw [List.cons_append, relayResponse_stray hp, ih]
  | keepalive hp hle hcmd _ ih =>
    rw [List.cons_append, relayResponse_keepalive hp hle hcmd, ih]
    split <;> rfl
  | @message m init body stale written hm hle hcmd hends hother _ ih =>
    have hrest : request.relayRest init.cid (request.answeredBy init) (init.expected - min init.expected 57) 0
        (body ++ (stale ++ rest)) = (request.forwarded false body, some (stale ++ rest)) := by
      rw [hother]
      exact relayRest_carried hm hle hends
    rw [List.append_assoc, List.cons_append, relayResponse_message hm.starts (by rw [hm.expected]; exact hle)
      (hm.cmd ▸ hcmd) hrest, hother, ih, List.append_assoc]
    rfl

/-- The desktop gets keepalives on its cid and then one message that answers
it, packet by packet. Nothing behind that message has been read. -/
theorem relayResponse_iff {stream : List Packet} : request.relayResponse stream = (written, some left) ↔
    ∃ stale before m init body, stream = stale ++ (init :: body ++ left) ∧ Stale request stale before ∧
      Answers request m init body ∧ written = before ++ init :: request.forwarded true body := by
  refine ⟨relayResponse_split, ?_⟩
  rintro ⟨stale, before, m, init, body, rfl, hstale, ⟨hm, hle, hown, hcmd, hends⟩, rfl⟩
  have hrest : request.relayRest init.cid (request.answeredBy init) (init.expected - min init.expected 57) 0 (body ++ left) =
      (request.forwarded true body, some left) := by
    rw [hown]
    exact relayRest_carried hm hle hends
  rw [hstale.relayResponse_append, List.cons_append, relayResponse_message hm.starts (by rw [hm.expected]; exact hle)
    (hm.cmd ▸ hcmd) hrest, if_pos hown]

end RelayedRequest

end AbkFido
