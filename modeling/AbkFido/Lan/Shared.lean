/-
What the LAN sessions share: the transport lock, and the two queues of
/dev/abk_fido_ctap.

The sessions write packets into the node and read packets from it one at a
time, and so does the driver, in any order. So `relayResponse` takes a turn
for each packet here; over a whole queue its turns are the function of the
list (`relayFrom_between`).

For the theorems each packet has the number of an exchange: of the one it was
written in, or, where the driver sent it, of the one that the packet its
worker had taken was written in. An exchange begins when the lock is taken.
-/
import AbkFido.Lan.Relay
import AbkFido.Lockstep

namespace AbkFido

/-! ## `relayResponse`, a packet at a time -/

/-- Where `relayResponse` is before it reads. -/
inductive RelayPhase
  /-- The next packet is taken for the first of a message. -/
  | between
  /-- So many bytes of a message are to come. -/
  | inside (cid : UInt32) (forward : Bool) (remaining sequence : Nat)

inductive RelayTurn
  | goesOn (phase : RelayPhase)
  | returns
  | throws

namespace RelayedRequest

/-- In a message, or behind it. -/
def goOn (cid : UInt32) (forward : Bool) (remaining sequence : Nat) : RelayTurn :=
  if remaining ≠ 0 then .goesOn (.inside cid forward remaining sequence)
  else if forward then .returns
  else .goesOn .between

/-- What it makes of a packet, and what it writes. -/
def turn (request : RelayedRequest) (p : Packet) : RelayPhase → RelayTurn × List Packet
  | .between =>
    if !p.starts then (.goesOn .between, [])
    else if maxMsg < p.expected then (.throws, [])
    else
      let own := request.answeredBy p
      let written := if own then [p] else []
      if p.cmd = hidKeepalive then (.goesOn .between, written)
      else (goOn p.cid own (p.expected - min p.expected 57) 0, written)
  | .inside cid forward remaining sequence =>
    if p.starts then (.goesOn (.inside cid forward remaining sequence), if request.keepsAlive p then [p] else [])
    else if p.cid ≠ cid ∨ p.header.toNat ≠ sequence then (.throws, [])
    else (goOn cid forward (remaining - min remaining 59) (sequence + 1), if forward then [p] else [])

/-- Turn after turn: what is written, and what is left to read once it returns. -/
def relayFrom (request : RelayedRequest) : RelayPhase → List Packet → List Packet × Option (List Packet)
  | _, [] => ([], none)
  | phase, p :: packets =>
    match request.turn p phase with
    | (.returns, written) => (written, some packets)
    | (.throws, written) => (written, none)
    | (.goesOn phase, written) => (relayFrom request phase packets).map (written ++ ·) id

variable {request : RelayedRequest} {packets : List Packet}

/-- What comes of the rest of a message. -/
def afterRest (request : RelayedRequest) (forward : Bool) :
    List Packet × Option (List Packet) → List Packet × Option (List Packet)
  | (more, none) => (more, none)
  | (more, some left) => if forward then (more, some left) else (request.relayFrom .between left).map (more ++ ·) id

theorem afterRest_append (forward : Bool) (written : List Packet) (rest : List Packet × Option (List Packet)) :
    request.afterRest forward (rest.map (written ++ ·) id) = (request.afterRest forward rest).map (written ++ ·) id := by
  obtain ⟨more, left⟩ := rest
  cases left with
  | none => rfl
  | some left => cases forward <;> simp [afterRest, Prod.map]

/-- After a packet of a message it is in the message, or behind it. -/
theorem relayFrom_goOn {p : Packet} {phase : RelayPhase} {cid : UInt32} {forward : Bool} {remaining sequence : Nat}
    {written : List Packet} (hturn : request.turn p phase = (goOn cid forward remaining sequence, written))
    (hinside : remaining ≠ 0 → request.relayFrom (.inside cid forward remaining sequence) packets =
      request.afterRest forward (request.relayRest cid forward remaining sequence packets)) :
    request.relayFrom phase (p :: packets) =
      request.afterRest forward ((request.relayRest cid forward remaining sequence packets).map (written ++ ·) id) := by
  rw [relayFrom, hturn, afterRest_append]
  by_cases hmore : remaining = 0
  · have hrest : request.relayRest cid forward remaining sequence packets = ([], some packets) := by
      cases packets <;> simp [relayRest, hmore]
    rw [goOn, if_neg (not_not_intro hmore), hrest]
    cases forward <;> simp [afterRest, Prod.map]
  · rw [goOn, if_pos hmore]
    exact congrArg (Prod.map (written ++ ·) id) (hinside hmore)

theorem relayFrom_inside (cid : UInt32) (forward : Bool) (remaining sequence : Nat) (hmore : remaining ≠ 0) :
    request.relayFrom (.inside cid forward remaining sequence) packets =
      request.afterRest forward (request.relayRest cid forward remaining sequence packets) := by
  induction packets generalizing remaining sequence with
  | nil => rw [relayFrom, relayRest, if_neg hmore, afterRest]
  | cons p packets ih =>
    rw [relayRest, if_neg hmore]
    by_cases hp : p.starts = true
    · rw [if_pos hp, relayFrom, turn, if_pos hp]
      simp only [ih remaining sequence hmore, ← afterRest_append]
      congr 1
      split <;> simp [Prod.map]
    by_cases hother : p.cid ≠ cid ∨ p.header.toNat ≠ sequence
    · rw [if_neg hp, if_pos hother, relayFrom, turn, if_neg hp, if_pos hother, afterRest]
    · rw [if_neg hp, if_neg hother]
      rw [relayFrom_goOn (by rw [turn, if_neg hp, if_neg hother]) (ih _ _)]
      congr 1
      cases forward <;> simp [Prod.map]

theorem relayFrom_message {first : Packet} (hp : first.starts = true) (hle : first.expected ≤ maxMsg)
    (hcmd : first.cmd ≠ hidKeepalive) : request.relayFrom .between (first :: packets) =
      request.afterRest (request.answeredBy first)
        ((request.relayRest first.cid (request.answeredBy first) (first.expected - min first.expected 57) 0 packets).map
          ((if request.answeredBy first then [first] else []) ++ ·) id) := by
  refine relayFrom_goOn ?_ (relayFrom_inside _ _ _ _)
  simp [turn, hp, Nat.not_lt.mpr hle, hcmd]

/-- Its turns over a queue are `relayResponse` of the queue. -/
theorem relayFrom_between : request.relayFrom .between packets = request.relayResponse packets := by
  induction packets using relayResponse.induct request with
  | case1 => rw [relayFrom, relayResponse]
  | case2 first packets hp ih =>
    rw [relayFrom, relayResponse, turn, if_pos hp, if_pos hp, ← ih]
    simp [Prod.map]
  | case3 first packets hp hlong => rw [relayFrom, relayResponse, turn, if_neg hp, if_neg hp, if_pos hlong, if_pos hlong]
  | case4 first packets hp hlong hcmd _ _ _ ih =>
    rw [Bool.not_eq_true', Bool.not_eq_false] at hp
    rw [relayResponse_keepalive hp (Nat.le_of_not_lt hlong) hcmd, ← ih, relayFrom, turn]
    simp [hp, hlong, hcmd, Prod.map]
  | case5 first packets hp hlong own hcmd more hrest =>
    rw [relayResponse, if_neg hp, if_neg hlong]
    rw [Bool.not_eq_true', Bool.not_eq_false] at hp
    simp only [if_neg hcmd]
    split
    · next hnone =>
      cases hrest.symm.trans hnone
      rw [relayFrom_message hp (Nat.le_of_not_lt hlong) hcmd, hrest]
      rfl
    · next hsome => cases hrest.symm.trans hsome
  | case6 first packets hp hlong own hcmd more left hrest hown =>
    rw [Bool.not_eq_true', Bool.not_eq_false] at hp
    rw [relayFrom_message hp (Nat.le_of_not_lt hlong) hcmd, relayResponse_message hp (Nat.le_of_not_lt hlong) hcmd hrest, hrest]
    rw [show request.answeredBy first = true from hown]
    rfl
  | case7 first packets hp hlong own hcmd more left hrest hown _ _ _ =>
    rename_i ih
    rw [Bool.not_eq_true', Bool.not_eq_false] at hp
    rw [Bool.not_eq_true] at hown
    rw [relayFrom_message hp (Nat.le_of_not_lt hlong) hcmd, relayResponse_message hp (Nat.le_of_not_lt hlong) hcmd hrest, hrest]
    rw [show request.answeredBy first = false from hown, ← ih]
    rfl

end RelayedRequest

/-! ## The node -/

/-- A packet in one of the node's queues, and its exchange. -/
structure Tagged where
  exchange : Nat
  packet : Packet
  deriving DecidableEq

structure Node where
  link : Link
  /-- What `rx_packets` holds, the oldest first. -/
  waiting : List Tagged
  /-- The exchange of the packet the worker took last. -/
  serving : Nat
  /-- What the worker has still to push of the message it sends. -/
  sending : List Tagged
  txPackets : RingBuffer Tagged queueDepth

def LinkEvent.sent? : LinkEvent → Option Msg
  | .sent m => some m
  | _ => none

/-- What a step has sent on the node's transport. -/
def Link.sentSince (old new : Link) : List Msg :=
  ((new.log .ctap).take ((new.log .ctap).length - (old.log .ctap).length)).reverse.filterMap LinkEvent.sent?

/-- The packets of messages that are sent for an exchange. -/
def sentFor (exchange : Nat) (ms : List Msg) : List Tagged :=
  (ms.flatMap fun m => hidPackets m.cid m.cmd m.data).map (⟨exchange, ·⟩)

namespace Node

def boot (file : File) (clock : Nat) : Node where
  link := .boot file clock
  waiting := []
  serving := 0
  sending := []
  txPackets := .empty ⟨0, zeros 64⟩

section
variable (P : Platform)

/-- `abk_fido_user_write`; `none`: there is no room. -/
def write (exchange : Nat) (p : Packet) (d : Node) : Option Node :=
  ((d.link.rx .ctap).push p).bind fun _ =>
    (d.link.step P (.arrive .ctap p)).map fun link => { d with link := link, waiting := d.waiting ++ [⟨exchange, p⟩] }

/-- `abk_fido_user_read` -/
def read (d : Node) : Option (Tagged × Node) :=
  d.txPackets.pop.map fun (x, tx) => (x, { d with txPackets := tx })

/-- A step of the driver. A worker takes no packet before it has pushed the
last one of what it sends; a keepalive is one packet. -/
def drive (a : LinkAction) (d : Node) : Option Node :=
  match a with
  | .arrive .ctap _ => none
  | .take .ctap _ =>
    match d.waiting, d.sending with
    | x :: waiting, [] =>
      (d.link.step P a).map fun link =>
        { d with
          link := link
          waiting := waiting
          serving := x.exchange
          sending := sentFor x.exchange (d.link.sentSince link) }
    | _, _ => none
  | .pace =>
    (d.link.step P a).map fun link =>
      { d with link := link, txPackets := d.txPackets.pushAll (sentFor d.serving (d.link.sentSince link)) }
  | _ =>
    (d.link.step P a).map fun link =>
      { d with link := link, sending := d.sending ++ sentFor d.serving (d.link.sentSince link) }

/-- The worker pushes its next packet; what finds no room is lost. -/
def push (d : Node) : Option Node :=
  match d.sending with
  | [] => none
  | x :: sending => some { d with sending := sending, txPackets := (d.txPackets.push x).getD d.txPackets }

end

end Node

/-! ## The sessions and the node -/

inductive RelayEvent
  /-- A packet was written into the node. -/
  | wrote (who : LockHolder) (exchange : Nat) (p : Packet)
  /-- `relayResponse` returned, and these packets are the message it forwarded. -/
  | relayed (i exchange : Nat) (answer : List Tagged)
  deriving DecidableEq

structure RelaySystem where
  server : LanServer
  node : Node
  /-- How often the transport lock was taken. -/
  exchange : Nat
  /-- The first packet that was written in the exchange. -/
  request : Option Packet
  relay : RelayPhase
  /-- What `relayResponse` has forwarded of the answer. -/
  answer : List Tagged
  /-- The newest first. -/
  log : List RelayEvent

inductive RelayAction
  /-- A step of the server that does not use the endpoint. -/
  | server (a : LanAction)
  /-- `writePacket` of a session. -/
  | write (i : Nat)
  /-- `relayResponse` reads a packet; `ok`: it gets it, and can write to its socket. -/
  | read (i : Nat) (ok : Bool)
  | providerWrite (p : Packet)
  | providerRead
  | drive (a : LinkAction)
  | push

/-- Steps of a session that are steps of the endpoint too. -/
def LanAction.usesEndpoint : LanAction → Bool
  | .write _ | .answered _ => true
  | _ => false

namespace RelaySystem

def boot (file : File) (clock : Nat) : RelaySystem where
  server := .init
  node := .boot file clock
  exchange := 0
  request := none
  relay := .between
  answer := []
  log := []

/-- An exchange begins when the lock is taken. -/
def withServer (c : LanServer) (s : RelaySystem) : RelaySystem :=
  if s.server.lock = none ∧ c.lock ≠ none then
    { s with server := c, exchange := s.exchange + 1, request := none, relay := .between, answer := [] }
  else { s with server := c }

/-- The packet the session writes next. -/
def nextPacket (i : Nat) (s : RelaySystem) : Option Packet :=
  (s.server.sessions i).bind fun c => match c.phase with
    | .writing _ (packet :: _) => if h : packet.length = 64 then some ⟨packet, h⟩ else none
    | _ => none

/-- A packet that is written is one of the answer, but for keepalives. -/
def answerWith (x : Tagged) (written : List Packet) (s : RelaySystem) : List Tagged :=
  if written = [] ∨ x.packet.starts ∧ x.packet.cmd = hidKeepalive then s.answer else s.answer ++ [x]

section
variable (P : Platform) (J : OrgJson) (autoAuthorize : Bool)

def write (who : LockHolder) (p : Packet) (s : RelaySystem) : Option RelaySystem :=
  (s.node.write P s.exchange p).map fun node =>
    { s with
      node := node
      request := s.request <|> some p
      log := .wrote who s.exchange p :: s.log }

/-- What comes of a packet that was read. -/
def relayed (i : Nat) (turn : RelayTurn) (s : RelaySystem) : Option RelaySystem :=
  match turn with
  | .goesOn phase => some { s with relay := phase }
  | .returns => (s.server.step J autoAuthorize (.answered i)).map fun c =>
      { s with server := c, log := .relayed i s.exchange s.answer :: s.log }
  | .throws => (s.server.step J autoAuthorize (.fail i)).map fun c => { s with server := c }

def step (s : RelaySystem) : RelayAction → Option RelaySystem
  | .server a => if a.usesEndpoint then none else (s.server.step J autoAuthorize a).map fun c => s.withServer c
  | .write i =>
    (s.nextPacket i).bind fun p => (s.write P (.session i) p).bind fun s' =>
      (s.server.step J autoAuthorize (.write i)).map fun c => { s' with server := c }
  | .read i ok =>
    (s.server.sessions i).bind fun c => match c.phase, s.request with
      | .relaying, some first => s.node.read.bind fun (x, node) =>
        let (turn, written) := (RelayedRequest.of first).turn x.packet s.relay
        { s with node := node, answer := s.answerWith x written }.relayed J autoAuthorize i (if ok then turn else .throws)
      | _, _ => none
  | .providerWrite p => if s.server.lock = some .provider then s.write P .provider p else none
  | .providerRead =>
    if s.server.lock = some .provider then s.node.read.map fun (_, node) => { s with node := node } else none
  | .drive a => (s.node.drive P a).map fun node => { s with node := node }
  | .push => s.node.push.map fun node => { s with node := node }

end

end RelaySystem

end AbkFido
