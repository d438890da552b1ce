/-
The frames of a LAN session, between `LanFidoServer` and the agent.

Both directions are sealed under the one key that the pairing code and the
two nonces of the handshake give. A frame carries nothing but its length, a
random nonce and the sealed bytes: no number, no direction. So the session
keeps out what neither side has sealed in it, and the order of frames is the
network's: a frame that is delivered twice is accepted twice, and one that is
sent back is accepted by its sender (`exists_replayed`). Order and number are
kept as far as the network keeps them (`kept_of_runs`).

AES-GCM under the session's key is a parameter. The network delivers frames
that were sent, or makes up others.
-/
import AbkFido.Basic
import AbkFido.Lib.CborForm
import AbkFido.Lib.Layout
import AbkFido.Lib.Run

namespace AbkFido

/-- The two ends of a session: `LanFidoServer` and the agent's `session`. -/
inductive Side
  | phone
  | agent
  deriving DecidableEq

def Side.other : Side → Side
  | .phone => .agent
  | .agent => .phone

/-- AES-GCM with a 128-bit tag, under one key. -/
structure Aead where
  encrypt : Bytes 12 → List UInt8 → List UInt8
  decrypt : Bytes 12 → List UInt8 → Option (List UInt8)
  decrypt_encrypt : ∀ nonce payload, decrypt nonce (encrypt nonce payload) = some payload

/-- A frame on the wire, whose length fits its field. -/
structure Frame where
  nonce : Bytes 12
  body : List UInt8
  fits : body.length < 2 ^ 32
  deriving DecidableEq

/-- What `writeFrame` and `write` send. -/
def Frame.bytes (f : Frame) : List UInt8 := CborForm.bigEndian 4 f.body.length ++ f.nonce.toList ++ f.body

/-- `len !in 1..4096` of a signed integer, and `n > 4096` of an unsigned one. -/
def Side.takes : Side → Nat → Bool
  | .phone, len => 1 ≤ len && len ≤ 4096
  | .agent, len => len ≤ 4096

/-- `readInt` -/
def readBe32 (input : List UInt8) : Nat := (input.take 4).foldl (fun v b => v * 256 + b.toNat) 0

section
variable (A : Aead)

/-- `readFrame` and `read`: the payload and the input after it. The session is
over if there is none. -/
def readFrame (s : Side) (input : List UInt8) : Option (List UInt8 × List UInt8) :=
  let len := readBe32 input
  if input.length < 4 ∨ ¬ s.takes len then none
  else if input.length < 16 + len then none
  else (A.decrypt ((Layout.Codec.bytes 12).dec (input.drop 4)) ((input.drop 16).take len)).map fun payload =>
    (payload, input.drop (16 + len))

end

/-- A frame one side has sent. -/
structure SentFrame where
  payload : List UInt8
  frame : Frame

structure LanSession where
  /-- The oldest first. -/
  sent : Side → List SentFrame
  accepted : Side → List (List UInt8)
  /-- The side has stopped reading. -/
  ended : Side → Bool
  /-- How far the other side's frames have been delivered, the last delivered one included. -/
  taken : Side → Nat

inductive NetworkAction
  | send (s : Side) (nonce : Bytes 12) (payload : List UInt8)
  /-- A frame that `origin` sent is delivered, to either side. -/
  | deliver (s origin : Side) (i : Nat)
  /-- A frame the network makes up. -/
  | inject (s : Side) (f : Frame)

namespace LanSession

def init : LanSession := ⟨fun _ => [], fun _ => [], fun _ => false, fun _ => 0⟩

section
variable (A : Aead)

/-- A side reads a frame. -/
def receive (s : Side) (f : Frame) (c : LanSession) : LanSession :=
  match readFrame A s f.bytes with
  | some (payload, _) => { c with accepted := Function.update c.accepted s (c.accepted s ++ [payload]) }
  | none => { c with ended := Function.update c.ended s true }

def step (c : LanSession) : NetworkAction → Option LanSession
  | .send s nonce payload =>
    if h : (A.encrypt nonce payload).length < 2 ^ 32 then
      some { c with sent := Function.update c.sent s (c.sent s ++ [⟨payload, ⟨nonce, A.encrypt nonce payload, h⟩⟩]) }
    else none
  | .deliver s origin i =>
    if c.ended s then none
    else (c.sent origin)[i]?.map fun e =>
      { c.receive A s e.frame with taken := if origin = s.other then Function.update c.taken s (i + 1) else c.taken }
  | .inject s f => if c.ended s then none else some (c.receive A s f)

/-- The network cannot forge: a frame that opens has been sealed in the session. -/
def NoForgery (c : LanSession) : NetworkAction → Prop
  | .inject _ f => A.decrypt f.nonce f.body ≠ none → ∃ s, ∃ e ∈ c.sent s, e.frame = f
  | _ => True

end

/-- The network drops frames and does nothing else to them. -/
def DropsOnly (c : LanSession) : NetworkAction → Prop
  | .send .. => True
  | .deliver s origin i => origin = s.other ∧ c.taken s ≤ i
  | .inject .. => False

/-- The network delivers every frame until it stops. -/
def InOrder (c : LanSession) : NetworkAction → Prop
  | .send .. => True
  | .deliver s origin i => origin = s.other ∧ i = c.taken s
  | .inject .. => False

instance (c : LanSession) : (a : NetworkAction) → Decidable (c.InOrder a)
  | .send .. => .isTrue trivial
  | .deliver s origin i => inferInstanceAs (Decidable (origin = s.other ∧ i = c.taken s))
  | .inject .. => .isFalse id

/-- What a side has sent. -/
def payloads (c : LanSession) (s : Side) : List (List UInt8) := (c.sent s).map SentFrame.payload

end LanSession

/-! ## Framing -/

theorem readBe32_bigEndian {n : Nat} (h : n < 2 ^ 32) (rest : List UInt8) :
    readBe32 (CborForm.bigEndian 4 n ++ rest) = n := by
  have hbytes : CborForm.bigEndian 4 n = [.ofNat (n / 256 ^ 3), .ofNat (n / 256 ^ 2), .ofNat (n / 256), .ofNat n] := by
    simp [CborForm.bigEndian, List.range_succ]
  rw [readBe32, List.take_left' (CborForm.length_bigEndian 4 n), hbytes]
  simp only [List.foldl_cons, List.foldl_nil, UInt8.toNat_ofNat']
  omega

variable {A : Aead}

/-- A frame is read back whole, whatever comes after, if the side takes a body
of that length and it opens. -/
theorem readFrame_bytes (s : Side) (f : Frame) (rest : List UInt8) : readFrame A s (f.bytes ++ rest) =
    if s.takes f.body.length then (A.decrypt f.nonce f.body).map fun payload => (payload, rest) else none := by
  have hhead := CborForm.length_bigEndian 4 f.body.length
  have hnonce : f.nonce.toList.length = 12 := f.nonce.toList_length
  have hinput : f.bytes ++ rest = CborForm.bigEndian 4 f.body.length ++ (f.nonce.toList ++ (f.body ++ rest)) := by
    simp only [Frame.bytes, List.append_assoc]
  have hlong : ¬ (f.bytes ++ rest).length < 16 + f.body.length := by
    rw [hinput, List.length_append, List.length_append, List.length_append, hhead, hnonce]
    omega
  have hfour : ¬ (f.bytes ++ rest).length < 4 := by omega
  have hafter : (f.bytes ++ rest).drop 4 = f.nonce.toList ++ (f.body ++ rest) := by
    rw [hinput, List.drop_left' hhead]
  have hbody : (f.bytes ++ rest).drop 16 = f.body ++ rest := by
    rw [show 16 = 4 + 12 from rfl, ← List.drop_drop, hafter, List.drop_left' hnonce]
  have hrest : (f.bytes ++ rest).drop (16 + f.body.length) = rest := by
    rw [← List.drop_drop, hbody, List.drop_left' rfl]
  have hdec : (Layout.Codec.bytes 12).dec (f.nonce.toList ++ (f.body ++ rest)) = f.nonce :=
    (Layout.Codec.bytes 12).dec_enc f.nonce (f.body ++ rest)
  have hclaimed : readBe32 (f.bytes ++ rest) = f.body.length := by rw [hinput, readBe32_bigEndian f.fits]
  rw [readFrame]
  simp only [hclaimed, hfour, hlong, false_or, if_false, hafter, hbody, hrest, hdec, List.take_left' rfl]
  cases s.takes f.body.length with
  | false => rfl
  | true => rfl

namespace LanSession

variable {c c' : LanSession} {a : NetworkAction}

/-- A side that reads a frame accepts what it opens to, or reads no more. -/
theorem receive_cases (A : Aead) (s : Side) (f : Frame) (c : LanSession) :
    (∃ payload, A.decrypt f.nonce f.body = some payload ∧
      c.receive A s f = { c with accepted := Function.update c.accepted s (c.accepted s ++ [payload]) }) ∨
    c.receive A s f = { c with ended := Function.update c.ended s true } := by
  have hread := readFrame_bytes (A := A) s f []
  rw [List.append_nil] at hread
  rw [receive, hread]
  split
  · next payload rest hsome =>
    split at hsome
    · obtain ⟨p, hp, heq⟩ := Option.map_eq_some_iff.mp hsome
      cases heq
      exact .inl ⟨payload, hp, rfl⟩
    · cases hsome
  · exact .inr rfl

theorem receive_sent (A : Aead) (s : Side) (f : Frame) (c : LanSession) : (c.receive A s f).sent = c.sent := by
  rcases receive_cases A s f c with ⟨payload, -, heq⟩ | heq
  · rw [heq]
  · rw [heq]

theorem mem_update_sent {s t : Side} {e e' : SentFrame}
    (h : e ∈ Function.update c.sent s (c.sent s ++ [e']) t) : e ∈ c.sent t ∨ t = s ∧ e = e' := by
  by_cases ht : t = s
  · subst ht
    rw [Function.update_self, List.mem_append, List.mem_singleton] at h
    exact h.imp_right fun heq => ⟨rfl, heq⟩
  · rw [Function.update_of_ne ht] at h
    exact .inl h

/-- Every frame that was sent opens to what it carries. -/
def Opens (A : Aead) (c : LanSession) : Prop := ∀ s, ∀ e ∈ c.sent s, A.decrypt e.frame.nonce e.frame.body = some e.payload

theorem Opens.step (h : c.Opens A) (hstep : c.step A a = some c') : c'.Opens A := by
  cases a with
  | send s nonce payload =>
    simp only [LanSession.step] at hstep
    split at hstep
    · cases hstep
      intro t e he
      rcases mem_update_sent he with he | ⟨-, rfl⟩
      · exact h t e he
      · exact A.decrypt_encrypt nonce payload
    · cases hstep
  | deliver s origin i =>
    simp only [LanSession.step] at hstep
    split at hstep
    · cases hstep
    · obtain ⟨e, -, rfl⟩ := Option.map_eq_some_iff.mp hstep
      intro t e' he'
      rw [show (_ : LanSession).sent = _ from receive_sent A s e.frame c] at he'
      exact h t e' he'
  | inject s f =>
    simp only [LanSession.step] at hstep
    split at hstep
    · cases hstep
    · cases hstep
      rw [Opens, receive_sent]
      exact h

/-- What a send does to what the sides have sent. -/
theorem payloads_send {s t : Side} {nonce : Bytes 12} {payload : List UInt8}
    (hstep : c.step A (.send s nonce payload) = some c') :
    c'.accepted = c.accepted ∧ c'.ended = c.ended ∧ c'.taken = c.taken ∧ c.payloads t <+: c'.payloads t := by
  simp only [step] at hstep
  split at hstep
  · cases hstep
    refine ⟨rfl, rfl, rfl, ?_⟩
    by_cases ht : t = s
    · subst ht
      simp only [payloads, Function.update_self, List.map_append]
      exact List.prefix_append _ _
    · simp only [payloads, Function.update_of_ne ht]
      exact List.prefix_refl _
  · cases hstep

/-! ## Nothing is forged -/

/-- What is accepted has been sent in the session. -/
structure Genuine (A : Aead) (c : LanSession) : Prop where
  opens : c.Opens A
  accepted : ∀ s, ∀ p ∈ c.accepted s, ∃ t, p ∈ c.payloads t

theorem genuine_init : init.Genuine A := ⟨fun _ _ he => absurd he List.not_mem_nil, fun _ _ hp => absurd hp List.not_mem_nil⟩

/-- A frame that was sealed in the session is read. -/
theorem Genuine.receive (h : c.Genuine A) {s : Side} {f : Frame}
    (hf : A.decrypt f.nonce f.body ≠ none → ∃ t, ∃ e ∈ c.sent t, e.frame = f) :
    ∀ t, ∀ p ∈ (c.receive A s f).accepted t, ∃ u, p ∈ c.payloads u := by
  intro t p hp
  rcases receive_cases A s f c with ⟨payload, hpayload, heq⟩ | heq
  · rw [heq] at hp
    by_cases ht : t = s
    · subst ht
      simp only [Function.update_self, List.mem_append, List.mem_singleton] at hp
      rcases hp with hp | rfl
      · exact h.accepted t p hp
      · obtain ⟨u, e, he, rfl⟩ := hf (by rw [hpayload]; exact Option.some_ne_none _)
        rw [h.opens u e he, Option.some.injEq] at hpayload
        exact ⟨u, List.mem_map.mpr ⟨e, he, hpayload⟩⟩
    · simp only [Function.update_of_ne ht] at hp
      exact h.accepted t p hp
  · rw [heq] at hp
    exact h.accepted t p hp

theorem Genuine.step (h : c.Genuine A) (hok : NoForgery A c a) (hstep : c.step A a = some c') : c'.Genuine A := by
  refine ⟨h.opens.step hstep, fun t p hp => ?_⟩
  cases a with
  | send s nonce payload =>
    obtain ⟨haccepted, -⟩ := payloads_send (t := t) hstep
    rw [haccepted] at hp
    obtain ⟨u, hu⟩ := h.accepted t p hp
    obtain ⟨-, -, -, hgrows⟩ := payloads_send (t := u) hstep
    exact ⟨u, hgrows.subset hu⟩
  | deliver s origin i =>
    simp only [LanSession.step] at hstep
    split at hstep
    · cases hstep
    · obtain ⟨e, he, rfl⟩ := Option.map_eq_some_iff.mp hstep
      simp only [payloads, receive_sent]
      exact h.receive (fun _ => ⟨origin, e, List.mem_of_getElem? he, rfl⟩) t p hp
  | inject s f =>
    simp only [LanSession.step] at hstep
    split at hstep
    · cases hstep
    · cases hstep
      simp only [payloads, receive_sent]
      exact h.receive hok t p hp

/-! ## What the network keeps -/

/-- What a delivery of the other side's frame does. -/
theorem deliver_cases (h : c.Opens A) {s : Side} {i : Nat} (hstep : c.step A (.deliver s s.other i) = some c') :
    c.ended s = false ∧ c'.payloads = c.payloads ∧ c'.taken = Function.update c.taken s (i + 1) ∧ ∃ payload,
      (c.payloads s.other).take (i + 1) = (c.payloads s.other).take i ++ [payload] ∧
      (c'.accepted = Function.update c.accepted s (c.accepted s ++ [payload]) ∧ c'.ended = c.ended ∨
        c'.accepted = c.accepted ∧ c'.ended = Function.update c.ended s true) := by
  simp only [step] at hstep
  split at hstep
  · cases hstep
  · next hover =>
    obtain ⟨e, he, rfl⟩ := Option.map_eq_some_iff.mp hstep
    have hnext : (c.payloads s.other).take (i + 1) = (c.payloads s.other).take i ++ [e.payload] := by
      rw [List.take_add_one, payloads, List.getElem?_map, he]
      rfl
    have hpayloads : ({ c.receive A s e.frame with
        taken := if s.other = s.other then Function.update c.taken s (i + 1) else c.taken } : LanSession).payloads =
        c.payloads := by
      funext t
      rw [payloads, payloads, receive_sent]
    refine ⟨by simpa using hover, hpayloads, by simp only [if_true], e.payload, hnext, ?_⟩
    rcases receive_cases A s e.frame c with ⟨payload, hpayload, heq⟩ | heq
    · rw [h _ e (List.mem_of_getElem? he), Option.some.injEq] at hpayload
      subst hpayload
      rw [heq]
      exact .inl ⟨rfl, rfl⟩
    · rw [heq]
      exact .inr ⟨rfl, rfl⟩

/-- What a side accepted is, in order, some of what has been delivered to it. -/
structure Ordered (A : Aead) (c : LanSession) : Prop where
  opens : c.Opens A
  accepted : ∀ s, (c.accepted s).Sublist ((c.payloads s.other).take (c.taken s))

theorem ordered_init : init.Ordered A := ⟨fun _ _ he => absurd he List.not_mem_nil, fun _ => List.nil_sublist _⟩

theorem Ordered.step (h : c.Ordered A) (hok : DropsOnly c a) (hstep : c.step A a = some c') : c'.Ordered A := by
  refine ⟨h.opens.step hstep, fun t => ?_⟩
  cases a with
  | send s nonce payload =>
    obtain ⟨haccepted, -, htaken, hgrows⟩ := payloads_send (t := t.other) hstep
    rw [haccepted, htaken]
    exact (h.accepted t).trans (hgrows.take _).sublist
  | deliver s origin i =>
    obtain ⟨rfl, hi⟩ := hok
    obtain ⟨-, hpayloads, htaken, payload, hnext, hcases⟩ := deliver_cases h.opens hstep
    rw [hpayloads, htaken]
    by_cases ht : t = s
    · subst ht
      rw [Function.update_self, hnext]
      have hbefore := (h.accepted t).trans (List.take_sublist_take_left hi)
      rcases hcases with ⟨haccepted, -⟩ | ⟨haccepted, -⟩
      · rw [haccepted, Function.update_self]
        exact hbefore.append (List.Sublist.refl _)
      · rw [haccepted]
        exact hbefore.trans (List.sublist_append_left _ _)
    · rw [Function.update_of_ne ht]
      rcases hcases with ⟨haccepted, -⟩ | ⟨haccepted, -⟩
      · rw [haccepted, Function.update_of_ne ht]
        exact h.accepted t
      · rw [haccepted]
        exact h.accepted t
  | inject s f => exact absurd hok id

/-- And while the side still reads, none of it is left out. -/
structure Complete (A : Aead) (c : LanSession) : Prop where
  opens : c.Opens A
  accepted : ∀ s, c.accepted s <+: c.payloads s.other
  delivered : ∀ s, c.taken s ≤ (c.payloads s.other).length
  reading : ∀ s, c.ended s = false → c.accepted s = (c.payloads s.other).take (c.taken s)

theorem complete_init : init.Complete A :=
  ⟨fun _ _ he => absurd he List.not_mem_nil, fun _ => List.nil_prefix, fun _ => Nat.le_refl _, fun _ _ => rfl⟩

theorem Complete.step (h : c.Complete A) (hok : InOrder c a) (hstep : c.step A a = some c') : c'.Complete A := by
  cases a with
  | send s nonce payload =>
    have hsend := fun t : Side => payloads_send (t := t.other) hstep
    refine ⟨h.opens.step hstep, fun t => ?_, fun t => ?_, fun t ht => ?_⟩
    · obtain ⟨haccepted, -, -, hgrows⟩ := hsend t
      rw [haccepted]
      exact (h.accepted t).trans hgrows
    · obtain ⟨-, -, htaken, hgrows⟩ := hsend t
      rw [htaken]
      exact (h.delivered t).trans hgrows.length_le
    · obtain ⟨haccepted, hover, htaken, hgrows⟩ := hsend t
      rw [hover] at ht
      rw [haccepted, htaken, h.reading t ht]
      obtain ⟨more, hmore⟩ := hgrows
      rw [← hmore, List.take_append_of_le_length (h.delivered t)]
  | deliver s origin i =>
    obtain ⟨rfl, rfl⟩ := hok
    obtain ⟨hover, hpayloads, htaken, payload, hnext, hcases⟩ := deliver_cases h.opens hstep
    have hbefore := h.reading s hover
    have hlen : c.taken s + 1 ≤ (c.payloads s.other).length := by
      have hlength := congrArg List.length hnext
      rw [List.length_append, List.length_take, List.length_take, List.length_singleton] at hlength
      have hle := h.delivered s
      omega
    refine ⟨h.opens.step hstep, fun t => ?_, fun t => ?_, fun t ht => ?_⟩
    · rw [hpayloads]
      by_cases ht : t = s
      · subst ht
        rcases hcases with ⟨haccepted, -⟩ | ⟨haccepted, -⟩
        · rw [haccepted, Function.update_self, hbefore, ← hnext]
          exact List.take_prefix _ _
        · rw [haccepted]
          exact h.accepted t
      · rcases hcases with ⟨haccepted, -⟩ | ⟨haccepted, -⟩
        · rw [haccepted, Function.update_of_ne ht]
          exact h.accepted t
        · rw [haccepted]
          exact h.accepted t
    · rw [hpayloads, htaken]
      by_cases ht : t = s
      · subst ht
        rw [Function.update_self]
        exact hlen
      · rw [Function.update_of_ne ht]
        exact h.delivered t
    · rw [hpayloads, htaken]
      by_cases hts : t = s
      · subst hts
        rcases hcases with ⟨haccepted, -⟩ | ⟨-, hover'⟩
        · rw [haccepted, Function.update_self, Function.update_self, hbefore, ← hnext]
        · rw [hover', Function.update_self] at ht
          cases ht
      · rw [Function.update_of_ne hts]
        rcases hcases with ⟨haccepted, hover'⟩ | ⟨haccepted, hover'⟩
        · rw [hover'] at ht
          rw [haccepted, Function.update_of_ne hts]
          exact h.reading t ht
        · rw [hover', Function.update_of_ne hts] at ht
          rw [haccepted]
          exact h.reading t ht
  | inject s f => exact absurd hok id

/-- **What a session keeps**: whatever the network does, a side accepts nothing
but what was sent in the session; if the network only drops frames, in the
order the other side sent it; and if it drops none but the last, all of it. -/
theorem kept_of_runs (A : Aead) {as : List NetworkAction} :
    (Runs (step A) (NoForgery A) init as c → ∀ s, ∀ p ∈ c.accepted s, ∃ t, p ∈ c.payloads t) ∧
      (Runs (step A) DropsOnly init as c → ∀ s, (c.accepted s).Sublist (c.payloads s.other)) ∧
      (Runs (step A) InOrder init as c → ∀ s, c.accepted s <+: c.payloads s.other) := by
  refine ⟨fun h => ?_, fun h s => ?_, fun h => ?_⟩
  · exact (h.invariant (fun _ _ _ hc hok hstep => hc.step hok hstep) genuine_init).accepted
  · have hordered : c.Ordered A := h.invariant (fun _ _ _ hc hok hstep => hc.step hok hstep) ordered_init
    exact (hordered.accepted s).trans (List.take_sublist _ _)
  · have hcomplete : c.Complete A := h.invariant (fun _ _ _ hc hok hstep => hc.step hok hstep) complete_init
    exact hcomplete.accepted

/-- A stand-in for the cipher: the tag is sixteen zeros. -/
def tagged : Aead where
  encrypt _ payload := payload ++ List.replicate 16 0
  decrypt _ body :=
    if body.drop (body.length - 16) = List.replicate 16 0 ∧ 16 ≤ body.length then some (body.take (body.length - 16)) else none
  decrypt_encrypt nonce payload := by
    simp

/-- What a session shows: what the two sides sent, and what they accepted. -/
def shown (c : LanSession) : List (List UInt8) × List (List UInt8) × List (List UInt8) × List (List UInt8) :=
  (c.payloads .phone, c.payloads .agent, c.accepted .phone, c.accepted .agent)

theorem InOrder.dropsOnly (h : c.InOrder a) : c.DropsOnly a := by
  cases a with
  | send s nonce payload => trivial
  | deliver s origin i => exact ⟨h.1, h.2.ge⟩
  | inject s f => exact h

theorem DropsOnly.noForgery (h : c.DropsOnly a) : c.NoForgery A a := by
  cases a with
  | send s nonce payload => trivial
  | deliver s origin i => trivial
  | inject s f => exact absurd h id

/-- The agent sends two payloads and the phone one; each is read by the other side. -/
def exchangeRun : List NetworkAction :=
  [.send .agent default [1], .send .agent default [2], .deliver .phone .agent 0, .send .phone default [3],
    .deliver .phone .agent 1, .deliver .agent .phone 0]

theorem exchange_kept : ∃ c : LanSession, c.shown = ([[3]], [[1], [2]], [[1], [2]], [[3]]) ∧
    (∀ s, ∀ p ∈ c.accepted s, ∃ t, p ∈ c.payloads t) ∧
    (∀ s, (c.accepted s).Sublist (c.payloads s.other)) ∧ ∀ s, c.accepted s <+: c.payloads s.other := by
  have hrun : (Runs.exec (step tagged) (fun c a => decide (c.InOrder a)) init exchangeRun).map shown =
      some ([[3]], [[1], [2]], [[1], [2]], [[3]]) := by decide +kernel
  obtain ⟨c, hexec, hshown⟩ := Option.map_eq_some_iff.mp hrun
  have hinOrder : Runs (step tagged) InOrder init exchangeRun c :=
    Runs.of_exec (fun _ _ => of_decide_eq_true) hexec
  have hdrops := hinOrder.mono fun _ _ => InOrder.dropsOnly
  obtain ⟨hgenuine, hsublist, hgrows⟩ := @kept_of_runs c tagged exchangeRun
  exact ⟨c, hshown, hgenuine (hdrops.mono fun _ _ => DropsOnly.noForgery), hsublist hdrops, hgrows hinOrder⟩

/-- The agent sends two payloads; the phone is given the second, then both in
order, and the agent is given its own first one. -/
def replayRun : List NetworkAction :=
  [.send .agent default [1], .send .agent default [2], .deliver .phone .agent 1, .deliver .phone .agent 0,
    .deliver .phone .agent 1, .deliver .agent .agent 0]

/-- Delivered out of order, twice or back, a frame is accepted. -/
theorem exists_replayed : ∃ c : LanSession, Runs (step tagged) (NoForgery tagged) init replayRun c ∧
    c.shown = ([], [[1], [2]], [[2], [1], [2]], [[1]]) ∧
    ¬ c.accepted .phone <+: c.payloads .agent ∧ ¬ c.accepted .agent <+: c.payloads .phone := by
  have hrun : (Runs.exec (step tagged) (fun _ a => a matches .send .. | .deliver ..) init replayRun).map shown =
      some ([], [[1], [2]], [[2], [1], [2]], [[1]]) := by decide +kernel
  obtain ⟨c, hexec, hshown⟩ := Option.map_eq_some_iff.mp hrun
  have hruns : Runs (step tagged) (NoForgery tagged) init replayRun c := by
    refine Runs.of_exec (fun _ a ha => ?_) hexec
    cases a with
    | send s nonce payload => trivial
    | deliver s origin i => trivial
    | inject s f => simp at ha
  have hfields := hshown
  simp only [shown, Prod.mk.injEq] at hfields
  obtain ⟨hphone, hagent, hatPhone, hatAgent⟩ := hfields
  refine ⟨c, hruns, hshown, ?_, ?_⟩
  · rw [hatPhone, hagent]
    decide
  · rw [hatAgent, hphone]
    decide

end LanSession

end AbkFido
