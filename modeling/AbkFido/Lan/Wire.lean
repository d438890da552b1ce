/-
A LAN session on the wire, from its first byte.

Each side sends a nonce, takes the other's off the stream and derives the
session's key from the pairing code and the two. Both compute PBKDF2 by hand,
`LanFidoServer` and the agent each with a loop of its own, and arrive at the
same key (`key_eq`). Then they read frames until one does not come whole or
does not open. Whatever pieces TCP makes of the stream, and wherever it
breaks off, a side reads the payloads of the frames that came whole, in order
and from the first one on (`session_reads`). So the packets of a message that
the agent sends are one request to the phone, and one message to the driver
(`request_crosses`).

HMAC-SHA-256 and AES-GCM are parameters.
-/
import AbkFido.Isolation
import AbkFido.Lan.Channel
import AbkFido.Lan.Requests
import AbkFido.Lib.Chunks
import AbkFido.Lib.Utf8

namespace AbkFido

open Chunks (readFull takeFull Rejoins rejoins_readFull)

/-! ## The key -/

def xorBytes (s t : List UInt8) : List UInt8 := List.zipWith (· ^^^ ·) s t

/-- PBKDF2's values one after another, for the first block. -/
def pbkdf2U (prf : List UInt8 → List UInt8) (salt : List UInt8) : Nat → List UInt8
  | 0 => prf (salt ++ CborForm.bigEndian 4 1)
  | i + 1 => prf (pbkdf2U prf salt i)

/-- And the first `n + 1` of them added up. -/
def pbkdf2F (prf : List UInt8 → List UInt8) (salt : List UInt8) : Nat → List UInt8
  | 0 => pbkdf2U prf salt 0
  | n + 1 => xorBytes (pbkdf2F prf salt n) (pbkdf2U prf salt (n + 1))

section
variable (hmac : List UInt8 → List UInt8 → List UInt8)

/-- A turn of either loop: `t` and `out`. -/
def deriveTurn (password : List UInt8) (s : List UInt8 × List UInt8) : List UInt8 × List UInt8 :=
  let t := hmac password s.1
  (t, xorBytes s.2 t)

/-- `derive`, with so many turns. -/
def deriveTurns (n : Nat) (password : List Char) (salt : List UInt8) : List UInt8 :=
  let t := hmac (Utf8.encode password) (salt ++ [0, 0, 0, 1])
  (Nat.repeat (deriveTurn hmac (Utf8.encode password)) n (t, t)).2

/-- `repeat(99_999)` -/
def derive (password : List Char) (salt : List UInt8) : List UInt8 := deriveTurns hmac 99999 password salt

/-- The loop of `deriveKey`, at `i`. -/
def deriveKeyLoop (bound : Nat) (password : List UInt8) (s : List UInt8 × List UInt8) (i : Nat) : List UInt8 × List UInt8 :=
  if i < bound then deriveKeyLoop bound password (deriveTurn hmac password s) (i + 1) else s
termination_by bound - i

/-- `deriveKey`, with such a bound of its loop. -/
def deriveKeyTo (bound : Nat) (password : List Char) (salt : List UInt8) : List UInt8 :=
  let t := hmac (Utf8.encode password) (salt ++ [0, 0, 0, 1])
  (deriveKeyLoop hmac bound (Utf8.encode password) (t, t) 1).2

/-- `i < 100000` -/
def deriveKey (password : List Char) (salt : List UInt8) : List UInt8 := deriveKeyTo hmac 100000 password salt

variable {hmac} {password : List UInt8} {salt : List UInt8}

/-- What either loop is at after `n` turns. -/
def Turned (hmac : List UInt8 → List UInt8 → List UInt8) (password salt : List UInt8) (n : Nat)
    (s : List UInt8 × List UInt8) : Prop :=
  s.1 = pbkdf2U (hmac password) salt n ∧ s.2 = pbkdf2F (hmac password) salt n

theorem Turned.next {n : Nat} {s : List UInt8 × List UInt8} (h : Turned hmac password salt n s) :
    Turned hmac password salt (n + 1) (deriveTurn hmac password s) := by
  obtain ⟨ht, hout⟩ := h
  refine ⟨?_, ?_⟩
  · rw [deriveTurn, pbkdf2U, ht]
  · rw [deriveTurn, pbkdf2F, pbkdf2U, ht, hout]

theorem Turned.first : Turned hmac password salt 0 (hmac password (salt ++ [0, 0, 0, 1]), hmac password (salt ++ [0, 0, 0, 1])) := by
  have hblock : CborForm.bigEndian 4 1 = [0, 0, 0, 1] := by decide
  refine ⟨?_, ?_⟩
  · rw [pbkdf2U, hblock]
  · rw [pbkdf2F, pbkdf2U, hblock]

theorem turned_repeat {s : List UInt8 × List UInt8} (h : Turned hmac password salt 0 s) (n : Nat) :
    Turned hmac password salt n (Nat.repeat (deriveTurn hmac password) n s) := by
  induction n with
  | zero => exact h
  | succ n ih => exact ih.next

theorem deriveTurns_eq (n : Nat) (password : List Char) (salt : List UInt8) :
    deriveTurns hmac n password salt = pbkdf2F (hmac (Utf8.encode password)) salt n :=
  (turned_repeat .first n).2

theorem turned_deriveKeyLoop {m i n bound : Nat} {s : List UInt8 × List UInt8} (h : Turned hmac password salt n s)
    (hi : i = n + 1) (hm : m + i = bound) : Turned hmac password salt (n + m) (deriveKeyLoop hmac bound password s i) := by
  induction m generalizing i n s with
  | zero =>
    rw [deriveKeyLoop, if_neg (by omega)]
    exact h
  | succ m ih =>
    rw [deriveKeyLoop, if_pos (by omega), show n + (m + 1) = n + 1 + m by omega]
    exact ih h.next (by omega) (by omega)

theorem deriveKeyTo_eq {n bound : Nat} (hbound : n + 1 = bound) (password : List Char) (salt : List UInt8) :
    deriveKeyTo hmac bound password salt = pbkdf2F (hmac (Utf8.encode password)) salt n := by
  have hloop := turned_deriveKeyLoop (.first : Turned hmac (Utf8.encode password) salt 0 _) rfl hbound
  rw [Nat.zero_add] at hloop
  exact hloop.2

/-- **The two sides derive the same key**, the one PBKDF2 gives. -/
theorem key_eq (hmac : List UInt8 → List UInt8 → List UInt8) (password : List Char) (salt : List UInt8) :
    derive hmac password salt = pbkdf2F (hmac (Utf8.encode password)) salt 99999 ∧
      deriveKey hmac password salt = pbkdf2F (hmac (Utf8.encode password)) salt 99999 := by
  rw [derive, deriveTurns_eq, deriveKey, deriveKeyTo_eq (show 99999 + 1 = 100000 by omega)]
  exact ⟨rfl, rfl⟩

end

/-! ## Frames, in pieces -/

section
variable {S : Type} (full : Nat → S → Option (List UInt8 × S))

/-- The length of a frame. Where a request may begin, `awaitFrame` has read
its first byte alone and `readIntTail` reads the others. -/
def readLength (awaited : Bool) (input : S) : Option (Nat × S) :=
  if awaited then
    (full 1 input).bind fun (first, input) => (full 3 input).bind fun (rest, input) => some (readBe32 (first ++ rest), input)
  else (full 4 input).bind fun (length, input) => some (readBe32 length, input)

variable (A : Aead)

/-- What follows the length. -/
def readBody (s : Side) (len : Nat) (input : S) : Option (List UInt8 × S) :=
  if s.takes len then
    (full 12 input).bind fun (nonce, input) => (full len input).bind fun (body, input) =>
      (A.decrypt ((Layout.Codec.bytes 12).dec nonce) body).map fun payload => (payload, input)
  else none

/-- `readFrame` and `read`, by the reads they make. -/
def readPieces (s : Side) (awaited : Bool) (input : S) : Option (List UInt8 × S) :=
  (readLength full awaited input).bind fun (len, input) => readBody full A s len input

/-- The frames of a session, some awaited and some not, until there is none. -/
def readFrames (s : Side) : List Bool → S → List (List UInt8)
  | [], _ => []
  | awaited :: turns, input =>
    match readPieces full A s awaited input with
    | none => []
    | some (payload, input) => payload :: readFrames s turns input

end

section
variable {A : Aead} {s : Side}

theorem readLength_rejoins (awaited : Bool) (input : List (List UInt8)) :
    Rejoins (readLength readFull awaited input) (readLength takeFull awaited input.flatten) := by
  cases awaited with
  | false => exact (rejoins_readFull 4 input).bind fun length input => .of_option (some (readBe32 length)) input
  | true => exact (rejoins_readFull 1 input).bind fun first input => (rejoins_readFull 3 input).bind fun rest input =>
      .of_option (some (readBe32 (first ++ rest))) input

theorem readPieces_rejoins (A : Aead) (s : Side) (awaited : Bool) (input : List (List UInt8)) :
    Rejoins (readPieces readFull A s awaited input) (readPieces takeFull A s awaited input.flatten) := by
  refine (readLength_rejoins awaited input).bind fun len input => ?_
  show Rejoins (readBody readFull A s len input) (readBody takeFull A s len input.flatten)
  rw [readBody, readBody]
  split
  · refine (rejoins_readFull 12 input).bind fun nonce input => (rejoins_readFull len input).bind fun body input => ?_
    exact .of_option (A.decrypt ((Layout.Codec.bytes 12).dec nonce) body) input
  · rfl

/-- How the stream was cut does not matter. -/
theorem readFrames_flatten (turns : List Bool) (input : List (List UInt8)) :
    readFrames readFull A s turns input = readFrames takeFull A s turns input.flatten := by
  induction turns generalizing input with
  | nil => rfl
  | cons awaited turns ih =>
    have hrejoins := readPieces_rejoins A s awaited input
    rw [readFrames, readFrames, ← hrejoins]
    cases readPieces readFull A s awaited input with
    | none => rfl
    | some r => exact congrArg (r.1 :: ·) (ih r.2)

theorem readBe32_take (input : List UInt8) : readBe32 (input.take 4) = readBe32 input := by
  rw [readBe32, List.take_take, Nat.min_self, readBe32]

theorem readLength_takeFull (awaited : Bool) (input : List UInt8) :
    readLength takeFull awaited input = if 4 ≤ input.length then some (readBe32 input, input.drop 4) else none := by
  cases awaited with
  | false =>
    simp only [readLength, Bool.false_eq_true, if_false, takeFull]
    split
    · simp only [Option.bind_some, readBe32_take]
    · rfl
  | true =>
    simp only [readLength, if_true, takeFull]
    by_cases hlen : 4 ≤ input.length
    · have hfour : input.take 1 ++ (input.drop 1).take 3 = input.take 4 := (List.take_add ..).symm
      simp only [show 1 ≤ input.length by omega, if_true, Option.bind_some, List.length_drop,
        show 3 ≤ input.length - 1 by omega, hfour, readBe32_take, List.drop_drop, hlen, Nat.reduceAdd]
    · rw [if_neg hlen]
      split
      · simp only [Option.bind_some, List.length_drop, show ¬ 3 ≤ input.length - 1 by omega, if_false, Option.bind_none]
      · rfl

/-- The reads of a frame are `readFrame`. -/
theorem readPieces_takeFull (A : Aead) (s : Side) (awaited : Bool) (input : List UInt8) :
    readPieces takeFull A s awaited input = readFrame A s input := by
  rw [readPieces, readLength_takeFull, readFrame]
  by_cases hfour : 4 ≤ input.length
  · rw [if_pos hfour, Option.bind_some]
    simp only [readBody, show ¬ input.length < 4 by omega, false_or]
    cases htakes : s.takes (readBe32 input) with
    | false => rfl
    | true =>
      simp only [if_true, not_true, if_false, takeFull, List.length_drop]
      by_cases hlong : input.length < 16 + readBe32 input
      · rw [if_pos hlong]
        split
        · simp only [Option.bind_some, List.length_drop]
          rw [if_neg (by omega), Option.bind_none]
        · rfl
      · rw [if_neg hlong, if_pos (by omega)]
        simp only [Option.bind_some, List.length_drop]
        rw [if_pos (by omega)]
        have hnonce : (Layout.Codec.bytes 12).dec ((input.drop 4).take 12) = (Layout.Codec.bytes 12).dec (input.drop 4) :=
          (Layout.Codec.bytes 12).dec_take (show 12 ≤ (input.drop 4).length by rw [List.length_drop]; omega)
        simp only [Option.bind_some, hnonce, List.drop_drop, Nat.reduceAdd]
  · rw [if_neg hfour, if_pos (.inl (by omega))]
    rfl

end

/-! ## What arrives -/

/-- The frames that come whole in the first `k` bytes. -/
def arrived : Nat → List SentFrame → List SentFrame
  | _, [] => []
  | k, e :: es => if e.frame.bytes.length ≤ k then e :: arrived (k - e.frame.bytes.length) es else []

theorem Frame.length_bytes (f : Frame) : f.bytes.length = 16 + f.body.length := by
  have hnonce : f.nonce.toList.length = 12 := f.nonce.toList_length
  rw [Frame.bytes, List.length_append, List.length_append, CborForm.length_bigEndian, hnonce]

section
variable {A : Aead} {s : Side}

/-- A frame that is broken off is not read. -/
theorem readFrame_cut (s : Side) (f : Frame) (rest : List UInt8) {k : Nat} (hk : k < f.bytes.length) :
    readFrame A s ((f.bytes ++ rest).take k) = none := by
  rw [List.take_append_of_le_length hk.le, readFrame]
  have hlen := f.length_bytes
  by_cases hfour : k < 4
  · rw [if_pos (.inl (by rw [List.length_take]; omega))]
  · have hbe : readBe32 (f.bytes.take k) = f.body.length := by
      rw [← readBe32_take, List.take_take, Nat.min_eq_left (by omega), readBe32_take, Frame.bytes, List.append_assoc,
        readBe32_bigEndian f.fits]
    simp only [hbe]
    split
    · rfl
    · rw [if_pos (by rw [List.length_take]; omega)]

theorem readFrames_arrived (s : Side) {es : List SentFrame}
    (hopens : ∀ e ∈ es, A.decrypt e.frame.nonce e.frame.body = some e.payload) (turns : List Bool) (k : Nat) :
    readFrames takeFull A s turns ((es.flatMap fun e => e.frame.bytes).take k) =
      (((arrived k es).takeWhile fun e => s.takes e.frame.body.length).map SentFrame.payload).take turns.length := by
  induction es generalizing turns k with
  | nil =>
    cases turns with
    | nil => rfl
    | cons awaited turns =>
      rw [readFrames, readPieces_takeFull, List.flatMap_nil, List.take_nil]
      rfl
  | cons e es ih =>
    obtain ⟨hopen, hopens⟩ := List.forall_mem_cons.mp hopens
    cases turns with
    | nil => rfl
    | cons awaited turns =>
      rw [readFrames, readPieces_takeFull, List.flatMap_cons, arrived]
      by_cases hwhole : e.frame.bytes.length ≤ k
      · rw [if_pos hwhole, List.take_append, List.take_of_length_le hwhole, readFrame_bytes, hopen]
        by_cases htakes : s.takes e.frame.body.length = true
        · simp only [htakes, if_true, List.takeWhile_cons, List.map_cons, List.length_cons, List.take_succ_cons, Option.map_some]
          exact congrArg (e.payload :: ·) (ih hopens turns _)
        · simp only [htakes, if_false, List.takeWhile_cons, List.map_nil, List.take_nil, Bool.false_eq_true]
      · rw [if_neg hwhole, readFrame_cut s e.frame _ (Nat.lt_of_not_le hwhole)]
        rfl

theorem receive_eq {c : LanSession} {f : Frame} {payload : List UInt8} (hopen : A.decrypt f.nonce f.body = some payload) :
    c.receive A s f =
      if s.takes f.body.length then { c with accepted := Function.update c.accepted s (c.accepted s ++ [payload]) }
      else { c with ended := Function.update c.ended s true } := by
  have hread := readFrame_bytes (A := A) s f []
  rw [List.append_nil, hopen] at hread
  rw [LanSession.receive, hread]
  cases s.takes f.body.length with
  | false => rfl
  | true => rfl

/-- What a side reads off the wire it accepts in a run of `LanSession`, whose
network delivers the frames that come whole. -/
theorem readFrames_runs {c : LanSession} (hopens : c.Opens A) (hreading : c.ended s = false) (turns : List Bool) (k : Nat) :
    ∃ as c', Runs (LanSession.step A) LanSession.InOrder c as c' ∧ c'.sent = c.sent ∧
      c'.accepted s = c.accepted s ++ readFrames takeFull A s turns
        ((((c.sent s.other).drop (c.taken s)).flatMap fun e => e.frame.bytes).take k) := by
  induction turns generalizing c k with
  | nil => exact ⟨[], c, .nil c, rfl, (List.append_nil _).symm⟩
  | cons awaited turns ih =>
    have hstop : ∀ {l : List UInt8}, readFrame A s l = none →
        ∃ as c', Runs (LanSession.step A) LanSession.InOrder c as c' ∧ c'.sent = c.sent ∧
          c'.accepted s = c.accepted s ++ readFrames takeFull A s (awaited :: turns) l := by
      intro l hl
      refine ⟨[], c, .nil c, rfl, ?_⟩
      rw [readFrames, readPieces_takeFull, hl, List.append_nil]
    cases hdrop : (c.sent s.other).drop (c.taken s) with
    | nil =>
      rw [List.flatMap_nil, List.take_nil]
      exact hstop rfl
    | cons e es =>
      have hget : (c.sent s.other)[c.taken s]? = some e := by rw [← List.head?_drop, hdrop, List.head?_cons]
      have hnext : (c.sent s.other).drop (c.taken s + 1) = es := by rw [← List.tail_drop, hdrop, List.tail_cons]
      have hopen := hopens s.other e (List.mem_of_getElem? hget)
      rw [List.flatMap_cons]
      by_cases hwhole : e.frame.bytes.length ≤ k
      · rw [List.take_append, List.take_of_length_le hwhole]
        have hread := readFrame_bytes (A := A) s e.frame ((es.flatMap fun e => e.frame.bytes).take (k - e.frame.bytes.length))
        by_cases htakes : s.takes e.frame.body.length = true
        · have hstep : c.step A (.deliver s s.other (c.taken s)) = some
              { c with
                accepted := Function.update c.accepted s (c.accepted s ++ [e.payload])
                taken := Function.update c.taken s (c.taken s + 1) } := by
            simp only [LanSession.step, hreading, Bool.false_eq_true, if_false, hget, Option.map_some, receive_eq hopen, htakes, if_true]
          obtain ⟨as, c', hrun, hsent, haccepted⟩ := ih (hopens.step hstep) hreading (k - e.frame.bytes.length)
          have hok : c.InOrder (.deliver s s.other (c.taken s)) := ⟨rfl, rfl⟩
          refine ⟨_, c', .cons hok hstep hrun, hsent, ?_⟩
          rw [if_pos htakes, hopen, Option.map_some] at hread
          rw [haccepted, readFrames, readPieces_takeFull, hread]
          simp only [Function.update_self, hnext, List.append_assoc, List.singleton_append]
        · exact hstop (hread.trans (if_neg htakes))
      · exact hstop (readFrame_cut s e.frame _ (Nat.lt_of_not_le hwhole))

end

/-! ## A session -/

section
variable (hmac : List UInt8 → List UInt8 → List UInt8) (aead : List UInt8 → Aead)

/-- The key of a side, from its own nonce and the other's; the agent's comes first. -/
def Side.sessionKey (s : Side) (code : List Char) (ours theirs : List UInt8) : List UInt8 :=
  match s with
  | .phone => derive hmac code (theirs ++ ours)
  | .agent => deriveKey hmac code (ours ++ theirs)

/-- `serve` and `newSession`, and what the side then reads. -/
def readSession (s : Side) (code : List Char) (ours : Bytes 16) (turns : List Bool) (input : List (List UInt8)) :
    Option (List (List UInt8)) :=
  (readFull 16 input).map fun (theirs, input) =>
    readFrames readFull (aead (s.sessionKey hmac code ours.toList theirs)) s turns input

/-- What a side sends: its nonce, then its frames. -/
def wire (nonce : Bytes 16) (es : List SentFrame) : List UInt8 := nonce.toList ++ es.flatMap fun e => e.frame.bytes

variable {hmac aead}

theorem Side.sessionKey_other (s : Side) (code : List Char) (ours theirs : List UInt8) :
    s.other.sessionKey hmac code theirs ours = s.sessionKey hmac code ours theirs := by
  cases s with
  | phone =>
    rw [Side.other, sessionKey, sessionKey, (key_eq hmac code _).1, (key_eq hmac code _).2]
  | agent =>
    rw [Side.other, sessionKey, sessionKey, (key_eq hmac code _).1, (key_eq hmac code _).2]

section
variable {s : Side} {code : List Char} {ours theirs : Bytes 16} {es : List SentFrame} {k : Nat} {input : List (List UInt8)}

/-- The nonce does not come whole. -/
theorem readSession_none (hinput : input.flatten = (wire theirs es).take k) (turns : List Bool) (hk : k < 16) :
    readSession hmac aead s code ours turns input = none := by
  have hread := rejoins_readFull 16 input
  rw [hinput, takeFull, if_neg (by rw [List.length_take]; omega)] at hread
  rw [readSession, Option.map_eq_none_iff.mp hread]
  rfl

theorem readSession_some
    (hsealed : ∀ e ∈ es, e.frame.body =
      (aead (s.other.sessionKey hmac code theirs.toList ours.toList)).encrypt e.frame.nonce e.payload)
    (hinput : input.flatten = (wire theirs es).take k) (turns : List Bool) (hk : 16 ≤ k) :
    readSession hmac aead s code ours turns input =
      some ((((arrived (k - 16) es).takeWhile fun e => s.takes e.frame.body.length).map SentFrame.payload).take turns.length) := by
  have hnonce : theirs.toList.length = 16 := theirs.toList_length
  have hread := rejoins_readFull 16 input
  rw [hinput, takeFull, wire, if_pos (by rw [List.length_take, List.length_append]; omega), List.take_take,
    Nat.min_eq_left hk, List.take_left' hnonce, List.drop_take, List.drop_left' hnonce] at hread
  obtain ⟨⟨nonce, rest⟩, hfull, heq⟩ := Option.map_eq_some_iff.mp hread
  obtain ⟨rfl, hrest⟩ := Prod.mk.inj heq
  have hopens : ∀ e ∈ es,
      (aead (s.sessionKey hmac code ours.toList theirs.toList)).decrypt e.frame.nonce e.frame.body = some e.payload := by
    intro e he
    rw [hsealed e he, Side.sessionKey_other, Aead.decrypt_encrypt]
  rw [readSession, hfull, Option.map_some]
  show some (readFrames readFull _ s turns rest) = _
  rw [readFrames_flatten, show rest.flatten = _ from hrest, readFrames_arrived s hopens]

/-- **A side reads what the other one sent**: of the frames the other side has
sealed under the key it derived, those that come whole, as long as the side
takes their length. The pieces of the stream do not matter, nor which reads are
awaited. -/
theorem session_reads
    (hsealed : ∀ e ∈ es, e.frame.body =
      (aead (s.other.sessionKey hmac code theirs.toList ours.toList)).encrypt e.frame.nonce e.payload)
    (hinput : input.flatten = (wire theirs es).take k) (turns : List Bool) :
    readSession hmac aead s code ours turns input = if k < 16 then none else
      some ((((arrived (k - 16) es).takeWhile fun e => s.takes e.frame.body.length).map SentFrame.payload).take turns.length) := by
  split
  · next hk => exact readSession_none hinput turns hk
  · next hk => exact readSession_some hsealed hinput turns (Nat.le_of_not_lt hk)

end

end

/-- Two frames of the agent. -/
def cutFrames : List SentFrame :=
  [⟨[1, 2], ⟨default, LanSession.tagged.encrypt default [1, 2], by decide⟩⟩,
    ⟨[3], ⟨default, LanSession.tagged.encrypt default [3], by decide⟩⟩]

/-- The stream breaks off in the second one. -/
def cutPieces : List (List UInt8) :=
  [(wire default cutFrames).take 7, [], ((wire default cutFrames).take 60).drop 7]

theorem session_reads_cutPieces :
    readSession (fun _ message => message) (fun _ => LanSession.tagged) .phone ['4', '2'] default [true, false] cutPieces =
      some [[1, 2]] := by
  have hsealed : ∀ e ∈ cutFrames, e.frame.body = LanSession.tagged.encrypt e.frame.nonce e.payload := by
    simp [cutFrames]
  have hpieces : cutPieces.flatten = (wire default cutFrames).take 60 := by decide +kernel
  rw [session_reads hsealed hpieces]
  decide +kernel

/-! ## A request, from the agent to the driver -/

theorem prefix_arrived (k : Nat) (es : List SentFrame) : arrived k es <+: es := by
  induction es generalizing k with
  | nil => exact List.prefix_refl _
  | cons e es ih =>
    rw [arrived]
    split
    · exact (List.prefix_cons_inj e).mpr (ih _)
    · exact List.nil_prefix

theorem arrived_take {n k : Nat} {es : List SentFrame} (h : ((es.take n).flatMap fun e => e.frame.bytes).length ≤ k) :
    (arrived k es).take n = es.take n := by
  induction es generalizing n k with
  | nil => rfl
  | cons e es ih =>
    cases n with
    | zero => rfl
    | succ n =>
      rw [List.take_succ_cons, List.flatMap_cons, List.length_append] at h
      rw [arrived, if_pos (by omega), List.take_succ_cons, List.take_succ_cons, ih (by omega)]

/-- **A request crosses**: what the agent sends as the packets of a message the
phone reads as one request, and the driver dispatches it as one message. -/
theorem request_crosses {hmac : List UInt8 → List UInt8 → List UInt8} {aead : List UInt8 → Aead} {code : List Char}
    {ours theirs : Bytes 16} {es : List SentFrame} {k : Nat} {input : List (List UInt8)} {before : List (List UInt8)}
    {m : Msg} {init : Packet} {conts : List Packet}
    (hsealed : ∀ e ∈ es, e.frame.body =
      (aead (Side.agent.sessionKey hmac code theirs.toList ours.toList)).encrypt e.frame.nonce e.payload)
    (htaken : ∀ e ∈ es, Side.phone.takes e.frame.body.length = true)
    (hinput : input.flatten = (wire theirs es).take k)
    (hm : m.CarriedBy init conts) (hle : m.data.length ≤ maxMsg)
    (hsent : before ++ (init :: conts).map List.Vector.toList <+: es.map SentFrame.payload)
    (hk : 16 + ((es.take (before.length + (conts.length + 1))).flatMap fun e => e.frame.bytes).length ≤ k)
    {turns : List Bool} (hturns : before.length + (conts.length + 1) ≤ turns.length) :
    ∃ rest, readSession hmac aead .phone code ours turns input =
        some (before ++ init.toList :: (conts.map List.Vector.toList ++ rest)) ∧
      RelayRequest.readRequest init.toList ((conts.map List.Vector.toList ++ rest).map some) =
        some ((init :: conts).map List.Vector.toList, rest.map some) ∧
      Dispatches m (init :: conts) := by
  obtain ⟨n, hn⟩ : ∃ n, n = before.length + (conts.length + 1) := ⟨_, rfl⟩
  rw [← hn] at hk hturns
  have hread := readSession_some (s := .phone) hsealed hinput turns (by omega)
  have hwhile : (arrived (k - 16) es).takeWhile (fun e => Side.phone.takes e.frame.body.length) = arrived (k - 16) es :=
    List.takeWhile_eq_self_iff.mpr fun e he => htaken e ((prefix_arrived _ _).subset he)
  rw [hwhile] at hread
  obtain ⟨got, hgot⟩ : ∃ got, got = ((arrived (k - 16) es).map SentFrame.payload).take turns.length := ⟨_, rfl⟩
  have hfirst : got.take n = before ++ (init :: conts).map List.Vector.toList := by
    have hlen : (before ++ (init :: conts).map List.Vector.toList).length = n := by
      rw [List.length_append, List.length_map, List.length_cons, hn]
    rw [hgot, List.take_take, Nat.min_eq_left hturns, ← List.map_take, arrived_take (by omega), List.map_take, ← hlen]
    exact (List.prefix_iff_eq_take.mp hsent).symm
  refine ⟨got.drop n, ?_, ?_, dispatches_carriedBy hm hle⟩
  · rw [hread, ← hgot]
    conv_lhs => rw [← List.take_append_drop n got, hfirst]
    rw [List.map_cons, List.append_assoc, List.cons_append]
  · refine RelayRequest.readRequest_iff.mpr ⟨conts, m, hm, hle, ?_, rfl⟩
    rw [List.map_append, List.map_map]
    rfl

/-- A first frame of the agent, and a message of two packets. -/
def requestFrames : List SentFrame :=
  [⟨[1], ⟨default, LanSession.tagged.encrypt default [1], by decide⟩⟩,
    ⟨(HidLayer.begins 5).toList, ⟨default, LanSession.tagged.encrypt default (HidLayer.begins 5).toList, by decide +kernel⟩⟩,
    ⟨(HidLayer.ends 5).toList, ⟨default, LanSession.tagged.encrypt default (HidLayer.ends 5).toList, by decide +kernel⟩⟩]

def requestPieces : List (List UInt8) :=
  [(wire default requestFrames).take 100, ((wire default requestFrames).take 241).drop 100]

theorem request_crosses_requestPieces : ∃ rest,
    readSession (fun _ message => message) (fun _ => LanSession.tagged) .phone ['4', '2'] default [true, true, false] requestPieces =
        some ([[1]] ++ (HidLayer.begins 5).toList :: ([HidLayer.ends 5].map List.Vector.toList ++ rest)) ∧
      RelayRequest.readRequest (HidLayer.begins 5).toList (([HidLayer.ends 5].map List.Vector.toList ++ rest).map some) =
        some ([HidLayer.begins 5, HidLayer.ends 5].map List.Vector.toList, rest.map some) ∧
      Dispatches ⟨5, hidPing, HidLayer.payload⟩ [HidLayer.begins 5, HidLayer.ends 5] := by
  have hsealed : ∀ e ∈ requestFrames, e.frame.body = LanSession.tagged.encrypt e.frame.nonce e.payload := by
    simp [requestFrames]
  have htaken : ∀ e ∈ requestFrames, Side.phone.takes e.frame.body.length = true := by decide +kernel
  have hpieces : requestPieces.flatten = (wire default requestFrames).take 241 := by decide +kernel
  have hsent : [[1]] ++ [HidLayer.begins 5, HidLayer.ends 5].map List.Vector.toList <+: requestFrames.map SentFrame.payload := by
    decide +kernel
  exact request_crosses hsealed htaken hpieces (HidLayer.payload_carriedBy 5) (by decide) hsent (by decide +kernel) (by decide)

end AbkFido
