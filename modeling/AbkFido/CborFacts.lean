/-
What the writer keeps: as long as there is room, what is put is written, and
nothing fails (`Writer.Within`); nothing but want of room ever fails
(`Writer.Overflows`); and unless it has failed, it has written all that was
put (`Writer.Wrote`).
-/
import AbkFido.Cbor

namespace AbkFido

namespace Writer

@[simp] theorem length_beBytes (n v : Nat) : (beBytes n v).length = n := by
  rw [beBytes, List.length_map, List.length_range]

theorem len_put (bytes : List UInt8) (w : Writer) : (w.put bytes).len = w.len := by
  unfold put
  split
  · rfl
  split <;> rfl

/-- No error so far, with at most `n` of `room` bytes written. -/
structure Within (room n : Nat) (w : Writer) : Prop where
  len : w.len = room
  err : w.err = none
  length : w.out.length ≤ n

theorem within_init (room : Nat) : Within room 0 (init room) := ⟨rfl, rfl, le_rfl⟩

namespace Within

variable {room n : Nat} {w : Writer}

theorem result (h : w.Within room n) : w.result = .ok w.out := by rw [Writer.result, h.err]

theorem mono (h : w.Within room n) {m : Nat} (hm : n ≤ m) : w.Within room m := ⟨h.len, h.err, h.length.trans hm⟩

theorem put (h : w.Within room n) {bytes : List UInt8} {k : Nat} (hk : bytes.length ≤ k) (hroom : n + k ≤ room) :
    (w.put bytes).Within room (n + k) := by
  have hlen := h.length
  have herr : ¬ w.err.isSome = true := by rw [h.err]; decide
  have hfits : ¬ w.out.length + bytes.length > w.len := by rw [h.len]; omega
  rw [Writer.put, if_neg herr, if_neg hfits]
  refine ⟨h.len, h.err, ?_⟩
  rw [List.length_append]
  omega

/-- A head takes at most nine bytes. -/
theorem putHead (h : w.Within room n) (major value : Nat) (hroom : n + 9 ≤ room) :
    (w.putHead major value).Within room (n + 9) := by
  have hhead : ∀ (byte : UInt8) (k : Nat), k ≤ 8 → (byte :: beBytes k value).length ≤ 9 := by
    intro byte k hk
    rw [List.length_cons, length_beBytes]
    omega
  unfold Writer.putHead
  split
  · exact h.put (Nat.le_add_left 1 8) hroom
  split
  · exact h.put (hhead _ 1 (by decide)) hroom
  split
  · exact h.put (hhead _ 2 (by decide)) hroom
  split
  · exact h.put (hhead _ 4 (by decide)) hroom
  · exact h.put (hhead _ 8 le_rfl) hroom

theorem putInt (h : w.Within room n) (value : Int) (hroom : n + 9 ≤ room) : (w.putInt value).Within room (n + 9) := by
  rw [Writer.putInt]
  split
  · exact h.putHead _ _ hroom
  · exact h.putHead _ _ hroom

theorem putUint (h : w.Within room n) (value : Nat) (hroom : n + 9 ≤ room) : (w.putUint value).Within room (n + 9) :=
  h.putHead _ _ hroom

theorem putMap (h : w.Within room n) (count : Nat) (hroom : n + 9 ≤ room) : (w.putMap count).Within room (n + 9) :=
  h.putHead _ _ hroom

theorem putBytes (h : w.Within room n) {data : List UInt8} {k : Nat} (hk : data.length ≤ k) (hroom : n + 9 + k ≤ room) :
    (w.putBytes data).Within room (n + 9 + k) :=
  (h.putHead _ _ (by omega)).put hk hroom

theorem putText (h : w.Within room n) {text : List UInt8} {k : Nat} (hk : text.length ≤ k) (hroom : n + 9 + k ≤ room) :
    (w.putText text).Within room (n + 9 + k) :=
  (h.putHead _ _ (by omega)).put hk hroom

end Within

/-- The only error there can be is that the room was not enough. -/
def Overflows (w : Writer) : Prop := ∀ e, w.err = some e → e = .eoverflow

namespace Overflows

variable {w : Writer}

theorem init (room : Nat) : (Writer.init room).Overflows := fun e h => by cases h

theorem put (h : w.Overflows) (bytes : List UInt8) : (w.put bytes).Overflows := by
  unfold Writer.put
  split
  · exact h
  split
  · intro e he
    cases he
    rfl
  · exact h

theorem putHead (h : w.Overflows) (major value : Nat) : (w.putHead major value).Overflows := by
  unfold Writer.putHead
  split
  · exact h.put _
  split
  · exact h.put _
  split
  · exact h.put _
  split
  · exact h.put _
  · exact h.put _

theorem putInt (h : w.Overflows) (value : Int) : (w.putInt value).Overflows := by
  unfold Writer.putInt
  split
  · exact h.putHead _ _
  · exact h.putHead _ _

theorem putMap (h : w.Overflows) (count : Nat) : (w.putMap count).Overflows := h.putHead _ _

theorem putBytes (h : w.Overflows) (data : List UInt8) : (w.putBytes data).Overflows := (h.putHead _ _).put data

theorem putText (h : w.Overflows) (text : List UInt8) : (w.putText text).Overflows := (h.putHead _ _).put text

theorem putBool (h : w.Overflows) (value : Bool) : (w.putBool value).Overflows := h.putHead _ _

theorem result (h : w.Overflows) {e : Errno} (he : w.result = .error e) : e = .eoverflow := by
  unfold Writer.result at he
  split at he
  · next e' herr =>
    cases he
    exact h _ herr
  · cases he

end Overflows

/-- The bytes of a head. -/
def headBytes (major value : Nat) : List UInt8 :=
  if value ≤ 23 then [UInt8.ofNat (major * 32 + value)]
  else if value ≤ 0xff then UInt8.ofNat (major * 32 + 24) :: beBytes 1 value
  else if value ≤ 0xffff then UInt8.ofNat (major * 32 + 25) :: beBytes 2 value
  else if value ≤ 0xffffffff then UInt8.ofNat (major * 32 + 26) :: beBytes 4 value
  else UInt8.ofNat (major * 32 + 27) :: beBytes 8 value

theorem putHead_eq (major value : Nat) : putHead major value = put (headBytes major value) := by
  simp only [putHead, headBytes, apply_ite put]

theorem headBytes_length_pos (major value : Nat) : 0 < (headBytes major value).length := by
  unfold headBytes
  split
  · exact Nat.one_pos
  split
  · exact Nat.succ_pos _
  split
  · exact Nat.succ_pos _
  split
  · exact Nat.succ_pos _
  · exact Nat.succ_pos _

/-- Unless it has failed, the writer has written these bytes. -/
structure Wrote (room : Nat) (bytes : List UInt8) (w : Writer) : Prop where
  len : w.len = room
  out : w.err = none → w.out = bytes
  fits : w.err = none → bytes.length ≤ room

theorem wrote_init (room : Nat) : Wrote room [] (init room) := ⟨rfl, fun _ => rfl, fun _ => Nat.zero_le _⟩

namespace Wrote

variable {room : Nat} {bytes : List UInt8} {w : Writer}

theorem put (h : w.Wrote room bytes) (more : List UInt8) : (w.put more).Wrote room (bytes ++ more) := by
  unfold Writer.put
  split
  · next herr =>
    have hfailed : w.err ≠ none := Option.isSome_iff_ne_none.mp herr
    exact ⟨h.len, fun hnone => absurd hnone hfailed, fun hnone => absurd hnone hfailed⟩
  split
  · exact ⟨h.len, nofun, nofun⟩
  · next hfits =>
    refine ⟨h.len, fun hnone => by rw [h.out hnone], fun hnone => ?_⟩
    rw [h.out hnone, h.len] at hfits
    rw [List.length_append]
    omega

theorem putHead (h : w.Wrote room bytes) (major value : Nat) :
    (w.putHead major value).Wrote room (bytes ++ headBytes major value) := by
  rw [putHead_eq]
  exact h.put _

theorem putUint (h : w.Wrote room bytes) (value : Nat) : (w.putUint value).Wrote room (bytes ++ headBytes 0 value) :=
  h.putHead 0 value

theorem putKey (h : w.Wrote room bytes) (key : Nat) : (w.putInt key).Wrote room (bytes ++ headBytes 0 key) := by
  rw [Writer.putInt, if_pos (Int.natCast_nonneg key), Int.toNat_natCast]
  exact h.putHead 0 key

theorem putMap (h : w.Wrote room bytes) (count : Nat) : (w.putMap count).Wrote room (bytes ++ headBytes 5 count) :=
  h.putHead 5 count

theorem putBytes (h : w.Wrote room bytes) (data : List UInt8) :
    (w.putBytes data).Wrote room (bytes ++ (headBytes 2 data.length ++ data)) := by
  rw [← List.append_assoc]
  exact (h.putHead 2 data.length).put data

theorem putText (h : w.Wrote room bytes) (text : List UInt8) :
    (w.putText text).Wrote room (bytes ++ (headBytes 3 text.length ++ text)) := by
  rw [← List.append_assoc]
  exact (h.putHead 3 text.length).put text

theorem result (h : w.Wrote room bytes) {payload : List UInt8} (hp : w.result = .ok payload) :
    payload = bytes ∧ bytes.length ≤ room := by
  unfold Writer.result at hp
  split at hp
  · cases hp
  · next hnone =>
    cases hp
    exact ⟨h.out hnone, h.fits hnone⟩

end Wrote

end Writer

end AbkFido
