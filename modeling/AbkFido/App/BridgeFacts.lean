/-
What `CborReader` makes of an assertion.

The driver's heads and the strings and maps it puts after them are read and
skipped as what they are, whatever comes after (`item_headBytes`, `Skips`).
So each lookup finds its field in a response, if it is made on a fresh
reader. But a lookup does not go back to where it began.
-/
import AbkFido.App.Bridge
import AbkFido.Command
import AbkFido.StoreOps

namespace AbkFido

namespace CborReader

theorem bind_eq_ok {ε α β : Type} {x : Except ε α} {f : α → Except ε β} {b : β} :
    x >>= f = .ok b ↔ ∃ a, x = .ok a ∧ f a = .ok b := by
  cases x with
  | error e => exact ⟨nofun, fun ⟨_, h, _⟩ => nomatch h⟩
  | ok a => exact ⟨fun h => ⟨a, rfl, h⟩, fun ⟨_, h, hb⟩ => by cases h; exact hb⟩

/-! ## Depth -/

variable {p q : Pos}

theorem next_shorter {n : Nat} (h : next p = .ok (n, q)) : q.length < p.length := by
  cases p with
  | nil => cases h
  | cons b p =>
    cases h
    exact Nat.lt_succ_self _

theorem take_shorter {n : Nat} {out : List UInt8} (h : take n p = .ok (out, q)) : q.length ≤ p.length := by
  unfold take at h
  split at h
  · cases h
    rw [List.length_drop]
    exact Nat.sub_le _ _
  · cases h

theorem item_shorter {head : Nat × Nat} (h : item p = .ok (head, q)) : q.length < p.length := by
  obtain ⟨⟨x, p₁⟩, h₁, h⟩ := bind_eq_ok.mp h
  have hp₁ := next_shorter h₁
  simp only at h
  split at h
  · cases h
    exact hp₁
  split at h
  · obtain ⟨⟨b, p₂⟩, h₂, h⟩ := bind_eq_ok.mp h
    cases h
    exact (next_shorter h₂).trans hp₁
  split at h
  · obtain ⟨⟨b, p₂⟩, h₂, h⟩ := bind_eq_ok.mp h
    obtain ⟨⟨c, p₃⟩, h₃, h⟩ := bind_eq_ok.mp h
    cases h
    exact ((next_shorter h₃).trans (next_shorter h₂)).trans hp₁
  · cases h

/-- Repeating two bodies that agree up to here, and never go back. -/
theorem times_congr {f g : Pos → Except ReadFault Pos} {k : Nat} (heq : ∀ q : Pos, q.length ≤ k → f q = g q)
    (hback : ∀ q r : Pos, f q = .ok r → r.length ≤ q.length) (n : Nat) :
    ∀ p : Pos, p.length ≤ k → times n f p = times n g p := by
  induction n with
  | zero => exact fun _ _ => rfl
  | succ n ih =>
    intro p hp
    simp only [times]
    rw [← heq p hp]
    cases hf : f p with
    | error e => rfl
    | ok r => exact ih r ((hback p r hf).trans hp)

theorem times_shorter {f : Pos → Except ReadFault Pos} (hback : ∀ q r : Pos, f q = .ok r → r.length ≤ q.length) (n : Nat) :
    ∀ p q : Pos, times n f p = .ok q → q.length ≤ p.length := by
  induction n with
  | zero =>
    intro p q h
    cases h
    exact Nat.le_refl _
  | succ n ih =>
    intro p q h
    obtain ⟨r, hr, h⟩ := bind_eq_ok.mp h
    exact (ih r q h).trans (hback p r hr)

theorem valueWithin_shorter (d : Nat) : ∀ p q : Pos, valueWithin d p = .ok q → q.length < p.length := by
  induction d with
  | zero => exact fun _ _ h => nomatch h
  | succ d ih =>
    intro p q h
    have hback : ∀ q r : Pos, valueWithin d q = .ok r → r.length ≤ q.length := fun q r hr => (ih q r hr).le
    obtain ⟨⟨⟨m, n⟩, p₁⟩, h₁, h⟩ := bind_eq_ok.mp h
    have hp₁ := item_shorter h₁
    simp only at h
    split at h
    · cases h
      exact hp₁
    split at h
    · obtain ⟨⟨out, p₂⟩, h₂, h⟩ := bind_eq_ok.mp h
      cases h
      exact (take_shorter h₂).trans_lt hp₁
    split at h
    · exact (times_shorter hback _ _ _ h).trans_lt hp₁
    split at h
    · exact (times_shorter hback _ _ _ h).trans_lt hp₁
    split at h
    · cases h
      exact hp₁
    · cases h

/-- More depth than there are bytes left is depth enough. -/
theorem valueWithin_congr (d : Nat) : ∀ (d' : Nat) (p : Pos), p.length < d → p.length < d' →
    valueWithin d p = valueWithin d' p := by
  induction d with
  | zero => exact fun _ _ h => absurd h (Nat.not_lt_zero _)
  | succ d ih =>
    intro d' p hd hd'
    obtain ⟨d', rfl⟩ : ∃ k, d' = k + 1 := Nat.exists_eq_add_one.mpr (Nat.zero_lt_of_lt hd')
    have hback : ∀ q r : Pos, valueWithin d q = .ok r → r.length ≤ q.length := fun q r hr => (valueWithin_shorter d q r hr).le
    simp only [valueWithin]
    cases hitem : item p with
    | error e => rfl
    | ok v =>
      have hshort : v.2.length < p.length := item_shorter hitem
      have hnested : ∀ n, times n (valueWithin d) v.2 = times n (valueWithin d') v.2 := fun n =>
        times_congr (fun q hq => ih d' q (by omega) (by omega)) hback n v.2 (Nat.le_refl _)
      simp only [bind, Except.bind, hnested]

theorem value_enough {d : Nat} (h : p.length < d) : valueWithin d p = value p :=
  valueWithin_congr d _ p h (Nat.lt_succ_self _)

/-! ## What the driver writes -/

open Writer (headBytes)

theorem next_cons (b : UInt8) (p : Pos) : next (b :: p) = .ok (b.toNat, p) := rfl

theorem toNat_ofNat_of_lt {n : Nat} (h : n < 256) : (UInt8.ofNat n).toNat = n := by
  rw [UInt8.toNat_ofNat', Nat.mod_eq_of_lt h]

/-- A byte or text string behind its head. -/
def stringBytes (major : Nat) (data : List UInt8) : List UInt8 := headBytes major data.length ++ data

/-- The driver's heads are read back, as far as two bytes hold the argument. -/
theorem item_headBytes {major value : Nat} (hmajor : major < 8) (hvalue : value < 65536) (rest : Pos) :
    item (headBytes major value ++ rest) = .ok ((major, value), rest) := by
  have hbyte : ∀ {a : Nat}, a < 32 → (UInt8.ofNat (major * 32 + a)).toNat / 32 = major ∧
      (UInt8.ofNat (major * 32 + a)).toNat % 32 = a := by
    intro a ha
    rw [toNat_ofNat_of_lt (by omega)]
    omega
  unfold headBytes
  split
  · next hv =>
    obtain ⟨hm, ha⟩ := hbyte (show value < 32 by omega)
    simp only [item, List.cons_append, List.nil_append, next_cons, bind, Except.bind, hm, ha, hv, if_true]
  split
  · next hv =>
    obtain ⟨hm, ha⟩ := hbyte (show 24 < 32 by decide)
    have hone : Writer.beBytes 1 value = [UInt8.ofNat value] := by simp [Writer.beBytes]
    rw [hone]
    simp only [item, List.cons_append, List.nil_append, next_cons, bind, Except.bind, hm, ha]
    simp only [Nat.reduceLeDiff, if_false, if_true, toNat_ofNat_of_lt (show value < 256 by omega)]
  split
  · next hv =>
    obtain ⟨hm, ha⟩ := hbyte (show 25 < 32 by decide)
    have htwo : Writer.beBytes 2 value = [UInt8.ofNat (value / 256), UInt8.ofNat value] := by
      simp [Writer.beBytes, List.range_succ]
    rw [htwo]
    simp only [item, List.cons_append, List.nil_append, next_cons, bind, Except.bind, hm, ha]
    simp only [Nat.reduceLeDiff, Nat.reduceEqDiff, if_false, if_true, UInt8.toNat_ofNat', Nat.reducePow]
    have hsum : value / 256 % 256 * 256 + value % 256 = value := by omega
    rw [hsum]
  · omega

theorem item_headBytes_wide {major value : Nat} (hmajor : major < 8) (hvalue : 65536 ≤ value) (rest : Pos) :
    item (headBytes major value ++ rest) = .error .unsupported := by
  have hbyte : ∀ {a : Nat}, a < 32 → (UInt8.ofNat (major * 32 + a)).toNat % 32 = a := by
    intro a ha
    rw [toNat_ofNat_of_lt (by omega)]
    omega
  unfold headBytes
  rw [if_neg (by omega), if_neg (by omega), if_neg (by omega)]
  split
  · simp only [item, List.cons_append, next_cons, bind, Except.bind, hbyte (show 26 < 32 by decide)]
    rfl
  · simp only [item, List.cons_append, next_cons, bind, Except.bind, hbyte (show 27 < 32 by decide)]
    rfl

theorem take_append {data : List UInt8} (rest : Pos) : take data.length (data ++ rest) = .ok (data, rest) := by
  rw [take, if_pos (by simp), List.take_left, List.drop_left]

/-- These bytes are one value to the reader, whatever comes after. -/
def Skips (enc : List UInt8) : Prop := ∀ d rest, enc.length < d → valueWithin d (enc ++ rest) = .ok rest

theorem Skips.value {enc : List UInt8} (h : Skips enc) (rest : Pos) : value (enc ++ rest) = .ok rest := by
  refine h _ rest ?_
  rw [List.length_append]
  omega

theorem skips_uint {value : Nat} (hvalue : value < 65536) : Skips (headBytes 0 value) := by
  intro d rest hd
  obtain ⟨d, rfl⟩ : ∃ k, d = k + 1 := Nat.exists_eq_add_one.mpr (Nat.zero_lt_of_lt hd)
  simp only [valueWithin, item_headBytes (show 0 < 8 by decide) hvalue rest, bind, Except.bind, true_or, if_true]

theorem skips_string {major : Nat} (hmajor : major = 2 ∨ major = 3) {data : List UInt8} (hdata : data.length < 65536) :
    Skips (stringBytes major data) := by
  intro d rest hd
  obtain ⟨d, rfl⟩ : ∃ k, d = k + 1 := Nat.exists_eq_add_one.mpr (Nat.zero_lt_of_lt hd)
  have hint : ¬ (major = 0 ∨ major = 1) := by omega
  rw [stringBytes, List.append_assoc]
  simp only [valueWithin, item_headBytes (show major < 8 by omega) hdata, bind, Except.bind, hint, hmajor, if_true,
    if_false, take_append]

/-- Values that are each skipped are skipped one after another. -/
theorem times_append {f : Pos → Except ReadFault Pos} {encs : List (List UInt8)}
    (hskip : ∀ enc ∈ encs, ∀ rest, f (enc ++ rest) = .ok rest) (n : Nat) (rest : Pos) :
    times (encs.length + n) f (encs.flatten ++ rest) = times n f rest := by
  induction encs with
  | nil => rw [List.length_nil, Nat.zero_add, List.flatten_nil, List.nil_append]
  | cons enc encs ih =>
    have hlen : (enc :: encs).length + n = encs.length + n + 1 := by rw [List.length_cons]; omega
    rw [List.flatten_cons, List.append_assoc, hlen, times, hskip enc List.mem_cons_self]
    exact ih fun e he => hskip e (List.mem_cons_of_mem _ he)

/-- A map is skipped entry by entry. -/
theorem skips_map {count : Nat} {encs : List (List UInt8)} (hcount : encs.length = count * 2) (hfits : count < 65536)
    (hskip : ∀ enc ∈ encs, Skips enc) : Skips (headBytes 5 count ++ encs.flatten) := by
  intro d rest hd
  obtain ⟨d, rfl⟩ : ∃ k, d = k + 1 := Nat.exists_eq_add_one.mpr (Nat.zero_lt_of_lt hd)
  have hhead := Writer.headBytes_length_pos 5 count
  have hnested : times (count * 2) (valueWithin d) (encs.flatten ++ rest) = .ok rest := by
    rw [← hcount]
    refine times_append (fun enc henc rest => hskip enc henc d rest ?_) 0 rest
    have hle : enc.length ≤ encs.flatten.length := (List.sublist_flatten_of_mem henc).length_le
    rw [List.length_append] at hd
    omega
  rw [List.append_assoc]
  simp only [valueWithin, item_headBytes (show 5 < 8 by decide) hfits, bind, Except.bind, Nat.reduceEqDiff, or_self,
    if_true, if_false, hnested]

/-! ## Lookups on a fresh reader -/

section Loops

variable {key k left count : Nat} {data enc more : List UInt8}

theorem bytesLoop_other (hk : k < 65536) (hne : k ≠ key) (h : Skips enc) (rest : Pos) :
    bytesLoop key (left + 1) (headBytes 0 k ++ (enc ++ rest)) = bytesLoop key left rest := by
  simp only [bytesLoop, item_headBytes (show 0 < 8 by decide) hk, bind, Except.bind, hne, and_false, if_false, h.value]

theorem bytesLoop_found (hkey : key < 65536) (hdata : data.length < 65536) (rest : Pos) :
    bytesLoop key (left + 1) (headBytes 0 key ++ (stringBytes 2 data ++ rest)) =
      (times (left * 2) value rest).map fun p => some (data, p) := by
  rw [stringBytes, List.append_assoc]
  simp only [bytesLoop, item_headBytes (show 0 < 8 by decide) hkey, item_headBytes (show 2 < 8 by decide) hdata, bind,
    Except.bind, and_self, if_true, take_append]
  cases times (left * 2) value rest with
  | error e => rfl
  | ok p => rfl

/-- The bytes under "id", where that is the first entry of the nested map. -/
theorem mapBytesLoop_found (hkey : key < 65536) (hcount : count + 1 < 65536) (hdata : data.length < 65536) (rest : Pos) :
    mapBytesLoop key (left + 1) (headBytes 0 key ++ (headBytes 5 (count + 1) ++
      (stringBytes 3 (text "id") ++ (stringBytes 2 data ++ more)) ++ rest)) = .ok (some (data, more ++ rest)) := by
  simp only [stringBytes, List.append_assoc, mapBytesLoop, nestedLoop, item_headBytes (show 0 < 8 by decide) hkey,
    item_headBytes (show 5 < 8 by decide) hcount, item_headBytes (show 3 < 8 by decide) (show (text "id").length < 65536 by decide),
    item_headBytes (show 2 < 8 by decide) hdata, bind, Except.bind, and_self, if_true, take_append, ne_eq,
    not_true_eq_false, if_false]

end Loops

/-! ## The response -/

section Response

variable (cred : Credential) (authData sig : List UInt8) (includeUser : Bool) (total : Nat)

/-- The map under key 1. -/
def credentialMap : List UInt8 :=
  headBytes 5 2 ++ (stringBytes 3 (text "id") ++ (stringBytes 2 cred.credId.toList ++
    (stringBytes 3 (text "type") ++ stringBytes 3 (text "public-key"))))

def hasDisplay : Bool := cred.userDisplay.str != [] && cred.userDisplay.str != cred.userName.str

def userItems : List (List UInt8) :=
  [stringBytes 3 (text "id"), stringBytes 2 (cred.userId.toList.take cred.userIdLen.toNat), stringBytes 3 (text "name"),
    stringBytes 3 cred.userName.str] ++
  if hasDisplay cred then [stringBytes 3 (text "displayName"), stringBytes 3 cred.userDisplay.str] else []

/-- Key 4 and its map, if the user is included. -/
def userEntry : List (List UInt8) :=
  if includeUser then [headBytes 0 4, headBytes 5 (if hasDisplay cred then 3 else 2) ++ (userItems cred).flatten] else []

/-- Key 5, if there are more credentials than one. -/
def totalEntry : List (List UInt8) := if total > 1 then [headBytes 0 5, headBytes 0 total] else []

/-- What comes after the signature. -/
def lastEntries : List (List UInt8) := userEntry cred includeUser ++ totalEntry total

def responseBytes : List UInt8 :=
  headBytes 5 (3 + (if includeUser then 1 else 0) + (if total > 1 then 1 else 0)) ++
    (headBytes 0 1 ++ (credentialMap cred ++ (headBytes 0 2 ++ (stringBytes 2 authData ++ (headBytes 0 3 ++
      (stringBytes 2 sig ++ (lastEntries cred includeUser total).flatten))))))

variable {cred authData sig includeUser total} {payload : List UInt8}

theorem wrote_userEntry (cred : Credential) (includeUser : Bool) {room : Nat} {bytes : List UInt8} {w : Writer}
    (h : w.Wrote room bytes) :
    Writer.Wrote room (bytes ++ (userEntry cred includeUser).flatten)
      (if includeUser then
        let w := (((((w.putInt 4).putMap (if hasDisplay cred then 3 else 2)).putText (text "id")).putBytes
          (cred.userId.toList.take cred.userIdLen.toNat)).putText (text "name")).putText cred.userName.str
        if hasDisplay cred then (w.putText (text "displayName")).putText cred.userDisplay.str else w
      else w) := by
  cases includeUser with
  | false => simpa [userEntry] using h
  | true =>
    have hnamed := fun count => (((((h.putKey 4).putMap count).putText (text "id")).putBytes
      (cred.userId.toList.take cred.userIdLen.toNat)).putText (text "name")).putText cred.userName.str
    by_cases hdisplay : hasDisplay cred = true
    · have hshown := ((hnamed 3).putText (text "displayName")).putText cred.userDisplay.str
      simpa [userEntry, userItems, hdisplay, stringBytes] using hshown
    · simpa [userEntry, userItems, hdisplay, stringBytes] using hnamed 2

theorem wrote_totalEntry (total : Nat) {room : Nat} {bytes : List UInt8} {w : Writer} (h : w.Wrote room bytes) :
    Writer.Wrote room (bytes ++ (totalEntry total).flatten) (if total > 1 then (w.putInt 5).putUint total else w) := by
  by_cases htotal : total > 1
  · simpa [totalEntry, htotal] using (h.putKey 5).putUint total
  · simpa [totalEntry, htotal] using h

/-- A response that fits is these bytes. -/
theorem payload_eq (h : assertionPayload cred authData sig includeUser total = .ok payload) :
    payload = responseBytes cred authData sig includeUser total ∧ payload.length ≤ maxCbor := by
  have hsigned := fun pairs => ((((((((((Writer.wrote_init maxCbor).putMap pairs).putKey 1).putMap 2).putText (text "id")).putBytes
    cred.credId.toList).putText (text "type")).putText (text "public-key")).putKey 2).putBytes authData).putKey 3
      |>.putBytes sig
  have hwrote := fun pairs => wrote_totalEntry total (wrote_userEntry cred includeUser (hsigned pairs))
  obtain ⟨heq, hlen⟩ := (hwrote _).result h
  have hassoc : payload = responseBytes cred authData sig includeUser total := by
    rw [heq]
    simp only [responseBytes, credentialMap, lastEntries, stringBytes, List.nil_append, List.append_assoc, List.flatten_append]
  exact ⟨hassoc, heq ▸ hlen⟩

theorem skips_credentialMap (cred : Credential) : Skips (credentialMap cred) := by
  have hid : cred.credId.toList.length < 65536 := by rw [cred.credId.toList_length]; decide
  have hmap := skips_map (show ([stringBytes 3 (text "id"), stringBytes 2 cred.credId.toList, stringBytes 3 (text "type"),
    stringBytes 3 (text "public-key")] : List (List UInt8)).length = 2 * 2 from rfl) (by decide) (fun enc henc => by
      simp only [List.mem_cons, List.not_mem_nil, or_false] at henc
      rcases henc with rfl | rfl | rfl | rfl
      · exact skips_string (.inr rfl) (by decide)
      · exact skips_string (.inl rfl) hid
      · exact skips_string (.inr rfl) (by decide)
      · exact skips_string (.inr rfl) (by decide))
  simpa [credentialMap] using hmap

theorem skips_userItems (cred : Credential) : ∀ enc ∈ userItems cred, Skips enc := by
  have huser : (cred.userId.toList.take cred.userIdLen.toNat).length < 65536 := by
    have h := cred.userId.toList_length
    rw [List.length_take]
    omega
  have hname : ∀ c : CharBuf 64, Skips (stringBytes 3 c.str) := fun c =>
    skips_string (.inr rfl) (c.length_str_lt.trans (by decide))
  intro enc henc
  rw [userItems, List.mem_append] at henc
  rcases henc with hfirst | hlast
  · simp only [List.mem_cons, List.not_mem_nil, or_false] at hfirst
    rcases hfirst with rfl | rfl | rfl | rfl
    · exact skips_string (.inr rfl) (by decide)
    · exact skips_string (.inl rfl) huser
    · exact skips_string (.inr rfl) (by decide)
    · exact hname _
  · split at hlast
    · simp only [List.mem_cons, List.not_mem_nil, or_false] at hlast
      rcases hlast with rfl | rfl
      · exact skips_string (.inr rfl) (by decide)
      · exact hname _
    · cases hlast

theorem skips_userEntry (cred : Credential) (includeUser : Bool) : ∀ enc ∈ userEntry cred includeUser, Skips enc := by
  intro enc henc
  unfold userEntry at henc
  split at henc
  · simp only [List.mem_cons, List.not_mem_nil, or_false] at henc
    have hcount : (userItems cred).length = (if hasDisplay cred then 3 else 2) * 2 := by
      unfold userItems
      split
      · rfl
      · rfl
    rcases henc with rfl | rfl
    · exact skips_uint (by decide)
    · exact skips_map hcount (by split <;> decide) (skips_userItems cred)
  · cases henc

theorem skips_lastEntries (cred : Credential) (includeUser : Bool) (htotal : total < 65536) : ∀ enc ∈ lastEntries cred includeUser total, Skips enc := by
  intro enc henc
  rcases List.mem_append.mp henc with huser | hlast
  · exact skips_userEntry cred includeUser enc huser
  · unfold totalEntry at hlast
    split at hlast
    · simp only [List.mem_cons, List.not_mem_nil, or_false] at hlast
      rcases hlast with rfl | rfl
      · exact skips_uint (by decide)
      · exact skips_uint htotal
    · cases hlast

theorem length_lastEntries : (lastEntries cred includeUser total).length =
    ((if includeUser then 1 else 0) + (if total > 1 then 1 else 0)) * 2 := by
  have huser : (userEntry cred includeUser).length = (if includeUser then 1 else 0) * 2 := by
    unfold userEntry
    cases includeUser with
    | false => rfl
    | true => rfl
  have htotal : (totalEntry total).length = (if total > 1 then 1 else 0) * 2 := by
    unfold totalEntry
    split
    · rfl
    · rfl
  rw [lastEntries, List.length_append, huser, htotal, Nat.add_mul]

/-! The lookups on a fresh reader. -/

theorem length_authData (h : assertionPayload cred authData sig includeUser total = .ok payload) : authData.length < 65536 := by
  obtain ⟨heq, hlen⟩ := payload_eq h
  simp only [heq, responseBytes, stringBytes, List.length_append] at hlen
  have hmax : maxCbor < 65536 := by decide
  omega

theorem length_sig (h : assertionPayload cred authData sig includeUser total = .ok payload) : sig.length < 65536 := by
  obtain ⟨heq, hlen⟩ := payload_eq h
  simp only [heq, responseBytes, stringBytes, List.length_append] at hlen
  have hmax : maxCbor < 65536 := by decide
  omega

theorem pairs_eq (cred : Credential) : 3 + (if includeUser then 1 else 0) + (if total > 1 then 1 else 0) =
    (lastEntries cred includeUser total).length / 2 + 1 + 1 + 1 := by
  rw [length_lastEntries, Nat.mul_div_cancel _ Nat.two_pos]
  omega

theorem item_response (cred : Credential) (authData sig : List UInt8) (includeUser : Bool) (total : Nat) :
    item (responseBytes cred authData sig includeUser total) =
      .ok ((5, (lastEntries cred includeUser total).length / 2 + 1 + 1 + 1), headBytes 0 1 ++ (credentialMap cred ++
        (headBytes 0 2 ++ (stringBytes 2 authData ++ (headBytes 0 3 ++ (stringBytes 2 sig ++
          (lastEntries cred includeUser total).flatten)))))) := by
  rw [responseBytes, pairs_eq cred, item_headBytes (by decide)]
  rw [length_lastEntries]
  split <;> split <;> decide

/-- What `bytes` returns, from what its loop comes to. -/
theorem bytes_of_item {p q : Pos} {n : Nat} (hitem : item p = .ok ((5, n), q)) (key : Nat) :
    bytes key p = (bytesLoop key n q).map fun found => found.elim (none, p) fun f => (some f.1, f.2) := by
  simp only [bytes, hitem, bind, Except.bind, ne_eq, not_true_eq_false, if_false]
  cases bytesLoop key n q with
  | error e => rfl
  | ok found =>
    cases found with
    | none => rfl
    | some f => rfl

theorem length_last (cred : Credential) (includeUser : Bool) (total : Nat) :
    (lastEntries cred includeUser total).length = (lastEntries cred includeUser total).length / 2 * 2 := by
  rw [length_lastEntries, Nat.mul_div_cancel _ Nat.two_pos]

/-- What comes after the signature is skipped. -/
theorem times_lastEntries (cred : Credential) (includeUser : Bool) (htotal : total < 65536) :
    times ((lastEntries cred includeUser total).length / 2 * 2) value (lastEntries cred includeUser total).flatten =
      .ok [] := by
  rw [← length_last]
  have htimes := times_append (fun enc henc rest => (skips_lastEntries cred includeUser htotal enc henc).value rest) 0 []
  rwa [List.append_nil] at htimes

/-- Unless the number of credentials takes more than two bytes. -/
theorem times_lastEntries_wide (cred : Credential) (includeUser : Bool) (htotal : 65536 ≤ total) :
    times ((lastEntries cred includeUser total).length / 2 * 2) value (lastEntries cred includeUser total).flatten =
      .error .unsupported := by
  have hentry : totalEntry total = [headBytes 0 5, headBytes 0 total] := if_pos (by omega)
  have hstop : value (headBytes 0 total) = .error .unsupported := by
    have hitem := item_headBytes_wide (show 0 < 8 by decide) htotal []
    rw [List.append_nil] at hitem
    simp only [value, valueWithin, hitem, bind, Except.bind]
  have hfive : value (headBytes 0 5 ++ headBytes 0 total) = .ok (headBytes 0 total) := (skips_uint (by decide)).value _
  have huser := times_append (fun enc henc rest => (skips_userEntry cred includeUser enc henc).value rest) 2
    (headBytes 0 5 ++ headBytes 0 total)
  rw [← length_last, lastEntries, hentry, List.length_append, List.flatten_append]
  simp only [List.flatten_cons, List.flatten_nil, List.append_nil, List.length_cons, List.length_nil, huser, times, hfive,
    bind, Except.bind, hstop]

theorem bytes_authData (h : assertionPayload cred authData sig includeUser total = .ok payload) :
    bytes 2 payload =
      (times ((lastEntries cred includeUser total).length / 2 * 2) value (lastEntries cred includeUser total).flatten).map
        fun p => (some authData, p) := by
  rw [(payload_eq h).1, bytes_of_item (item_response cred authData sig includeUser total),
    bytesLoop_other (by decide) (by decide) (skips_credentialMap cred)]
  have hskip : ∀ enc ∈ [headBytes 0 3, stringBytes 2 sig], ∀ rest, value (enc ++ rest) = .ok rest := by
    intro enc henc
    simp only [List.mem_cons, List.not_mem_nil, or_false] at henc
    rcases henc with rfl | rfl
    · exact (skips_uint (by decide)).value
    · exact (skips_string (.inl rfl) (length_sig h)).value
  have htimes := times_append hskip ((lastEntries cred includeUser total).length / 2 * 2)
    (lastEntries cred includeUser total).flatten
  simp only [List.length_cons, List.length_nil, List.flatten_cons, List.flatten_nil, List.append_nil,
    List.append_assoc] at htimes
  have hleft : ((lastEntries cred includeUser total).length / 2 + 1) * 2 =
      0 + 1 + 1 + (lastEntries cred includeUser total).length / 2 * 2 := by omega
  rw [bytesLoop_found (by decide) (length_authData h), hleft, htimes]
  cases times _ value _ with
  | error e => rfl
  | ok p => rfl

theorem bytes_sig (h : assertionPayload cred authData sig includeUser total = .ok payload) :
    bytes 3 payload =
      (times ((lastEntries cred includeUser total).length / 2 * 2) value (lastEntries cred includeUser total).flatten).map
        fun p => (some sig, p) := by
  rw [(payload_eq h).1, bytes_of_item (item_response cred authData sig includeUser total),
    bytesLoop_other (by decide) (by decide) (skips_credentialMap cred),
    bytesLoop_other (by decide) (by decide) (skips_string (.inl rfl) (length_authData h))]
  rw [bytesLoop_found (by decide) (length_sig h)]
  cases times _ value _ with
  | error e => rfl
  | ok p => rfl

/-- The credential id is found too; the position stays behind it, inside the map. -/
theorem mapBytes_credId (h : assertionPayload cred authData sig includeUser total = .ok payload) (nestedKey : Nat) :
    ∃ rest, mapBytes 1 nestedKey payload = .ok (some cred.credId.toList, stringBytes 3 (text "type") ++ rest) := by
  have hid : cred.credId.toList.length < 65536 := by rw [cred.credId.toList_length]; decide
  rw [(payload_eq h).1]
  simp only [mapBytes, item_response, bind, Except.bind, ne_eq, not_true_eq_false, if_false]
  rw [credentialMap, mapBytesLoop_found (by decide) (by decide) hid]
  simp only [List.append_assoc]
  exact ⟨_, rfl⟩

/-! ## One reader -/

/-- The first lookup leaves the position at the end of the response, where the
second finds nothing to read. -/
theorem assertionFields_throws (h : assertionPayload cred authData sig includeUser total = .ok payload) :
    ∃ e, assertionFields payload = .error e := by
  have hfirst := bytes_authData h
  rcases Nat.lt_or_ge total 65536 with htotal | htotal
  · rw [times_lastEntries cred includeUser htotal] at hfirst
    exact ⟨.indexOutOfBounds, by rw [assertionFields, hfirst]; rfl⟩
  · rw [times_lastEntries_wide cred includeUser htotal] at hfirst
    exact ⟨.unsupported, by rw [assertionFields, hfirst]; rfl⟩

/-- `mapBytes` leaves the position inside the map, and finds no map from there. -/
theorem not_orderFree (h : assertionPayload cred authData sig includeUser total = .ok payload) : ¬ OrderFree payload := by
  obtain ⟨rest, hfound⟩ := mapBytes_credId h 1
  have hafter : after [.mapBytes 1 1] payload = .ok (stringBytes 3 (text "type") ++ rest) := by
    simp only [after, Lookup.run, hfound, bind, Except.bind]
  have hagain : mapBytes 1 1 (stringBytes 3 (text "type") ++ rest) = .ok (none, stringBytes 3 (text "type") ++ rest) := by
    rw [stringBytes, List.append_assoc, mapBytes, item_headBytes (by decide) (by decide)]
    rfl
  intro hfree
  have hsame := hfree _ _ hafter (.mapBytes 1 1)
  simp only [Lookup.result, Lookup.run, hfound, hagain, Except.map] at hsame
  cases hsame

/-- Each of the three lookups alone finds what the response carries. -/
theorem fresh_lookups (h : assertionPayload cred authData sig includeUser total = .ok payload) (htotal : total < 65536) :
    (Lookup.bytes 2).result payload = .ok (some authData) ∧ (Lookup.bytes 3).result payload = .ok (some sig) ∧
      (Lookup.mapBytes 1 1).result payload = .ok (some cred.credId.toList) := by
  obtain ⟨rest, hfound⟩ := mapBytes_credId h 1
  simp only [Lookup.result, Lookup.run, bytes_authData h, bytes_sig h, hfound, times_lastEntries cred includeUser htotal]
  exact ⟨rfl, rfl, rfl⟩

/-- **No response of the driver is read by the three lookups on one reader**,
nor does what a lookup returns not depend on those before it. -/
theorem never_reads (h : assertionPayload cred authData sig includeUser total = .ok payload) :
    ¬ Reads cred.credId.toList authData sig payload ∧ ¬ OrderFree payload := by
  obtain ⟨e, hthrows⟩ := assertionFields_throws h
  refine ⟨fun hreads => ?_, not_orderFree h⟩
  rw [Reads, hthrows] at hreads
  cases hreads

end Response

def sampleAuthData : List UInt8 := .replicate 37 7

def sampleSig : List UInt8 := .replicate 70 9

/-- The first of two keys, with its user. -/
theorem sample_never_reads : ∃ payload, assertionPayload (namedKey 9) sampleAuthData sampleSig true 2 = .ok payload ∧
    ¬ Reads (namedKey 9).credId.toList sampleAuthData sampleSig payload ∧ ¬ OrderFree payload := by
  have hpayload : assertionPayload (namedKey 9) sampleAuthData sampleSig true 2 =
      .ok (responseBytes (namedKey 9) sampleAuthData sampleSig true 2) := by decide +kernel
  exact ⟨_, hpayload, never_reads hpayload⟩

/-- The response to a request for a key that is alone, without the user. -/
theorem exists_unread : ∃ payload, assertionPayload (namedKey 9) sampleAuthData sampleSig false 1 = .ok payload ∧
    assertionFields payload = .error .indexOutOfBounds ∧
    assertionFields payload ≠ .ok (some sampleAuthData, some sampleSig, some (namedKey 9).credId.toList) :=
  ⟨responseBytes (namedKey 9) sampleAuthData sampleSig false 1, by decide +kernel⟩

end CborReader

end AbkFido
