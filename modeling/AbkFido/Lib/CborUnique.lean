/-
A canonical encoding is read in one way: no tree's is the start of another's
(`Tree.Canonical.encode_inj`).
-/
import AbkFido.Lib.CborTree

namespace CborForm

/-! ## Heads -/

/-- The additional information of the shortest head, and how many bytes follow it. -/
def headInfo (arg : Nat) : Nat × Nat :=
  if arg ≤ 23 then (arg, 0)
  else if arg ≤ 0xff then (24, 1)
  else if arg ≤ 0xffff then (25, 2)
  else if arg ≤ 0xffffffff then (26, 4)
  else (27, 8)

theorem shortHead_eq (major arg : Nat) : shortHead major arg =
    UInt8.ofNat (major * 32 + (headInfo arg).1) :: bigEndian (headInfo arg).2 arg := by
  unfold shortHead headInfo
  split_ifs <;> rfl

theorem headInfo_lt (arg : Nat) : (headInfo arg).1 < 32 := by
  unfold headInfo
  split_ifs <;> simp only <;> omega

/-- The information says how many bytes follow. -/
theorem headInfo_snd {arg arg' : Nat} (h : (headInfo arg).1 = (headInfo arg').1) :
    (headInfo arg).2 = (headInfo arg').2 ∧ (arg = arg' ∨ 23 < arg ∧ 23 < arg') := by
  unfold headInfo at h ⊢
  split_ifs at h ⊢ <;> simp at h ⊢ <;> omega

/-- What follows has room for the argument. -/
theorem lt_of_headInfo {arg : Nat} (h : arg < 2 ^ 64) (hwide : 23 < arg) : arg < 256 ^ (headInfo arg).2 := by
  unfold headInfo
  split_ifs <;> simp only <;> omega

theorem shortHead_inj {major major' arg arg' : Nat} {xs ys : List UInt8} (hmajor : major < 8) (hmajor' : major' < 8)
    (harg : arg < 2 ^ 64) (harg' : arg' < 2 ^ 64) (h : shortHead major arg ++ xs = shortHead major' arg' ++ ys) :
    major = major' ∧ arg = arg' ∧ xs = ys := by
  rw [shortHead_eq, shortHead_eq, List.cons_append, List.cons_append, List.cons.injEq] at h
  obtain ⟨hfirst, hrest⟩ := h
  have hinfo := headInfo_lt arg
  have hinfo' := headInfo_lt arg'
  have hbyte : major * 32 + (headInfo arg).1 = major' * 32 + (headInfo arg').1 := by
    have := congrArg UInt8.toNat hfirst
    rwa [UInt8.toNat_ofNat_of_lt' (by show _ < 256; omega), UInt8.toNat_ofNat_of_lt' (by show _ < 256; omega)] at this
  obtain ⟨hcount, hargs⟩ := headInfo_snd (show (headInfo arg).1 = (headInfo arg').1 by omega)
  obtain ⟨hbytes, hxs⟩ := List.append_inj hrest (by rw [length_bigEndian, length_bigEndian, hcount])
  refine ⟨by omega, ?_, hxs⟩
  rcases hargs with heq | ⟨hwide, hwide'⟩
  · exact heq
  · have hvalue := congrArg ofBigEndian hbytes
    rwa [ofBigEndian_bigEndian (lt_of_headInfo harg hwide), ofBigEndian_bigEndian (lt_of_headInfo harg' hwide')] at hvalue

/-! ## Trees -/

namespace Tree

def major : Tree → Nat
  | uint _ => 0
  | nint _ => 1
  | bytes _ => 2
  | text _ => 3
  | array _ => 4
  | map _ => 5
  | bool _ => 7

/-- The argument of the head. -/
def arg : Tree → Nat
  | uint n | nint n => n
  | bytes data => data.length
  | text s => s.length
  | array items => items.length
  | map entries => entries.length
  | bool b => if b then 21 else 20

/-- What follows the head. -/
def body : Tree → List UInt8
  | uint _ | nint _ | bool _ => []
  | bytes data => data
  | text s => s
  | array items => encodeItems items
  | map entries => encodeEntries entries

theorem encode_eq (t : Tree) : t.encode = shortHead t.major t.arg ++ t.body := by
  cases t <;> simp [encode, major, arg, body]

theorem major_lt (t : Tree) : t.major < 8 := by cases t <;> simp [major]

theorem Canonical.arg_lt {t : Tree} (h : t.Canonical) : t.arg < 2 ^ 64 := by
  cases h with
  | uint h | nint h | bytes h | text h | array h | map h => exact h
  | @bool b => cases b <;> simp [arg]

/-- No other tree's encoding is at the start of what begins with this one's. -/
def Unique (t : Tree) : Prop :=
  ∀ (t' : Tree) (xs ys : List UInt8), t'.Canonical → t.encode ++ xs = t'.encode ++ ys → t = t' ∧ xs = ys

theorem items_inj : ∀ {items items' : List Tree} {xs ys : List UInt8}, (∀ i ∈ items, i.Unique) → (∀ i ∈ items', i.Canonical) →
    items.length = items'.length → encodeItems items ++ xs = encodeItems items' ++ ys → items = items' ∧ xs = ys
  | [], [], _, _, _, _, _, h => ⟨rfl, h⟩
  | item :: items, item' :: items', xs, ys, hunique, hcanonical, hlen, h => by
    rw [encodeItems, encodeItems, List.append_assoc, List.append_assoc] at h
    obtain ⟨rfl, hrest⟩ := hunique item (.head _) item' _ _ (hcanonical item' (.head _)) h
    obtain ⟨rfl, hxs⟩ := items_inj (fun i hi => hunique i (.tail _ hi)) (fun i hi => hcanonical i (.tail _ hi))
      (Nat.succ.inj hlen) hrest
    exact ⟨rfl, hxs⟩

theorem entries_inj : ∀ {entries entries' : List (Tree × Tree)} {xs ys : List UInt8},
    (∀ e ∈ entries, e.1.Unique) → (∀ e ∈ entries, e.2.Unique) → (∀ e ∈ entries', e.1.Canonical) →
    (∀ e ∈ entries', e.2.Canonical) → entries.length = entries'.length →
    encodeEntries entries ++ xs = encodeEntries entries' ++ ys → entries = entries' ∧ xs = ys
  | [], [], _, _, _, _, _, _, _, h => ⟨rfl, h⟩
  | (key, value) :: entries, (key', value') :: entries', xs, ys, hkeys, hvalues, hkeys', hvalues', hlen, h => by
    rw [encodeEntries, encodeEntries, encodeEntry, encodeEntry, List.append_assoc, List.append_assoc, List.append_assoc,
      List.append_assoc] at h
    obtain ⟨rfl, hrest⟩ := hkeys _ (.head _) key' _ _ (hkeys' _ (.head _)) h
    obtain ⟨heq, htail⟩ := hvalues _ (.head _) value' _ _ (hvalues' _ (.head _)) hrest
    obtain rfl : value = value' := heq
    obtain ⟨rfl, hxs⟩ := entries_inj (fun e he => hkeys e (.tail _ he)) (fun e he => hvalues e (.tail _ he))
      (fun e he => hkeys' e (.tail _ he)) (fun e he => hvalues' e (.tail _ he)) (Nat.succ.inj hlen) htail
    exact ⟨rfl, hxs⟩

theorem Canonical.head_inj {t t' : Tree} {xs ys : List UInt8} (h : t.Canonical) (h' : t'.Canonical)
    (heq : t.encode ++ xs = t'.encode ++ ys) : t.major = t'.major ∧ t.arg = t'.arg ∧ t.body ++ xs = t'.body ++ ys := by
  rw [encode_eq, encode_eq, List.append_assoc, List.append_assoc] at heq
  exact shortHead_inj t.major_lt t'.major_lt h.arg_lt h'.arg_lt heq

theorem Canonical.unique {t : Tree} (h : t.Canonical) : t.Unique := by
  induction h with
  | @uint n hn =>
    intro t' xs ys h' heq
    obtain ⟨hmajor, harg, hbody⟩ := (Canonical.uint hn).head_inj h' heq
    cases t' <;> simp [major] at hmajor
    exact ⟨congrArg _ harg, hbody⟩
  | @nint n hn =>
    intro t' xs ys h' heq
    obtain ⟨hmajor, harg, hbody⟩ := (Canonical.nint hn).head_inj h' heq
    cases t' <;> simp [major] at hmajor
    exact ⟨congrArg _ harg, hbody⟩
  | @bool b =>
    intro t' xs ys h' heq
    obtain ⟨hmajor, harg, hbody⟩ := (Canonical.bool (b := b)).head_inj h' heq
    cases t' <;> simp [major] at hmajor
    next b' =>
    refine ⟨congrArg _ ?_, hbody⟩
    cases b <;> cases b' <;> simp [arg] at harg ⊢
  | @bytes data hdata =>
    intro t' xs ys h' heq
    obtain ⟨hmajor, harg, hbody⟩ := (Canonical.bytes hdata).head_inj h' heq
    cases t' <;> simp [major] at hmajor
    obtain ⟨rfl, hxs⟩ := List.append_inj hbody harg
    exact ⟨rfl, hxs⟩
  | @text s hs =>
    intro t' xs ys h' heq
    obtain ⟨hmajor, harg, hbody⟩ := (Canonical.text hs).head_inj h' heq
    cases t' <;> simp [major] at hmajor
    obtain ⟨rfl, hxs⟩ := List.append_inj hbody harg
    exact ⟨rfl, hxs⟩
  | @array items hlen hitems ih =>
    intro t' xs ys h' heq
    obtain ⟨hmajor, harg, hbody⟩ := (Canonical.array hlen hitems).head_inj h' heq
    cases h' <;> simp [major] at hmajor
    next items' _ hitems' =>
    obtain ⟨rfl, hxs⟩ := items_inj ih hitems' harg hbody
    exact ⟨rfl, hxs⟩
  | @map entries hlen hsorted hkeys hvalues ihkeys ihvalues =>
    intro t' xs ys h' heq
    obtain ⟨hmajor, harg, hbody⟩ := (Canonical.map hlen hsorted hkeys hvalues).head_inj h' heq
    cases h' <;> simp [major] at hmajor
    next entries' _ _ hkeys' hvalues' =>
    obtain ⟨rfl, hxs⟩ := entries_inj ihkeys ihvalues hkeys' hvalues' harg hbody
    exact ⟨rfl, hxs⟩

theorem Canonical.encode_inj {t t' : Tree} (h : t.Canonical) (h' : t'.Canonical) (heq : t.encode = t'.encode) : t = t' :=
  (h.unique t' [] [] h' (by rw [heq])).1

end Tree

end CborForm
