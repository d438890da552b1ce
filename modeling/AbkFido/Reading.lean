/-
What the reader makes of well-formed CBOR: every value is read back from each
of its encodings, and a buffer that ends inside one is refused.
-/
import AbkFido.Request
import AbkFido.Lib.CborForm
import AbkFido.Lib.Cursor
import Mathlib.Data.List.GetD

namespace AbkFido

open Cbor CborForm

/-- The reader as a cursor: sizes are 64-bit words, and an error number refuses a buffer. -/
def Reader.cursor : Cursor Fail Reader UInt8 where
  buf := Reader.buf
  pos := Reader.pos
  limit := 2 ^ 64
  Refuses e := ∃ errno, e = .errno errno

abbrev Decodes {α : Type} (pre : List UInt8) (m : Cbor α) (bytes : List UInt8) (a : α) : Prop :=
  Reader.cursor.Decodes pre m bytes a

abbrev Reads {α : Type} (m : Cbor α) (bytes : List UInt8) (a : α) : Prop := Reader.cursor.Reads m bytes a

/-- The slice points at `data`, among the bytes read so far. -/
structure Slice.Holds (s : Slice) (pre data : List UInt8) : Prop where
  len : s.len = data.length
  at_ptr : ∃ before after, pre = before ++ (data ++ after) ∧ s.ptr = before.length

namespace Slice.Holds

variable {s : Slice} {pre data : List UInt8}

theorem append (h : s.Holds pre data) (more : List UInt8) : s.Holds (pre ++ more) data := by
  obtain ⟨before, after, rfl, hptr⟩ := h.at_ptr
  exact ⟨h.len, before, after ++ more, by simp only [List.append_assoc], hptr⟩

theorem drop_buf (h : s.Holds pre data) {r : Reader} {rest : List UInt8} (hat : Reader.cursor.At r pre rest) :
    ∃ after, r.buf.drop s.ptr = data ++ after := by
  obtain ⟨before, after, rfl, hptr⟩ := h.at_ptr
  have hbuf : r.buf = before ++ (data ++ after) ++ rest := hat.buf
  exact ⟨after ++ rest, by rw [hbuf, hptr, List.append_assoc, List.drop_left, List.append_assoc]⟩

theorem bytes (h : s.Holds pre data) {r : Reader} {rest : List UInt8} (hat : Reader.cursor.At r pre rest) :
    r.bytes s = data := by
  obtain ⟨after, hdrop⟩ := h.drop_buf hat
  rw [Reader.bytes, hdrop, h.len, List.take_left]

theorem copy {n : Nat} {v : Bytes n} (h : s.Holds pre v.toList) {r : Reader} {rest : List UInt8}
    (hat : Reader.cursor.At r pre rest) : r.copy n s = v := by
  obtain ⟨after, hdrop⟩ := h.drop_buf hat
  rw [Reader.copy, hdrop]
  exact (Layout.Codec.bytes n).dec_enc v after

theorem eq_text (h : s.Holds pre data) {r : Reader} {rest : List UInt8} (hat : Reader.cursor.At r pre rest)
    (t : List UInt8) : sliceEqText r s t = decide (data = t) := by
  rw [sliceEqText, h.bytes hat, h.len]
  by_cases heq : data = t
  · rw [heq]
    simp
  · simp [heq]

end Slice.Holds

namespace Cbor

variable {α : Type} {pre bytes : List UInt8}

theorem fail_stops (e : Errno) (r : Reader) : Reader.cursor.Stops (fail e : Cbor α) r := ⟨.errno e, r, rfl, e, rfl⟩

/-! ## The bytes -/

/-- A program that checks that `bytes` are all there and moves past them. -/
theorem decodes_of_step {m : Cbor α} {a : α}
    (hok : ∀ r rest, r.buf = pre ++ (bytes ++ rest) → r.pos = pre.length → r.pos + bytes.length < 2 ^ 64 →
      ∃ t, m r = (.ok a, t) ∧ t.buf = r.buf ∧ t.pos = r.pos + bytes.length)
    (hfail : ∀ r : Reader, r.pos + bytes.length < 2 ^ 64 → r.len < r.pos + bytes.length →
      Reader.cursor.Stops m r) : Decodes pre m bytes a := by
  intro hlim
  have hlim' : pre.length + bytes.length < 2 ^ 64 := by
    rwa [List.length_append] at hlim
  refine ⟨fun r rest hat => ?_, fun r short hat hpre hne => ?_⟩
  · have hbuf : r.buf = pre ++ (bytes ++ rest) := hat.buf
    have hpos : r.pos = pre.length := hat.pos
    obtain ⟨t, hrun, htbuf, htpos⟩ := hok r rest hbuf hpos (by rwa [hpos])
    refine ⟨t, hrun, ?_, ?_⟩
    · show t.buf = pre ++ bytes ++ rest
      rw [htbuf, hbuf, List.append_assoc]
    · show t.pos = (pre ++ bytes).length
      rw [htpos, hpos, List.length_append]
  · have hpos : r.pos = pre.length := hat.pos
    have hlen : r.len = pre.length + short.length := by
      rw [Reader.len, show r.buf = pre ++ short from hat.buf, List.length_append]
    have hshort : short.length < bytes.length :=
      lt_of_le_of_ne hpre.length_le fun h => hne (hpre.eq_of_length h)
    exact hfail r (by omega) (by omega)

/-- One byte, as a head begins with. -/
def readByte : Cbor Nat := do
  let r ← Prog.get
  if r.pos ≥ r.len then fail .einval
  else
    Prog.modify fun r => { r with pos := r.pos + 1, heads := r.heads + 1 }
    pure (r.buf.getD r.pos 0).toNat

theorem readHead_eq :
    readHead = readByte >>= fun byte => readU64 (byte % 32) >>= fun value => pure (byte / 32, value) := by
  funext r
  simp only [readHead, readByte, Prog.bind_apply, Prog.get]
  split
  · rfl
  · rfl

theorem readByte_decodes (b : UInt8) : Reads readByte [b] b.toNat := by
  intro pre
  refine decodes_of_step (fun r rest hbuf hpos hlim => ?_) fun r hlim hshort => ?_
  · have hlen : ¬ r.pos ≥ r.len := by
      rw [Reader.len, hbuf, hpos, List.length_append, List.length_append, List.length_singleton]
      omega
    have hbyte : r.buf.getD r.pos 0 = b := by
      rw [hbuf, hpos, List.getD_append_right _ _ _ _ le_rfl, Nat.sub_self]
      rfl
    refine ⟨{ r with pos := r.pos + 1, heads := r.heads + 1 }, ?_, rfl, rfl⟩
    simp only [readByte, Prog.bind_apply, Prog.get, if_neg hlen, Prog.modify, hbyte]
    rfl
  · have hlen : r.pos ≥ r.len := by
      rw [List.length_singleton] at hshort
      omega
    refine ⟨.errno .einval, r, ?_, .einval, rfl⟩
    simp only [readByte, Prog.bind_apply, Prog.get, if_pos hlen]
    rfl

/-- The first `k` bytes of a number of `n` bytes are its quotient by the rest. -/
theorem foldl_bigEndian {n v : Nat} (hv : v < 256 ^ n) (rest : List UInt8) : ∀ k ≤ n,
    (List.range k).foldl (fun acc i => acc * 256 + ((bigEndian n v ++ rest).getD i 0).toNat) 0 = v / 256 ^ (n - k) := by
  intro k hk
  induction k with
  | zero =>
    rw [List.range_zero, List.foldl_nil, Nat.sub_zero, Nat.div_eq_of_lt hv]
  | succ k ih =>
    have hbyte : (bigEndian n v ++ rest).getD k 0 = UInt8.ofNat (v / 256 ^ (n - 1 - k)) := by
      rw [List.getD_append _ _ _ _ (by rw [length_bigEndian]; omega), bigEndian, List.getD_eq_getElem?_getD,
        List.getElem?_map, List.getElem?_range hk]
      rfl
    have hpow : 256 ^ (n - k) = 256 ^ (n - (k + 1)) * 256 := by
      rw [← Nat.pow_succ]
      congr 1
      omega
    have hexp : n - 1 - k = n - (k + 1) := by omega
    rw [List.range_succ, List.foldl_append, List.foldl_cons, List.foldl_nil, ih (by omega), hbyte, hexp, hpow,
      ← Nat.div_div_eq_div_mul, UInt8.toNat_ofNat']
    exact Nat.div_add_mod' _ _

theorem readBe_decodes {n v : Nat} (hv : v < 256 ^ n) : Reads (readBe n) (bigEndian n v) v := by
  intro pre
  refine decodes_of_step (fun r rest hbuf hpos hlim => ?_) fun r hlim hshort => ?_
  · rw [length_bigEndian] at hlim ⊢
    have hfits : ¬ addU64 r.pos n > r.len := by
      rw [addU64, Nat.mod_eq_of_lt hlim, Reader.len, hbuf, hpos, List.length_append, List.length_append,
        length_bigEndian]
      omega
    have hbe : be n r = v := by
      have hget : ∀ i, r.buf.getD (r.pos + i) 0 = (bigEndian n v ++ rest).getD i 0 := by
        intro i
        rw [hbuf, hpos, List.getD_append_right _ _ _ _ (Nat.le_add_right _ _), Nat.add_sub_cancel_left]
      rw [be]
      simp only [hget]
      rw [foldl_bigEndian hv rest n le_rfl, Nat.sub_self, Nat.pow_zero, Nat.div_one]
    refine ⟨{ r with pos := r.pos + n }, ?_, rfl, rfl⟩
    simp only [readBe, Prog.bind_apply, Prog.get, if_neg hfits, Prog.modify, hbe]
    rfl
  · rw [length_bigEndian] at hlim hshort
    have hover : addU64 r.pos n > r.len := by
      rw [addU64, Nat.mod_eq_of_lt hlim]
      exact hshort
    refine ⟨.errno .einval, r, ?_, .einval, rfl⟩
    simp only [readBe, Prog.bind_apply, Prog.get, if_pos hover]
    rfl

/-- A string's bytes, and where they are. -/
theorem advance_decodes (pre data : List UInt8) :
    Decodes pre (advance data.length) data { ptr := pre.length, len := data.length } := by
  refine decodes_of_step (fun r rest hbuf hpos hlim => ?_) fun r hlim hshort => ?_
  · have hsum : addU64 r.pos data.length = r.pos + data.length := Nat.mod_eq_of_lt hlim
    have hfits : ¬ addU64 r.pos data.length > r.len := by
      rw [hsum, Reader.len, hbuf, hpos, List.length_append, List.length_append]
      omega
    refine ⟨{ r with pos := addU64 r.pos data.length,
                     wrapped := r.wrapped || decide (2 ^ 64 ≤ r.pos + data.length) }, ?_, rfl, hsum⟩
    rw [← hpos]
    simp only [advance, Prog.bind_apply, Prog.get, if_neg hfits, Prog.modify]
    rfl
  · have hover : addU64 r.pos data.length > r.len := by
      rw [addU64, Nat.mod_eq_of_lt hlim]
      exact hshort
    refine ⟨.errno .einval, r, ?_, .einval, rfl⟩
    simp only [advance, Prog.bind_apply, Prog.get, if_pos hover]
    rfl

/-- The next byte, where there is one. -/
theorem next_byte {r : Reader} {b : UInt8} {rest : List UInt8} (hat : Reader.cursor.At r pre (b :: rest)) :
    ¬ r.pos ≥ r.len ∧ r.buf.getD r.pos 0 = b := by
  have hbuf : r.buf = pre ++ b :: rest := hat.buf
  have hpos : r.pos = pre.length := hat.pos
  constructor
  · rw [Reader.len, hbuf, hpos, List.length_append, List.length_cons]
    omega
  · rw [hbuf, hpos, List.getD_append_right _ _ _ _ le_rfl, Nat.sub_self]
    rfl

theorem at_end {r : Reader} (hat : Reader.cursor.At r pre []) : r.pos ≥ r.len := by
  have hbuf : r.buf = pre ++ [] := hat.buf
  rw [Reader.len, hbuf, List.append_nil]
  exact hat.pos.ge

/-! ## Heads and scalars -/

/-- The first byte of a head, as the reader takes it apart. -/
theorem toNat_headByte {major i : Nat} (hmajor : major < 8) (hinfo : i < 32) :
    (UInt8.ofNat (major * 32 + i)).toNat % 32 = i ∧ (UInt8.ofNat (major * 32 + i)).toNat / 32 = major := by
  rw [UInt8.toNat_ofNat_of_lt' (by change _ < 256; omega)]
  omega

theorem head_first {major arg : Nat} {bytes : List UInt8} (h : Head major arg bytes) (hmajor : major < 8) :
    ∃ b rest, bytes = b :: rest ∧ b.toNat / 32 = major := by
  cases h with
  | short h => exact ⟨_, _, rfl, (toNat_headByte hmajor (by omega)).2⟩
  | wide hinfo h =>
    simp only [List.mem_cons, Prod.mk.injEq, List.not_mem_nil, or_false] at hinfo
    exact ⟨_, _, rfl, (toNat_headByte hmajor (by omega)).2⟩

theorem readHead_reads {major arg : Nat} {bytes : List UInt8} (h : Head major arg bytes) (hmajor : major < 8) :
    Reads readHead bytes (major, arg) := by
  rw [readHead_eq]
  cases h with
  | short h =>
    obtain ⟨hmod, hdiv⟩ := toNat_headByte hmajor (i := arg) (by omega)
    have hreadU64 : readU64 arg = pure arg := if_pos h
    refine (readByte_decodes _).bind_nil ?_
    rw [hmod, hdiv, hreadU64]
    exact (Cursor.Reads.pure arg).bind_pure
  | wide hinfo h =>
    rename_i info n
    simp only [List.mem_cons, Prod.mk.injEq, List.not_mem_nil, or_false] at hinfo
    have hreadU64 : readU64 info = readBe n := by
      rcases hinfo with ⟨rfl, rfl⟩ | ⟨rfl, rfl⟩ | ⟨rfl, rfl⟩ | ⟨rfl, rfl⟩ <;> rfl
    obtain ⟨hmod, hdiv⟩ := toNat_headByte hmajor (i := info) (by omega)
    rw [← List.singleton_append]
    refine (readByte_decodes _).bind ?_
    rw [hmod, hdiv, hreadU64]
    exact (readBe_decodes h).bind_pure

theorem readUint_reads {v : Nat} {bytes : List UInt8} (h : IsUint v bytes) : Reads readUint bytes v :=
  (readHead_reads h (by decide)).bind_nil (.pure v)

theorem toS64_of_lt {v : Nat} (h : v < 2 ^ 63) : toS64 v = v := by
  have h64 : ((2 ^ 64 : Nat) : Int) = 18446744073709551616 := rfl
  exact Int.bmod_eq_of_le (by rw [h64]; omega) (by rw [h64]; omega)

theorem readInt_reads {v : Int} {bytes : List UInt8} (h : IsInt v bytes) : Reads readInt bytes v := by
  cases h with
  | nonneg h hmax head =>
    refine (readHead_reads head (by decide)).bind_nil ?_
    show Reads (pure (toS64 v.toNat)) _ _
    rw [toS64_of_lt (by omega), Int.toNat_of_nonneg h]
    exact .pure v
  | neg h hmin head =>
    refine (readHead_reads head (by decide)).bind_nil ?_
    show Reads (pure (-1 - toS64 (-1 - v).toNat)) _ _
    rw [toS64_of_lt (by omega), show -1 - ((-1 - v).toNat : Int) = v by omega]
    exact .pure v

theorem readBool_head {v : Nat} {bytes : List UInt8} (hv : v = 20 ∨ v = 21) (head : Head 7 v bytes) :
    Reads readBool bytes (v == 21) := by
  refine (readHead_reads head (by decide)).bind_nil ?_
  show Reads (if _ then _ else _) _ _
  rw [if_neg (by omega)]
  exact .pure _

theorem readBool_reads {b : Bool} {bytes : List UInt8} (h : IsBool b bytes) : Reads readBool bytes b := by
  cases h with
  | false => exact readBool_head (.inl rfl) (.short (by decide))
  | true => exact readBool_head (.inr rfl) (.short (by decide))

/-! ## Strings -/

theorem readString_decodes {major : Nat} {data enc : List UInt8} (h : IsString major data enc) (hmajor : major < 8)
    (pre : List UInt8) :
    ∃ slice : Slice, slice.Holds (pre ++ enc) data ∧ Decodes pre (readString major) enc slice := by
  cases h with
  | mk h =>
    rename_i head
    refine ⟨{ ptr := (pre ++ head).length, len := data.length }, ⟨rfl, pre ++ head, [], ?_, rfl⟩, ?_⟩
    · rw [List.append_nil, List.append_assoc]
    · refine (readHead_reads h hmajor pre).bind ?_
      show Decodes _ (if _ then _ else _) _ _
      rw [if_neg (not_not_intro rfl)]
      exact advance_decodes _ data

variable {β : Type} {ys : List UInt8} {b : β}

theorem string_bind {major : Nat} {data enc : List UInt8} (h : IsString major data enc) (hmajor : major < 8)
    {f : Slice → Cbor β} (hf : ∀ slice : Slice, slice.Holds (pre ++ enc) data → Decodes (pre ++ enc) (f slice) ys b) :
    Decodes pre (readString major >>= f) (enc ++ ys) b := by
  obtain ⟨slice, hholds, hread⟩ := readString_decodes h hmajor pre
  exact hread.bind (hf slice hholds)

/-- The text that names an entry of a map, which the reader then compares with the names it knows. -/
theorem textKey_bind {key enc : List UInt8} (h : IsText key enc) {f : Slice → Reader → Cbor β}
    (hf : ∀ slice r, (∀ t, sliceEqText r slice t = decide (key = t)) → Reads (f slice r) ys b) :
    Reads (readText >>= fun slice => Prog.get >>= f slice) (enc ++ ys) b := by
  intro pre
  exact string_bind h (by decide) fun slice hholds => .get_bind fun r rest hat =>
    hf slice r (hholds.eq_text hat) _

theorem readFixed_reads {n : Nat} {v : Bytes n} {enc : List UInt8} (h : IsBytes v.toList enc) :
    Reads (readFixed n) enc v := by
  intro pre
  rw [← List.append_nil enc]
  refine string_bind h (by decide) fun slice hholds => ?_
  rw [if_neg (not_not_intro (hholds.len.trans v.2))]
  refine .get_bind fun r rest hat => ?_
  rw [hholds.copy hat]
  exact .pure _ _

theorem readStr_reads {max : Nat} {t enc : List UInt8} (h : IsText t enc) (hlen : t.length < max) (hnul : 0 ∉ t) :
    Reads (readStr max) enc t := by
  intro pre
  rw [← List.append_nil enc]
  refine string_bind h (by decide) fun slice hholds => ?_
  rw [if_neg (by rw [hholds.len]; omega)]
  refine .get_bind fun r rest hat => ?_
  rw [hholds.bytes hat, cstr_of_nul_free fun b hb h0 => hnul (h0 ▸ hb)]
  exact .pure _ _

/-! ## Arrays and maps -/

theorem readContainer_reads {major count : Nat} {bytes : List UInt8} (h : Head major count bytes) (hmajor : major < 8) :
    Reads (readContainer major) bytes count := by
  refine (readHead_reads h hmajor).bind_nil ?_
  show Reads (if _ then _ else _) _ _
  rw [if_neg (not_not_intro rfl)]
  exact .pure _

theorem mem_length_le {ι : Type} {items : List ι} (f : ι → List UInt8) {i : ι} (hi : i ∈ items) :
    (f i).length ≤ (items.flatMap f).length := by
  obtain ⟨before, after, rfl⟩ := List.append_of_mem hi
  rw [List.flatMap_append, List.flatMap_cons, List.length_append, List.length_append]
  omega

/-- An array is read item by item, the state of the loop being a function of the items read. -/
theorem array_reads {ι : Type} {Item : ι → List UInt8 → Prop} {items : List ι} {bytes : List UInt8}
    (h : IsArray Item items bytes) {p : β → Bool} {f : β → Cbor β} {S : List ι → β}
    (hstep : ∀ done i rest enc, items = done ++ i :: rest → Item i enc → enc.length ≤ bytes.length →
      p (S done) = true ∧ Reads (f (S done)) enc (S (done ++ [i]))) :
    Reads (readArray >>= fun arr => Prog.loop p f arr (S [])) bytes (S items) := by
  cases h with
  | mk items head hitems =>
    refine (readContainer_reads head (by decide)).bind ?_
    refine Cursor.Reads.loop (S := fun done => S (done.map (·.1))) items fun done i rest hsplit => ?_
    have hmem : i ∈ items := by
      rw [hsplit]
      exact List.mem_append_right _ List.mem_cons_self
    have hlen := mem_length_le (·.2) hmem
    have := hstep (done.map (·.1)) i.1 (rest.map (·.1)) i.2 (by rw [hsplit, List.map_append, List.map_cons])
      (hitems i hmem) (by rw [List.length_append]; omega)
    rwa [List.map_append]

/-- A map is read entry by entry, the state of the loop being a function of
the keys read; a known key is not among those read before it. -/
theorem map_loop_reads {κ : Type} [DecidableEq κ] {Key Value : κ → List UInt8 → Prop} {known : List κ}
    {there : κ → Bool} {bytes : List UInt8} (h : IsMap Key Value known there bytes) {f : β → Cbor β}
    {S : List κ → β} {b : β}
    (hstep : ∀ seen k kenc venc, Key k kenc → Value k venc → venc.length ≤ bytes.length →
      (k ∈ known → k ∉ seen ∧ there k = true) → Reads (f (S seen)) (kenc ++ venc) (S (seen ++ [k])))
    (hend : ∀ keys, (∀ k ∈ known, k ∈ keys ↔ there k = true) → S keys = b) :
    Reads (readMap >>= fun count => loop count (S []) f) bytes b := by
  cases h with
  | mk entries head hentries hknown =>
    rw [← hend (entries.map (·.key)) fun k => mem_keys_iff hknown]
    refine (readContainer_reads head (by decide)).bind ?_
    refine Cursor.Reads.loop (S := fun done => S (done.map (·.key))) (p := fun _ => true) entries
      fun done e rest hsplit => ⟨rfl, ?_⟩
    have hmem : e ∈ entries := by
      rw [hsplit]
      exact List.mem_append_right _ List.mem_cons_self
    have hlen := mem_length_le MapEntry.bytes hmem
    rw [MapEntry.bytes, List.length_append] at hlen
    have := hstep (done.map (·.key)) e.key e.keyBytes e.value (hentries e hmem).1 (hentries e hmem).2
      (by rw [List.length_append]; omega) (not_mem_done hknown hsplit)
    rwa [List.map_append]

/-! ## Refusals -/

theorem string_fails {major : Nat} {data enc : List UInt8} (h : IsString major data enc) (hmajor : major < 8)
    {f : Slice → Cbor β} (hf : ∀ slice r, slice.len = data.length → Reader.cursor.Stops (f slice) r) :
    Reader.cursor.Fails (readString major >>= f) enc := by
  intro pre hlim r rest hat
  obtain ⟨slice, hholds, hread⟩ := readString_decodes h hmajor pre
  obtain ⟨t, hrun, _⟩ := (hread hlim).1 r rest hat
  obtain ⟨e, u, hrun', he⟩ := hf slice t hholds.len
  exact ⟨e, u, (Prog.bind_ok hrun).trans hrun', he⟩

theorem textKey_fails {key enc : List UInt8} (h : IsText key enc) {f : Slice → Reader → Cbor β}
    (hf : ∀ slice r, (∀ t, sliceEqText r slice t = decide (key = t)) → Reader.cursor.Fails (f slice r) ys) :
    Reader.cursor.Fails (readText >>= fun slice => Prog.get >>= f slice) (enc ++ ys) := by
  intro pre hlim r rest hat
  rw [← List.append_assoc] at hlim
  rw [List.append_assoc] at hat
  obtain ⟨slice, hholds, hread⟩ := readString_decodes h (by decide) pre
  obtain ⟨t, hrun, hat'⟩ := (hread (by rw [List.length_append] at hlim; omega)).1 r _ hat
  obtain ⟨e, u, hrun', he⟩ := hf slice t (hholds.eq_text hat') _ hlim t rest hat'
  exact ⟨e, u, (Prog.bind_ok hrun).trans hrun', he⟩

/-- An array is refused for the item `i`, where the items before it can be read. -/
theorem array_fails {ι : Type} {Item : ι → List UInt8 → Prop} {before after : List ι} {i : ι} {bytes : List UInt8}
    (h : IsArray Item (before ++ i :: after) bytes) {p : β → Bool} {f : β → Cbor β} {S : List ι → β}
    (hstep : ∀ done j rest enc, before = done ++ j :: rest → Item j enc → enc.length ≤ bytes.length →
      p (S done) = true ∧ Reads (f (S done)) enc (S (done ++ [j])))
    (hcond : p (S before) = true)
    (hfail : ∀ enc, Item i enc → enc.length ≤ bytes.length → Reader.cursor.Fails (f (S before)) enc) :
    Reader.cursor.Fails (readArray >>= fun arr => Prog.loop p f arr (S [])) bytes := by
  generalize hitems : before ++ i :: after = items at h
  cases h with
  | mk items head hitem =>
    obtain ⟨before', rest', rfl, hbefore, hrest⟩ := List.map_eq_append_iff.mp hitems.symm
    obtain ⟨i', after', rfl, hi, hafter⟩ := List.map_eq_cons_iff.mp hrest
    have hlen : ∀ j ∈ before' ++ i' :: after', j.2.length ≤ _ := fun j hj => mem_length_le (·.2) hj
    refine (readContainer_reads head (by decide)).bind_fails ?_
    refine Cursor.Fails.loop (S := fun done => S (done.map (·.1))) before' [] (fun seen j rest hsplit => ?_) ?_ ?_
    · have hj : j ∈ before' ++ i' :: after' := by
        rw [hsplit]
        simp
      have := hstep (seen.map (·.1)) j.1 (rest.map (·.1)) j.2
        (by rw [← hbefore, hsplit, List.map_append, List.map_cons]) (hitem j hj)
        (by rw [List.length_append]; exact (hlen j hj).trans (Nat.le_add_left _ _))
      simpa using this
    · simpa [hbefore] using hcond
    · have hmem : i' ∈ before' ++ i' :: after' := by simp
      have := hfail i'.2 (hi ▸ hitem i' hmem)
        (by rw [List.length_append]; exact (hlen i' hmem).trans (Nat.le_add_left _ _))
      simpa [hbefore] using this

/-- A map is refused for the known key `k`, where the other entries can be read. -/
theorem map_loop_fails {κ : Type} [DecidableEq κ] {Key Value : κ → List UInt8 → Prop} {known : List κ}
    {there : κ → Bool} {bytes : List UInt8} (h : IsMap Key Value known there bytes) {f : β → Cbor β}
    {S : List κ → β} {k : κ} (hk : k ∈ known) (hthere : there k = true)
    (hstep : ∀ seen k' kenc venc, Key k' kenc → Value k' venc → venc.length ≤ bytes.length →
      (k' ∈ known → k' ∉ seen ∧ there k' = true) → k' ≠ k → Reads (f (S seen)) (kenc ++ venc) (S (seen ++ [k'])))
    (hfail : ∀ seen kenc venc, Key k kenc → Value k venc → venc.length ≤ bytes.length → k ∉ seen →
      Reader.cursor.Fails (f (S seen)) (kenc ++ venc)) :
    Reader.cursor.Fails (readMap >>= fun count => loop count (S []) f) bytes := by
  cases h with
  | mk entries head hentries hknown =>
    obtain ⟨e, he, rfl⟩ := List.mem_map.mp ((mem_keys_iff hknown hk).mpr hthere)
    obtain ⟨before, after, rfl⟩ := List.append_of_mem he
    have hlen : ∀ e' ∈ before ++ e :: after, e'.value.length ≤ ((before ++ e :: after).flatMap MapEntry.bytes).length := by
      intro e' he'
      have := mem_length_le MapEntry.bytes he'
      rw [MapEntry.bytes, List.length_append] at this
      omega
    refine (readContainer_reads head (by decide)).bind_fails ?_
    refine Cursor.Fails.loop (S := fun done => S (done.map (·.key))) (p := fun _ => true) before []
      (fun seen e' rest hsplit => ⟨rfl, ?_⟩) rfl ?_
    · have hsplit' : before ++ e :: after = seen ++ e' :: (rest ++ e :: after) := by
        rw [hsplit, List.append_assoc, List.cons_append]
      have he' : e' ∈ before ++ e :: after := by
        rw [hsplit']
        simp
      have hne : e'.key ≠ e.key := by
        intro heq
        have hnot := (not_mem_done hknown rfl hk).1
        rw [hsplit, List.map_append, List.map_cons, ← heq] at hnot
        exact hnot (by simp)
      have := hstep (seen.map (·.key)) e'.key e'.keyBytes e'.value (hentries e' he').1 (hentries e' he').2
        (by rw [List.length_append]; exact (hlen e' he').trans (Nat.le_add_left _ _)) (not_mem_done hknown hsplit') hne
      simpa [MapEntry.bytes] using this
    · exact hfail (before.map (·.key)) e.keyBytes e.value (hentries e he).1 (hentries e he).2
        (by rw [List.length_append]; exact (hlen e he).trans (Nat.le_add_left _ _)) (not_mem_done hknown rfl hk).1

/-! ## Skipping -/

/-- A head takes one of the nested calls allowed, and at least one byte. -/
theorem skip_head_reads {major arg : Nat} {head body : List UInt8} (h : Head major arg head) (hmajor : major < 8)
    (hbody : ∀ depth, body.length ≤ depth → Reads (skipItem (skip depth) major arg) body ()) :
    ∀ depth, (head ++ body).length ≤ depth → Reads (skip depth) (head ++ body) () := by
  intro depth hdepth
  have hpos := h.length_pos
  rw [List.length_append] at hdepth
  cases depth with
  | zero => omega
  | succ depth => exact (readHead_reads h hmajor).bind (hbody depth (by omega))

/-- A plain item is skipped with as many nested calls as it has bytes. -/
theorem skip_reads {bytes : List UInt8} (h : Plain bytes) :
    ∀ depth, bytes.length ≤ depth → Reads (skip depth) bytes () := by
  induction h with
  | scalar hmajor h =>
    simp only [List.mem_cons, List.not_mem_nil, or_false] at hmajor
    rename_i bytes
    rw [← List.append_nil bytes]
    refine skip_head_reads h (by omega) fun depth _ => ?_
    rcases hmajor with rfl | rfl | rfl
    · exact .pure ()
    · exact .pure ()
    · exact .pure ()
  | string hmajor h =>
    simp only [List.mem_cons, List.not_mem_nil, or_false] at hmajor
    cases h with
    | mk head =>
      refine skip_head_reads head (by omega) fun depth _ pre => ?_
      rcases hmajor with rfl | rfl
      · exact (advance_decodes pre _).bind_pure
      · exact (advance_decodes pre _).bind_pure
  | array items head hitems ih =>
    refine skip_head_reads head (by decide) fun depth hdepth => ?_
    refine Cursor.Reads.loop (S := fun _ => ()) (p := fun _ => true) items fun done i rest hsplit => ⟨rfl, ?_⟩
    have hi : i ∈ items := by
      rw [hsplit]
      exact List.mem_append_right _ List.mem_cons_self
    exact ih i hi depth ((mem_length_le id hi).trans hdepth)
  | map entries head hkeys hvalues ihk ihv =>
    refine skip_head_reads head (by decide) fun depth hdepth => ?_
    refine Cursor.Reads.loop (S := fun _ => ()) (p := fun _ => true) entries fun done e rest hsplit => ⟨rfl, ?_⟩
    have he : e ∈ entries := by
      rw [hsplit]
      exact List.mem_append_right _ List.mem_cons_self
    have hlen := (mem_length_le (fun e : List UInt8 × List UInt8 => e.1 ++ e.2) he).trans hdepth
    rw [List.length_append] at hlen
    exact (ihk e he depth (by omega)).bind (ihv e he depth (by omega))

end Cbor

end AbkFido
