/-
What `abk_cbor_skip` and the string readers accept.

A string's end is `pos + len` in 64-bit arithmetic, so a length near 2^64
leads back into the buffer. `Spans` says where items end that are laid one
after another in that arithmetic, and whether a string led back on the way;
it is what the skipper follows (`spans_of_skip`, `goes_of_spans`). Without a
string that leads back it is made of complete items (`items_of_spans`), and so
the readers accept exactly complete items where no item with such a string
begins (`exact_iff`).
-/
import AbkFido.Reading
import AbkFido.Lib.CborTree

namespace AbkFido

open Cbor CborForm

/-! ## Heads -/

/-- A head at `p` that ends at `q`. -/
def HeadAt (buf : List UInt8) (p major arg q : Nat) : Prop :=
  ∃ head, Head major arg head ∧ head <+: buf.drop p ∧ q = p + head.length

theorem HeadAt.lt {buf : List UInt8} {p major arg q : Nat} (h : HeadAt buf p major arg q) : p < q ∧ q ≤ buf.length := by
  obtain ⟨head, hhead, hpre, rfl⟩ := h
  have hpos := hhead.length_pos
  have hlen := hpre.length_le
  rw [List.length_drop] at hlen
  omega

/-- The number that is read is the one whose bytes are there. -/
theorem be_eq {r : Reader} {n : Nat} (h : r.pos + n ≤ r.len) :
    be n r = ofBigEndian ((r.buf.drop r.pos).take n) := by
  have hbytes : (r.buf.drop r.pos).take n = (List.range n).map fun i => r.buf.getD (r.pos + i) 0 := by
    rw [Reader.len] at h
    refine List.ext_getElem ?_ fun i hi hi' => ?_
    · rw [List.length_take, List.length_drop, List.length_map, List.length_range]
      omega
    · rw [List.length_take, List.length_drop] at hi
      simp only [List.getElem_take, List.getElem_drop, List.getElem_map, List.getElem_range]
      exact (List.getD_eq_getElem _ _ (by omega)).symm
  rw [be, hbytes, ofBigEndian, List.foldl_map]

/-- What `readBe` leaves when it succeeds. -/
theorem readBe_ok {r t : Reader} {n v : Nat} (hn : n ≤ 8) (hpos : r.pos ≤ r.len) (hmax : r.len < 2 ^ 63)
    (h : readBe n r = (.ok v, t)) :
    r.pos + n ≤ r.len ∧ v < 256 ^ n ∧ bigEndian n v = (r.buf.drop r.pos).take n ∧ t = { r with pos := r.pos + n } := by
  have hsum : addU64 r.pos n = r.pos + n := Nat.mod_eq_of_lt (by omega)
  simp only [readBe, Prog.bind_apply, Prog.get, hsum] at h
  split at h
  · cases h
  · next hfits =>
    simp only [Prog.bind_apply, Prog.modify] at h
    cases h
    have hlen : ((r.buf.drop r.pos).take n).length = n := by
      rw [List.length_take, List.length_drop]
      rw [Reader.len] at hfits
      omega
    have hval := be_eq (r := r) (n := n) (by omega)
    refine ⟨by omega, ?_, ?_, rfl⟩
    · rw [hval]
      have hlt := ofBigEndian_lt ((r.buf.drop r.pos).take n)
      rwa [hlen] at hlt
    · rw [hval]
      have heq := bigEndian_ofBigEndian ((r.buf.drop r.pos).take n)
      rwa [hlen] at heq

/-- What `readU64` leaves when it succeeds after a byte with the low bits `ai`. -/
theorem readU64_ok {r t : Reader} {ai v : Nat} (hpos : r.pos ≤ r.len) (hmax : r.len < 2 ^ 63)
    (h : readU64 ai r = (.ok v, t)) (major : Nat) :
    ∃ more, Head major v (UInt8.ofNat (major * 32 + ai) :: more) ∧ more <+: r.buf.drop r.pos ∧
      t = { r with pos := r.pos + more.length } := by
  have hwide : ∀ info n, (info, n) ∈ [(24, 1), (25, 2), (26, 4), (27, 8)] → readBe n r = (.ok v, t) →
      ∃ more, Head major v (UInt8.ofNat (major * 32 + info) :: more) ∧ more <+: r.buf.drop r.pos ∧
        t = { r with pos := r.pos + more.length } := by
    intro info n hinfo hread
    have hn : n ≤ 8 := by
      simp only [List.mem_cons, Prod.mk.injEq, List.not_mem_nil, or_false] at hinfo
      omega
    obtain ⟨_, hlt, hbytes, ht⟩ := readBe_ok hn hpos hmax hread
    refine ⟨bigEndian n v, .wide hinfo hlt, ?_, ?_⟩
    · rw [hbytes]
      exact List.take_prefix _ _
    · rw [length_bigEndian]
      exact ht
  unfold readU64 at h
  split at h
  · next hshort =>
    cases h
    exact ⟨[], .short hshort, List.nil_prefix, rfl⟩
  · split at h
    · exact hwide 24 1 (by decide) h
    · exact hwide 25 2 (by decide) h
    · exact hwide 26 4 (by decide) h
    · exact hwide 27 8 (by decide) h
    · cases h

/-- A head that is read is there. -/
theorem headAt_of_readHead {r t : Reader} {major arg : Nat} (hmax : r.len < 2 ^ 63)
    (h : readHead r = (.ok (major, arg), t)) :
    major < 8 ∧ HeadAt r.buf r.pos major arg t.pos ∧ t = { r with pos := t.pos, heads := r.heads + 1 } := by
  simp only [readHead, Prog.bind_apply, Prog.get] at h
  split at h
  · cases h
  next hlt =>
  simp only [Prog.bind_apply, Prog.modify] at h
  generalize hr : ({ r with pos := r.pos + 1, heads := r.heads + 1 } : Reader) = r' at h
  cases hread : readU64 ((r.buf.getD r.pos 0).toNat % 32) r' with
  | mk res t' =>
    rw [hread] at h
    cases res with
    | error e => cases h
    | ok v =>
      cases h
      subst hr
      have hnext : ({ r with pos := r.pos + 1, heads := r.heads + 1 } : Reader).pos ≤ r.len := not_le.mp hlt
      obtain ⟨more, hhead, hpre, rfl⟩ := readU64_ok hnext hmax hread ((r.buf.getD r.pos 0).toNat / 32)
      have hbyte : UInt8.ofNat ((r.buf.getD r.pos 0).toNat / 32 * 32 + (r.buf.getD r.pos 0).toNat % 32) = r.buf.getD r.pos 0 := by
        rw [Nat.div_add_mod', UInt8.ofNat_toNat]
      rw [hbyte] at hhead
      have hlen : r.pos < r.buf.length := not_le.mp hlt
      have hdrop : r.buf.drop r.pos = r.buf.getD r.pos 0 :: r.buf.drop (r.pos + 1) := by
        rw [List.drop_eq_getElem_cons hlen, List.getD_eq_getElem _ _ hlen]
      refine ⟨Nat.div_lt_of_lt_mul (UInt8.toNat_lt _), ⟨_, hhead, ?_, ?_⟩, rfl⟩
      · rw [hdrop]
        exact List.cons_prefix_cons.mpr ⟨rfl, hpre⟩
      · show r.pos + 1 + more.length = r.pos + (more.length + 1)
        omega

/-- A head that is there is read. -/
theorem readHead_of_headAt {r : Reader} {major arg q : Nat} (hmajor : major < 8) (hmax : r.len < 2 ^ 63)
    (h : HeadAt r.buf r.pos major arg q) : readHead r = (.ok (major, arg), { r with pos := q, heads := r.heads + 1 }) := by
  have hlt := h.lt
  obtain ⟨head, hhead, ⟨rest, hrest⟩, rfl⟩ := h
  have htake : (r.buf.take r.pos).length = r.pos := by
    rw [List.length_take]
    omega
  have hat : Reader.cursor.At r (r.buf.take r.pos) (head ++ rest) :=
    ⟨by show r.buf = _; rw [hrest, List.take_append_drop], htake.symm⟩
  have hlim : (r.buf.take r.pos ++ head).length < 2 ^ 64 := by
    rw [List.length_append, htake]
    rw [Reader.len] at hmax
    omega
  obtain ⟨t, hrun, hat'⟩ := (readHead_reads hhead hmajor _ hlim).1 r rest hat
  have hpos : t.pos = r.pos + head.length := by
    have := hat'.pos
    rw [List.length_append, htake] at this
    exact this
  rw [hrun, (headAt_of_readHead hmax hrun).2.2, hpos]

/-! ## Items in 64-bit arithmetic -/

/-- From `p`, `k` items end at `q`, positions being 64-bit words; `w` says
whether a string on the way carries its position to 2^64 or past. -/
inductive Spans (buf : List UInt8) : Bool → Nat → Nat → Nat → Prop
  | nil {p : Nat} : Spans buf false 0 p p
  | scalar {w : Bool} {k p major arg q s : Nat} (hmajor : major ∈ [0, 1, 7]) (head : HeadAt buf p major arg q)
      (rest : Spans buf w k q s) : Spans buf w (k + 1) p s
  | string {w : Bool} {k p major n q s : Nat} (hmajor : major ∈ [2, 3]) (head : HeadAt buf p major n q)
      (hfits : addU64 q n ≤ buf.length) (rest : Spans buf w k (addU64 q n) s) :
      Spans buf (decide (2 ^ 64 ≤ q + n) || w) (k + 1) p s
  | array {w : Bool} {k p n q s : Nat} (head : HeadAt buf p 4 n q) (rest : Spans buf w (n + k) q s) :
      Spans buf w (k + 1) p s
  | map {w : Bool} {k p n q s : Nat} (head : HeadAt buf p 5 n q) (rest : Spans buf w (n * 2 + k) q s) :
      Spans buf w (k + 1) p s

namespace Cbor

/-- One item after another, each with its own nested calls. -/
def skips : List Nat → Cbor Unit
  | [] => pure ()
  | depth :: depths => do
    skip depth
    skips depths

theorem skips_append (ds ds' : List Nat) (r : Reader) : skips (ds ++ ds') r = (skips ds >>= fun _ => skips ds') r := by
  induction ds generalizing r with
  | nil => rfl
  | cons d ds ih =>
    simp only [List.cons_append, skips, Prog.bind_apply]
    cases skip d r with
    | mk res t =>
      cases res with
      | error e => rfl
      | ok a => simp only [ih t, Prog.bind_apply]

theorem loop_skip (depth n : Nat) : (loop n () fun _ => skip depth) = skips (List.replicate n depth) := by
  induction n with
  | zero => rfl
  | succ n ih =>
    show (skip depth >>= fun a => loop n a fun _ => skip depth) = _
    rw [List.replicate_succ, skips]
    congr 1
    funext a
    exact ih

theorem loop_skip_skip (depth n : Nat) :
    (loop n () fun _ => do skip depth; skip depth) = skips (List.replicate (n * 2) depth) := by
  induction n with
  | zero => rfl
  | succ n ih =>
    show ((skip depth >>= fun _ => skip depth) >>= fun a => loop n a fun _ => do skip depth; skip depth) = _
    rw [Nat.succ_mul, List.replicate_succ, List.replicate_succ, skips, skips, Prog.bind_assoc]
    congr 1
    funext a
    congr 1
    funext a
    exact ih

end Cbor

/-! ## What the skipper follows -/

/-- From `r` to `t` there are `c` items. -/
def Over (c : Nat) (r t : Reader) : Prop :=
  t.buf = r.buf ∧ t.pos ≤ r.len ∧
    ∃ w, ∀ {w' k s}, Spans r.buf w' k t.pos s → Spans r.buf (w || w') (c + k) r.pos s

/-- Whenever the program ends with a result, it has gone over `c` items. -/
def GoesOver {α : Type} (c : Nat) (m : Cbor α) : Prop :=
  ∀ r t a, r.len < 2 ^ 63 → r.pos ≤ r.len → m r = (.ok a, t) → Over c r t

theorem Over.trans {c c' : Nat} {r t u : Reader} (h : Over c r t) (h' : Over c' t u) : Over (c + c') r u := by
  obtain ⟨hbuf, _, w, hspans⟩ := h
  obtain ⟨hbuf', hle', w', hspans'⟩ := h'
  rw [Reader.len] at hle'
  rw [hbuf] at hbuf' hle' hspans'
  refine ⟨hbuf', hle', w || w', fun hrest => ?_⟩
  rw [Bool.or_assoc, Nat.add_assoc]
  exact hspans (hspans' hrest)

theorem GoesOver.pure {α : Type} (a : α) : GoesOver 0 (pure a : Cbor α) := by
  intro r t b _ hpos h
  cases h
  refine ⟨rfl, hpos, false, fun hrest => ?_⟩
  rw [Bool.false_or, Nat.zero_add]
  exact hrest

theorem GoesOver.bind {α β : Type} {c c' : Nat} {m : Cbor α} {f : α → Cbor β} (hm : GoesOver c m)
    (hf : ∀ a, GoesOver c' (f a)) : GoesOver (c + c') (m >>= f) := by
  intro r t b hmax hpos h
  rw [Prog.bind_apply] at h
  cases hrun : m r with
  | mk res u =>
    rw [hrun] at h
    cases res with
    | error e => cases h
    | ok a =>
      have hover := hm r u a hmax hpos hrun
      have hlen : u.len = r.len := by rw [Reader.len, hover.1, Reader.len]
      exact hover.trans (hf a u t b (by rwa [hlen]) (by rw [hlen]; exact hover.2.1) h)

theorem GoesOver.skips {depth : Nat} (h : GoesOver 1 (skip depth)) (n : Nat) :
    GoesOver n (Cbor.skips (List.replicate n depth)) := by
  induction n with
  | zero => exact .pure ()
  | succ n ih =>
    rw [List.replicate_succ, Nat.add_comm]
    exact h.bind fun _ => ih

/-- What `advance` leaves when it succeeds. -/
theorem advance_ok {u t : Reader} {n : Nat} {slice : Slice} (h : advance n u = (.ok slice, t)) :
    addU64 u.pos n ≤ u.len ∧ slice = { ptr := u.pos, len := n } ∧
      t = { u with pos := addU64 u.pos n, wrapped := u.wrapped || decide (2 ^ 64 ≤ u.pos + n) } := by
  simp only [advance, Prog.bind_apply, Prog.get] at h
  split at h
  · cases h
  · next hfits =>
    cases h
    exact ⟨not_lt.mp hfits, rfl, rfl⟩

theorem advance_fits {u : Reader} {n : Nat} (h : addU64 u.pos n ≤ u.len) : advance n u =
    (.ok { ptr := u.pos, len := n },
      { u with pos := addU64 u.pos n, wrapped := u.wrapped || decide (2 ^ 64 ≤ u.pos + n) }) := by
  have hfits : ¬ addU64 u.pos n > u.len := not_lt.mpr h
  simp only [advance, Prog.bind_apply, Prog.get, if_neg hfits]
  rfl

theorem skipItem_string {major n : Nat} {u t : Reader} {skip : Cbor Unit} (hmajor : major ∈ [2, 3])
    (h : skipItem skip major n u = (.ok (), t)) : ∃ slice, advance n u = (.ok slice, t) := by
  have hrun : (advance n >>= fun _ => pure ()) u = (.ok (), t) := by
    simp only [List.mem_cons, List.not_mem_nil, or_false] at hmajor
    rcases hmajor with rfl | rfl
    · exact h
    · exact h
  rw [Prog.bind_apply] at hrun
  cases hadv : advance n u with
  | mk res t' =>
    rw [hadv] at hrun
    cases res with
    | error e => cases hrun
    | ok slice =>
      cases hrun
      exact ⟨slice, rfl⟩

/-- After its head an item goes on with nothing, with a string's bytes, or
with as many items as the head says. -/
theorem over_item {depth major n : Nat} {r u t : Reader} (ih : GoesOver 1 (skip depth)) (hmax : r.len < 2 ^ 63)
    (hmajor : major < 8) (hbuf : u.buf = r.buf) (head : HeadAt r.buf r.pos major n u.pos)
    (h : skipItem (skip depth) major n u = (.ok (), t)) : Over 1 r t := by
  have hlen : u.len = r.len := by rw [Reader.len, hbuf, Reader.len]
  have hafter : ∀ c, GoesOver c (skipItem (skip depth) major n) →
      (∀ {w k s}, Spans r.buf w (c + k) u.pos s → Spans r.buf w (k + 1) r.pos s) → Over 1 r t := by
    intro c hc hhead
    obtain ⟨hbuf', hle, w, hspans⟩ := hc u t () (by rwa [hlen]) (by rw [hlen]; exact head.lt.2) h
    rw [hbuf] at hbuf' hspans
    refine ⟨hbuf', by rwa [hlen] at hle, w, fun hrest => ?_⟩
    rw [Nat.add_comm]
    exact hhead (hspans hrest)
  have hscalar : major ∈ [0, 1, 7] → GoesOver 0 (skipItem (skip depth) major n) → Over 1 r t := by
    intro hmem hc
    refine hafter 0 hc fun hrest => .scalar hmem head ?_
    rwa [Nat.zero_add] at hrest
  have hstring : major ∈ [2, 3] → Over 1 r t := by
    intro hmem
    obtain ⟨slice, hadv⟩ := skipItem_string hmem h
    obtain ⟨hfits, _, rfl⟩ := advance_ok hadv
    rw [hlen] at hfits
    refine ⟨hbuf, hfits, decide (2 ^ 64 ≤ u.pos + n), fun {w' k s} hrest => ?_⟩
    rw [Nat.add_comm 1 k]
    exact .string hmem head hfits hrest
  obtain rfl | rfl | rfl | rfl | rfl | rfl | rfl | rfl : major = 0 ∨ major = 1 ∨ major = 2 ∨ major = 3 ∨ major = 4 ∨
      major = 5 ∨ major = 6 ∨ major = 7 := by omega
  · exact hscalar (by decide) (.pure ())
  · exact hscalar (by decide) (.pure ())
  · exact hstring (by decide)
  · exact hstring (by decide)
  · refine hafter n ?_ fun hrest => .array head hrest
    rw [skipItem, loop_skip]
    exact ih.skips n
  · refine hafter (n * 2) ?_ fun hrest => .map head hrest
    rw [skipItem, loop_skip_skip]
    exact ih.skips (n * 2)
  · cases h
  · exact hscalar (by decide) (.pure ())

theorem goesOver_skip (depth : Nat) : GoesOver 1 (skip depth) := by
  induction depth with
  | zero => exact fun r t a _ _ h => nomatch h
  | succ depth ih =>
    intro r t a hmax hpos h
    rw [skip, Prog.bind_apply] at h
    cases hrun : readHead r with
    | mk res u =>
      rw [hrun] at h
      cases res with
      | error e => cases h
      | ok head =>
        obtain ⟨major, n⟩ := head
        obtain ⟨hmajor, hat, hu⟩ := headAt_of_readHead hmax hrun
        exact over_item ih hmax hmajor (by rw [hu]) hat h

theorem spans_of_skip {r t : Reader} {depth : Nat} (hmax : r.len < 2 ^ 63) (hpos : r.pos ≤ r.len)
    (h : skip depth r = (.ok (), t)) : ∃ w, Spans r.buf w 1 r.pos t.pos := by
  obtain ⟨_, _, w, hspans⟩ := goesOver_skip depth r t () hmax hpos h
  exact ⟨_, hspans .nil⟩

/-! ## Where the skipper goes -/

/-- From `p`, `k` items are skipped and the position is `q` then, however much
deeper than `depth` each may go; `w` says whether the position wrapped. -/
def Goes (buf : List UInt8) (depth : Nat) (w : Bool) (k p q : Nat) : Prop :=
  ∀ ds : List Nat, ds.length = k → (∀ d ∈ ds, depth ≤ d) → ∀ r : Reader, r.buf = buf → r.pos = p →
    ∃ t, skips ds r = (.ok (), t) ∧ t.pos = q ∧ t.wrapped = (r.wrapped || w)

section Goes

variable {buf : List UInt8} {depth k p q s major n : Nat} {w : Bool}

/-- A first item whose head is there is skipped as what comes after the head
is, with one nested call less. -/
theorem skips_cons {d : Nat} {ds : List Nat} {r : Reader} (hmax : r.len < 2 ^ 63) (hmajor : major < 8)
    (head : HeadAt r.buf r.pos major n q) :
    skips ((d + 1) :: ds) r =
      (skipItem (skip d) major n >>= fun _ => skips ds) { r with pos := q, heads := r.heads + 1 } := by
  simp only [skips, skip, Prog.bind_apply, readHead_of_headAt hmajor hmax head]

theorem Goes.mono {depth' : Nat} (h : Goes buf depth w k p q) (hle : depth ≤ depth') : Goes buf depth' w k p q :=
  fun ds hlen hdeep => h ds hlen fun d hd => hle.trans (hdeep d hd)

/-- Before items that are skipped, a head that says the first `c` of them are its own. -/
theorem Goes.head {c : Nat} (hmax : buf.length < 2 ^ 63) (hmajor : major < 8) (head : HeadAt buf p major n q)
    (hitem : ∀ d, skipItem (skip d) major n = skips (List.replicate c d)) (h : Goes buf depth w (c + k) q s) :
    Goes buf (depth + 1) w (k + 1) p s := by
  rintro (_ | ⟨_ | d, ds⟩) hlen hdeep r rfl rfl
  · cases hlen
  · exact absurd (hdeep 0 List.mem_cons_self) (Nat.not_succ_le_zero depth)
  obtain ⟨hd, hds⟩ := List.forall_mem_cons.mp hdeep
  rw [skips_cons hmax hmajor head, hitem, ← skips_append]
  refine h (List.replicate c d ++ ds) ?_ ?_ _ rfl rfl
  · rw [List.length_append, List.length_replicate, Nat.succ.inj hlen]
  · refine List.forall_mem_append.mpr ⟨fun d' hd' => ?_, fun d' hd' => (Nat.le_succ depth).trans (hds d' hd')⟩
    rw [List.eq_of_mem_replicate hd']
    exact Nat.le_of_succ_le_succ hd

theorem Goes.string (hmax : buf.length < 2 ^ 63) (hmajor : major ∈ [2, 3]) (head : HeadAt buf p major n q)
    (hfits : addU64 q n ≤ buf.length) (h : Goes buf depth w k (addU64 q n) s) :
    Goes buf (depth + 1) (decide (2 ^ 64 ≤ q + n) || w) (k + 1) p s := by
  rintro (_ | ⟨_ | d, ds⟩) hlen hdeep r rfl rfl
  · cases hlen
  · exact absurd (hdeep 0 List.mem_cons_self) (Nat.not_succ_le_zero depth)
  obtain ⟨_, hds⟩ := List.forall_mem_cons.mp hdeep
  have hitem : ∀ m, skipItem m major n = advance n >>= fun _ => pure () := by
    simp only [List.mem_cons, List.not_mem_nil, or_false] at hmajor
    rcases hmajor with rfl | rfl
    · exact fun _ => rfl
    · exact fun _ => rfl
  have hlt : major < 8 := by
    simp only [List.mem_cons, List.not_mem_nil, or_false] at hmajor
    omega
  obtain ⟨t, hrun, hpos, hwrap⟩ := h ds (Nat.succ.inj hlen) (fun d hd => (Nat.le_succ depth).trans (hds d hd))
    { r with pos := addU64 q n, heads := r.heads + 1, wrapped := r.wrapped || decide (2 ^ 64 ≤ q + n) } rfl rfl
  refine ⟨t, ?_, hpos, by rw [hwrap, Bool.or_assoc]⟩
  rw [skips_cons hmax hlt head, hitem, Prog.bind_assoc, Prog.bind_ok (advance_fits hfits)]
  exact hrun

theorem goes_of_spans (hmax : buf.length < 2 ^ 63) (h : Spans buf w k p q) : ∃ depth, Goes buf depth w k p q := by
  induction h with
  | nil =>
    refine ⟨0, fun ds hlen _ r _ hpos => ⟨r, ?_, hpos, (Bool.or_false _).symm⟩⟩
    rw [List.length_eq_zero_iff.mp hlen]
    rfl
  | scalar hmajor head _ ih =>
    obtain ⟨depth, hgoes⟩ := ih
    simp only [List.mem_cons, List.not_mem_nil, or_false] at hmajor
    refine ⟨depth + 1, Goes.head (c := 0) hmax (by omega) head (fun d => ?_) (by rwa [Nat.zero_add])⟩
    rcases hmajor with rfl | rfl | rfl
    · rfl
    · rfl
    · rfl
  | string hmajor head hfits _ ih =>
    obtain ⟨depth, hgoes⟩ := ih
    exact ⟨depth + 1, hgoes.string hmax hmajor head hfits⟩
  | array head _ ih =>
    obtain ⟨depth, hgoes⟩ := ih
    exact ⟨depth + 1, hgoes.head hmax (by decide) head fun d => loop_skip d _⟩
  | map head _ ih =>
    obtain ⟨depth, hgoes⟩ := ih
    exact ⟨depth + 1, hgoes.head hmax (by decide) head fun d => loop_skip_skip d _⟩

/-- Where items end, and whether a string wrapped on the way, is settled by the buffer. -/
theorem Spans.unique {w' : Bool} {q' : Nat} (hmax : buf.length < 2 ^ 63) (h : Spans buf w k p q)
    (h' : Spans buf w' k p q') : w = w' ∧ q = q' := by
  obtain ⟨depth, hgoes⟩ := goes_of_spans hmax h
  obtain ⟨depth', hgoes'⟩ := goes_of_spans hmax h'
  let ds := List.replicate k (max depth depth')
  have hlen : ds.length = k := List.length_replicate
  have hdeep : ∀ d ∈ ds, depth ≤ d ∧ depth' ≤ d := by
    intro d hd
    rw [List.eq_of_mem_replicate hd]
    exact ⟨le_max_left _ _, le_max_right _ _⟩
  let r : Reader := { buf := buf, pos := p, heads := 0, wrapped := false }
  obtain ⟨t, hrun, hpos, hwrap⟩ := hgoes ds hlen (fun d hd => (hdeep d hd).1) r rfl rfl
  obtain ⟨t', hrun', hpos', hwrap'⟩ := hgoes' ds hlen (fun d hd => (hdeep d hd).2) r rfl rfl
  rw [hrun] at hrun'
  cases hrun'
  exact ⟨by rw [Bool.false_or] at hwrap hwrap'; rw [← hwrap, hwrap'], by rw [← hpos, hpos']⟩

end Goes

/-! ## Complete items -/

theorem append_prefix_drop {buf xs ys : List UInt8} {p : Nat} :
    xs ++ ys <+: buf.drop p ↔ xs <+: buf.drop p ∧ ys <+: buf.drop (p + xs.length) := by
  constructor
  · rintro ⟨zs, hzs⟩
    rw [List.append_assoc] at hzs
    refine ⟨⟨ys ++ zs, hzs⟩, zs, ?_⟩
    rw [← List.drop_drop, ← hzs, List.drop_left]
  · rintro ⟨⟨zs, hzs⟩, hys⟩
    rw [← List.drop_drop, ← hzs, List.drop_left] at hys
    rw [← hzs]
    exact (List.prefix_append_right_inj xs).mpr hys

theorem prefix_drop_le {buf xs : List UInt8} {p : Nat} (hp : p ≤ buf.length) (h : xs <+: buf.drop p) :
    p + xs.length ≤ buf.length := by
  have hlen := h.length_le
  rw [List.length_drop] at hlen
  omega

section Complete

variable {buf : List UInt8} {w : Bool} {k p s : Nat}

theorem spans_of_items {items : List (List UInt8)}
    (hitem : ∀ i ∈ items, ∀ {w k p s}, i <+: buf.drop p → Spans buf w k (p + i.length) s → Spans buf w (k + 1) p s)
    (hpre : items.flatMap id <+: buf.drop p) (hrest : Spans buf w k (p + (items.flatMap id).length) s) :
    Spans buf w (items.length + k) p s := by
  induction items generalizing p with
  | nil =>
    rw [List.length_nil, Nat.zero_add]
    exact hrest
  | cons i items ih =>
    rw [List.flatMap_cons, id_eq] at hpre hrest
    obtain ⟨hi, hitems⟩ := append_prefix_drop.mp hpre
    rw [List.length_append, ← Nat.add_assoc] at hrest
    rw [List.length_cons, Nat.add_right_comm]
    exact hitem i List.mem_cons_self hi
      (ih (fun j hj => hitem j (List.mem_cons_of_mem i hj)) hitems hrest)

/-- A complete item ends where it ends, and none of its strings wraps. -/
theorem spans_of_plain {item : List UInt8} (hmax : buf.length < 2 ^ 63) (h : Plain item) :
    ∀ {w k p s}, item <+: buf.drop p → Spans buf w k (p + item.length) s → Spans buf w (k + 1) p s := by
  induction h with
  | scalar hmajor head =>
    intro w k p s hpre hrest
    exact .scalar hmajor ⟨_, head, hpre, rfl⟩ hrest
  | string hmajor h =>
    rename_i major data bytes
    intro w k p s hpre hrest
    cases h with
    | mk head =>
      rename_i h
      obtain ⟨hhead, hdata⟩ := append_prefix_drop.mp hpre
      have hat : HeadAt buf p major data.length (p + h.length) := ⟨h, head, hhead, rfl⟩
      have hle := prefix_drop_le hat.lt.2 hdata
      have hsum : addU64 (p + h.length) data.length = p + (h ++ data).length := by
        rw [List.length_append, addU64, Nat.mod_eq_of_lt (by omega), Nat.add_assoc]
      have hwrap : decide (2 ^ 64 ≤ p + h.length + data.length) = false := decide_eq_false (by omega)
      rw [← hsum] at hrest
      have hspans := Spans.string hmajor hat (by rw [hsum, List.length_append]; omega) hrest
      rwa [hwrap, Bool.false_or] at hspans
  | array items head _ ih =>
    rename_i h _
    intro w k p s hpre hrest
    obtain ⟨hhead, hitems⟩ := append_prefix_drop.mp hpre
    rw [List.length_append, ← Nat.add_assoc] at hrest
    exact .array ⟨h, head, hhead, rfl⟩ (spans_of_items ih hitems hrest)
  | map entries head _ _ ihk ihv =>
    rename_i h _ _
    intro w k p s hpre hrest
    obtain ⟨hhead, hentries⟩ := append_prefix_drop.mp hpre
    rw [List.length_append, ← Nat.add_assoc] at hrest
    rw [← flatMap_flatten] at hentries hrest
    refine .map ⟨h, head, hhead, rfl⟩ ?_
    rw [← length_flatten]
    refine spans_of_items (fun i hi => ?_) hentries hrest
    obtain ⟨e, he, hi⟩ := List.mem_flatMap.mp hi
    simp only [List.mem_cons, List.not_mem_nil, or_false] at hi
    rcases hi with rfl | rfl
    · exact ihk e he
    · exact ihv e he

/-- From `p` to `s` there are `k` complete items. -/
def Items (buf : List UInt8) (k p s : Nat) : Prop :=
  ∃ items : List (List UInt8), items.length = k ∧ (∀ i ∈ items, Plain i) ∧ items.flatMap id <+: buf.drop p ∧
    s = p + (items.flatMap id).length

/-- The bytes at `p` take the first `c` of the items after them into one. -/
theorem Items.cons {c q : Nat} {head : List UInt8} (h : Items buf (c + k) q s) (hpre : head <+: buf.drop p)
    (hq : q = p + head.length)
    (hplain : ∀ own : List (List UInt8), own.length = c → (∀ i ∈ own, Plain i) → Plain (head ++ own.flatMap id)) :
    Items buf (k + 1) p s := by
  obtain ⟨items, hlen, hitems, hrest, rfl⟩ := h
  have hown : Plain (head ++ (items.take c).flatMap id) := by
    refine hplain _ ?_ fun i hi => hitems i (List.mem_of_mem_take hi)
    rw [List.length_take, hlen]
    omega
  have hflat : ((head ++ (items.take c).flatMap id) :: items.drop c).flatMap id = head ++ items.flatMap id := by
    rw [List.flatMap_cons, id_eq, List.append_assoc, ← List.flatMap_append, List.take_append_drop]
  refine ⟨_ :: items.drop c, ?_, List.forall_mem_cons.mpr ⟨hown, fun i hi => hitems i (List.mem_of_mem_drop hi)⟩, ?_, ?_⟩
  · rw [List.length_cons, List.length_drop, hlen, Nat.add_sub_cancel_left]
  · rw [hflat]
    exact append_prefix_drop.mpr ⟨hpre, by rwa [← hq]⟩
  · rw [hflat, List.length_append, hq, Nat.add_assoc]

/-- Where no string wraps, the items are complete. -/
theorem items_of_spans (h : Spans buf w k p s) (hw : w = false) : Items buf k p s := by
  have hnone : ∀ {head : List UInt8}, Plain head → ∀ own : List (List UInt8), own.length = 0 →
      (∀ i ∈ own, Plain i) → Plain (head ++ own.flatMap id) := by
    intro head hplain own hlen _
    rwa [List.length_eq_zero_iff.mp hlen, List.flatMap_nil, List.append_nil]
  induction h with
  | nil => exact ⟨[], rfl, List.forall_mem_nil _, List.nil_prefix, rfl⟩
  | scalar hmajor head _ ih =>
    obtain ⟨head, hhead, hat, hq⟩ := head
    refine Items.cons (c := 0) ?_ hat hq (hnone (.scalar hmajor hhead))
    rw [Nat.zero_add]
    exact ih hw
  | string hmajor head hfits _ ih =>
    rename_i w k p major n q s _
    obtain ⟨hlt, rfl⟩ := Bool.or_eq_false_iff.mp hw
    obtain ⟨head, hhead, hat, hq⟩ := head
    have hsum : addU64 q n = q + n := Nat.mod_eq_of_lt (not_le.mp (of_decide_eq_false hlt))
    rw [hsum] at hfits ih
    have hdata : ((buf.drop q).take n).length = n := by
      rw [List.length_take, List.length_drop]
      omega
    have hplain : Plain (head ++ (buf.drop q).take n) := .string hmajor (.mk (by rwa [hdata]))
    have hpre : head ++ (buf.drop q).take n <+: buf.drop p := by
      refine append_prefix_drop.mpr ⟨hat, ?_⟩
      rw [← hq]
      exact List.take_prefix n _
    have hend : q + n = p + (head ++ (buf.drop q).take n).length := by
      rw [List.length_append, hdata, hq, Nat.add_assoc]
    refine Items.cons (c := 0) ?_ hpre hend (hnone hplain)
    rw [Nat.zero_add]
    exact ih rfl
  | array head _ ih =>
    obtain ⟨head, hhead, hat, hq⟩ := head
    refine (ih hw).cons hat hq fun own hlen hown => .array own ?_ hown
    rwa [hlen]
  | map head _ ih =>
    obtain ⟨head, hhead, hat, hq⟩ := head
    exact (ih hw).cons hat hq fun own hlen hown => plain_map hhead hlen hown

end Complete

/-! ## Exactness -/

/-- The skipper moves past a complete item, and past nothing else. -/
structure SkipExact (r : Reader) : Prop where
  complete : ∀ item, Plain item → item <+: r.buf.drop r.pos →
    ∃ depth t, skip depth r = (.ok (), t) ∧ t.pos = r.pos + item.length ∧ t.pos ≤ r.len
  sound : ∀ depth t, skip depth r = (.ok (), t) →
    ∃ item, Plain item ∧ item <+: r.buf.drop r.pos ∧ t.pos = r.pos + item.length ∧ t.pos ≤ r.len

/-- The slice is `data`, just before where the reader is. -/
def SliceOf (r t : Reader) (slice : Slice) (data : List UInt8) : Prop :=
  slice.len = data.length ∧ slice.ptr + slice.len = t.pos ∧ r.bytes slice = data

/-- `readString` reads a complete string, and nothing else. -/
structure StringExact (major : Nat) (r : Reader) : Prop where
  complete : ∀ data item, IsString major data item → item <+: r.buf.drop r.pos →
    ∃ slice t, readString major r = (.ok slice, t) ∧ SliceOf r t slice data ∧ t.pos = r.pos + item.length ∧ t.pos ≤ r.len
  sound : ∀ slice t, readString major r = (.ok slice, t) →
    ∃ data item, IsString major data item ∧ item <+: r.buf.drop r.pos ∧ SliceOf r t slice data ∧
      t.pos = r.pos + item.length ∧ t.pos ≤ r.len

/-- An item that needs a string that wraps begins at the reader's position. -/
def WrapsAt (r : Reader) : Prop := ∃ q, Spans r.buf true 1 r.pos q

section Exact

variable {r t : Reader} {major n q : Nat} {slice : Slice}

theorem skips_singleton (depth : Nat) (r : Reader) : skips [depth] r = skip depth r := by
  rw [skips, Prog.bind_apply]
  rcases skip depth r with ⟨_ | _, _⟩ <;> rfl

theorem skipExact (hmax : r.len < 2 ^ 63) (hpos : r.pos ≤ r.len) (h : ¬ WrapsAt r) : SkipExact r where
  complete item hitem hpre := by
    obtain ⟨depth, hgoes⟩ := goes_of_spans hmax (spans_of_plain hmax hitem hpre .nil)
    obtain ⟨t, hrun, ht, _⟩ := hgoes [depth] rfl (List.forall_mem_singleton.mpr le_rfl) r rfl rfl
    rw [skips_singleton] at hrun
    exact ⟨depth, t, hrun, ht, by rw [ht]; exact prefix_drop_le hpos hpre⟩
  sound depth t hrun := by
    obtain ⟨_ | _, hspans⟩ := spans_of_skip hmax hpos hrun
    · obtain ⟨items, hlen, hitems, hpre, ht⟩ := items_of_spans hspans rfl
      obtain ⟨item, rfl⟩ := List.length_eq_one_iff.mp hlen
      rw [List.flatMap_singleton, id_eq] at hpre ht
      exact ⟨item, List.forall_mem_singleton.mp hitems, hpre, ht, by rw [ht]; exact prefix_drop_le hpos hpre⟩
    · exact absurd ⟨_, hspans⟩ h

/-- A string's head, then its bytes. -/
theorem readString_ok (hmax : r.len < 2 ^ 63) (h : readString major r = (.ok slice, t)) :
    ∃ n q, HeadAt r.buf r.pos major n q ∧ addU64 q n ≤ r.len ∧ slice = { ptr := q, len := n } ∧ t.pos = addU64 q n := by
  rw [readString, Prog.bind_apply] at h
  cases hrun : readHead r with
  | mk res u =>
    rw [hrun] at h
    cases res with
    | error e => cases h
    | ok head =>
      obtain ⟨major', n⟩ := head
      obtain ⟨_, hat, hu⟩ := headAt_of_readHead hmax hrun
      simp only at h
      split at h
      · cases h
      next heq =>
      obtain ⟨hfits, hslice, ht⟩ := advance_ok h
      rw [Reader.len, hu] at hfits
      exact ⟨n, u.pos, (not_not.mp heq) ▸ hat, hfits, hslice, by rw [ht]⟩

theorem readString_headAt (hmax : r.len < 2 ^ 63) (hmajor : major < 8) (head : HeadAt r.buf r.pos major n q)
    (hfits : addU64 q n ≤ r.len) :
    ∃ t, readString major r = (.ok { ptr := q, len := n }, t) ∧ t.pos = addU64 q n := by
  refine ⟨{ r with
    pos := addU64 q n, heads := r.heads + 1, wrapped := r.wrapped || decide (2 ^ 64 ≤ q + n) }, ?_, rfl⟩
  rw [readString, Prog.bind_ok (readHead_of_headAt hmajor hmax head)]
  show (if _ then _ else advance n) _ = _
  rw [if_neg (not_not_intro rfl)]
  exact advance_fits hfits

theorem stringExact (hmajor : major ∈ [2, 3]) (hmax : r.len < 2 ^ 63) (hpos : r.pos ≤ r.len) (h : ¬ WrapsAt r) :
    StringExact major r where
  complete data item hitem hpre := by
    cases hitem with
    | mk hhead =>
      rename_i bytes
      have hlt : major < 8 := by
        simp only [List.mem_cons, List.not_mem_nil, or_false] at hmajor
        omega
      have hle := prefix_drop_le hpos hpre
      obtain ⟨hbytes, hdata⟩ := append_prefix_drop.mp hpre
      have hsum : addU64 (r.pos + bytes.length) data.length = r.pos + (bytes ++ data).length := by
        rw [List.length_append, Reader.len] at *
        rw [addU64, Nat.mod_eq_of_lt (by omega), Nat.add_assoc]
      obtain ⟨t, hrun, ht⟩ := readString_headAt hmax hlt ⟨bytes, hhead, hbytes, rfl⟩ (by rwa [hsum])
      rw [hsum] at ht
      refine ⟨_, t, hrun, ⟨rfl, ?_, (List.prefix_iff_eq_take.mp hdata).symm⟩, ht, by rwa [ht]⟩
      rw [ht, List.length_append, Nat.add_assoc]
  sound slice t hrun := by
    obtain ⟨n, q, head, hfits, rfl, ht⟩ := readString_ok hmax hrun
    have hwrap : ¬ 2 ^ 64 ≤ q + n := by
      intro hwrap
      have hspans := Spans.string hmajor head hfits .nil
      rw [decide_eq_true hwrap] at hspans
      exact h ⟨_, hspans⟩
    obtain ⟨bytes, hhead, hbytes, hq⟩ := head
    rw [addU64, Nat.mod_eq_of_lt (not_le.mp hwrap)] at hfits ht
    have hdata : ((r.buf.drop q).take n).length = n := by
      rw [Reader.len] at hfits
      rw [List.length_take, List.length_drop]
      omega
    refine ⟨_, bytes ++ (r.buf.drop q).take n, .mk (by rwa [hdata]), ?_, ⟨hdata.symm, ht.symm, rfl⟩, ?_, by rwa [ht]⟩
    · exact append_prefix_drop.mpr ⟨hbytes, hq ▸ List.take_prefix n _⟩
    · rw [ht, List.length_append, hdata, hq, Nat.add_assoc]

/-- A string that wraps leads the skipper on although no complete item is there. -/
theorem not_skipExact (hmax : r.len < 2 ^ 63) (h : WrapsAt r) : ¬ SkipExact r := by
  intro hexact
  obtain ⟨q, hspans⟩ := h
  obtain ⟨depth, hgoes⟩ := goes_of_spans hmax hspans
  obtain ⟨t, hrun, _, _⟩ := hgoes [depth] rfl (List.forall_mem_singleton.mpr le_rfl) r rfl rfl
  rw [skips_singleton] at hrun
  obtain ⟨item, hitem, hpre, _, _⟩ := hexact.sound depth t hrun
  exact Bool.noConfusion (hspans.unique hmax (spans_of_plain hmax hitem hpre .nil)).1

/-- The skipper and the string readers accept exactly complete items where no
item with a string that wraps begins. -/
theorem exact_iff (hmax : r.len < 2 ^ 63) (hpos : r.pos ≤ r.len) :
    (SkipExact r ∧ StringExact 2 r ∧ StringExact 3 r) ↔ ¬ WrapsAt r :=
  ⟨fun h hwraps => not_skipExact hmax hwraps h.1,
    fun h => ⟨skipExact hmax hpos h, stringExact (by decide) hmax hpos h, stringExact (by decide) hmax hpos h⟩⟩

end Exact

/-- A complete item needs no string that wraps. -/
theorem not_wrapsAt_of_plain {item : List UInt8} (hmax : item.length < 2 ^ 63) (h : Plain item) : ¬ WrapsAt (.init item) := by
  rintro ⟨q, hspans⟩
  exact Bool.noConfusion (hspans.unique hmax (spans_of_plain hmax h (p := 0) List.prefix_rfl .nil)).1

/-- A list of a byte string and of a map with a text. -/
def nested : Tree := .array [.bytes [0x07], .map [(.uint 1, .text (text "ab"))]]

theorem canonical_nested : nested.Canonical := by
  have hmap : Tree.Canonical (.map [(.uint 1, .text (text "ab"))]) :=
    .map (by decide) (List.pairwise_singleton _ _) (List.forall_mem_singleton.mpr (.uint (by decide)))
      (List.forall_mem_singleton.mpr (.text (by decide)))
  exact .array (by decide) (List.forall_mem_cons.mpr ⟨.bytes (by decide), List.forall_mem_singleton.mpr hmap⟩)

theorem exact_nested : SkipExact (.init nested.encode) ∧ StringExact 2 (.init nested.encode) ∧ StringExact 3 (.init nested.encode) :=
  (exact_iff (by decide) (Nat.zero_le _)).mpr (not_wrapsAt_of_plain (by decide) canonical_nested.plain)

/-- The head of a byte string of 2^64 - 1 bytes, without any of them: its end
is the last byte of the head. -/
theorem exists_not_exact : ∃ r : Reader, r.len < 2 ^ 63 ∧ r.pos ≤ r.len ∧
    ¬ (SkipExact r ∧ StringExact 2 r ∧ StringExact 3 r) := by
  refine ⟨.init (0x5b :: List.replicate 8 0xff), by decide, by decide, fun h => not_skipExact (by decide) ?_ h.1⟩
  have head : Head 2 (2 ^ 64 - 1) (0x5b :: List.replicate 8 0xff) := .wide (i := 27) (n := 8) (by decide) (by decide)
  exact ⟨8, .string (n := 2 ^ 64 - 1) (q := 9) (by decide) ⟨_, head, List.prefix_rfl, rfl⟩ (by decide) .nil⟩

end AbkFido
