/-
What a field of the blob keeps of a string, and what is read back.

Kotlin's strings are UTF-16 and may hold surrogates that are not one of a
pair, which are written as question marks. Of any string a field keeps the
longest part, in whole code points, that leaves room for the NUL
(`longest_clipped`), and that is what is read back, but for those surrogates
(`stored_name`).
-/
import AbkFido.App.KeyArchiveFacts
import AbkFido.Lib.Utf16

namespace AbkFido

open Layout Utf16

/-- `readCString`, as the string it returns. -/
def readCStringUnits (bytes : List UInt8) (off maxLen : Nat) : List UInt16 :=
  Utf16.encode (Utf8.decode (cstr (copyOfRange bytes off maxLen)))

theorem readCString_eq (bytes : List UInt8) (off maxLen : Nat) :
    readCString bytes off maxLen = toUtf8 (readCStringUnits bytes off maxLen) := by
  rw [readCString, readCStringUnits, toUtf8, chars_encode]

/-- The bytes of some code points. -/
def utf8 (cps : List CodePoint) : List UInt8 := Utf8.encode (cps.map CodePoint.toChar)

/-- The longest part of a string, in whole code points and from its
beginning, that has no more than `room` bytes. -/
structure LongestPart (room : Nat) (s : List UInt16) (kept : List CodePoint) : Prop where
  isPrefix : kept <+: codePoints s
  length_le : (utf8 kept).length ≤ room
  longest : ∀ more, more <+: codePoints s → (utf8 more).length ≤ room → more <+: kept

/-! ## Where a string is cut -/

theorem le_characterStart {encoded : List UInt8} {m n : Nat} (h : encoded.getD m 0 &&& 0xc0 ≠ 0x80) (hle : m ≤ n) :
    m ≤ characterStart encoded n := by
  induction n with
  | zero => exact hle
  | succ n ih =>
    rw [characterStart]
    split
    · next hcont =>
      have hne : m ≠ n + 1 := by
        rintro rfl
        exact h hcont
      exact ih (by omega)
    · exact hle

theorem le_clippedLength {n : Nat} {t more : List Char} (hpre : more <+: t) (hlen : (Utf8.encode more).length ≤ n - 1) :
    (Utf8.encode more).length ≤ clippedLength n (Utf8.encode t) := by
  have hle : (Utf8.encode more).length ≤ min (Utf8.encode t).length (n - 1) :=
    le_min (Utf8.encode_of_isPrefix hpre).length_le hlen
  unfold clippedLength
  dsimp only
  split
  · next hcut =>
    rcases Utf8.boundary hpre with rfl | hstart
    · omega
    · exact le_characterStart hstart hle
  · exact hle

theorem longest_clipped (n : Nat) (t : List Char) : ∃ kept, Utf8.Longest (n - 1) t kept ∧
    (Utf8.encode t).take (clippedLength n (Utf8.encode t)) = Utf8.encode kept := by
  obtain ⟨kept, hkept⟩ := valid_clipped n t
  have hclip := clippedLength_le n (Utf8.encode t)
  have hlen : (Utf8.encode kept).length = clippedLength n (Utf8.encode t) := by
    rw [hkept, List.length_take]
    omega
  refine ⟨kept, ⟨Utf8.prefix_of_encode (hkept ▸ List.take_prefix ..), by omega, fun more hpre hroom => ?_⟩, hkept.symm⟩
  have hle := le_clippedLength hpre hroom
  refine Utf8.prefix_of_encode (List.prefix_of_prefix_length_le (Utf8.encode_of_isPrefix hpre) ?_ (by omega))
  rw [hkept]
  exact List.take_prefix ..

/-- The same of a string's code points. -/
theorem longestPart_clipped (n : Nat) (s : List UInt16) : ∃ kept, LongestPart (n - 1) s kept ∧
    (toUtf8 s).take (clippedLength n (toUtf8 s)) = utf8 kept := by
  obtain ⟨kept, hkept, hbytes⟩ := longest_clipped n (chars s)
  have htake : ((codePoints s).take kept.length).map CodePoint.toChar = kept := by
    rw [List.map_take]
    exact (List.prefix_iff_eq_take.mp hkept.isPrefix).symm
  refine ⟨(codePoints s).take kept.length, ⟨List.take_prefix .., ?_, fun more hpre hroom => ?_⟩, ?_⟩
  · rw [utf8, htake]
    exact hkept.length_le
  · have hlonger := (hkept.longest _ (hpre.map _) hroom).length_le
    rw [List.length_map] at hlonger
    rw [List.prefix_iff_eq_take.mp hpre]
    exact List.take_prefix_take_left (l := codePoints s) hlonger
  · rw [utf8, htake]
    exact hbytes

/-! ## The field -/

variable {bytes : List UInt8} {off maxLen : Nat}

/-- Only the field is written: the string's bytes, and zeros after them. -/
theorem writeCString_eq (hfits : off + maxLen ≤ bytes.length) (value : List UInt8) :
    writeCString bytes off maxLen value = bytes.take off ++
      ((value.take (clippedLength maxLen value) ++
        List.replicate (maxLen - (value.take (clippedLength maxLen value)).length) 0) ++ bytes.drop (off + maxLen)) := by
  have hle := length_clipped_le maxLen value
  unfold writeCString
  dsimp only
  generalize value.take (clippedLength maxLen value) = v at hle ⊢
  have hx : (bytes.take off).length = off := by
    rw [List.length_take]
    omega
  have hy : (List.replicate maxLen (0 : UInt8)).length = ((bytes.drop off).take maxLen).length := by
    rw [List.length_replicate, List.length_take, List.length_drop]
    omega
  have hbytes : bytes = bytes.take off ++ ((bytes.drop off).take maxLen ++ bytes.drop (off + maxLen)) := by
    rw [← List.drop_drop, List.take_append_drop, List.take_append_drop]
  have hzeros : List.replicate maxLen (0 : UInt8) = List.replicate v.length 0 ++ List.replicate (maxLen - v.length) 0 := by
    rw [List.replicate_append_replicate, Nat.add_sub_cancel' hle]
  have hcleared : splice bytes off (List.replicate maxLen 0) = bytes.take off ++
      (List.replicate maxLen 0 ++ bytes.drop (off + maxLen)) := by
    conv_lhs => rw [hbytes]
    exact splice_middle hx hy
  rw [hcleared, hzeros, List.append_assoc, splice_middle hx List.length_replicate.symm, List.append_assoc]

/-- What the field keeps of a string. -/
structure Stored (bytes : List UInt8) (off maxLen : Nat) (s : List UInt16) (kept : List CodePoint) : Prop where
  longest : LongestPart (maxLen - 1) s kept
  whole : (toUtf8 s).length ≤ maxLen - 1 → kept = codePoints s
  field : copyOfRange bytes off maxLen = utf8 kept ++ List.replicate (maxLen - (utf8 kept).length) 0
  terminated : (utf8 kept).length < maxLen
  /-- Every surrogate that is left over is read as a question mark. -/
  read : 0 ∉ s → readCStringUnits bytes off maxLen = Utf16.encode (kept.map CodePoint.toChar)
  readExact : 0 ∉ s → (∀ cp ∈ kept, cp = .char cp.toChar) → readCStringUnits bytes off maxLen = kept.flatMap CodePoint.units

theorem utf8_nul_free {s : List UInt16} {kept : List CodePoint} (hpre : kept <+: codePoints s) (hnul : 0 ∉ s) :
    ∀ b ∈ utf8 kept, b ≠ 0 := by
  rintro b hb rfl
  have hmem : Char.ofNat 0 ∈ kept.map CodePoint.toChar := (Utf8.mem_encode (by decide)).mp hb
  exact nul_not_mem_chars hnul ((hpre.map CodePoint.toChar).subset hmem)

/-- **A field keeps the longest part of a string that fits, and nothing else
is written.** -/
theorem stored_name (hpos : 0 < maxLen) (hfits : off + maxLen ≤ bytes.length) (s : List UInt16) :
    (writeCString bytes off maxLen (toUtf8 s)).length = bytes.length ∧
    (writeCString bytes off maxLen (toUtf8 s)).take off = bytes.take off ∧
    (writeCString bytes off maxLen (toUtf8 s)).drop (off + maxLen) = bytes.drop (off + maxLen) ∧
    ∃ kept, Stored (writeCString bytes off maxLen (toUtf8 s)) off maxLen s kept := by
  obtain ⟨kept, hkept, htake⟩ := longestPart_clipped maxLen s
  have hout := writeCString_eq hfits (toUtf8 s)
  rw [htake] at hout
  have hlen := hkept.length_le
  have hoff : (bytes.take off).length = off := by
    rw [List.length_take]
    omega
  have hfield : (utf8 kept ++ List.replicate (maxLen - (utf8 kept).length) (0 : UInt8)).length = maxLen := by
    rw [List.length_append, List.length_replicate]
    omega
  have hrange : copyOfRange (writeCString bytes off maxLen (toUtf8 s)) off maxLen =
      utf8 kept ++ List.replicate (maxLen - (utf8 kept).length) 0 := by
    rw [copyOfRange, hout, List.drop_left' hoff, List.take_left' hfield]
  have hread : 0 ∉ s → readCStringUnits (writeCString bytes off maxLen (toUtf8 s)) off maxLen =
      Utf16.encode (kept.map CodePoint.toChar) := by
    intro hnul
    rw [readCStringUnits, hrange, cstr_append_replicate (utf8_nul_free hkept.isPrefix hnul), utf8, Utf8.decode_encode]
  refine ⟨length_writeCString hfits _, ?_, ?_, kept, hkept, fun hwhole => ?_, hrange, by omega, hread, fun hnul hchars => ?_⟩
  · rw [hout, List.take_left' hoff]
  · rw [hout, ← List.append_assoc, List.drop_left']
    rw [List.length_append, hoff, hfield]
  · exact List.IsPrefix.eq_of_length_le hkept.isPrefix (hkept.longest _ (List.prefix_refl _) hwhole).length_le
  · rw [hread hnul, encode_toChar hchars]

/-- Two bytes of a field of three take an e with an accent and leave out the next one. -/
theorem stored_name_cut : ∃ kept, Stored (writeCString (List.replicate 4 7) 1 3 (toUtf8 [0xE9, 0xE9])) 1 3 [0xE9, 0xE9] kept :=
  (stored_name (by decide) (by decide) [0xE9, 0xE9]).2.2.2

/-- A surrogate that is left over fits, and is not read back. -/
theorem lone_not_read : (0 : UInt16) ∉ [0xD800] ∧ (toUtf8 [0xD800]).length ≤ 2 - 1 ∧
    readCStringUnits (writeCString [7, 7] 0 2 (toUtf8 [0xD800])) 0 2 = [0x3F] ∧
    readCStringUnits (writeCString [7, 7] 0 2 (toUtf8 [0xD800])) 0 2 ≠ [0xD800] := by
  decide

end AbkFido
