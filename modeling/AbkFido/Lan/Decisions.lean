/-
What the LAN registry remembers, over any sequence of its operations.

Every operation reads the stored list and writes it whole, cut at 64 records,
while the answer to a hello is computed from the list that was read. The two
agree with each other and with the user's decisions exactly as long as a
computer that is not in the list finds fewer than 64 records in it
(`kept_iff`); the record of one that comes later is the one that is cut.

The history of operations has its newest entry first.
-/
import AbkFido.Lan.Admission

namespace AbkFido

inductive RegistryOp
  | onHello (now : Int) (who : Introduction) (address : List Char) (autoAuthorize : Bool)
  | setStatus (id : List Char) (status : LanClientStatus)
  | remove (id : List Char)

namespace LanClientRegistry

section
variable (J : OrgJson)

def apply (prefs : Prefs) : RegistryOp → Prefs
  | .onHello now who address autoAuthorize => (onHello J now who address autoAuthorize prefs).2
  | .setStatus id status => setStatus J id status prefs
  | .remove id => remove J id prefs

/-- What is stored after a history. -/
def stored : List RegistryOp → Prefs
  | [] => none
  | op :: past => apply J (stored past) op

def statusIn (records : List LanClientRecord) (id : List Char) : Option LanClientStatus :=
  (records.find? (·.id = id)).map (·.status)

/-- The status an id is listed with. -/
def statusOf (prefs : Prefs) : List Char → Option LanClientStatus := statusIn (load J prefs)

end

/-- The status an id should have: the last one the user set since it was last
added, or else the one it was added with. -/
def decision : List RegistryOp → List Char → Option LanClientStatus
  | [], _ => none
  | .onHello _ who _ autoAuthorize :: past, id =>
    if id = who.id then
      match decision past id with
      | some status => some status
      | none => some (if autoAuthorize then .authorized else .pending)
    else decision past id
  | .setStatus i status :: past, id => if id = i then (decision past id).map fun _ => status else decision past id
  | .remove i :: past, id => if id = i then none else decision past id

/-- What holds after an operation: who has said hello is listed with the
status in the answer, nobody's status was changed by a hello, and every
status is the one the user decided. -/
structure KeptAfter (J : OrgJson) (past : List RegistryOp) (op : RegistryOp) : Prop where
  answered : ∀ now who address autoAuthorize, op = .onHello now who address autoAuthorize →
    statusOf J (stored J (op :: past)) who.id =
      some (onHello J now who address autoAuthorize (stored J past)).1.status
  unchanged : ∀ now who address autoAuthorize, op = .onHello now who address autoAuthorize →
    ∀ id status, statusOf J (stored J past) id = some status → statusOf J (stored J (op :: past)) id = some status
  decided : ∀ id, statusOf J (stored J (op :: past)) id = decision (op :: past) id

/-- It holds after every operation of a history. -/
def Kept (J : OrgJson) : List RegistryOp → Prop
  | [] => True
  | op :: past => Kept J past ∧ KeptAfter J past op

/-- A hello comes with an id, which is listed or finds fewer than 64 records. -/
def FindsRoom (J : OrgJson) (past : List RegistryOp) : RegistryOp → Prop
  | .onHello _ who _ _ => Kotlin.isBlank who.id = false ∧
    ((statusOf J (stored J past) who.id).isSome ∨ (load J (stored J past)).length < maxRecords)
  | _ => True

def AllFindRoom (J : OrgJson) : List RegistryOp → Prop
  | [] => True
  | op :: past => AllFindRoom J past ∧ FindsRoom J past op

/-! ## Statuses -/

variable {J : OrgJson} {prefs : Prefs} {records : List LanClientRecord} {id i : List Char}
  {f : LanClientRecord → LanClientRecord} {past ops : List RegistryOp} {op : RegistryOp}

theorem statusIn_cons (r : LanClientRecord) :
    statusIn (r :: records) i = if r.id = i then some r.status else statusIn records i := by
  rw [statusIn, List.find?_cons]
  by_cases hid : r.id = i
  · simp [hid]
  · simp [hid, statusIn]

/-- Statuses are read off ids and statuses alone. -/
theorem statusIn_congr {records' : List LanClientRecord}
    (h : records.map LanClientRecord.entry = records'.map LanClientRecord.entry) :
    statusIn records i = statusIn records' i := by
  induction records generalizing records' with
  | nil =>
    rw [List.map_nil, eq_comm, List.map_eq_nil_iff] at h
    rw [h]
  | cons r records ih =>
    cases records' with
    | nil => cases h
    | cons r' records' =>
      rw [List.map_cons, List.map_cons, List.cons.injEq] at h
      obtain ⟨hentry, hrest⟩ := h
      obtain ⟨hid, hstatus⟩ := Prod.mk.inj hentry
      rw [statusIn_cons, statusIn_cons, hid, hstatus, ih hrest]

theorem statusIn_replaceFirst (hf : ∀ x, x.id = id → (f x).id = id) :
    statusIn (replaceFirst id f records) i =
      if i = id then (records.find? (·.id = id)).map fun x => (f x).status else statusIn records i := by
  induction records with
  | nil => simp [statusIn, replaceFirst]
  | cons r records ih =>
    rw [replaceFirst_cons]
    by_cases hid : r.id = id
    · rw [if_pos hid, statusIn_cons, hf r hid]
      by_cases hi : i = id
      · simp [hi, hid]
      · rw [if_neg (Ne.symm hi), if_neg hi, statusIn_cons, hid, if_neg (Ne.symm hi)]
    · rw [if_neg hid, statusIn_cons, ih, statusIn_cons]
      by_cases hi : i = id
      · simp [hi, hid]
      · simp [hi]

theorem statusIn_filter :
    statusIn (records.filter (·.id ≠ id)) i = if i = id then none else statusIn records i := by
  induction records with
  | nil => simp [statusIn]
  | cons r records ih =>
    by_cases hid : r.id = id
    · rw [List.filter_cons_of_neg (by simp [hid]), ih, statusIn_cons]
      by_cases hi : i = id
      · rw [if_pos hi, if_pos hi]
      · rw [if_neg hi, if_neg hi, hid, if_neg (Ne.symm hi)]
    · rw [List.filter_cons_of_pos (by simp [hid]), statusIn_cons, ih, statusIn_cons]
      by_cases hi : i = id
      · rw [if_pos hi, if_pos hi, hi, if_neg hid]
      · rw [if_neg hi, if_neg hi]

/-! ## The stored list -/

theorem length_load_save : (load J (save records)).length ≤ maxRecords := by
  refine (List.length_filterMap_le _ _).trans ((List.length_filterMap_le _ _).trans ?_)
  rw [save, Option.getD_some, List.length_map]
  exact List.length_take_le _ _

/-- There are never more than 64. -/
theorem length_load_stored : ∀ ops, (load J (stored J ops)).length ≤ maxRecords
  | [] => Nat.zero_le _
  | .onHello now who address autoAuthorize :: past => by
    simp only [stored, apply, onHello]
    split
    · exact length_load_save
    · exact length_load_save
  | .setStatus id status :: past => by
    simp only [stored, apply, setStatus]
    split
    · exact length_load_save
    · exact length_load_stored past
  | .remove id :: past => length_load_save

/-- A list of at most 64 is stored whole. -/
theorem statusOf_save (hblank : ∀ r ∈ records, Kotlin.isBlank r.id = false) :
    statusOf J (save records) i = statusIn (records.take maxRecords) i := by
  refine statusIn_congr ?_
  have hentries := entries_save (J := J) hblank
  rwa [entries, ← List.map_take] at hentries

theorem length_load_save_of_length (hblank : ∀ r ∈ records, Kotlin.isBlank r.id = false)
    (hlen : records.length ≤ maxRecords) : (load J (save records)).length = records.length := by
  have hentries := congrArg List.length (entries_save (J := J) hblank)
  rwa [entries, List.length_map, List.length_take, List.length_map, Nat.min_eq_right hlen] at hentries

theorem statusOf_save_of_length (hblank : ∀ r ∈ records, Kotlin.isBlank r.id = false)
    (hlen : records.length ≤ maxRecords) : statusOf J (save records) i = statusIn records i := by
  rw [statusOf_save hblank, List.take_of_length_le hlen]

/-- No record without an id is listed. -/
theorem statusOf_of_isBlank (h : Kotlin.isBlank id = true) : statusOf J prefs id = none := by
  rw [statusOf, statusIn, Option.map_eq_none_iff, List.find?_eq_none]
  intro r hr hid
  have hid : r.id = id := by simpa using hid
  have hblank := not_isBlank_of_mem_load hr
  rw [hid, h] at hblank
  cases hblank

/-! ## One operation -/

/-- A record is changed in a list of at most 64, and the rest stays. -/
theorem statusOf_replaced (hlen : (load J prefs).length ≤ maxRecords) (hf : ∀ x, x.id = id → (f x).id = id) :
    statusOf J (save (replaceFirst id f (load J prefs))) i =
      if i = id then ((load J prefs).find? (·.id = id)).map fun x => (f x).status else statusOf J prefs i := by
  have hids : (replaceFirst id f (load J prefs)).map (·.id) = (load J prefs).map (·.id) := ids_replaceFirst hf
  rw [statusOf_save_of_length ?_ ?_, statusIn_replaceFirst hf, statusOf]
  · intro r hr
    have hid : r.id ∈ (load J prefs).map (·.id) := hids ▸ List.mem_map_of_mem hr
    obtain ⟨x, hx, hxid⟩ := List.mem_map.mp hid
    rw [← hxid]
    exact not_isBlank_of_mem_load hx
  · have hsame := congrArg List.length hids
    rw [List.length_map, List.length_map] at hsame
    rwa [hsame]

/-- A hello of someone who is listed changes no status. -/
theorem onHello_listed {who : Introduction} {status : LanClientStatus} (hlen : (load J prefs).length ≤ maxRecords)
    (hlisted : statusOf J prefs who.id = some status) (now : Int) (address : List Char) (autoAuthorize : Bool) :
    (onHello J now who address autoAuthorize prefs).1.status = status ∧
      ∀ i, statusOf J (onHello J now who address autoAuthorize prefs).2 i = statusOf J prefs i := by
  obtain ⟨existing, hfind, hstatus⟩ := Option.map_eq_some_iff.mp hlisted
  simp only [onHello, hfind]
  refine ⟨hstatus, fun i => (statusOf_replaced hlen ?_).trans ?_⟩
  · exact fun _ _ => rfl
  split
  · next hi => rw [hi, hfind, hlisted, Option.map_some, hstatus]
  · rfl

/-- One who is not listed is added with the status of the answer, if there is room. -/
theorem onHello_added {who : Introduction} (hblank : Kotlin.isBlank who.id = false)
    (hlen : (load J prefs).length < maxRecords) (hnew : statusOf J prefs who.id = none) (now : Int) (address : List Char)
    (autoAuthorize : Bool) :
    (onHello J now who address autoAuthorize prefs).1.status = (if autoAuthorize then .authorized else .pending) ∧
      (∀ i, statusOf J (onHello J now who address autoAuthorize prefs).2 i =
        if i = who.id then some (if autoAuthorize then .authorized else .pending) else statusOf J prefs i) ∧
      (load J (onHello J now who address autoAuthorize prefs).2).length = (load J prefs).length + 1 := by
  have hfind := Option.map_eq_none_iff.mp hnew
  have hblanks : ∀ (u : LanClientRecord), u.id = who.id → ∀ r ∈ load J prefs ++ [u], Kotlin.isBlank r.id = false := by
    intro u hu r hr
    rcases List.mem_append.mp hr with hr | hr
    · exact not_isBlank_of_mem_load hr
    · rw [List.mem_singleton.mp hr, hu]
      exact hblank
  have hshort : ∀ (u : LanClientRecord), (load J prefs ++ [u]).length ≤ maxRecords := fun u => by
    rw [List.length_append]
    exact hlen
  simp only [onHello, hfind]
  refine ⟨trivial, fun i => ?_, ?_⟩
  · rw [statusOf_save_of_length (hblanks _ rfl) (hshort _), statusIn, List.find?_append]
    by_cases hi : i = who.id
    · rw [if_pos hi, hi, hfind, Option.none_or]
      simp
    · rw [if_neg hi, statusOf, statusIn]
      simp [Ne.symm hi]
  · rw [length_load_save_of_length (hblanks _ rfl) (hshort _), List.length_append]
    rfl

/-- One who finds 64 others is cut off again. -/
theorem onHello_cut {who : Introduction} (hblank : Kotlin.isBlank who.id = false)
    (hlen : (load J prefs).length = maxRecords) (hnew : statusOf J prefs who.id = none) (now : Int) (address : List Char)
    (autoAuthorize : Bool) : statusOf J (onHello J now who address autoAuthorize prefs).2 who.id = none := by
  have hfind := Option.map_eq_none_iff.mp hnew
  simp only [onHello, hfind]
  rw [statusOf_save ?_, List.take_append_of_le_length hlen.ge, List.take_of_length_le hlen.le]
  · exact hnew
  · intro r hr
    rcases List.mem_append.mp hr with hr | hr
    · exact not_isBlank_of_mem_load hr
    · rw [List.mem_singleton.mp hr]
      exact hblank

theorem statusOf_setStatus (hlen : (load J prefs).length ≤ maxRecords) (status : LanClientStatus) :
    statusOf J (setStatus J id status prefs) i =
      if i = id then (statusOf J prefs id).map fun _ => status else statusOf J prefs i := by
  unfold setStatus
  dsimp only
  split
  · refine (statusOf_replaced hlen ?_).trans ?_
    · exact fun _ hx => hx
    simp only [statusOf, statusIn, Option.map_map]
    rfl
  · next hnone =>
    have hfind : (load J prefs).find? (·.id = id) = none := by
      rw [List.find?_eq_none]
      exact fun r hr hid => hnone (List.any_eq_true.mpr ⟨r, hr, hid⟩)
    split
    · next hi => rw [hi, statusOf, statusIn, hfind, Option.map_none, Option.map_none]
    · rfl

theorem statusOf_remove (hlen : (load J prefs).length ≤ maxRecords) :
    statusOf J (remove J id prefs) i = if i = id then none else statusOf J prefs i := by
  rw [remove, statusOf_save_of_length ?_ ((List.length_filter_le _ _).trans hlen), statusIn_filter]
  · rfl
  · exact fun r hr => not_isBlank_of_mem_load (List.mem_of_mem_filter hr)

/-! ## Histories -/

/-- Where every hello found room, the list holds the decisions. -/
theorem statusOf_stored : ∀ {ops}, AllFindRoom J ops → ∀ i, statusOf J (stored J ops) i = decision ops i
  | [], _, i => rfl
  | .onHello now who address autoAuthorize :: past, ⟨hpast, hblank, hroom⟩, i => by
    have hlen := length_load_stored (J := J) past
    have ih := statusOf_stored hpast
    simp only [stored, apply, decision]
    cases hlisted : statusOf J (stored J past) who.id with
    | some status =>
      rw [(onHello_listed hlen hlisted now address autoAuthorize).2, ih]
      rw [ih] at hlisted
      split
      · next hi => rw [hi, hlisted]
      · rfl
    | none =>
      rw [hlisted] at hroom
      have hshort := hroom.resolve_left (by decide)
      rw [(onHello_added hblank hshort hlisted now address autoAuthorize).2.1, ih]
      rw [ih] at hlisted
      split
      · next hi => rw [hi, hlisted]
      · rfl
  | .setStatus id status :: past, ⟨hpast, _⟩, i => by
    have ih := statusOf_stored hpast
    rw [stored, apply, statusOf_setStatus (length_load_stored past), ih, ih, decision]
    split
    · next hi => rw [hi]
    · rfl
  | .remove id :: past, ⟨hpast, _⟩, i => by
    rw [stored, apply, statusOf_remove (length_load_stored past), statusOf_stored hpast, decision]

theorem keptAfter_of_findsRoom (hpast : AllFindRoom J past) (h : FindsRoom J past op) : KeptAfter J past op := by
  have hdecided : ∀ i, statusOf J (stored J (op :: past)) i = decision (op :: past) i := statusOf_stored ⟨hpast, h⟩
  have hlen := length_load_stored (J := J) past
  refine ⟨?_, ?_, hdecided⟩
  · rintro now who address autoAuthorize rfl
    obtain ⟨hblank, hroom⟩ := h
    simp only [stored, apply]
    cases hlisted : statusOf J (stored J past) who.id with
    | some status =>
      obtain ⟨hanswer, hsame⟩ := onHello_listed hlen hlisted now address autoAuthorize
      rw [hsame, hlisted, hanswer]
    | none =>
      rw [hlisted] at hroom
      obtain ⟨hanswer, hadded, -⟩ := onHello_added hblank (hroom.resolve_left (by decide)) hlisted now address autoAuthorize
      rw [hadded, if_pos rfl, hanswer]
  · rintro now who address autoAuthorize rfl id status hstatus
    rw [statusOf_stored hpast] at hstatus
    rw [hdecided, decision]
    split
    · next hid => rw [hstatus]
    · exact hstatus

/-- **Every decision is kept exactly if every hello finds room.** -/
theorem kept_iff (J : OrgJson) : ∀ ops, Kept J ops ↔ AllFindRoom J ops
  | [] => Iff.rfl
  | op :: past => by
    rw [Kept, AllFindRoom, kept_iff J past]
    refine and_congr_right fun hpast => ⟨fun hkept => ?_, keptAfter_of_findsRoom hpast⟩
    cases op with
    | setStatus | remove => trivial
    | onHello now who address autoAuthorize =>
      have hanswered := hkept.answered now who address autoAuthorize rfl
      have hblank : Kotlin.isBlank who.id = false := by
        by_contra hb
        rw [statusOf_of_isBlank (Bool.eq_true_of_not_eq_false hb)] at hanswered
        cases hanswered
      refine ⟨hblank, ?_⟩
      by_contra hfull
      rw [not_or, Bool.not_eq_true, Option.isSome_eq_false_iff, Option.isNone_iff_eq_none, Nat.not_lt] at hfull
      have hlen := Nat.le_antisymm (length_load_stored past) hfull.2
      rw [stored, apply, onHello_cut hblank hlen hfull.1] at hanswered
      cases hanswered

/-! ## The 65th computer -/

def hexDigits : List Char := ['0', '1', '2', '3', '4', '5', '6', '7', '8', '9', 'a', 'b', 'c', 'd', 'e', 'f']

def hexDigit (n : Nat) : Char := hexDigits.getD n '0'

/-- A computer whose id ends in a number. -/
def computer (n : Nat) : Introduction where
  id := List.replicate 14 '0' ++ [hexDigit (n / 16), hexDigit (n % 16)]
  name := []
  os := []

/-- The first computers say hello one after another. -/
def hellos (autoAuthorize : Bool) : Nat → List RegistryOp
  | 0 => []
  | n + 1 => .onHello 0 (computer n) [] autoAuthorize :: hellos autoAuthorize n

@[simp] theorem length_hellos (autoAuthorize : Bool) : ∀ n, (hellos autoAuthorize n).length = n
  | 0 => rfl
  | n + 1 => congrArg (· + 1) (length_hellos autoAuthorize n)

theorem computer_inj {m n : Nat} (hm : m < 256) (hn : n < 256) (h : (computer m).id = (computer n).id) : m = n := by
  have hdigit : ∀ a < 16, ∀ b < 16, hexDigit a = hexDigit b → a = b := by decide
  have hend := List.append_cancel_left h
  rw [List.cons.injEq, List.cons.injEq] at hend
  have hhigh := hdigit _ (by omega) _ (by omega) hend.1
  have hlow := hdigit _ (by omega) _ (by omega) hend.2.1
  omega

theorem decision_hellos (autoAuthorize : Bool) {n : Nat} : ∀ {k : Nat}, k ≤ n → n < 256 →
    decision (hellos autoAuthorize k) (computer n).id = none
  | 0, _, _ => rfl
  | k + 1, hk, hn => by
    have hne : (computer n).id ≠ (computer k).id := fun heq => by
      have hnk := computer_inj hn (by omega) heq
      omega
    rw [hellos, decision, if_neg hne, decision_hellos autoAuthorize (by omega) hn]

/-- The first 64 find room, and fill the list. -/
theorem hellos_findRoom (J : OrgJson) (autoAuthorize : Bool) : ∀ {n}, n ≤ maxRecords →
    AllFindRoom J (hellos autoAuthorize n) ∧ (load J (stored J (hellos autoAuthorize n))).length = n
  | 0, _ => ⟨trivial, rfl⟩
  | n + 1, hn => by
    obtain ⟨hroom, hlen⟩ := hellos_findRoom J autoAuthorize (Nat.le_of_lt hn)
    have hblank : Kotlin.isBlank (computer n).id = false := rfl
    have hnew : statusOf J (stored J (hellos autoAuthorize n)) (computer n).id = none := by
      rw [statusOf_stored hroom]
      exact decision_hellos autoAuthorize le_rfl (lt_of_lt_of_le hn (by decide))
    have hshort := hlen.trans_lt hn
    refine ⟨⟨hroom, hblank, .inr hshort⟩, ?_⟩
    rw [hellos, stored, apply, (onHello_added hblank hshort hnew 0 [] autoAuthorize).2.2, hlen]

/-- One who finds 64 others is let in where the user asked for that, and is not in the list. -/
theorem not_kept_of_full {who : Introduction} (hblank : Kotlin.isBlank who.id = false)
    (hlen : (load J (stored J past)).length = maxRecords) (hnew : statusOf J (stored J past) who.id = none) :
    (onHello J 0 who [] true (stored J past)).1.status = .authorized ∧
      statusOf J (stored J (.onHello 0 who [] true :: past)) who.id = none ∧
      ¬ Kept J (.onHello 0 who [] true :: past) := by
  have hcut : statusOf J (stored J (.onHello 0 who [] true :: past)) who.id = none :=
    onHello_cut hblank hlen hnew 0 [] true
  refine ⟨?_, hcut, fun h => ?_⟩
  · simp only [onHello, Option.map_eq_none_iff.mp hnew]
    rfl
  · have hlisted := h.2.answered 0 who [] true rfl
    rw [hcut] at hlisted
    cases hlisted

theorem exists_cut : ∃ J past who, past.length = 64 ∧
    (onHello J 0 who [] true (stored J past)).1.status = .authorized ∧
    statusOf J (stored J (.onHello 0 who [] true :: past)) who.id = none ∧
    ¬ Kept J (.onHello 0 who [] true :: past) := by
  obtain ⟨hroom, hlen⟩ := hellos_findRoom (.readerOf LanServer.namelessHello) true le_rfl
  have hnew := (statusOf_stored hroom _).trans (decision_hellos (n := maxRecords) true le_rfl (by decide))
  exact ⟨_, _, _, length_hellos true maxRecords, not_kept_of_full rfl hlen hnew⟩

end LanClientRegistry

end AbkFido
