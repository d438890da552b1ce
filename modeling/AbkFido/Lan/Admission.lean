/-
Which computers reach the key over the LAN.

The registry's list follows the user's decisions (`Reflects`): a record in it
is authorized only if the latest decision about its id was to authorize it.
So a session goes on past its first frame only if that is the latest decision
then, and writes a request's packets only if it was the active session when
it took the lock for the request (`admitted_of_runs`).

A first frame without an id of its own is looked up under the address it came
from, and no id is spelled like one.
-/
import AbkFido.Lan.Server

namespace AbkFido

open JsonObject LanClientRegistry

/-! ## Ids -/

theorem Kotlin.isWhitespace_of_hex {c : Char} (h : isHexDigit c = true) : Kotlin.isWhitespace c = false := by
  have hrange : 48 ≤ c.toNat ∧ c.toNat ≤ 57 ∨ 97 ≤ c.toNat ∧ c.toNat ≤ 102 := by
    simpa [isHexDigit, Char.le_def, UInt32.le_iff_toNat_le] using h
  simp only [Kotlin.isWhitespace, Bool.or_eq_false_iff, Bool.and_eq_false_iff, decide_eq_false_iff_not, beq_eq_false_iff_ne]
  omega

theorem sanitizeId_eq_some {value id : List Char} (h : sanitizeId value = some id) :
    16 ≤ id.length ∧ ∀ c ∈ id, isHexDigit c = true := by
  simp only [sanitizeId] at h
  split at h
  · next hform =>
    cases h
    simp only [Bool.and_eq_true, decide_eq_true_eq, List.all_eq_true] at hform
    exact ⟨hform.1.1, hform.2⟩
  · cases h

/-- The id a first frame carries: a hello's, if that is one. -/
def helloId (J : OrgJson) (frame : List UInt8) : Option (List Char) :=
  if frame.length = lanReportLen then none
  else (J.parse (Utf8.decode frame)).bind fun json =>
    if optString J json "t" = "hello".toList then sanitizeId (optString J json "id") else none

theorem identify_id (J : OrgJson) (frame : List UInt8) (address : List Char) :
    (identify J frame address).id = (helloId J frame).getD (addressIdPrefix ++ address) := by
  unfold identify helloId identifyFromHello
  split
  · rfl
  cases J.parse (Utf8.decode frame) with
  | none => rfl
  | some json =>
    simp only [Option.bind_some, ne_eq, ite_not]
    split
    · cases sanitizeId (optString J json "id") <;> rfl
    · rfl

theorem sanitizeId_of_helloId {J : OrgJson} {frame : List UInt8} {id : List Char} (h : helloId J frame = some id) :
    ∃ value, sanitizeId value = some id := by
  unfold helloId at h
  split at h
  · cases h
  obtain ⟨json, -, h⟩ := Option.bind_eq_some_iff.mp h
  split at h
  · exact ⟨_, h⟩
  · cases h

theorem not_isBlank_identify (J : OrgJson) (frame : List UInt8) (address : List Char) :
    Kotlin.isBlank (identify J frame address).id = false := by
  rw [identify_id]
  cases hid : helloId J frame with
  | none => rfl
  | some id =>
    obtain ⟨value, hvalue⟩ := sanitizeId_of_helloId hid
    obtain ⟨hlen, hhex⟩ := sanitizeId_eq_some hvalue
    obtain ⟨c, rest, rfl⟩ := List.exists_cons_of_length_pos (show 0 < id.length by omega)
    rw [Option.getD_some, Kotlin.isBlank, List.all_cons, Kotlin.isWhitespace_of_hex (hhex c (.head _)), Bool.false_and]

/-- An id of its own is never one of an address. -/
theorem not_address_of_helloId {J : OrgJson} {frame : List UInt8} {id : List Char} (h : helloId J frame = some id) :
    ¬ addressIdPrefix <+: id := by
  intro hbegins
  obtain ⟨value, hvalue⟩ := sanitizeId_of_helloId h
  have hr := (sanitizeId_eq_some hvalue).2 'r' (hbegins.subset (by decide))
  exact absurd hr (by decide)

/-! ## The list -/

def LanClientRecord.entry (r : LanClientRecord) : List Char × LanClientStatus := (r.id, r.status)

namespace LanClientRegistry

variable {J : OrgJson} {prefs : Prefs} {records : List LanClientRecord} {id : List Char}
  {f : LanClientRecord → LanClientRecord} {latest : List Char → Option LanClientStatus}

/-- Who is in the list, and as what. -/
def entries (J : OrgJson) (prefs : Prefs) : List (List Char × LanClientStatus) := (load J prefs).map LanClientRecord.entry

theorem parse_name (s : LanClientStatus) : LanClientStatus.parse s.name = s := by
  cases s <;> decide +kernel

theorem fromJson_toJson {r : LanClientRecord} (h : Kotlin.isBlank r.id = false) :
    (fromJson J (toJson r)).map LanClientRecord.entry = some r.entry := by
  simp [fromJson, toJson, optString, opt_put_self, opt_put_of_ne, h, parse_name, LanClientRecord.entry]

theorem not_isBlank_of_mem_load {r : LanClientRecord} (h : r ∈ load J prefs) : Kotlin.isBlank r.id = false := by
  obtain ⟨entry, -, hentry⟩ := List.mem_filterMap.mp h
  simp only [fromJson] at hentry
  split at hentry
  · cases hentry
  · next hblank =>
    cases hentry
    simpa using hblank

/-- What is saved is read back, up to the 64th record. -/
theorem entries_save (h : ∀ r ∈ records, Kotlin.isBlank r.id = false) :
    entries J (save records) = (records.map LanClientRecord.entry).take maxRecords := by
  have hread : ∀ {rs : List LanClientRecord}, (∀ r ∈ rs, Kotlin.isBlank r.id = false) →
      ((rs.map toJson).filterMap (fromJson J)).map LanClientRecord.entry = rs.map LanClientRecord.entry := by
    intro rs hrs
    rw [List.filterMap_map, List.map_filterMap, ← List.filterMap_eq_map]
    refine List.filterMap_congr fun r hr => ?_
    rw [Function.comp_apply, fromJson_toJson (hrs r hr), Function.comp_apply]
  have hobjects : ∀ rs : List LanClientRecord,
      (rs.map fun r => JsonValue.object (toJson r)).filterMap JsonValue.object? = rs.map toJson := by
    intro rs
    rw [List.filterMap_map, ← List.filterMap_eq_map]
    rfl
  rw [entries, save, load, Option.getD_some, hobjects, hread fun r hr => h r (List.mem_of_mem_take hr), List.map_take]

theorem replaceFirst_cons (r : LanClientRecord) : replaceFirst id f (r :: records) =
    if r.id = id then f r :: records else r :: replaceFirst id f records := by
  unfold replaceFirst
  rw [List.findIdx?_cons]
  by_cases hid : r.id = id
  · simp [hid]
  · simp only [hid, decide_false, if_false, Bool.false_eq_true]
    cases records.findIdx? (·.id = id) with
    | none => rfl
    | some index => rfl

theorem ids_replaceFirst (hf : ∀ x, x.id = id → (f x).id = id) :
    (replaceFirst id f records).map (·.id) = records.map (·.id) := by
  induction records with
  | nil => rfl
  | cons r records ih =>
    rw [replaceFirst_cons]
    split
    · next hid => rw [List.map_cons, List.map_cons, hf r hid, hid]
    · rw [List.map_cons, List.map_cons, ih]

/-- The others stay, and the record of that id becomes the new one. -/
theorem mem_replaceFirst (hunique : (records.map (·.id)).Nodup) {r : LanClientRecord}
    (hr : r ∈ replaceFirst id f records) : (r ∈ records ∧ r.id ≠ id) ∨ ∃ x ∈ records, x.id = id ∧ r = f x := by
  induction records with
  | nil => cases hr
  | cons x records ih =>
    rw [List.map_cons, List.nodup_cons] at hunique
    rw [replaceFirst_cons] at hr
    split at hr
    · next hid =>
      rcases List.mem_cons.mp hr with rfl | hr
      · exact .inr ⟨x, .head _, hid, rfl⟩
      · refine .inl ⟨.tail _ hr, fun heq => hunique.1 ?_⟩
        rw [hid, ← heq]
        exact List.mem_map_of_mem hr
    · next hid =>
      rcases List.mem_cons.mp hr with rfl | hr
      · exact .inl ⟨.head _, hid⟩
      · rcases ih hunique.2 hr with ⟨hmem, hne⟩ | ⟨y, hy, hyid, rfl⟩
        · exact .inl ⟨.tail _ hmem, hne⟩
        · exact .inr ⟨y, .tail _ hy, hyid, rfl⟩

/-- The list follows the latest decisions: each id is there once, and as
authorized only if it was authorized last. -/
structure Reflects (entries : List (List Char × LanClientStatus)) (latest : List Char → Option LanClientStatus) :
    Prop where
  unique : (entries.map Prod.fst).Nodup
  authorized : ∀ e ∈ entries, e.2 = .authorized → latest e.1 = some .authorized

theorem reflects_none : Reflects (entries J none) latest := ⟨List.nodup_nil, fun _ he => absurd he List.not_mem_nil⟩

/-- A list of records that is saved follows the decisions if the records do. -/
theorem reflects_save (hblank : ∀ r ∈ records, Kotlin.isBlank r.id = false) (hunique : (records.map (·.id)).Nodup)
    (hauthorized : ∀ r ∈ records, r.status = .authorized → latest r.id = some .authorized) :
    Reflects (entries J (save records)) latest := by
  rw [entries_save hblank]
  constructor
  · rw [List.map_take, List.map_map]
    exact hunique.sublist (List.take_sublist _ _)
  · intro e he hstatus
    obtain ⟨r, hr, rfl⟩ := List.mem_map.mp (List.mem_of_mem_take he)
    exact hauthorized r hr hstatus

theorem Reflects.ids (h : Reflects (entries J prefs) latest) : ((load J prefs).map (·.id)).Nodup := by
  have hunique := h.unique
  rwa [entries, List.map_map] at hunique

theorem Reflects.record (h : Reflects (entries J prefs) latest) {r : LanClientRecord} (hr : r ∈ load J prefs)
    (hstatus : r.status = .authorized) : latest r.id = some .authorized :=
  h.authorized r.entry (List.mem_map_of_mem hr) hstatus

/-- A computer that says hello is authorized only if it was. -/
theorem Reflects.onHello (h : Reflects (entries J prefs) latest) {who : Introduction}
    (hid : Kotlin.isBlank who.id = false) (now : Int) (address : List Char) :
    Reflects (entries J (onHello J now who address false prefs).2) latest ∧
      ((onHello J now who address false prefs).1.status = .authorized → latest who.id = some .authorized) := by
  unfold LanClientRegistry.onHello
  dsimp only
  split
  · next existing hfind =>
    have hmem : existing ∈ load J prefs := List.mem_of_find?_eq_some hfind
    have hexisting : existing.id = who.id := by simpa using List.find?_some hfind
    have hstatus : existing.status = .authorized → latest who.id = some .authorized := fun hs => hexisting ▸ h.record hmem hs
    refine ⟨reflects_save ?_ ?_ ?_, hstatus⟩
    · intro r hr
      rcases mem_replaceFirst h.ids hr with ⟨hr, -⟩ | ⟨x, -, -, rfl⟩
      · exact not_isBlank_of_mem_load hr
      · exact hid
    · rw [ids_replaceFirst]
      · exact h.ids
      · exact fun _ _ => rfl
    · intro r hr hs
      rcases mem_replaceFirst h.ids hr with ⟨hr, -⟩ | ⟨x, -, -, rfl⟩
      · exact h.record hr hs
      · exact hstatus hs
  · next hfind =>
    have hnew : ∀ r ∈ load J prefs, r.id ≠ who.id := fun r hr heq =>
      List.find?_eq_none.mp hfind r hr (decide_eq_true heq)
    refine ⟨reflects_save ?_ ?_ ?_, fun hs => by simp at hs⟩
    · intro r hr
      rcases List.mem_append.mp hr with hr | hr
      · exact not_isBlank_of_mem_load hr
      · rw [List.mem_singleton.mp hr]
        exact hid
    · rw [List.map_append, List.nodup_append]
      refine ⟨h.ids, List.nodup_singleton _, ?_⟩
      intro a ha b hb
      obtain ⟨r, hr, rfl⟩ := List.mem_map.mp ha
      rw [List.mem_singleton.mp hb]
      exact hnew r hr
    · intro r hr hs
      rcases List.mem_append.mp hr with hr | hr
      · exact h.record hr hs
      · rw [List.mem_singleton.mp hr] at hs
        simp at hs

theorem Reflects.setStatus (h : Reflects (entries J prefs) latest) (id : List Char) (status : LanClientStatus) :
    Reflects (entries J (setStatus J id status prefs)) fun i => if i = id then some status else latest i := by
  unfold LanClientRegistry.setStatus
  dsimp only
  split
  · refine reflects_save ?_ ?_ ?_
    · intro r hr
      rcases mem_replaceFirst h.ids hr with ⟨hr, -⟩ | ⟨x, hx, -, rfl⟩
      · exact not_isBlank_of_mem_load hr
      · exact not_isBlank_of_mem_load (r := x) hx
    · rw [ids_replaceFirst]
      · exact h.ids
      · exact fun _ hx => hx
    · intro r hr hs
      rcases mem_replaceFirst h.ids hr with ⟨hr, hne⟩ | ⟨x, -, hx, rfl⟩
      · rw [if_neg hne]
        exact h.record hr hs
      · rw [if_pos hx]
        exact congrArg some hs
  · next hnone =>
    refine ⟨h.unique, fun e he hs => ?_⟩
    have hne : e.1 ≠ id := by
      rintro rfl
      obtain ⟨r, hr, rfl⟩ := List.mem_map.mp he
      exact hnone (List.any_eq_true.mpr ⟨r, hr, decide_eq_true rfl⟩)
    rw [if_neg hne]
    exact h.authorized e he hs

theorem Reflects.remove (h : Reflects (entries J prefs) latest) (id : List Char) :
    Reflects (entries J (remove J id prefs)) fun i => if i = id then none else latest i := by
  have hrest : ∀ r ∈ (load J prefs).filter (·.id ≠ id), r ∈ load J prefs ∧ r.id ≠ id := fun r hr => by
    simpa using List.mem_filter.mp hr
  refine reflects_save (fun r hr => not_isBlank_of_mem_load (hrest r hr).1) ?_ ?_
  · exact h.ids.sublist (List.filter_sublist.map _)
  · intro r hr hs
    obtain ⟨hmem, hne⟩ := hrest r hr
    rw [if_neg hne]
    exact h.record hmem hs

end LanClientRegistry

/-! ## Sessions -/

/-- The user's latest decision about an id; the log has its newest entry first. -/
def latestDecision : List LanEvent → List Char → Option LanClientStatus
  | [], _ => none
  | .decided id status :: past, i => if i = id then some status else latestDecision past i
  | .removed id :: past, i => if i = id then none else latestDecision past i
  | _ :: past, i => latestDecision past i

/-- When the session's first frame was looked up, its id had been authorized. -/
def Authorized (J : OrgJson) (i : Nat) : List LanEvent → Prop :=
  Past.Since
    (fun e past => ∃ frame address, e = .greeted i frame address ∧
      latestDecision past (identify J frame address).id = some .authorized)
    fun e => ∀ frame address, e ≠ .greeted i frame address

/-- The last request that took the lock is the session's, and the session was the active one. -/
def BegunAs (i : Nat) : List LanEvent → Prop :=
  Past.Since (fun e _ => e = .began i (some i)) fun e => ∀ j active, e ≠ .began j active

/-- A packet is written in a session that was authorized, for a request with
which it was the active one. -/
def Admitted (J : OrgJson) : LanEvent → List LanEvent → Prop
  | .wrote i _ _, past => Authorized J i past ∧ BegunAs i past
  | _, _ => True

/-- The session's thread holds the transport lock. -/
def LanPhase.Locks : LanPhase → Prop
  | .writing _ _ => True
  | .relaying => True
  | _ => False

/-- What the log and the lock say about a session. -/
structure SessionOk (J : OrgJson) (log : List LanEvent) (lock : Option LockHolder) (i : Nat) (s : ServedSession) :
    Prop where
  authorized : s.phase ≠ .hello → Authorized J i log
  locks : s.phase.Locks → lock = some (.session i)
  begun : s.phase.Locks → BegunAs i log

section

variable {J : OrgJson} {i : Nat} {s : ServedSession} {log : List LanEvent} {lock : Option LockHolder}

theorem sessionOk_hello (h : s.phase = .hello) : SessionOk J log lock i s :=
  ⟨fun hne => absurd h hne, fun hl => by rw [h] at hl; exact hl.elim, fun hl => by rw [h] at hl; exact hl.elim⟩

theorem sessionOk_of_not_locks (h : Authorized J i log) (hs : ¬ s.phase.Locks) : SessionOk J log lock i s :=
  ⟨fun _ => h, fun hl => absurd hl hs, fun hl => absurd hl hs⟩

/-- What else happens does not concern it. -/
theorem SessionOk.note (h : SessionOk J log lock i s) {e : LanEvent}
    (hgreeted : ∀ frame address, e ≠ .greeted i frame address) (hbegan : ∀ j active, e ≠ .began j active) :
    SessionOk J (e :: log) lock i s :=
  ⟨fun hs => .inr ⟨hgreeted, h.authorized hs⟩, h.locks, fun hs => .inr ⟨hbegan, h.begun hs⟩⟩

end

namespace LanServer

variable {J : OrgJson} {c c' : LanServer} {i : Nat} {s : ServedSession}

/-- What holds of the server, one session apart. -/
structure Others (J : OrgJson) (i : Nat) (c : LanServer) : Prop where
  log : Past.Always (Admitted J) c.log
  list : Reflects (entries J c.prefs) (latestDecision c.log)
  sessions : ∀ j, j ≠ i → ∀ t, c.sessions j = some t → SessionOk J c.log c.lock j t

/-- What holds of the server whatever happens. -/
structure Sound (J : OrgJson) (c : LanServer) : Prop where
  log : Past.Always (Admitted J) c.log
  list : Reflects (entries J c.prefs) (latestDecision c.log)
  sessions : ∀ j t, c.sessions j = some t → SessionOk J c.log c.lock j t

theorem sound_init : init.Sound J where
  log := trivial
  list := reflects_none
  sessions _ _ h := by cases h

theorem Sound.others (h : c.Sound J) (i : Nat) : c.Others J i := ⟨h.log, h.list, fun j _ => h.sessions j⟩

theorem Others.setSession (h : c.Others J i) (hs : SessionOk J c.log c.lock i s) : (c.setSession i s).Sound J where
  log := h.log
  list := h.list
  sessions j t hj := by
    have hj : Function.update c.sessions i (some s) j = some t := hj
    by_cases hij : j = i
    · subst hij
      rw [Function.update_self, Option.some.injEq] at hj
      subst hj
      exact hs
    · rw [Function.update_of_ne hij] at hj
      exact h.sessions j hij t hj

/-- Only the session itself gives up its lock. -/
theorem Others.lock_of_ne (h : c.Others J i) (hij : j ≠ i) {t : ServedSession} (hj : c.sessions j = some t)
    (ht : t.phase.Locks) : c.lock ≠ some (.session i) ∧ c.lock ≠ none := by
  rw [(h.sessions j hij t hj).locks ht]
  exact ⟨fun heq => hij (LockHolder.session.inj (Option.some.inj heq)), Option.some_ne_none _⟩

theorem Others.endSession (h : c.Others J i) : (c.endSession i).Sound J where
  log := h.log
  list := h.list
  sessions j t hj := by
    have hj : Function.update c.sessions i none j = some t := hj
    by_cases hij : j = i
    · subst hij
      rw [Function.update_self] at hj
      cases hj
    · rw [Function.update_of_ne hij] at hj
      have hok := h.sessions j hij t hj
      refine ⟨hok.authorized, fun ht => ?_, hok.begun⟩
      exact (if_neg (h.lock_of_ne hij hj ht).1).trans (hok.locks ht)

theorem Others.unlock (h : c.Others J i) (hlock : c.lock = some (.session i)) : c.unlock.Others J i where
  log := h.log
  list := h.list
  sessions j hij t hj :=
    have hok := h.sessions j hij t hj
    ⟨hok.authorized, fun ht => absurd hlock (h.lock_of_ne hij hj ht).1, hok.begun⟩

/-- An entry about the session alone. -/
theorem Others.note (h : c.Others J i) {e : LanEvent} (he : Admitted J e c.log)
    (hlatest : latestDecision (e :: c.log) = latestDecision c.log)
    (hgreeted : ∀ j, j ≠ i → ∀ frame address, e ≠ .greeted j frame address) (hbegan : ∀ j active, e ≠ .began j active) :
    (c.note e).Others J i where
  log := ⟨he, h.log⟩
  list := by
    rw [LanServer.note, hlatest]
    exact h.list
  sessions j hij t hj := (h.sessions j hij t hj).note (hgreeted j hij) hbegan

/-! ## Steps -/

theorem Sound.greet (h : c.Sound J) (i : Nat) (s : ServedSession) (now : Int) (frame : List UInt8) :
    (c.greet J false i s now frame).Sound J := by
  have hhello := h.list.onHello (not_isBlank_identify J frame s.address) now s.address
  unfold LanServer.greet
  revert hhello
  cases onHello J now (identify J frame s.address) s.address false c.prefs with
  | mk client prefs =>
    rintro ⟨hlist, hclient⟩
    have hsaved : ({ c with prefs := prefs } : LanServer).Others J i := ⟨h.log, hlist, fun j _ => h.sessions j⟩
    have hothers : (LanServer.note (.greeted i frame s.address) { c with prefs := prefs }).Others J i :=
      hsaved.note trivial rfl (fun j hij frame address heq => hij (LanEvent.greeted.inj heq).1.symm)
        (fun j active => by simp)
    dsimp only
    split
    · next hstatus =>
      refine hothers.setSession (sessionOk_of_not_locks ?_ id)
      exact .inl ⟨frame, s.address, rfl, hclient hstatus⟩
    · exact hothers.endSession

theorem Sound.beginRequest (h : c.Sound J) (hs : Authorized J i c.log) (first : List UInt8) :
    (c.beginRequest i s first).Sound J := by
  unfold LanServer.beginRequest
  split
  · exact (h.others i).setSession (sessionOk_of_not_locks hs id)
  · exact (h.others i).endSession

theorem Sound.receive (h : c.Sound J) (hs : c.sessions i = some s) {now : Int} {frame : List UInt8}
    (hstep : c.receive J false i s now frame = some c') : c'.Sound J := by
  have hok := h.sessions i s hs
  unfold LanServer.receive at hstep
  split at hstep
  · split at hstep
    · cases hstep
      exact h.greet i s now frame
    · cases hstep
  · next hphase =>
    split at hstep
    · cases hstep
    split at hstep
    · cases hstep
      exact (h.others i).endSession
    · cases hstep
      exact h.beginRequest (hok.authorized (by rw [hphase]; exact LanPhase.noConfusion)) frame
  · next r hphase =>
    split at hstep
    · cases hstep
    · cases hstep
      split
      · exact (h.others i).setSession
          (sessionOk_of_not_locks (hok.authorized (by rw [hphase]; exact LanPhase.noConfusion)) id)
      · exact (h.others i).endSession
  · cases hstep

theorem Sound.enterLock (h : c.Sound J) (hs : Authorized J i c.log) (hlock : c.lock = none)
    (packets : List (List UInt8)) : (c.enterLock i s packets).Sound J := by
  unfold LanServer.enterLock
  split
  · next hactive =>
    have hothers : (LanServer.note (.began i c.active) { c with lock := some (.session i) }).Others J i := by
      refine ⟨⟨trivial, h.log⟩, h.list, fun j hij t hj => ?_⟩
      have hok := h.sessions j t hj
      have hfree : ¬ t.phase.Locks := fun ht => by
        have heq := hok.locks ht
        rw [hlock] at heq
        cases heq
      exact ⟨fun hne => .inr ⟨by simp, hok.authorized hne⟩, fun ht => absurd ht hfree, fun ht => absurd ht hfree⟩
    exact hothers.setSession ⟨fun _ => .inr ⟨by simp, hs⟩, fun _ => rfl, fun _ => .inl (by rw [hactive])⟩
  · exact (h.others i).endSession

theorem Sound.writePacket (h : c.Sound J) (hs : SessionOk J c.log c.lock i s) (hphase : s.phase.Locks)
    (hne : s.phase ≠ .hello) (cancel : Bool) (packet : List UInt8) (rest : List (List UInt8)) :
    (c.writePacket i s cancel packet rest).Sound J := by
  have hlock := hs.locks hphase
  have hothers : (c.note (.wrote i packet c.active)).Others J i :=
    (h.others i).note ⟨hs.authorized hne, hs.begun hphase⟩ rfl (by simp) (by simp)
  obtain ⟨hauthorized, -, hbegun⟩ := hs.note (e := .wrote i packet c.active) (by simp) (by simp)
  unfold LanServer.writePacket
  dsimp only
  split
  · exact hothers.setSession ⟨fun _ => hauthorized hne, fun _ => hlock, fun _ => hbegun hphase⟩
  split
  · exact (hothers.unlock hlock).setSession (sessionOk_of_not_locks (hauthorized hne) id)
  · exact hothers.setSession ⟨fun _ => hauthorized hne, fun _ => hlock, fun _ => hbegun hphase⟩

/-- The process is killed only when the last list has reached the file. -/
def Flushed (c : LanServer) : LanAction → Prop
  | .restart => c.disk = c.prefs
  | _ => True

theorem Sound.step (h : c.Sound J) {a : LanAction} (hok : c.Flushed a) (hstep : c.step J false a = some c') :
    c'.Sound J := by
  cases a with
  | start =>
    simp only [LanServer.step] at hstep
    split at hstep
    · cases hstep
    · cases hstep
      exact ⟨h.log, h.list, h.sessions⟩
  | stop =>
    cases hstep
    refine ⟨h.log, h.list, fun j t hj => ?_⟩
    obtain ⟨u, hu, rfl⟩ := Option.map_eq_some_iff.mp hj
    have hu := h.sessions j u hu
    exact ⟨hu.authorized, hu.locks, hu.begun⟩
  | restart =>
    cases hstep
    refine ⟨h.log, ?_, fun j t hj => by cases hj⟩
    rw [show c.disk = c.prefs from hok]
    exact h.list
  | flush =>
    cases hstep
    exact ⟨h.log, h.list, h.sessions⟩
  | setStatus id status =>
    cases hstep
    exact ⟨⟨trivial, h.log⟩, h.list.setStatus id status, fun j t hj => (h.sessions j t hj).note (by simp) (by simp)⟩
  | remove id =>
    cases hstep
    exact ⟨⟨trivial, h.log⟩, h.list.remove id, fun j t hj => (h.sessions j t hj).note (by simp) (by simp)⟩
  | connect address =>
    simp only [LanServer.step] at hstep
    split at hstep
    · cases hstep
      have hothers : ({ c with next := c.next + 1 } : LanServer).Others J c.next := ⟨h.log, h.list, fun j _ => h.sessions j⟩
      exact hothers.setSession (sessionOk_hello rfl)
    · cases hstep
  | receive i now frame =>
    obtain ⟨s, hs, hstep⟩ := Option.bind_eq_some_iff.mp hstep
    split at hstep
    · cases hstep
    · exact h.receive hs hstep
  | takePending i =>
    obtain ⟨s, hs, hstep⟩ := Option.bind_eq_some_iff.mp hstep
    split at hstep
    · next first hphase =>
      split at hstep
      · cases hstep
        exact h.beginRequest ((h.sessions i s hs).authorized (by rw [hphase]; exact LanPhase.noConfusion)) first
      · cases hstep
    · cases hstep
  | takeOver i =>
    obtain ⟨s, hs, hstep⟩ := Option.bind_eq_some_iff.mp hstep
    split at hstep
    · next r hphase =>
      split at hstep
      · cases hstep
      · cases hstep
        have hothers : ({ c with active := if s.authenticated then c.active else some i } : LanServer).Others J i :=
          ⟨h.log, h.list, fun j _ => h.sessions j⟩
        have hauthorized := (h.sessions i s hs).authorized (by rw [hphase]; exact LanPhase.noConfusion)
        exact hothers.setSession (sessionOk_of_not_locks hauthorized id)
    · cases hstep
  | close i =>
    simp only [LanServer.step] at hstep
    split at hstep
    · cases hstep
    · obtain ⟨s, hs, rfl⟩ := Option.map_eq_some_iff.mp hstep
      have hs := h.sessions i s hs
      exact (h.others i).setSession ⟨hs.authorized, hs.locks, hs.begun⟩
  | lock i =>
    obtain ⟨s, hs, hstep⟩ := Option.bind_eq_some_iff.mp hstep
    split at hstep
    · next packets hphase =>
      split at hstep
      · next hlock =>
        cases hstep
        exact h.enterLock ((h.sessions i s hs).authorized (by rw [hphase]; exact LanPhase.noConfusion)) hlock packets
      · cases hstep
    · cases hstep
  | write i =>
    obtain ⟨s, hs, hstep⟩ := Option.bind_eq_some_iff.mp hstep
    split at hstep
    · next cancel packet rest hphase =>
      cases hstep
      exact h.writePacket (h.sessions i s hs) (by rw [hphase]; trivial) (by rw [hphase]; exact LanPhase.noConfusion)
        cancel packet rest
    · cases hstep
  | answered i =>
    obtain ⟨s, hs, hstep⟩ := Option.bind_eq_some_iff.mp hstep
    split at hstep
    · next hphase =>
      cases hstep
      have hs := h.sessions i s hs
      have hlock := hs.locks (by rw [hphase]; trivial)
      exact ((h.others i).unlock hlock).setSession
        (sessionOk_of_not_locks (hs.authorized (by rw [hphase]; exact LanPhase.noConfusion)) id)
    · cases hstep
  | fail i =>
    obtain ⟨s, -, rfl⟩ := Option.map_eq_some_iff.mp hstep
    exact (h.others i).endSession
  | providerLock =>
    simp only [LanServer.step] at hstep
    split at hstep
    · next hlock =>
      cases hstep
      refine ⟨h.log, h.list, fun j t hj => ?_⟩
      have hok := h.sessions j t hj
      refine ⟨hok.authorized, fun ht => ?_, hok.begun⟩
      rw [hlock] at hok
      cases hok.locks ht
    · cases hstep
  | providerUnlock =>
    simp only [LanServer.step] at hstep
    split at hstep
    · next hlock =>
      cases hstep
      refine ⟨h.log, h.list, fun j t hj => ?_⟩
      have hok := h.sessions j t hj
      refine ⟨hok.authorized, fun ht => ?_, hok.begun⟩
      rw [hlock] at hok
      cases hok.locks ht
    · cases hstep

/-- **Only computers the user authorized write to the key.** In every run in
which the process is killed only when the list has reached its file, with
new computers not authorized by themselves: when a packet is written, the
latest decision about the session's id had been to authorize it when its
first frame came, and the session was the active one when it took the lock
for the request. A first frame without an id of its own is looked up under
its address, and no hello's id begins like one of those. -/
theorem admitted_of_runs (J : OrgJson) {as : List LanAction} (h : Runs (LanServer.step J false) Flushed init as c) :
    Past.Always (Admitted J) c.log ∧
      (∀ frame address, helloId J frame = none → (identify J frame address).id = addressIdPrefix ++ address) ∧
      ∀ frame address id, helloId J frame = some id → (identify J frame address).id = id ∧ ¬ addressIdPrefix <+: id := by
  have hsound : c.Sound J := h.invariant (fun _ _ _ hc hok hstep => hc.step hok hstep) sound_init
  refine ⟨hsound.log, fun frame address hid => ?_, fun frame address id hid => ⟨?_, not_address_of_helloId hid⟩⟩
  · rw [identify_id, hid, Option.getD_none]
  · rw [identify_id, hid, Option.getD_some]

/-! ## Three runs -/

/-- A hello with an id that is not one. -/
def namelessHello : JsonObject := [("t", .string "hello".toList), ("id", .string "x".toList)]

def helloFrame : List UInt8 := Utf8.encode (OrgJson.compact (.object namelessHello))

/-- CTAPHID_INIT, on the broadcast channel. -/
def initReport : List UInt8 := [0xff, 0xff, 0xff, 0xff, 0x86, 0, 8] ++ List.replicate 57 0

def sampleAddress : List Char := "10.0.0.9".toList

/-- An older client is authorized by its address. -/
def addressDecided : List LanAction :=
  [.start, .connect (some sampleAddress), .receive 0 1 initReport, .setStatus (addressIdPrefix ++ sampleAddress) .authorized]

/-- A session that says hello and sends a request. -/
def requestFrom (i : Nat) : List LanAction :=
  [.connect (some sampleAddress), .receive i 2 helloFrame, .receive i 3 initReport, .takeOver i]

def addressRun : List LanAction := addressDecided ++ requestFrom 1 ++ [.lock 1, .write 1]

/-- The second session takes over while the first has the lock. -/
def takeOverRun : List LanAction := addressDecided ++ requestFrom 1 ++ [.lock 1] ++ requestFrom 2 ++ [.write 1]

/-- The process is killed before the list without the client reaches its file. -/
def lostRun : List LanAction :=
  addressDecided ++ [.flush, .setStatus (addressIdPrefix ++ sampleAddress) .blocked, .restart, .start] ++
    requestFrom 1 ++ [.lock 1, .write 1]

/-- The events of an authorized request. -/
def addressLog : List LanEvent :=
  [.wrote 1 initReport (some 1), .began 1 (some 1), .greeted 1 helloFrame sampleAddress,
    .decided (addressIdPrefix ++ sampleAddress) .authorized, .greeted 0 initReport sampleAddress]

abbrev sampleJson : OrgJson := OrgJson.readerOf namelessHello

def keepsAlive : LanAction → Bool
  | .restart => false
  | _ => true

theorem flushed_of_keepsAlive (c : LanServer) {a : LanAction} (h : keepsAlive a = true) : c.Flushed a := by
  cases a with
  | restart => cases h
  | _ => trivial

theorem runs_addressRun : ∃ c, Runs (LanServer.step sampleJson false) Flushed init addressRun c ∧ c.log = addressLog := by
  have hrun : (Runs.exec (LanServer.step sampleJson false) (fun _ => keepsAlive) init addressRun).map LanServer.log =
      some addressLog := by decide +kernel
  obtain ⟨c, hexec, hlog⟩ := Option.map_eq_some_iff.mp hrun
  exact ⟨c, Runs.of_exec (fun c _ => flushed_of_keepsAlive c) hexec, hlog⟩

theorem addressRun_admitted : ∃ c : LanServer, c.log = addressLog ∧ Past.Always (Admitted sampleJson) c.log ∧
    (identify sampleJson helloFrame sampleAddress).id = addressIdPrefix ++ sampleAddress := by
  obtain ⟨c, hruns, hlog⟩ := runs_addressRun
  obtain ⟨hadmitted, hunnamed, -⟩ := admitted_of_runs sampleJson hruns
  exact ⟨c, hlog, hadmitted, hunnamed helloFrame sampleAddress (by decide +kernel)⟩

/-- A hello resolves to the client of its address; a session writes while
another is the active one; and one that was blocked is authorized again after
a restart that lost the decision. -/
theorem exists_unauthorized :
    (identify sampleJson helloFrame sampleAddress).id = addressIdPrefix ++ sampleAddress ∧
      (∃ c, Runs (LanServer.step sampleJson false) Flushed init addressRun c ∧ c.log = addressLog) ∧
      (∃ c, Runs (LanServer.step sampleJson false) Flushed init takeOverRun c ∧
        c.log.head? = some (.wrote 1 initReport (some 2))) ∧
      ∃ c past, Runs (LanServer.step sampleJson false) (fun _ _ => True) init lostRun c ∧
        c.log = .wrote 1 initReport (some 1) :: .began 1 (some 1) :: .greeted 1 helloFrame sampleAddress :: past ∧
        latestDecision past (addressIdPrefix ++ sampleAddress) = some .blocked := by
  have htakeOver : (Runs.exec (LanServer.step sampleJson false) (fun _ => keepsAlive) init takeOverRun).map
      (fun c => c.log.head?) = some (some (.wrote 1 initReport (some 2))) := by decide +kernel
  have hlost : (Runs.exec (LanServer.step sampleJson false) (fun _ _ => true) init lostRun).map
      (fun c => (c.log.take 3, latestDecision (c.log.drop 3) (addressIdPrefix ++ sampleAddress))) =
      some (addressLog.take 3, some .blocked) := by decide +kernel
  obtain ⟨c, hexec, hnewest⟩ := Option.map_eq_some_iff.mp htakeOver
  obtain ⟨c', hexec', hlog⟩ := Option.map_eq_some_iff.mp hlost
  obtain ⟨hthree, hblocked⟩ := Prod.mk.inj hlog
  refine ⟨by decide +kernel, runs_addressRun,
    ⟨c, Runs.of_exec (fun c _ => flushed_of_keepsAlive c) hexec, hnewest⟩,
    c', c'.log.drop 3, Runs.of_exec (fun _ _ _ => trivial) hexec', ?_, hblocked⟩
  conv_lhs => rw [← List.take_append_drop 3 c'.log, hthree]
  rfl

end LanServer

end AbkFido
