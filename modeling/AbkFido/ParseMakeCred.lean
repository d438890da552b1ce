/-
Parsing undoes encoding: the parts of a request, and makeCredential.

Each part of the parser is followed over the encodings of what it reads.
A loop over the entries of a map keeps a request that depends only on which
keys have come (`after`), so their order does not matter.
-/
import AbkFido.Encoding
import AbkFido.Reading

namespace AbkFido

open Cbor CborForm

variable {depth : Nat} {bytes : List UInt8}

/-! ## Shared parts -/

theorem readListedCred_reads {cred : ListedCred} (h : IsListedCred cred bytes) (hid : ∀ id ∈ cred, id.length ≤ 32)
    (hdepth : bytes.length ≤ depth) : Reads (readListedCred depth) bytes cred := by
  refine map_loop_reads h (S := fun seen => if text "id" ∈ seen then cred else none)
    (fun seen key kenc venc hkey hval hlen hseen => ?_) fun keys hkeys => ?_
  · refine textKey_bind hkey fun slice r heq => ?_
    simp only [heq, decide_eq_true_eq]
    by_cases hk : key = text "id"
    · rw [if_pos hk] at hval
      obtain ⟨id, rfl, hval⟩ := hval
      rw [if_pos hk, if_pos (by simp [hk])]
      intro pre
      rw [← List.append_nil venc]
      refine string_bind hval (by decide) fun slice hholds => ?_
      rw [if_neg (by rw [hholds.len]; exact Nat.not_lt.mpr (hid id rfl))]
      refine .get_bind fun r rest hat => ?_
      rw [hholds.bytes hat]
      exact .pure _ _
    · rw [if_neg hk] at hval
      rw [if_neg hk]
      have hsame : (text "id" ∈ seen ++ [key]) = (text "id" ∈ seen) := by simp [Ne.symm hk]
      simp only [hsame]
      exact (skip_reads hval depth (by omega)).bind_pure
  · have hid := hkeys (text "id") (List.mem_singleton.mpr rfl)
    cases cred with
    | none => exact if_neg fun h => Bool.false_ne_true (hid.mp h)
    | some id => exact if_pos (hid.mpr rfl)

theorem readCredList_reads {list : List ListedCred} (h : IsArray IsListedCred list bytes) (hfits : ListFits list)
    (hdepth : bytes.length ≤ depth) : Reads (readCredList depth []) bytes list := by
  refine array_reads h (S := fun done => done) fun done cred rest enc hsplit hcred hlen => ⟨?_, ?_⟩
  · have hcount := hfits.count
    rw [hsplit, List.length_append, List.length_cons] at hcount
    exact decide_eq_true (by omega)
  · refine (readListedCred_reads hcred (fun id hid => hfits.id id ?_) (hlen.trans hdepth)).bind_pure
    rw [hsplit, ← hid]
    exact List.mem_append_right _ List.mem_cons_self

/-- An id that is too long is refused. -/
theorem readListedCred_fails {id : List UInt8} (h : IsListedCred (some id) bytes) (hid : 32 < id.length)
    (hdepth : bytes.length ≤ depth) : Reader.cursor.Fails (readListedCred depth) bytes := by
  refine map_loop_fails h (S := fun _ => none) (List.mem_singleton.mpr rfl) rfl
    (fun seen key kenc venc hkey hval hlen hseen hne => ?_) fun seen kenc venc hkey hval hlen hseen => ?_
  · refine textKey_bind hkey fun slice r heq => ?_
    rw [if_neg hne] at hval
    simp only [heq, decide_eq_true_eq]
    rw [if_neg hne]
    exact (skip_reads hval depth (by omega)).bind_pure
  · refine textKey_fails hkey fun slice r heq => ?_
    rw [if_pos rfl] at hval
    obtain ⟨id', hsome, hval⟩ := hval
    cases hsome
    simp only [heq, decide_true, if_true]
    refine string_fails hval (by decide) fun slice r hlen' => ?_
    rw [if_pos (by omega)]
    exact fail_stops .einval r

/-- A list of entries there is room for is refused for the first id that is too long. -/
theorem readCredList_fails {list : List ListedCred} (h : IsArray IsListedCred list bytes)
    (hcount : list.length ≤ maxCredList) (hlong : ∃ id, some id ∈ list ∧ 32 < id.length)
    (hdepth : bytes.length ≤ depth) : Reader.cursor.Fails (readCredList depth []) bytes := by
  have hfirst : ∀ list : List ListedCred, (∃ id, some id ∈ list ∧ 32 < id.length) →
      ∃ before id after, list = before ++ some id :: after ∧ 32 < id.length ∧
        ∀ cred ∈ before, ∀ id ∈ cred, id.length ≤ 32 := by
    intro list
    induction list with
    | nil => rintro ⟨id, hid, _⟩; cases hid
    | cons cred list ih =>
      rintro ⟨id, hid, hlen⟩
      by_cases hcred : ∃ id ∈ cred, 32 < id.length
      · obtain ⟨id, rfl, hlen⟩ := hcred
        exact ⟨[], id, list, rfl, hlen, fun _ h => by cases h⟩
      · rcases List.mem_cons.mp hid with rfl | hid
        · exact absurd ⟨id, rfl, hlen⟩ hcred
        · obtain ⟨before, id, after, rfl, hlen, hbefore⟩ := ih ⟨id, hid, hlen⟩
          refine ⟨cred :: before, id, after, rfl, hlen, fun cred' hmem id' hid' => ?_⟩
          rcases List.mem_cons.mp hmem with rfl | hmem
          · exact not_lt.mp fun hlt => hcred ⟨id', hid', hlt⟩
          · exact hbefore cred' hmem id' hid'
  obtain ⟨before, id, after, rfl, hid, hbefore⟩ := hfirst list hlong
  rw [List.length_append, List.length_cons] at hcount
  refine array_fails h (S := fun done => done) (fun done cred rest enc hsplit hcred hlen => ⟨?_, ?_⟩) ?_ ?_
  · rw [hsplit, List.length_append, List.length_cons] at hcount
    exact decide_eq_true (by omega)
  · refine (readListedCred_reads hcred (hbefore cred ?_) (hlen.trans hdepth)).bind_pure
    rw [hsplit]
    exact List.mem_append_right _ List.mem_cons_self
  · exact decide_eq_true (by omega)
  · exact fun enc hcred hlen => (readListedCred_fails hcred hid (hlen.trans hdepth)).bind _

/-- An option map sets each known option once; `S` is the request once the named ones are set. -/
theorem readOptions_reads {α : Type} {set : (List UInt8 → Bool) → Bool → α → α} {o : Options}
    {known : List (List UInt8)} {S : List (List UInt8) → α} {a : α} (h : o.IsMap known bytes)
    (hset : ∀ seen key b, (key ∈ known → key ∉ seen ∧ o.get key = some b) →
      set (fun t => decide (key = t)) b (S seen) = S (seen ++ [key]))
    (hend : ∀ keys, (∀ k ∈ known, k ∈ keys ↔ (o.get k).isSome) → S keys = a) :
    Reads (readOptions set (S [])) bytes a := by
  refine map_loop_reads h (fun seen key kenc venc hkey hval hlen hseen => ?_) hend
  obtain ⟨b, hb, hget⟩ := hval
  intro pre
  refine string_bind hkey (by decide) fun slice hholds => ?_
  rw [← List.append_nil venc]
  refine (readBool_reads hb _).bind (.get_bind fun r rest hat => ?_)
  rw [show sliceEqText r slice = fun t => decide (key = t) from funext ((hholds.append venc).eq_text hat),
    hset seen key b fun hk => ⟨(hseen hk).1, hget hk⟩]
  exact .pure _ _

/-- Nothing is set where nothing is given. -/
theorem ite_isSome {α β : Type} (o : Option α) (f : Option α → β) {b : β} (h : f none = b) :
    (if o.isSome = true then f o else b) = f o := by
  cases o with
  | none => exact h.symm
  | some a => rfl

/-! ## makeCredential -/

theorem parseRp_reads {id : CText 128} (h : IsRp id.1 bytes) (req : MakeCredReq) :
    Reads (parseRp req) bytes { req with rpId := id.1, haveRpId := true } := by
  refine map_loop_reads h (S := fun seen => if text "id" ∈ seen then { req with rpId := id.1, haveRpId := true } else req)
    (fun seen key kenc venc hkey hval hlen hseen => ?_) fun keys hkeys => if_pos ((hkeys _ (List.mem_singleton.mpr rfl)).mpr rfl)
  have htext : ∃ t, IsText t venc ∧ (key = text "id" → t = id.1) := by
    split at hval
    · exact ⟨_, hval, fun _ => rfl⟩
    · next hk =>
      obtain ⟨t, ht⟩ := hval
      exact ⟨t, ht, fun h => absurd h hk⟩
  obtain ⟨t, ht, htid⟩ := htext
  intro pre
  refine string_bind hkey (by decide) fun keySlice hkeyHolds => ?_
  rw [← List.append_nil venc]
  refine string_bind ht (by decide) fun slice hholds => .get_bind fun r rest hat => ?_
  rw [(hkeyHolds.append venc).eq_text hat, hholds.bytes hat, hholds.len]
  by_cases hk : key = text "id"
  · subst hk
    obtain rfl := htid rfl
    have hnot := (hseen (List.mem_singleton.mpr rfl)).1
    rw [if_pos ⟨decide_eq_true rfl, id.2.1⟩, if_neg hnot, if_pos (by simp),
      cstr_of_nul_free fun b hb h0 => id.2.2 (h0 ▸ hb)]
    exact .pure _ _
  · have hsame : (text "id" ∈ seen ++ [key]) = (text "id" ∈ seen) := by simp [Ne.symm hk]
    rw [if_neg (fun h => hk (of_decide_eq_true h.1))]
    simp only [hsame]
    exact .pure _ _

/-- A request with the user's fields once the entries `seen` have been read. -/
def User.after (u : User) (req : MakeCredReq) (seen : List (List UInt8)) : MakeCredReq :=
  { req with
    haveUserId := if text "id" ∈ seen then true else req.haveUserId
    userId := if text "id" ∈ seen then u.id else req.userId
    userName := if text "name" ∈ seen then (u.name.map (·.1)).getD req.userName else req.userName
    userDisplay := if text "displayName" ∈ seen then (u.displayName.map (·.1)).getD req.userDisplay else req.userDisplay }

/-- The request once the whole map has been read. -/
def User.fill (u : User) (req : MakeCredReq) : MakeCredReq :=
  { req with
    haveUserId := true
    userId := u.id
    userName := (u.name.map (·.1)).getD req.userName
    userDisplay := (u.displayName.map (·.1)).getD req.userDisplay }

theorem User.after_keys {u : User} {keys : List (List UInt8)}
    (hkeys : ∀ k ∈ [text "id", text "name", text "displayName"], k ∈ keys ↔ u.there k = true) (req : MakeCredReq) :
    u.after req keys = u.fill req := by
  have hid : text "id" ∈ keys := (hkeys _ (by simp)).mpr rfl
  have hname : text "name" ∈ keys ↔ u.name.isSome = true := hkeys (text "name") (by simp)
  have hdisplay : text "displayName" ∈ keys ↔ u.displayName.isSome = true := hkeys (text "displayName") (by simp)
  unfold User.after User.fill
  rw [if_pos hid, if_pos hid]
  congr 1
  · split
    · rfl
    · next h =>
      rw [hname, Bool.not_eq_true, Option.isSome_eq_false_iff, Option.isNone_iff_eq_none] at h
      rw [h]
      rfl
  · split
    · rfl
    · next h =>
      rw [hdisplay, Bool.not_eq_true, Option.isSome_eq_false_iff, Option.isNone_iff_eq_none] at h
      rw [h]
      rfl

theorem parseUser_reads {u : User} (h : u.IsMap bytes) (req : MakeCredReq) (hdepth : bytes.length ≤ depth) :
    Reads (parseUser depth req) bytes (u.fill req) := by
  refine map_loop_reads h (S := u.after req) (fun seen key kenc venc hkey hval hlen hseen => ?_) fun keys hkeys =>
    User.after_keys hkeys req
  refine textKey_bind hkey fun slice r heq => ?_
  simp only [heq, decide_eq_true_eq]
  unfold User.Value at hval
  by_cases hid : key = text "id"
  · rw [if_pos hid] at hval ⊢
    subst hid
    intro pre
    rw [← List.append_nil venc]
    refine string_bind hval (by decide) fun slice hholds => ?_
    have hle : slice.len ≤ 64 := hholds.len ▸ u.id.2
    rw [dif_pos hle]
    refine .get_bind fun r rest hat => ?_
    have hbytes := hholds.bytes hat
    have hafter : { u.after req seen with
        userId := ⟨r.bytes slice, (r.length_bytes_le slice).trans hle⟩, haveUserId := true } =
        u.after req (seen ++ [text "id"]) := by
      simp [User.after, hbytes, text]
    rw [hafter]
    exact .pure _ _
  · rw [if_neg hid] at hval ⊢
    by_cases hname : key = text "name"
    · rw [if_pos hname] at hval ⊢
      subst hname
      obtain ⟨name, hsome, hval⟩ := hval
      have hafter : { u.after req seen with userName := name.1 } = u.after req (seen ++ [text "name"]) := by
        simp [User.after, Option.mem_def.mp hsome, text]
      rw [← hafter]
      exact (readStr_reads hval name.2.1 name.2.2).bind_pure
    · rw [if_neg hname] at hval ⊢
      by_cases hdisplay : key = text "displayName"
      · rw [if_pos hdisplay] at hval ⊢
        subst hdisplay
        obtain ⟨name, hsome, hval⟩ := hval
        have hafter : { u.after req seen with userDisplay := name.1 } = u.after req (seen ++ [text "displayName"]) := by
          simp [User.after, Option.mem_def.mp hsome, text]
        rw [← hafter]
        exact (readStr_reads hval name.2.1 name.2.2).bind_pure
      · rw [if_neg hdisplay] at hval ⊢
        have hafter : u.after req (seen ++ [key]) = u.after req seen := by
          simp [User.after, Ne.symm hid, Ne.symm hname, Ne.symm hdisplay]
        rw [hafter]
        exact (skip_reads hval depth (by omega)).bind_pure

theorem readCredParam_reads {param : List UInt8 × Int} (h : IsCredParam param bytes) (hdepth : bytes.length ≤ depth) :
    Reads (readCredParam depth) bytes (decide (param.1 = text "public-key"), decide (param.2 = coseAlgEs256)) := by
  refine map_loop_reads h (S := fun seen => (decide (text "type" ∈ seen ∧ param.1 = text "public-key"),
    decide (text "alg" ∈ seen ∧ param.2 = coseAlgEs256))) (fun seen key kenc venc hkey hval hlen hseen => ?_)
    fun keys hkeys => ?_
  · refine textKey_bind hkey fun slice r heq => ?_
    simp only [heq, decide_eq_true_eq]
    by_cases htype : key = text "type"
    · rw [if_pos htype] at hval ⊢
      subst htype
      intro pre
      rw [← List.append_nil venc]
      refine string_bind hval (by decide) fun slice hholds => .get_bind fun r rest hat => ?_
      have halg : (text "alg" ∈ seen ++ [text "type"]) = (text "alg" ∈ seen) := by simp [text]
      have htype : text "type" ∈ seen ++ [text "type"] := by simp
      simp only [hholds.eq_text hat, htype, halg, true_and]
      exact .pure _ _
    · rw [if_neg htype] at hval ⊢
      by_cases halg : key = text "alg"
      · rw [if_pos halg] at hval ⊢
        subst halg
        have htype : (text "type" ∈ seen ++ [text "alg"]) = (text "type" ∈ seen) := by simp [text]
        have halg : text "alg" ∈ seen ++ [text "alg"] := by simp
        simp only [htype, halg, true_and]
        exact (readInt_reads hval).bind_pure
      · rw [if_neg halg] at hval ⊢
        have htype' : (text "type" ∈ seen ++ [key]) = (text "type" ∈ seen) := by simp [Ne.symm htype]
        have halg' : (text "alg" ∈ seen ++ [key]) = (text "alg" ∈ seen) := by simp [Ne.symm halg]
        simp only [htype', halg']
        exact (skip_reads hval depth (by omega)).bind_pure
  · have htype : text "type" ∈ keys := (hkeys (text "type") (by simp)).mpr rfl
    have halg : text "alg" ∈ keys := (hkeys (text "alg") (by simp)).mpr rfl
    simp only [htype, halg, true_and]

theorem parseCredParams_reads {params : List (List UInt8 × Int)} (h : IsArray IsCredParam params bytes)
    (hes256 : (text "public-key", coseAlgEs256) ∈ params) (hdepth : bytes.length ≤ depth) :
    Reads (parseCredParams depth) bytes () := by
  have hmem : ∀ done (param : List UInt8 × Int), decide ((text "public-key", coseAlgEs256) ∈ done ++ [param]) =
      (decide ((text "public-key", coseAlgEs256) ∈ done) ||
        (decide (param.1 = text "public-key") && decide (param.2 = coseAlgEs256))) := by
    intro done param
    rw [← Bool.decide_and, ← Bool.decide_or]
    congr 1
    rw [List.mem_append, List.mem_singleton, Prod.ext_iff]
    exact propext (or_congr Iff.rfl (and_congr eq_comm eq_comm))
  rw [← List.append_nil bytes]
  refine .assoc (.bind (array_reads h (S := fun done => decide ((text "public-key", coseAlgEs256) ∈ done))
    (p := fun _ => true) fun done param rest enc hsplit hparam hlen => ⟨rfl, ?_⟩) ?_)
  · rw [hmem]
    exact (readCredParam_reads hparam (hlen.trans hdepth)).bind_pure
  · rw [decide_eq_true hes256]
    exact .pure ()

theorem hmacCreateMap_reads {create there : Bool} (hthere : there = false → create = true)
    (h : IsMap IsInt (fun key value => if key = 1 then IsBool create value else Plain value) [1] (fun _ => there) bytes)
    (hdepth : bytes.length ≤ depth) :
    Reads (readMap >>= fun hmCount => loop hmCount true fun create => do
      let mkey ← readInt
      if mkey = 1 then readBool
      else
        skip depth
        pure create) bytes create := by
  refine map_loop_reads h (S := fun seen => if 1 ∈ seen then create else true)
    (fun seen key kenc venc hkey hval hlen hseen => (readInt_reads hkey).bind ?_) fun keys hkeys => ?_
  · by_cases hk : key = 1
    · rw [if_pos hk] at hval ⊢
      rw [if_pos (by simp [hk])]
      exact readBool_reads hval
    · rw [if_neg hk] at hval ⊢
      have hsame : ((1 : Int) ∈ seen ++ [key]) = (1 ∈ seen) := by simp [Ne.symm hk]
      simp only [hsame]
      exact (skip_reads hval depth (by omega)).bind_pure
  · have hone := hkeys 1 (List.mem_singleton.mpr rfl)
    split
    · rfl
    · next hnot =>
      rw [hone, Bool.not_eq_true] at hnot
      exact (hthere hnot).symm

theorem parseHmacCreate_reads {create : Bool} (h : IsHmacCreate create bytes) (requested : Bool)
    (hdepth : bytes.length ≤ depth) : Reads (parseHmacCreate depth requested) bytes create := by
  intro pre
  have hstops : ∀ r, Reader.cursor.At r pre [] → ∀ m : Cbor Bool,
      Reader.cursor.Stops (if r.pos ≥ r.len then fail .einval else m) r := by
    intro r hat m
    rw [if_pos (at_end hat)]
    exact fail_stops .einval r
  rcases h with hbool | ⟨there, hthere, hmap⟩
  · have hread := readBool_reads hbool pre
    cases hbool with
    | false =>
      refine Cursor.Decodes.peek_bind (fun r hat => hstops r hat _) fun r rest hat => ?_
      obtain ⟨hpos, hbyte⟩ := next_byte hat
      rw [if_neg hpos, hbyte, if_pos (.inl rfl)]
      exact hread
    | true =>
      refine Cursor.Decodes.peek_bind (fun r hat => hstops r hat _) fun r rest hat => ?_
      obtain ⟨hpos, hbyte⟩ := next_byte hat
      rw [if_neg hpos, hbyte, if_pos (.inr rfl)]
      exact hread
  · have hread := hmacCreateMap_reads hthere hmap hdepth pre
    cases hmap with
    | mk entries head hentries hknown =>
      obtain ⟨b, rest, hhead, hmajor⟩ := head_first head (by decide)
      rw [hhead, List.cons_append] at hread ⊢
      refine Cursor.Decodes.peek_bind (fun r hat => hstops r hat _) fun r rest hat => ?_
      obtain ⟨hpos, hbyte⟩ := next_byte hat
      have hb : ¬ (b = 0xf4 ∨ b = 0xf5) := by
        rintro (rfl | rfl)
        · exact absurd hmajor (by decide)
        · exact absurd hmajor (by decide)
      rw [if_neg hpos, hbyte, if_neg hb, if_pos hmajor]
      exact hread

/-- An extension map reads its hmac-secret, if it has one, once. -/
theorem extensions_reads {α : Type} {there : Bool} {Hmac : List UInt8 → Prop} (h : IsExtensions there Hmac bytes)
    {f : α → Cbor α} {a b : α} (hread : ∀ enc, Hmac enc → enc.length ≤ bytes.length → Reads (f a) enc b)
    (hdepth : bytes.length ≤ depth) :
    Reads (readMap >>= fun extCount => loop extCount a fun a => do
      let extKey ← readText
      let r ← Prog.get
      if sliceEqText r extKey (text "hmac-secret") then f a
      else
        skip depth
        pure a) bytes (if there then b else a) := by
  refine map_loop_reads h (S := fun seen => if text "hmac-secret" ∈ seen then b else a)
    (fun seen key kenc venc hkey hval hlen hseen => ?_) fun keys hkeys => ?_
  · refine textKey_bind hkey fun slice r heq => ?_
    simp only [heq, decide_eq_true_eq]
    by_cases hk : key = text "hmac-secret"
    · subst hk
      rw [if_pos rfl] at hval ⊢
      rw [if_neg (hseen (List.mem_singleton.mpr rfl)).1, if_pos (by simp)]
      exact hread venc hval hlen
    · rw [if_neg hk] at hval ⊢
      have hsame : (text "hmac-secret" ∈ seen ++ [key]) = (text "hmac-secret" ∈ seen) := by simp [Ne.symm hk]
      simp only [hsame]
      exact (skip_reads hval depth (by omega)).bind_pure
  · exact if_congr (hkeys (text "hmac-secret") (List.mem_singleton.mpr rfl)) rfl rfl

theorem parseMakeCredExtensions_reads {ext : Option Bool}
    (h : IsExtensions ext.isSome (fun v => ∃ create ∈ ext, IsHmacCreate create v) bytes) (req : MakeCredReq)
    (hdepth : bytes.length ≤ depth) :
    Reads (parseMakeCredExtensions depth req) bytes
      { req with hmacSecretRequested := ext.getD req.hmacSecretRequested } := by
  have hread := extensions_reads (f := fun req => do
      let requested ← parseHmacCreate depth req.hmacSecretRequested
      pure { req with hmacSecretRequested := requested }) (a := req)
    (b := { req with hmacSecretRequested := ext.getD req.hmacSecretRequested }) h (fun enc henc hlen => by
      obtain ⟨create, hsome, hcreate⟩ := henc
      rw [Option.mem_def.mp hsome]
      exact (parseHmacCreate_reads hcreate _ (hlen.trans hdepth)).bind_pure) hdepth
  cases ext with
  | none => exact hread
  | some create => exact hread

namespace MakeCredential

/-- What is known of a request once the keys `seen` have been read. -/
def after (q : MakeCredential) (seen : List Int) : MakeCredReq where
  haveClientDataHash := decide (1 ∈ seen)
  haveRpId := decide (2 ∈ seen)
  haveUserId := decide (3 ∈ seen)
  rk := if 7 ∈ seen then (q.options.bind (·.rk)).getD false else false
  uv := if 7 ∈ seen then (q.options.bind (·.uv)).getD false else false
  upDisabled := if 7 ∈ seen then q.options.bind (·.up) == some false else false
  pinAuthPresent := decide (8 ∈ seen)
  hmacSecretRequested := if 6 ∈ seen then q.extensions.join.getD false else false
  clientDataHash := if 1 ∈ seen then q.clientDataHash else zeros 32
  rpId := if 2 ∈ seen then q.rpId.1 else []
  userId := if 3 ∈ seen then q.user.id else MakeCredReq.zero.userId
  userName := if 3 ∈ seen then (q.user.name.map (·.1)).getD [] else []
  userDisplay := if 3 ∈ seen then (q.user.displayName.map (·.1)).getD [] else []
  exclude := if 5 ∈ seen then q.exclude.getD [] else []

theorem after_other {q : MakeCredential} {seen : List Int} {key : Int} (h : key ∉ known) :
    q.after (seen ++ [key]) = q.after seen := by
  simp only [known, List.mem_cons, List.not_mem_nil, or_false, not_or] at h
  obtain ⟨h1, h2, h3, h4, h5, h6, h7, h8, h9⟩ := h
  simp [after, Ne.symm h1, Ne.symm h2, Ne.symm h3, Ne.symm h5, Ne.symm h6, Ne.symm h7, Ne.symm h8]

theorem parseMakeCredKey_other {key : Int} (h : key ∉ known) (req : MakeCredReq) :
    parseMakeCredKey depth req key = skip depth >>= fun _ => pure req := by
  unfold parseMakeCredKey
  split <;> first | rfl | exact absurd (by decide) h

theorem value_other {q : MakeCredential} {key : Int} {value : List UInt8} (hval : q.Value key value)
    (h : key ∉ known) : Plain value := by
  unfold Value at hval
  split at hval <;> first | exact hval | exact absurd (by decide) h

/-- A request with the options once the entries `seen` have been read. -/
def withOptions (o : Options) (req : MakeCredReq) (seen : List (List UInt8)) : MakeCredReq :=
  { req with
    rk := if text "rk" ∈ seen then o.rk.getD false else req.rk
    uv := if text "uv" ∈ seen then o.uv.getD false else req.uv
    upDisabled := if text "up" ∈ seen then o.up == some false else req.upDisabled }

theorem setOption_step {o : Options} (req : MakeCredReq) (seen : List (List UInt8)) (key : List UInt8) (b : Bool)
    (h : key ∈ [text "rk", text "uv", text "up"] → key ∉ seen ∧ o.get key = some b) :
    MakeCredReq.setOption (fun t => decide (key = t)) b (withOptions o req seen) =
      withOptions o req (seen ++ [key]) := by
  unfold MakeCredReq.setOption
  simp only [decide_eq_true_eq]
  by_cases hrk : key = text "rk"
  · subst hrk
    have hget : o.rk = some b := (h (by simp)).2
    simp [withOptions, hget, text]
  by_cases huv : key = text "uv"
  · subst huv
    have hget : o.uv = some b := (h (by simp)).2
    simp [withOptions, hget, text]
  by_cases hup : key = text "up"
  · subst hup
    have hget : o.up = some b := (h (by simp)).2
    cases b <;> simp [withOptions, hget, text]
  · simp [withOptions, hrk, huv, hup, Ne.symm hrk, Ne.symm huv, Ne.symm hup]

theorem options_reads {o : Options} (h : o.IsMap [text "rk", text "uv", text "up"] bytes) {req : MakeCredReq}
    (hrk : req.rk = false) (huv : req.uv = false) (hup : req.upDisabled = false) :
    Reads (readOptions MakeCredReq.setOption req) bytes
      { req with rk := o.rk.getD false, uv := o.uv.getD false, upDisabled := o.up == some false } := by
  refine readOptions_reads (S := withOptions o req) h (setOption_step req) fun keys hkeys => ?_
  have hrk' : text "rk" ∈ keys ↔ o.rk.isSome = true := hkeys _ (by simp)
  have huv' : text "uv" ∈ keys ↔ o.uv.isSome = true := hkeys _ (by simp)
  have hup' : text "up" ∈ keys ↔ o.up.isSome = true := hkeys _ (by simp)
  unfold withOptions
  simp only [hrk', huv', hup', hrk, huv, hup]
  congr 1
  · exact ite_isSome o.rk (fun b => b.getD false) rfl
  · exact ite_isSome o.uv (fun b => b.getD false) rfl
  · exact ite_isSome o.up (fun b => b == some false) rfl

/-- Each top-level key adds what it carries. -/
theorem parseMakeCredKey_reads {q : MakeCredential} {seen : List Int} {key : Int} {value : List UInt8}
    (hfits : key = 5 → ∀ list ∈ q.exclude, ListFits list) (hval : q.Value key value) (hlen : value.length ≤ depth)
    (hseen : key ∈ known → key ∉ seen ∧ q.there key = true) :
    Reads (parseMakeCredKey depth (q.after seen) key) value (q.after (seen ++ [key])) := by
  by_cases hkey : key ∈ known
  · obtain ⟨hnot, hthere⟩ := hseen hkey
    simp only [known, List.mem_cons, List.not_mem_nil, or_false] at hkey
    rcases hkey with rfl | rfl | rfl | rfl | rfl | rfl | rfl | rfl | rfl
    · have hafter : q.after (seen ++ [1]) =
          { q.after seen with clientDataHash := q.clientDataHash, haveClientDataHash := true } := by
        simp [after]
      rw [hafter]
      exact (readFixed_reads hval).bind_pure
    · have hafter : q.after (seen ++ [2]) = { q.after seen with rpId := q.rpId.1, haveRpId := true } := by
        simp [after]
      rw [hafter]
      exact parseRp_reads hval _
    · have hafter : q.after (seen ++ [3]) = q.user.fill (q.after seen) := by
        simp [after, User.fill, hnot]
      rw [hafter]
      exact parseUser_reads hval _ hlen
    · have hafter : q.after (seen ++ [4]) = q.after seen := by
        simp [after]
      rw [hafter]
      exact (parseCredParams_reads hval q.es256 hlen).bind_pure
    · obtain ⟨list, hsome, hval⟩ := hval
      have hafter : q.after (seen ++ [5]) = { q.after seen with exclude := list } := by
        simp [after, Option.mem_def.mp hsome]
      have hnil : (q.after seen).exclude = [] := if_neg hnot
      rw [hafter]
      show Reads (readCredList depth (q.after seen).exclude >>= _) _ _
      rw [hnil]
      exact (readCredList_reads hval (hfits rfl list hsome) hlen).bind_pure
    · obtain ⟨ext, hsome, hval⟩ := hval
      have hafter : q.after (seen ++ [6]) =
          { q.after seen with hmacSecretRequested := ext.getD (q.after seen).hmacSecretRequested } := by
        simp [after, Option.mem_def.mp hsome, hnot]
      rw [hafter]
      exact parseMakeCredExtensions_reads hval _ hlen
    · obtain ⟨o, hsome, hval⟩ := hval
      have hafter : q.after (seen ++ [7]) = { q.after seen with
          rk := o.rk.getD false, uv := o.uv.getD false, upDisabled := o.up == some false } := by
        simp [after, Option.mem_def.mp hsome]
      rw [hafter]
      exact options_reads hval (if_neg hnot) (if_neg hnot) (if_neg hnot)
    · obtain ⟨param, hsome, hval⟩ := hval
      have hafter : q.after (seen ++ [8]) = { q.after seen with pinAuthPresent := true } := by
        simp [after]
      rw [hafter]
      intro pre
      rw [← List.append_nil value]
      exact string_bind hval (by decide) fun slice _ => .pure _ _
    · obtain ⟨protocol, hsome, hval⟩ := hval
      have hafter : q.after (seen ++ [9]) = q.after seen := by
        simp [after]
      rw [hafter]
      exact (readUint_reads hval).bind_pure
  · rw [parseMakeCredKey_other hkey, after_other hkey]
    exact (skip_reads (value_other hval hkey) depth hlen).bind_pure

theorem after_keys {q : MakeCredential} {keys : List Int} (hkeys : ∀ k ∈ known, k ∈ keys ↔ q.there k = true) :
    q.after keys = q.req := by
  have h1 : 1 ∈ keys := (hkeys 1 (by decide)).mpr rfl
  have h2 : 2 ∈ keys := (hkeys 2 (by decide)).mpr rfl
  have h3 : 3 ∈ keys := (hkeys 3 (by decide)).mpr rfl
  have h5 : 5 ∈ keys ↔ q.exclude.isSome = true := hkeys 5 (by decide)
  have h6 : 6 ∈ keys ↔ q.extensions.isSome = true := hkeys 6 (by decide)
  have h7 : 7 ∈ keys ↔ q.options.isSome = true := hkeys 7 (by decide)
  have h8 : 8 ∈ keys ↔ q.pinUvAuthParam.isSome = true := hkeys 8 (by decide)
  unfold after req
  simp only [h1, h2, h3, h5, h6, h7, h8, decide_true, if_true, Bool.decide_eq_true]
  congr 1
  · exact ite_isSome q.options (fun o => (o.bind (·.rk)).getD false) rfl
  · exact ite_isSome q.options (fun o => (o.bind (·.uv)).getD false) rfl
  · exact ite_isSome q.options (fun o => o.bind (·.up) == some false) rfl
  · exact ite_isSome q.extensions (fun e => e.join.getD false) rfl
  · exact ite_isSome q.exclude (fun e => e.getD []) rfl

theorem parseMakeCred_reads {q : MakeCredential} (hfits : ∀ list ∈ q.exclude, ListFits list) (h : q.Encodes bytes)
    (hdepth : bytes.length ≤ depth) : Reads (parseMakeCred depth) bytes q.req := by
  have hloop := map_loop_reads h (S := q.after) (f := fun req => readInt >>= parseMakeCredKey depth req)
    (fun seen key kenc venc hkey hval hlen hseen =>
      (readInt_reads hkey).bind (parseMakeCredKey_reads (fun _ => hfits) hval (hlen.trans hdepth) hseen)) fun keys => after_keys
  rw [← List.append_nil bytes]
  exact .assoc (hloop.bind (.pure q.req))

/-- A request that excludes an id that is too long is refused. -/
theorem parseMakeCred_fails {q : MakeCredential} {list : List ListedCred} (hlist : q.exclude = some list)
    (hcount : list.length ≤ maxCredList) (hlong : ∃ id, some id ∈ list ∧ 32 < id.length) (h : q.Encodes bytes)
    (hdepth : bytes.length ≤ depth) : Reader.cursor.Fails (parseMakeCred depth) bytes := by
  have hloop := map_loop_fails h (S := q.after) (f := fun req => readInt >>= parseMakeCredKey depth req) (k := 5)
    (by decide) (by rw [there, hlist]; rfl)
    (fun seen key kenc venc hkey hval hlen hseen hne => (readInt_reads hkey).bind
      (parseMakeCredKey_reads (fun h => absurd h hne) hval (hlen.trans hdepth) hseen))
    fun seen kenc venc hkey hval hlen hseen => (readInt_reads hkey).bind_fails ?_
  · exact .assoc (hloop.bind _)
  · obtain ⟨list', hsome, hval⟩ := hval
    rw [hlist] at hsome
    cases hsome
    have hnil : (q.after seen).exclude = [] := if_neg hseen
    show Reader.cursor.Fails (readCredList depth (q.after seen).exclude >>= _) _
    rw [hnil]
    exact (readCredList_fails hval hcount hlong (hlen.trans hdepth)).bind _

end MakeCredential

end AbkFido
