/-
What the driver makes of the requests `WebAuthnCtapBridge` writes.

The requests here are what the bridge has read of the request's JSON, the ids
in bytes. Their trees are ones the driver's parsers read, so they get back
what the bridge put in (`bridge_parsed`). The digest is a parameter.
-/
import AbkFido.App.CborWriter
import AbkFido.App.Kotlin
import AbkFido.ParseEncoded

namespace AbkFido

open CborForm

/-! ## The requests -/

section
variable (sha256 : List UInt8 → Bytes 32)

/-- What `getAssertion` reads of its request. -/
structure AssertionOptions where
  rpId : List Char
  clientData : List UInt8
  allowCredentials : Option (List (List UInt8))
  userVerification : List Char

def credentialDescriptor (id : List UInt8) : Option (List UInt8) :=
  (CborWriter.new.map 2
    |>.text "type".toList |>.text "public-key".toList
    |>.text "id".toList |>.bytes id).build

/-- The CBOR that `getAssertion` builds. -/
def getAssertionCbor (o : AssertionOptions) : Option (List UInt8) :=
  if Kotlin.isBlank o.rpId then none
  else do
    let allowCredentials ← (o.allowCredentials.getD []).mapM credentialDescriptor
    (CborWriter.new.map 4
      |>.int 1 |>.text o.rpId
      |>.int 2 |>.bytes (sha256 o.clientData).toList
      |>.int 3 |>.array allowCredentials
      |>.int 5 |>.map 1 |>.text "uv".toList |>.bool (o.userVerification == "required".toList)).build

/-- What `makeCredential` reads of its request. -/
structure CreationOptions where
  clientData : List UInt8
  rpId : List Char
  rpName : Option (List Char)
  userId : List UInt8
  userName : List Char
  displayName : Option (List Char)

/-- The CBOR that `makeCredential` builds. -/
def makeCredentialCbor (o : CreationOptions) : Option (List UInt8) := do
  let param ← (CborWriter.new.map 2 |>.text "type".toList |>.text "public-key".toList |>.text "alg".toList |>.int (-7)).build
  (CborWriter.new.map 5
    |>.int 1 |>.bytes (sha256 o.clientData).toList |>.int 2 |>.map 2
    |>.text "id".toList |>.text o.rpId |>.text "name".toList |>.text (o.rpName.getD o.rpId)
    |>.int 3 |>.map 3 |>.text "id".toList |>.bytes o.userId
    |>.text "name".toList |>.text o.userName |>.text "displayName".toList |>.text (o.displayName.getD o.userName)
    |>.int 4 |>.array [param]
    |>.int 7 |>.map 2 |>.text "rk".toList |>.bool true |>.text "uv".toList |>.bool false).build

end

/-! ## Their trees -/

theorem encode_literals : Utf8.encode "type".toList = text "type" ∧ Utf8.encode "public-key".toList = text "public-key" ∧
    Utf8.encode "id".toList = text "id" ∧ Utf8.encode "alg".toList = text "alg" ∧ Utf8.encode "name".toList = text "name" ∧
    Utf8.encode "displayName".toList = text "displayName" ∧ Utf8.encode "rk".toList = text "rk" ∧
    Utf8.encode "uv".toList = text "uv" := by decide +kernel

/-- The keys of a map, each with its tree and that of its value. -/
abbrev TreeEntries (κ : Type) := List (κ × Tree × Tree)

def textEntry (key : List UInt8) (value : Tree) : List UInt8 × Tree × Tree := (key, .text key, value)

def intEntry (key : Int) (value : Tree) : Int × Tree × Tree := (key, .int key, value)

def TreeEntries.tree {κ : Type} (entries : TreeEntries κ) : Tree := .map (entries.map (·.2))

def descriptorEntries (id : List UInt8) : TreeEntries (List UInt8) :=
  [textEntry (text "type") (.text (text "public-key")), textEntry (text "id") (.bytes id)]

theorem credentialDescriptor_eq {id : List UInt8} (hid : id.length < 65536) :
    credentialDescriptor id = some (descriptorEntries id).tree.encode := by
  have h := ((((CborWriter.new_wrote.map (by decide : 2 < 65536)).text (s := "type".toList) (by decide)).text
    (s := "public-key".toList) (by decide)).text (s := "id".toList) (by decide)).bytes hid
  obtain ⟨htype, hpublic, hidkey, _⟩ := encode_literals
  rw [htype, hpublic, hidkey] at h
  refine h.trans ?_
  simp [descriptorEntries, textEntry, TreeEntries.tree, Tree.encode, Tree.encodeEntries, Tree.encodeEntry]

theorem isListedCred_descriptor {id : List UInt8} (hid : id.length < 2 ^ 64) :
    IsListedCred (some id) (descriptorEntries id).tree.encode := by
  refine Tree.isMap_encode (show 2 < 2 ^ 64 by decide) ?_ (List.forall_mem_singleton.mpr rfl)
  simp only [descriptorEntries, textEntry, List.forall_mem_cons]
  refine ⟨⟨Tree.isText_encode (by decide), ?_⟩, ⟨Tree.isText_encode (by decide), ?_⟩, by simp⟩
  · rw [if_neg (by decide)]
    exact .string (by decide) (Tree.isText_encode (by decide))
  · rw [if_true]
    exact ⟨id, rfl, Tree.isBytes_encode hid⟩

theorem length_descriptor {id : List UInt8} (hid : id.length ≤ 32) : (descriptorEntries id).tree.encode.length ≤ 128 := by
  have hbytes := Tree.length_bytes_le id
  have htype : (Tree.text (text "type")).encode.length + (Tree.text (text "public-key")).encode.length ≤ 46 := by decide
  have hkey : (Tree.text (text "id")).encode.length ≤ 5 := by decide
  refine (Tree.length_map_le (n := 46) ?_).trans (show 9 + 2 * 46 ≤ 128 by decide)
  simp only [descriptorEntries, textEntry, List.map_cons, List.map_nil, List.forall_mem_cons]
  exact ⟨htype, by omega, by simp⟩

theorem mapM_descriptor {ids : List (List UInt8)} (hids : ∀ id ∈ ids, id.length < 65536) : ids.mapM credentialDescriptor =
    some ((ids.map fun id => (descriptorEntries id).tree).map Tree.encode) := by
  induction ids with
  | nil => rfl
  | cons id ids ih =>
    rw [List.mapM_cons, credentialDescriptor_eq (hids id (by simp)), ih fun i hi => hids i (by simp [hi])]
    rfl

/-! ## getAssertion -/

section
variable (sha256 : List UInt8 → Bytes 32) (o : AssertionOptions)

def AssertionOptions.ids : List (List UInt8) := o.allowCredentials.getD []

/-- `o.optString("userVerification") == "required"` -/
def AssertionOptions.uv : Bool := o.userVerification == "required".toList

def uvEntries (uv : Bool) : TreeEntries (List UInt8) := [textEntry (text "uv") (.bool uv)]

def assertionEntries : TreeEntries Int :=
  [intEntry 1 (.text (Utf8.encode o.rpId)),
    intEntry 2 (.bytes (sha256 o.clientData).toList),
    intEntry 3 (.array (o.ids.map fun id => (descriptorEntries id).tree)),
    intEntry 5 (uvEntries o.uv).tree]

/-- What the bridge means by the request. -/
def AssertionOptions.request (hlen : (Utf8.encode o.rpId).length < 128) (hnul : 0 ∉ Utf8.encode o.rpId) : GetAssertion where
  rpId := ⟨Utf8.encode o.rpId, hlen, hnul⟩
  clientDataHash := sha256 o.clientData
  allow := some (o.ids.map some)
  extensions := none
  options := some { rk := none, uv := some o.uv, up := none }
  pinUvAuthParam := none
  pinUvAuthProtocol := none

end

section
variable {sha256 : List UInt8 → Bytes 32} {o : AssertionOptions}

theorem getAssertionCbor_eq (hblank : Kotlin.isBlank o.rpId = false) (hrp : (Utf8.encode o.rpId).length < 128)
    (hcount : o.ids.length ≤ 32) (hids : ∀ id ∈ o.ids, id.length ≤ 32) :
    getAssertionCbor sha256 o = some (assertionEntries sha256 o).tree.encode := by
  have hdescriptors := mapM_descriptor fun id hid => lt_of_le_of_lt (hids id hid) (by decide : 32 < 65536)
  have huv := encode_literals.2.2.2.2.2.2.2
  have h := (((((((((((CborWriter.new_wrote.map (by decide : 4 < 65536)).int (n := 1) (by decide) (by decide)).text
    (hrp.trans (by decide))).int (n := 2) (by decide) (by decide)).bytes (v := (sha256 o.clientData).toList)
    (by rw [List.Vector.toList_length]; decide)).int (n := 3) (by decide) (by decide)).array
    (show (o.ids.map fun id => (descriptorEntries id).tree).length < 65536 by rw [List.length_map]; omega)).int (n := 5)
    (by decide) (by decide)).map (by decide : 1 < 65536)).text (s := "uv".toList) (by decide)).bool o.uv)
  rw [huv] at h
  unfold getAssertionCbor
  rw [hblank, if_neg (by decide)]
  show (o.ids.mapM credentialDescriptor >>= _) = _
  rw [hdescriptors]
  refine h.trans ?_
  simp [assertionEntries, intEntry, uvEntries, textEntry, TreeEntries.tree, Tree.encode, Tree.encodeEntries, Tree.encodeEntry]

theorem assertion_encodes (hlen : (Utf8.encode o.rpId).length < 128) (hnul : 0 ∉ Utf8.encode o.rpId)
    (hcount : o.ids.length ≤ 32) (hids : ∀ id ∈ o.ids, id.length ≤ 32) :
    (o.request sha256 hlen hnul).Encodes (assertionEntries sha256 o).tree.encode := by
  refine Tree.isMap_encode (show 4 < 2 ^ 64 by decide) ?_ ?_
  · simp only [assertionEntries, intEntry, List.forall_mem_cons]
    refine ⟨⟨Tree.isInt_encode (by decide) (by decide), Tree.isText_encode (hlen.trans (by decide))⟩,
      ⟨Tree.isInt_encode (by decide) (by decide), Tree.isBytes_encode (by rw [List.Vector.toList_length]; decide)⟩,
      ⟨Tree.isInt_encode (by decide) (by decide), _, rfl, ?_⟩, ⟨Tree.isInt_encode (by decide) (by decide), _, rfl, ?_⟩, by simp⟩
    · have harray : IsArray IsListedCred ((o.ids.map fun id => (some id, (descriptorEntries id).tree)).map (·.1))
          (Tree.array ((o.ids.map fun id => (some id, (descriptorEntries id).tree)).map (·.2))).encode := by
        refine Tree.isArray_encode (by rw [List.length_map]; omega) (List.forall_mem_map.mpr fun id hid => ?_)
        exact isListedCred_descriptor (lt_of_le_of_lt (hids id hid) (by decide))
      rwa [List.map_map, List.map_map] at harray
    · refine Tree.isMap_encode (show 1 < 2 ^ 64 by decide) ?_ ?_
      · simp only [uvEntries, textEntry, List.forall_mem_singleton]
        exact ⟨Tree.isText_encode (by decide), o.uv, Tree.isBool_encode o.uv, fun _ => rfl⟩
      · intro k hk
        simp only [List.mem_cons, List.not_mem_nil, or_false] at hk
        rcases hk with rfl | rfl <;> rfl
  · intro k hk
    simp only [GetAssertion.known, List.mem_cons, List.not_mem_nil, or_false] at hk
    rcases hk with rfl | rfl | rfl | rfl | rfl | rfl | rfl <;> rfl

theorem length_assertion (hlen : (Utf8.encode o.rpId).length < 128) (hcount : o.ids.length ≤ 32)
    (hids : ∀ id ∈ o.ids, id.length ≤ 32) : (assertionEntries sha256 o).tree.encode.length < 2 ^ 64 := by
  have hkey : ∀ n : Int, (Tree.int n).encode.length ≤ 9 := Tree.length_int_le
  have hrp := Tree.length_text_le (Utf8.encode o.rpId)
  have hhash := Tree.length_bytes_le (sha256 o.clientData).toList
  rw [List.Vector.toList_length] at hhash
  have hlist : (Tree.array (o.ids.map fun id => (descriptorEntries id).tree)).encode.length ≤ 9 + o.ids.length * 128 := by
    have hle := Tree.length_array_le (List.forall_mem_map.mpr fun id hid => length_descriptor (hids id hid))
    rwa [List.length_map] at hle
  have huv : (uvEntries o.uv).tree.encode.length ≤ 9 := by
    cases o.uv <;> decide
  refine lt_of_le_of_lt (Tree.length_map_le (n := 5000) ?_) (by decide : 9 + 4 * 5000 < 2 ^ 64)
  have h1 := hkey 1
  have h2 := hkey 2
  have h3 := hkey 3
  have h5 := hkey 5
  simp only [assertionEntries, intEntry, List.map_cons, List.map_nil, List.forall_mem_cons]
  exact ⟨by omega, by omega, by omega, by omega, by simp⟩

end

/-! ## makeCredential -/

section
variable (sha256 : List UInt8 → Bytes 32) (o : CreationOptions)

def CreationOptions.rpNameOr : List Char := o.rpName.getD o.rpId

def CreationOptions.displayNameOr : List Char := o.displayName.getD o.userName

def paramEntries : TreeEntries (List UInt8) :=
  [textEntry (text "type") (.text (text "public-key")), textEntry (text "alg") (.int coseAlgEs256)]

def rpEntries : TreeEntries (List UInt8) :=
  [textEntry (text "id") (.text (Utf8.encode o.rpId)), textEntry (text "name") (.text (Utf8.encode o.rpNameOr))]

def userEntries : TreeEntries (List UInt8) :=
  [textEntry (text "id") (.bytes o.userId), textEntry (text "name") (.text (Utf8.encode o.userName)),
    textEntry (text "displayName") (.text (Utf8.encode o.displayNameOr))]

def rkEntries : TreeEntries (List UInt8) := [textEntry (text "rk") (.bool true), textEntry (text "uv") (.bool false)]

def creationEntries : TreeEntries Int :=
  [intEntry 1 (.bytes (sha256 o.clientData).toList),
    intEntry 2 (rpEntries o).tree,
    intEntry 3 (userEntries o).tree,
    intEntry 4 (.array [paramEntries.tree]),
    intEntry 7 rkEntries.tree]

end

/-- The lengths that the driver has room for. -/
structure CreationOptions.Fits (o : CreationOptions) : Prop where
  rpId : (Utf8.encode o.rpId).length < 128 ∧ 0 ∉ Utf8.encode o.rpId
  userId : o.userId.length ≤ 64
  userName : (Utf8.encode o.userName).length < 64 ∧ 0 ∉ Utf8.encode o.userName
  displayName : (Utf8.encode o.displayNameOr).length < 64 ∧ 0 ∉ Utf8.encode o.displayNameOr

section
variable {sha256 : List UInt8 → Bytes 32} {o : CreationOptions}

theorem mem_es256 : (text "public-key", coseAlgEs256) ∈ [(text "public-key", coseAlgEs256)] := List.mem_singleton.mpr rfl

/-- What the bridge means by the request. -/
def CreationOptions.request (sha256 : List UInt8 → Bytes 32) (h : o.Fits) : MakeCredential where
  clientDataHash := sha256 o.clientData
  rpId := ⟨Utf8.encode o.rpId, h.rpId⟩
  user :=
    { id := ⟨o.userId, h.userId⟩
      name := some ⟨Utf8.encode o.userName, h.userName⟩
      displayName := some ⟨Utf8.encode o.displayNameOr, h.displayName⟩ }
  credParams := [(text "public-key", coseAlgEs256)]
  es256 := mem_es256
  exclude := none
  extensions := none
  options := some { rk := some true, uv := some false, up := none }
  pinUvAuthParam := none
  pinUvAuthProtocol := none

theorem makeCredentialCbor_eq (h : o.Fits) (hrpName : (Utf8.encode o.rpNameOr).length < 65536) :
    makeCredentialCbor sha256 o = some (creationEntries sha256 o).tree.encode := by
  obtain ⟨htype, hpublic, hid, halg, hname, hdisplay, hrk, huv⟩ := encode_literals
  have hparam : (CborWriter.new.map 2 |>.text "type".toList |>.text "public-key".toList |>.text "alg".toList |>.int (-7)).build =
      some paramEntries.tree.encode := by decide +kernel
  have hsmall : ∀ {n : Nat}, n < 128 → n < 65536 := fun hn => hn.trans (by decide)
  have hhash := ((CborWriter.new_wrote.map (by decide : 5 < 65536)).int (n := 1) (by decide) (by decide)).bytes
    (v := (sha256 o.clientData).toList) (by rw [List.Vector.toList_length]; decide)
  have hrp := ((((hhash.int (n := 2) (by decide) (by decide)).map (by decide : 2 < 65536)).text (s := "id".toList)
    (by decide)).text (hsmall h.rpId.1)).text (s := "name".toList) (by decide) |>.text hrpName
  have huser := (((hrp.int (n := 3) (by decide) (by decide)).map (by decide : 3 < 65536)).text (s := "id".toList)
    (by decide)).bytes (lt_of_le_of_lt h.userId (by decide : 64 < 65536))
  have hnames := (((huser.text (s := "name".toList) (by decide)).text (h.userName.1.trans (by decide))).text
    (s := "displayName".toList) (by decide)).text (h.displayName.1.trans (by decide))
  have hparams := (hnames.int (n := 4) (by decide) (by decide)).array
    (show [paramEntries.tree].length < 65536 by decide)
  have hoptions := (((hparams.int (n := 7) (by decide) (by decide)).map (by decide : 2 < 65536)).text (s := "rk".toList)
    (by decide)).bool true
  have hall := (hoptions.text (s := "uv".toList) (by decide)).bool false
  rw [hid, hname, hdisplay, hrk, huv] at hall
  unfold makeCredentialCbor
  rw [hparam]
  refine hall.trans ?_
  simp [creationEntries, intEntry, rpEntries, userEntries, rkEntries, textEntry, TreeEntries.tree, Tree.encode,
    Tree.encodeEntries, Tree.encodeEntry]

/-- The rp's name is the one text that the driver does not bound. -/
theorem makeCredentialCbor_none (h : 65536 ≤ (Utf8.encode o.rpNameOr).length) : makeCredentialCbor sha256 o = none := by
  unfold makeCredentialCbor
  change Option.bind _ _ = none
  rw [Option.bind_eq_none_iff]
  intro param _
  have htext := fun w : CborWriter => w.text_long h
  simp only [CreationOptions.rpNameOr] at htext
  simp only [htext, CborWriter.threw_int, CborWriter.threw_map, CborWriter.threw_text, CborWriter.threw_bytes,
    CborWriter.threw_array, CborWriter.threw_bool]
  rfl

theorem params_encodes : IsArray IsCredParam [(text "public-key", coseAlgEs256)] (Tree.array [paramEntries.tree]).encode := by
  have hparam : IsCredParam (text "public-key", coseAlgEs256) paramEntries.tree.encode := by
    refine Tree.isMap_encode (by decide) ?_ (by decide)
    simp only [paramEntries, textEntry, List.forall_mem_cons]
    refine ⟨⟨Tree.isText_encode (by decide), ?_⟩, ⟨Tree.isText_encode (by decide), ?_⟩, by simp⟩
    · rw [if_true]
      exact Tree.isText_encode (by decide)
    · rw [if_neg (by decide), if_true]
      exact Tree.isInt_encode (by decide) (by decide)
  have hitems : ∀ i ∈ [((text "public-key", coseAlgEs256), paramEntries.tree)], IsCredParam i.1 i.2.encode :=
    List.forall_mem_singleton.mpr hparam
  exact Tree.isArray_encode (by decide) hitems

theorem creation_encodes (h : o.Fits) (hrpName : (Utf8.encode o.rpNameOr).length < 65536) :
    (CreationOptions.request sha256 h).Encodes (creationEntries sha256 o).tree.encode := by
  refine Tree.isMap_encode (show 5 < 2 ^ 64 by decide) ?_ ?_
  · simp only [creationEntries, intEntry, List.forall_mem_cons]
    refine ⟨⟨Tree.isInt_encode (by decide) (by decide), Tree.isBytes_encode (by rw [List.Vector.toList_length]; decide)⟩,
      ⟨Tree.isInt_encode (by decide) (by decide), ?_⟩, ⟨Tree.isInt_encode (by decide) (by decide), ?_⟩,
      ⟨Tree.isInt_encode (by decide) (by decide), ?_⟩, ⟨Tree.isInt_encode (by decide) (by decide), _, rfl, ?_⟩, by simp⟩
    · refine Tree.isMap_encode (show 2 < 2 ^ 64 by decide) ?_ (List.forall_mem_singleton.mpr rfl)
      simp only [rpEntries, textEntry, List.forall_mem_cons]
      refine ⟨⟨Tree.isText_encode (by decide), ?_⟩, ⟨Tree.isText_encode (by decide), ?_⟩, by simp⟩
      · rw [if_true]
        exact Tree.isText_encode (h.rpId.1.trans (by decide))
      · rw [if_neg (by decide)]
        exact ⟨_, Tree.isText_encode (hrpName.trans (by decide))⟩
    · refine Tree.isMap_encode (show 3 < 2 ^ 64 by decide) ?_ ?_
      · simp only [userEntries, textEntry, List.forall_mem_cons]
        exact ⟨⟨Tree.isText_encode (by decide), Tree.isBytes_encode (lt_of_le_of_lt h.userId (by decide))⟩,
          ⟨Tree.isText_encode (by decide), _, rfl, Tree.isText_encode (h.userName.1.trans (by decide))⟩,
          ⟨Tree.isText_encode (by decide), _, rfl, Tree.isText_encode (h.displayName.1.trans (by decide))⟩, by simp⟩
      · intro k hk
        simp only [List.mem_cons, List.not_mem_nil, or_false] at hk
        rcases hk with rfl | rfl | rfl <;> rfl
    · exact params_encodes
    · refine Tree.isMap_encode (show 2 < 2 ^ 64 by decide) ?_ ?_
      · simp only [rkEntries, textEntry, List.forall_mem_cons]
        exact ⟨⟨Tree.isText_encode (by decide), true, Tree.isBool_encode true, fun _ => rfl⟩,
          ⟨Tree.isText_encode (by decide), false, Tree.isBool_encode false, fun _ => rfl⟩, by simp⟩
      · intro k hk
        simp only [List.mem_cons, List.not_mem_nil, or_false] at hk
        rcases hk with rfl | rfl | rfl <;> rfl
  · intro k hk
    simp only [MakeCredential.known, List.mem_cons, List.not_mem_nil, or_false] at hk
    rcases hk with rfl | rfl | rfl | rfl | rfl | rfl | rfl | rfl | rfl <;> rfl

end

theorem length_creation {sha256 : List UInt8 → Bytes 32} {o : CreationOptions} (h : o.Fits)
    (hname : (Utf8.encode o.rpNameOr).length < 65536) : (creationEntries sha256 o).tree.encode.length < 2 ^ 64 := by
  have hkey : ∀ n : Int, (Tree.int n).encode.length ≤ 9 := Tree.length_int_le
  have hlits : ∀ s ∈ [text "id", text "name", text "displayName"], (Tree.text s).encode.length ≤ 12 := by decide
  have hid := hlits (text "id") (by simp)
  have hnamekey := hlits (text "name") (by simp)
  have hdisplaykey := hlits (text "displayName") (by simp)
  have hhash := Tree.length_bytes_le (sha256 o.clientData).toList
  rw [List.Vector.toList_length] at hhash
  have hrp : (rpEntries o).tree.encode.length ≤ 9 + 2 * 70000 := by
    have hrpid := Tree.length_text_le (Utf8.encode o.rpId)
    have hrpname := Tree.length_text_le (Utf8.encode o.rpNameOr)
    have hlen := h.rpId.1
    refine Tree.length_map_le (n := 70000) ?_
    simp only [rpEntries, textEntry, List.map_cons, List.map_nil, List.forall_mem_cons]
    exact ⟨by omega, by omega, by simp⟩
  have huser : (userEntries o).tree.encode.length ≤ 9 + 3 * 100 := by
    have huserid := Tree.length_bytes_le o.userId
    have husername := Tree.length_text_le (Utf8.encode o.userName)
    have hdisplay := Tree.length_text_le (Utf8.encode o.displayNameOr)
    have hlenid := h.userId
    have hlenname := h.userName.1
    have hlendisplay := h.displayName.1
    refine Tree.length_map_le (n := 100) ?_
    simp only [userEntries, textEntry, List.map_cons, List.map_nil, List.forall_mem_cons]
    exact ⟨by omega, by omega, by omega, by simp⟩
  have hparams : (Tree.array [paramEntries.tree]).encode.length ≤ 64 := by decide
  have hrk : rkEntries.tree.encode.length ≤ 64 := by decide
  refine lt_of_le_of_lt (Tree.length_map_le (n := 200000) ?_) (by decide : 9 + 5 * 200000 < 2 ^ 64)
  have h1 := hkey 1
  have h2 := hkey 2
  have h3 := hkey 3
  have h4 := hkey 4
  have h7 := hkey 7
  simp only [creationEntries, intEntry, List.map_cons, List.map_nil, List.forall_mem_cons]
  exact ⟨by omega, by omega, by omega, by omega, by omega, by simp⟩

/-- **The driver reads what the bridge writes.** Neither side throws but at a
blank rp id of an assertion, or at an rp name too long for the writer. -/
theorem bridge_parsed (sha256 : List UInt8 → Bytes 32) :
    (∀ o : AssertionOptions, (Utf8.encode o.rpId).length < 128 → 0 ∉ Utf8.encode o.rpId →
      o.ids.length ≤ 32 → (∀ id ∈ o.ids, id.length ≤ 32) →
      Kotlin.isBlank o.rpId = true ∧ getAssertionCbor sha256 o = none ∨
      ∃ bytes, getAssertionCbor sha256 o = some bytes ∧ ParsesOnly parseGetAssert bytes
        { GetAssertReq.zero with
          haveClientDataHash := true
          haveRpId := true
          uv := o.uv
          clientDataHash := sha256 o.clientData
          rpId := Utf8.encode o.rpId
          allow := o.ids.map some }) ∧
    ∀ (o : CreationOptions) (h : o.Fits),
      65536 ≤ (Utf8.encode o.rpNameOr).length ∧ makeCredentialCbor sha256 o = none ∨
      ∃ bytes, makeCredentialCbor sha256 o = some bytes ∧ ParsesOnly parseMakeCred bytes
        { MakeCredReq.zero with
          haveClientDataHash := true
          haveRpId := true
          haveUserId := true
          rk := true
          uv := false
          clientDataHash := sha256 o.clientData
          rpId := Utf8.encode o.rpId
          userId := ⟨o.userId, h.userId⟩
          userName := Utf8.encode o.userName
          userDisplay := Utf8.encode o.displayNameOr } := by
  constructor
  · intro o hlen hnul hcount hids
    cases hblank : Kotlin.isBlank o.rpId with
    | true => exact .inl ⟨rfl, by rw [getAssertionCbor, if_pos hblank]⟩
    | false =>
      refine .inr ⟨_, getAssertionCbor_eq hblank hlen hcount hids, ?_⟩
      have hfits : ∀ list ∈ (o.request sha256 hlen hnul).allow, ListFits list := by
        rintro list ⟨⟩
        refine ⟨by rw [List.length_map]; exact hcount, fun id hid => hids id ?_⟩
        simpa using hid
      exact parsesOnly_of_reads (length_assertion hlen hcount hids) fun _ hdepth =>
        GetAssertion.parseGetAssert_reads hfits (assertion_encodes hlen hnul hcount hids) hdepth
  · intro o h
    by_cases hrpName : (Utf8.encode o.rpNameOr).length < 65536
    · refine .inr ⟨_, makeCredentialCbor_eq h hrpName, ?_⟩
      have hfits : ∀ list ∈ (CreationOptions.request sha256 h).exclude, ListFits list := by
        rintro list ⟨⟩
      exact parsesOnly_of_reads (length_creation h hrpName) fun _ hdepth =>
        MakeCredential.parseMakeCred_reads hfits (creation_encodes h hrpName) hdepth
    · exact .inl ⟨Nat.le_of_not_lt hrpName, makeCredentialCbor_none (Nat.le_of_not_lt hrpName)⟩

theorem bridge_parsed_small :
    (∃ bytes, getAssertionCbor (fun _ => List.Vector.replicate 32 7)
        ⟨"example.com".toList, [], some [[1, 2], []], "required".toList⟩ = some bytes ∧ ParsesOnly parseGetAssert bytes
      { GetAssertReq.zero with
        haveClientDataHash := true
        haveRpId := true
        uv := true
        clientDataHash := List.Vector.replicate 32 7
        rpId := text "example.com"
        allow := [some [1, 2], some []] }) ∧
    ∃ bytes, makeCredentialCbor (fun _ => List.Vector.replicate 32 7)
        ⟨[], "example.com".toList, none, [9], "u".toList, none⟩ = some bytes ∧ ParsesOnly parseMakeCred bytes
      { MakeCredReq.zero with
        haveClientDataHash := true
        haveRpId := true
        haveUserId := true
        rk := true
        uv := false
        clientDataHash := List.Vector.replicate 32 7
        rpId := text "example.com"
        userId := ⟨[9], by decide⟩
        userName := text "u"
        userDisplay := text "u" } :=
  ⟨((bridge_parsed _).1 ⟨"example.com".toList, [], some [[1, 2], []], "required".toList⟩ (by decide) (by decide)
      (by decide) (by decide)).resolve_left (by decide),
    ((bridge_parsed _).2 ⟨[], "example.com".toList, none, [9], "u".toList, none⟩
      ⟨by decide, by decide, by decide, by decide⟩).resolve_left (by decide)⟩

end AbkFido
