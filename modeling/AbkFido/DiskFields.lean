/-
The members of the disk structures as fields of their layouts.

Each field's offset comes out of its place in the structure, so the offsets
and lengths the companion has as constants can be checked against them; what
a read or a write there means for the structure is then `Layout.Field`'s.
-/
import AbkFido.Store

namespace AbkFido

open Layout Layout.Field

/-! ## A slot -/

namespace DiskCredV1

def inUseField : Field diskCredV1Codec Codec.u8 := (fst _ _).iso _

def residentField : Field diskCredV1Codec Codec.u8 := (after _ (fst _ _)).iso _

def userIdLenField : Field diskCredV1Codec Codec.u8 := (after _ (after _ (fst _ _))).iso _

def credIdField : Field diskCredV1Codec (Codec.bytes 32) :=
  (after _ (after _ (after _ (after _ (fst _ _))))).iso _

def userIdField : Field diskCredV1Codec (Codec.bytes 64) :=
  (after _ (after _ (after _ (after _ (after _ (fst _ _)))))).iso _

def rpIdField : Field diskCredV1Codec (Codec.bytes 128) :=
  (after _ (after _ (after _ (after _ (after _ (after _ (fst _ _))))))).iso _

def userNameField : Field diskCredV1Codec (Codec.bytes 64) :=
  (after _ (after _ (after _ (after _ (after _ (after _ (after _ (fst _ _)))))))).iso _

def userDisplayField : Field diskCredV1Codec (Codec.bytes 64) :=
  (after _ (after _ (after _ (after _ (after _ (after _ (after _ (after _ (fst _ _))))))))).iso _

def privKeyField : Field diskCredV1Codec (Codec.bytes 32) :=
  (after _ (after _ (after _ (after _ (after _ (after _ (after _ (after _ (after _ (fst _ _)))))))))).iso _

def pubKeyField : Field diskCredV1Codec (Codec.bytes 64) :=
  (after _ (after _ (after _ (after _ (after _ (after _ (after _ (after _ (after _ (snd _ _)))))))))).iso _

end DiskCredV1

namespace DiskCred

/-- `memset(&slot, 0, sizeof(slot))` -/
def zero : DiskCred where
  inUse := 0
  resident := 0
  userIdLen := 0
  reserved0 := 0
  credId := zeros 32
  userId := zeros 64
  rpId := zeros 128
  userName := zeros 64
  userDisplay := zeros 64
  privKey := zeros 32
  pubKey := zeros 64
  hmacSecret := zeros 32

theorem enc_zero : diskCredCodec.enc zero = List.replicate diskCredCodec.size 0 := by decide +kernel

/-- A version 2 slot starts with a version 1 slot. -/
def v1Field : Field diskCredCodec diskCredV1Codec := (fst _ _).iso _

def hmacSecretField : Field diskCredCodec (Codec.bytes 32) := (snd _ _).iso _

end DiskCred

/-! ## The structure -/

namespace StoreDisk

variable {κ : Type} {slot : Codec κ}

def magicField : Field (storeDiskCodec slot) Codec.u32le := (fst _ _).iso _

def versionField : Field (storeDiskCodec slot) Codec.u32le := (after _ (fst _ _)).iso _

def crc32Field : Field (storeDiskCodec slot) Codec.u32le := (after _ (after _ (fst _ _))).iso _

def credsField : Field (storeDiskCodec slot) (Codec.array maxCreds slot) :=
  (after _ (after _ (after _ (after _ (after _ (after _ (after _ (after _ (after _ (snd _ _)))))))))).iso _

def slotField (i : Fin maxCreds) : Field (storeDiskCodec slot) slot := credsField.comp (elem slot i)

def setSlot (d : StoreDisk κ) (i : Fin maxCreds) (c : κ) : StoreDisk κ :=
  { d with creds := Function.update d.creds i c }

@[simp] theorem setSlot_setSlot (d : StoreDisk κ) (i : Fin maxCreds) (c c' : κ) :
    (d.setSlot i c).setSlot i c' = d.setSlot i c' := by
  simp [setSlot]

@[simp] theorem slotField_get (d : StoreDisk κ) (i : Fin maxCreds) : (@slotField κ slot i).get d = d.creds i := rfl

@[simp] theorem slotField_set (d : StoreDisk κ) (i : Fin maxCreds) (c : κ) :
    (@slotField κ slot i).set c d = d.setSlot i c := rfl

/-- The store a structure holds, for a reading of its slots. -/
def store (load : κ → Credential) (d : StoreDisk κ) : Store where
  pinSet := d.pinSet != 0
  aaguid := d.aaguid
  pinHash := d.pinHash
  pinToken := d.pinToken
  pinRetries := d.pinRetries
  signCount := d.signCount
  creds i := load (d.creds i)

end StoreDisk

end AbkFido
