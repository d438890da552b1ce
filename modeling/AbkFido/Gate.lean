/-
The approval gate: one record, shared by every command that waits for the
user, with a grant window after an approval and a cooldown after a refusal.

`abk_fido_auth_begin_locked` releases the device lock while it waits, so it
is two functions here: `authBeginLocked` up to the wait, and `authEndLocked`
from the moment the lock is held again.
-/
import AbkFido.Persist

namespace AbkFido

/-! ## Time -/

/-- `msecs_to_jiffies`, rounding up. -/
def msecsToJiffies (P : Platform) (ms : Nat) : UInt64 := .ofNat ((ms * P.hz + 999) / 1000)

/-- `time_before(a, b)`: the difference is negative as a `long`. -/
def timeBefore (a b : UInt64) : Bool := 2 ^ 63 ≤ (a - b).toNat

/-- Deadlines are compared as they should be while they are near. -/
theorem timeBefore_of_lt {n e : Nat} (h : n < e) (hnear : e ≤ n + 2 ^ 63) :
    timeBefore (.ofNat n) (.ofNat e) = true := by
  simp only [timeBefore, decide_eq_true_eq, UInt64.toNat_sub, UInt64.toNat_ofNat']
  omega

theorem timeBefore_of_le {n e : Nat} (h : e ≤ n) (hnear : n < e + 2 ^ 63) :
    timeBefore (.ofNat n) (.ofNat e) = false := by
  simp only [timeBefore, decide_eq_false_iff_not, UInt64.toNat_sub, UInt64.toNat_ofNat']
  omega

/-- `ABK_FIDO_AUTH_CACHE_MS` -/
def authCacheMs : Nat := 3000

/-- `ABK_FIDO_AUTH_DENY_MS` -/
def authDenyMs : Nat := 3000

/-- `ABK_FIDO_ASSERT_WINDOW_MS` -/
def assertWindowMs : Nat := 30000

/-! ## The record -/

/-- The `auth_` fields of `struct abk_fido_device`. -/
structure Auth where
  pending : Bool
  decided : Bool
  allowed : Bool
  requestId : UInt32
  pendingCtapCmd : UInt8
  pendingUv : Bool
  pendingRk : Bool
  pendingRpId : List UInt8
  cacheValid : Bool
  cacheExpires : UInt64
  denyValid : Bool
  denyExpires : UInt64

def Auth.boot : Auth where
  pending := false
  decided := false
  allowed := false
  requestId := 0
  pendingCtapCmd := 0
  pendingUv := false
  pendingRk := false
  pendingRpId := []
  cacheValid := false
  cacheExpires := 0
  denyValid := false
  denyExpires := 0

/-- What a command asks the gate for. -/
structure Ask where
  ctapCmd : UInt8
  rpId : List UInt8
  uv : Bool
  rk : Bool

/-- How far `abk_fido_auth_begin_locked` gets without waiting. -/
inductive Begin
  /-- The cooldown: `-EPERM`. -/
  | denied
  /-- The grant window: 0. -/
  | granted
  /-- A prompt is open under this id, and the lock is released. -/
  | prompt (requestId : UInt32)
  deriving DecidableEq

/-- How the wait ended: the sign of `wait_ret`. -/
inductive WaitRet
  | interrupted
  | timeout
  | woken
  deriving DecidableEq

/-- A kernel worker gets no signals: its wait times out or is woken. -/
def WaitRet.ofTimeout (timedOut : Bool) : WaitRet := if timedOut then .timeout else .woken

/-- Within the cooldown. -/
def Auth.denies (now : UInt64) (a : Auth) : Bool := a.denyValid && timeBefore now a.denyExpires

/-- Within the grant window. -/
def Auth.grants (now : UInt64) (a : Auth) : Bool := a.cacheValid && timeBefore now a.cacheExpires

section
variable (P : Platform) (now : UInt64)

/-- `abk_fido_auth_start_cooldown_locked` -/
def authStartCooldownLocked (a : Auth) : Auth :=
  { a with cacheValid := false, denyValid := true, denyExpires := now + msecsToJiffies P authDenyMs }

/-- The record of a prompt that has just been opened. -/
def Auth.openPrompt (ask : Ask) (a : Auth) : Auth :=
  { a with
    denyValid := false
    cacheValid := false
    requestId := a.requestId + 1
    pending := true
    decided := false
    allowed := false
    pendingCtapCmd := ask.ctapCmd
    pendingUv := ask.uv
    pendingRk := ask.rk
    pendingRpId := ask.rpId.take 127 }

/-- `abk_fido_auth_begin_locked`, until it returns or releases the lock. -/
def authBeginLocked (ask : Ask) (a : Auth) : Begin × Auth :=
  if a.denies now then (.denied, a)
  -- The cooldown, if there was one, is over.
  else if a.grants now then (.granted, { a with denyValid := false })
  else (.prompt (a.requestId + 1), a.openPrompt ask)

/-- The rest of `abk_fido_auth_begin_locked`, once it holds the lock again. -/
def authEndLocked (ret : WaitRet) (a : Auth) : Except Errno Unit × Auth :=
  match ret with
  | .interrupted => (.error .eperm, { a with pending := false })
  | .timeout => (.error .eperm, authStartCooldownLocked P now { a with pending := false, decided := false })
  | .woken =>
    let a := { a with pending := false, decided := false }
    if a.allowed then
      (.ok (), { a with denyValid := false, cacheValid := true, cacheExpires := now + msecsToJiffies P authCacheMs })
    else (.error .eperm, authStartCooldownLocked P now a)

end

/-- `abk_fido_auth_decide_locked`; `id` is the request id the companion
names, if it names one. -/
def authDecideLocked (allow : Bool) (id : Option UInt32) (a : Auth) : Except Errno Unit × Auth :=
  if !a.pending then (.error .enoent, a)
  else if id.any (· != a.requestId) then (.error .estale, a)
  else (.ok (), { a with allowed := allow, decided := true, cacheValid := if allow then a.cacheValid else false })

end AbkFido
