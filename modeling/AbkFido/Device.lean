/-
The driver as a whole: two transports, each with a worker that serves one
message at a time, one device lock, and the nodes the companion app uses.

A step is what one holder of the lock does until it lets go, so a gated
command takes several: its message arrives, it runs up to the gate, its wait
ends, and it runs on with the lock held again. Steps of the two workers, the
companion's and the clock's come in any order.

The device also keeps, for its theorems only, the first decision accepted
for each open prompt and a log of what happened when; no step reads either.
-/
import AbkFido.Command
import AbkFido.Lib.Run

namespace AbkFido

/-- Where a CTAP message comes in: the USB gadget or `/dev/abk_fido_ctap`. -/
inductive Transport
  | usb
  | ctap
  deriving DecidableEq

instance : Fintype Transport := ⟨{.usb, .ctap}, fun t => by cases t <;> decide⟩

/-- What a transport's `rx_work` is doing. -/
inductive Worker
  | idle
  /-- A parsed command, about to take the lock. -/
  | ready (cmd : Command)
  /-- In the wait of prompt `r`; `first` is the first decision accepted for it. -/
  | waiting (r : UInt32) (first : Option Bool) (rest : Rest)
  /-- Out of the wait, about to retake the lock. -/
  | awake (r : UInt32) (first : Option Bool) (timedOut : Bool) (rest : Rest)
  /-- In a parse that does not end. -/
  | hung

/-- The prompt a worker has open, and the first decision accepted for it. -/
def Worker.prompt : Worker → Option (UInt32 × Option Bool)
  | .waiting r first _ | .awake r first _ _ => some (r, first)
  | _ => none

/-- What a worker holds while its prompt is open. -/
def Worker.rest : Worker → Option Rest
  | .waiting _ _ rest | .awake _ _ _ rest => some rest
  | _ => none

/-- A decision accepted while `r` was the request on record, as the worker's prompt takes it. -/
def Worker.hear (r : UInt32) (allow : Bool) : Worker → Worker
  | .waiting r' first rest => .waiting r' (if r' = r then first <|> some allow else first) rest
  | .awake r' first timedOut rest => .awake r' (if r' = r then first <|> some allow else first) timedOut rest
  | w => w

/-- Which command's answer it is. -/
inductive Gated
  | makeCredential
  | getAssertion
  | getNextAssertion
  | reset
  | selection
  deriving DecidableEq

def Rest.gated : Rest → Gated
  | .makeCredential _ | .selectionMakeCredential => .makeCredential
  | .getAssertion .. => .getAssertion
  | .getNextAssertion .. => .getNextAssertion
  | .reset => .reset
  | .selection => .selection

/-- What is logged. -/
inductive Event
  /-- A gated command came to the gate. -/
  | asked (t : Transport)
  | denied (t : Transport)
  | granted (t : Transport)
  | opened (t : Transport) (r : UInt32)
  /-- A decision was accepted while `r` was the request on record. -/
  | accepted (r : UInt32) (allow : Bool)
  /-- The call that opened `r` returned; `first` is the first decision accepted for `r`. -/
  | ended (t : Transport) (r : UInt32) (first : Option Bool) (ok : Bool)
  | effect (t : Transport) (e : Effect)
  | succeeded (t : Transport) (cmd : Gated)

structure Device where
  core : Core
  auth : Auth
  /-- Jiffies since long before the boot; the counter is this modulo 2^64. -/
  clock : Nat
  worker : Transport → Worker
  /-- The newest entry first. -/
  log : List (Nat × Event)

namespace Device

/-- The device at boot. -/
def boot (file : File) (clock : Nat) : Device where
  core := { storage := .boot file, assert := none }
  auth := .boot
  clock := clock
  worker _ := .idle
  log := []

def jiffies (d : Device) : UInt64 := .ofNat d.clock

def setWorker (t : Transport) (w : Worker) (d : Device) : Device := { d with worker := Function.update d.worker t w }

def note (e : Event) (d : Device) : Device := { d with log := (d.clock, e) :: d.log }

def setStorage (s : Storage) (d : Device) : Device := { d with core := { d.core with storage := s } }

def noteAll (es : List Event) (d : Device) : Device := es.foldl (fun d e => d.note e) d

end Device

/-- What can happen. -/
inductive Action
  | tick (n : Nat)
  | receive (t : Transport) (msg : List UInt8) (allocOk : Bool)
  /-- The worker takes the lock and runs its command up to the gate, and on if that grants. -/
  | enter (t : Transport) (io : Io)
  /-- The wait finds `auth_decided` set. -/
  | wake (t : Transport)
  /-- The wait's 30 seconds are over and `auth_decided` is clear. -/
  | expire (t : Transport)
  | resume (t : Transport) (io : Io)
  | decide (allow : Bool) (id : Option UInt32)
  | blobRead (load : ReadIo) (ids : FreshIds)
  | blobWrite (off : Nat) (buf : List UInt8) (allocOk : Bool)
  /-- `reload_store` and `restore_metadata` -/
  | restore (allocOk : Bool) (io : ReadIo)
  /-- The control command `persist`. -/
  | persist (io : Option WriteIo)
  /-- The control command `pin_reset`. -/
  | pinReset (io : Option WriteIo)

namespace Device

section
variable (P : Platform)

/-- The second part of a command, and its answer. -/
def conclude (t : Transport) (io : Io) (rest : Rest) (d : Device) : Device :=
  let o := finish P io d.jiffies rest d.core
  let d := ({ d with core := o.core }.setWorker t .idle).noteAll (o.effects.map (.effect t))
  match o.result with
  | .ok _ => d.note (.succeeded t rest.gated)
  | .error _ => d

/-- A command takes the lock. -/
def enter (t : Transport) (io : Io) (cmd : Command) (d : Device) : Device :=
  match start P io d.jiffies cmd d.core with
  | (.done _, c) => { d with core := c }.setWorker t .idle
  | (.ask ask rest, c) =>
    match authBeginLocked d.jiffies ask d.auth with
    | (.denied, a) => (({ d with core := c, auth := a }.note (.asked t)).note (.denied t)).setWorker t .idle
    | (.granted, a) =>
      (({ d with core := c, auth := a }.note (.asked t)).note (.granted t)).conclude P t io rest
    | (.prompt r, a) =>
      (({ d with core := c, auth := a }.note (.asked t)).note (.opened t r)).setWorker t (.waiting r none rest)

/-- A command whose wait is over retakes the lock. -/
def resume (t : Transport) (io : Io) (r : UInt32) (first : Option Bool) (timedOut : Bool) (rest : Rest) (d : Device) :
    Device :=
  match authEndLocked P d.jiffies (.ofTimeout timedOut) d.auth with
  | (.ok _, a) => ({ d with auth := a }.note (.ended t r first true)).conclude P t io rest
  | (.error _, a) => ({ d with auth := a }.note (.ended t r first false)).setWorker t .idle

/-- `auth_decision` or a control command. -/
def authDecide (allow : Bool) (id : Option UInt32) (d : Device) : Device :=
  match authDecideLocked allow id d.auth with
  | (.ok _, a) =>
    { d with auth := a, worker := fun t => (d.worker t).hear d.auth.requestId allow }.note
      (.accepted d.auth.requestId allow)
  | (.error _, a) => { d with auth := a }

/-- What one step makes of the device, if it can be taken. -/
def step (d : Device) : Action → Option Device
  | .tick n => some { d with clock := d.clock + n }
  | .receive t msg allocOk =>
    match d.worker t with
    | .idle =>
      let d := { d with core := if endsContinuation msg then d.core.clearAssertState else d.core }
      match parseCommand allocOk msg with
      | none => some (d.setWorker t .hung)
      | some (.error _) => some d
      | some (.ok cmd) => some (d.setWorker t (.ready cmd))
    | _ => none
  | .enter t io =>
    match d.worker t with
    | .ready cmd => some (d.enter P t io cmd)
    | _ => none
  | .wake t =>
    match d.worker t with
    | .waiting r first rest => if d.auth.decided then some (d.setWorker t (.awake r first false rest)) else none
    | _ => none
  | .expire t =>
    match d.worker t with
    | .waiting r first rest => if d.auth.decided then none else some (d.setWorker t (.awake r first true rest))
    | _ => none
  | .resume t io =>
    match d.worker t with
    | .awake r first timedOut rest => some (d.resume P t io r first timedOut rest)
    | _ => none
  | .decide allow id => some (d.authDecide allow id)
  | .blobRead load ids => some (d.setStorage (loadStoreLocked P load ids d.core.storage))
  | .blobWrite off buf allocOk => some (d.setStorage (storeBlobWrite off buf allocOk d.core.storage).2)
  | .restore allocOk io => some (d.setStorage (restorePersistedStoreLocked allocOk io d.core.storage).2)
  | .persist io => some (d.setStorage (maybePersistLocked P io d.core.storage))
  | .pinReset io => some (d.setStorage (maybePersistLocked P io d.core.storage.pinReset))

end

end Device

/-- A build without persistence, whose digests can be read. -/
def Platform.volatile : Platform where
  persistEnabled := false
  hz := 250
  sha256 := id
  hz_le := hz_usual

/-- Random bytes that are all alike, and a signature. -/
def Io.plain : Io where
  load := .ok
  ids := ⟨zeros 16, zeros 32⟩
  persist := none
  credId := .replicate 32 1
  hmacSecret := .replicate 32 2
  keyPair := .ok (.replicate 32 3, .replicate 64 4)
  sign _ _ := .ok [0x30]
  hmacGetSecret _ _ := .error errInvalidOption

end AbkFido
