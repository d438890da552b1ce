/-
`BiometricAuthBridge`: the answer to an authorization prompt, on its way from
the prompt's activity to `FidoSyncService`.

The service loop and the main thread, on which every
`FidoAuthPromptActivity` runs, share the bridge. Any number of activities
can be around: a prompt whose request has timed out is not taken down, and
an activity also answers when it is destroyed.

For the theorems an answer in the queue also says whose it is, and the state
keeps every result an activity reported and every decision the service wrote
to `auth_decision`.
-/
import AbkFido.Lib.Run

namespace AbkFido

/-- An element of `authResultQueue`, with the request whose activity put it
there; the service's own `finish` is nobody's. -/
structure Answer where
  success : Bool
  giver : Option Int

structure PromptActivity where
  requestId : Int
  /-- The biometric prompt is shown and can call back. -/
  prompting : Bool
  isResultSent : Bool

/-- `allow` or `deny`, and the answer that was taken for it. -/
structure AuthDecision where
  requestId : Int
  allowed : Bool
  answer : Option Answer

/-- Where the service loop is. -/
inductive ServicePhase
  | idle
  /-- In `begin`: the queue is cleared, `expectedRequestId` is next. -/
  | expecting (requestId : Int)
  /-- In `begin`: `isAuthenticating` is next. -/
  | beginning (requestId : Int)
  | launching (requestId : Int)
  /-- The launch failed and the request is refused; `finish(false)` is next. -/
  | refusing
  /-- In that `finish`: `isAuthenticating` is next. -/
  | finishing
  | awaiting (requestId : Int)
  /-- `poll` has returned; `isAuthenticating` is next, and then the decision. -/
  | polled (requestId : Int) (result : Option Answer)
  | deciding (requestId : Int) (result : Option Answer)

structure Prompting where
  authResultQueue : Option Answer
  isAuthenticating : Bool
  expectedRequestId : Int
  lastPromptRequestId : Int
  service : ServicePhase
  activities : List PromptActivity
  /-- The main thread is in `finish`, and its answer is offered. -/
  mainFinishing : Bool
  reports : List (Int × Bool)
  decisions : List AuthDecision

inductive PromptAction
  /-- The loop reads a pending request. -/
  | pending (requestId : Int) (fidoEnabled : Bool)
  /-- The service thread makes its next assignment. -/
  | proceed
  | launch (success : Bool)
  | take
  | timeout
  /-- The thread is interrupted in `poll`; the loop goes on. -/
  | interrupted
  | create (requestId : Int) (canAuthenticate : Bool)
  /-- `onAuthenticationSucceeded` or `onAuthenticationError` -/
  | callback (i : Nat) (success : Bool)
  | destroy (i : Nat)
  /-- The main thread makes its next assignment. -/
  | mainProceed

namespace Prompting

def init : Prompting :=
  { authResultQueue := none, isAuthenticating := false, expectedRequestId := -1, lastPromptRequestId := -1,
    service := .idle, activities := [], mainFinishing := false, reports := [], decisions := [] }

/-- `authResultQueue.offer`: the queue has one place. -/
def offer (s : Prompting) (answer : Answer) : Prompting :=
  { s with authResultQueue := s.authResultQueue.or (some answer) }

def decide (s : Prompting) (requestId : Int) (allowed : Bool) (answer : Option Answer) : Prompting :=
  { s with decisions := ⟨requestId, allowed, answer⟩ :: s.decisions }

/-- `sendResultAndFinish` of an activity whose result is not sent, up to the offer. -/
def sendResult (s : Prompting) (requestId : Int) (success : Bool) : Prompting :=
  { s.offer ⟨success, some requestId⟩ with mainFinishing := true, reports := (requestId, success) :: s.reports }

/-- `sendResultAndFinish` of the activity at `i`. -/
def sendResultAndFinish (s : Prompting) (i : Nat) (activity : PromptActivity) (success : Bool) : Prompting :=
  if activity.isResultSent then s
  else { s.sendResult activity.requestId success with
    activities := s.activities.set i { activity with isResultSent := true } }

/-- `onCreate` -/
def onCreate (s : Prompting) (requestId : Int) (canAuthenticate : Bool) : Prompting :=
  if requestId ≤ 0 ∨ requestId ≠ s.expectedRequestId then
    { s with activities := s.activities ++ [⟨requestId, false, false⟩] }
  else if canAuthenticate then { s with activities := s.activities ++ [⟨requestId, true, false⟩] }
  else { s.sendResult requestId false with activities := s.activities ++ [⟨requestId, false, true⟩] }

/-- `maybeHandlePendingAuth`, up to the `clear` of `begin`. -/
def handlePending (s : Prompting) (requestId : Int) (fidoEnabled : Bool) : Prompting :=
  if !fidoEnabled then s.decide requestId false none
  else if requestId = s.lastPromptRequestId ∨ s.isAuthenticating then s
  else { s with lastPromptRequestId := requestId, authResultQueue := none, service := .expecting requestId }

/-- The result of `poll` decides. -/
def decideResult (s : Prompting) (requestId : Int) : Option Answer → Prompting
  | some answer => s.decide requestId answer.success (some answer)
  | none => s.decide requestId false none

def step (s : Prompting) : PromptAction → Option Prompting
  | .pending requestId fidoEnabled =>
    match s.service with
    | .idle => some (s.handlePending requestId fidoEnabled)
    | _ => none
  | .proceed =>
    match s.service with
    | .expecting r => some { s with expectedRequestId := r, service := .beginning r }
    | .beginning r => some { s with isAuthenticating := true, service := .launching r }
    | .refusing => some { s.offer ⟨false, none⟩ with service := .finishing }
    | .finishing => some { s with isAuthenticating := false, service := .idle }
    | .polled r result => some { s with isAuthenticating := false, service := .deciding r result }
    | .deciding r result => some { s.decideResult r result with service := .idle }
    | .idle | .launching _ | .awaiting _ => none
  | .launch success =>
    match s.service with
    | .launching r =>
      if success then some { s with service := .awaiting r }
      else some { s.decide r false none with service := .refusing }
    | _ => none
  | .take =>
    match s.service, s.authResultQueue with
    | .awaiting r, some answer => some { s with authResultQueue := none, service := .polled r (some answer) }
    | _, _ => none
  | .timeout =>
    match s.service, s.authResultQueue with
    | .awaiting r, none => some { s with service := .polled r none }
    | _, _ => none
  | .interrupted =>
    match s.service with
    | .awaiting _ => some { s with isAuthenticating := false, service := .idle }
    | _ => none
  | .create requestId canAuthenticate =>
    if s.mainFinishing then none else some (s.onCreate requestId canAuthenticate)
  | .callback i success =>
    if s.mainFinishing then none
    else s.activities[i]?.bind fun activity =>
      if activity.prompting then some (s.sendResultAndFinish i activity success) else none
  | .destroy i =>
    if s.mainFinishing then none
    else s.activities[i]?.map fun activity => s.sendResultAndFinish i activity false
  | .mainProceed => if s.mainFinishing then some { s with isAuthenticating := false, mainFinishing := false } else none

/-! ## Whose answer it is -/

/-- Every `allow` goes to a request whose own activity reported success, and
no `deny` comes from the activity of another. -/
def Paired (s : Prompting) : Prop :=
  ∀ d ∈ s.decisions, (d.allowed = true → (d.requestId, true) ∈ s.reports) ∧
    (d.allowed = false → ∀ answer r, d.answer = some answer → answer.giver = some r → r = d.requestId)

/-- The request whose answer the service is about to take from the queue. -/
def asking (s : Prompting) : Option Int :=
  match s.service with
  | .expecting r | .beginning r | .launching r | .awaiting r => some r
  | _ => none

/-- The request of the activity that a step lets report. -/
def reporter (s : Prompting) : PromptAction → Option Int
  | .create requestId canAuthenticate =>
    if 0 < requestId ∧ requestId = s.expectedRequestId ∧ !canAuthenticate then some requestId else none
  | .callback i _ | .destroy i => s.activities[i]?.bind fun activity =>
    if activity.isResultSent then none else some activity.requestId
  | _ => none

/-- While an answer is awaited and none is there, the activity of no other request reports. -/
def Undisturbed (s : Prompting) (a : PromptAction) : Prop :=
  ∀ r q, s.asking = some r → s.authResultQueue = none → s.reporter a = some q → q = r

/-- An answer that the activity of `r` reported. -/
def BelongsTo (s : Prompting) (r : Int) (answer : Answer) : Prop :=
  answer.giver = some r ∧ (answer.success = true → (r, true) ∈ s.reports)

/-- What the service holds in its hands. -/
def result (s : Prompting) : Option (Int × Answer) :=
  match s.service with
  | .polled r result | .deciding r result => result.map ((r, ·))
  | _ => none

structure Sound (s : Prompting) : Prop where
  paired : s.Paired
  queued : ∀ r answer, s.asking = some r → s.authResultQueue = some answer → s.BelongsTo r answer
  taken : ∀ r answer, s.result = some (r, answer) → s.BelongsTo r answer

end Prompting

end AbkFido
