/-
What the commands do to the assertion continuation.

`getAssertion` drops it when it takes the lock and leaves one of its own when
it has answered with the first of several slots; `getNextAssertion` drops it
or moves it on by one; no other command touches it from the moment it holds
the lock, its arrival having ended it.
-/
import AbkFido.CommandFacts
import AbkFido.Reply

namespace AbkFido

variable {P : Platform}

/-- A command, or the rest of one, that belongs to the two assertion commands. -/
def Command.walks : Command → Bool
  | .getAssertion _ | .getNextAssertion => true
  | _ => false

def Rest.walks : Rest → Bool
  | .getAssertion .. | .getNextAssertion .. => true
  | _ => false

/-- Where an answered `getAssertion` leaves off. -/
def continuationOf (P : Platform) (now : UInt64) (req : GetAssertReq) (slots : List (Fin maxCreds)) : Continuation where
  slots := slots
  next := 1
  clientDataHash := req.clientDataHash
  rpId := req.rpId
  expires := now + msecsToJiffies P assertWindowMs

/-! ## Up to the gate -/

theorem start_assert_other (io : Io) (now : UInt64) {cmd : Command} (c : Core) (h : cmd.walks = false) :
    (start P io now cmd c).2.assert = c.assert := by
  cases cmd with
  | getInfo | reset | selection | clientPin | unknown => rfl
  | getAssertion | getNextAssertion => cases h
  | makeCredential req =>
    simp only [start]
    split
    · rfl
    split
    · rfl
    split <;> rfl

theorem start_rest_other {io : Io} {now : UInt64} {cmd : Command} {c c' : Core} {ask : Ask} {rest : Rest}
    (h : cmd.walks = false) (hs : start P io now cmd c = (.ask ask rest, c')) : rest.walks = false := by
  cases cmd with
  | getInfo | clientPin | unknown => cases hs
  | reset | selection => cases hs; rfl
  | getAssertion | getNextAssertion => cases h
  | makeCredential req =>
    simp only [start] at hs
    split at hs
    · cases hs
      rfl
    split at hs
    · cases hs
    split at hs
    · cases hs
    · cases hs
      rfl

theorem start_getAssertion_assert (io : Io) (now : UInt64) (req : GetAssertReq) (c : Core) :
    (start P io now (.getAssertion req) c).2.assert = none := by
  simp only [start]
  split
  · rfl
  split <;> rfl

/-- What `getAssertion` asks approval for: the slots it matched. -/
theorem start_getAssertion_rest {io : Io} {now : UInt64} {req : GetAssertReq} {c c' : Core} {ask : Ask} {rest : Rest}
    (hs : start P io now (.getAssertion req) c = (.ask ask rest, c')) :
    ∃ slot more, rest = .getAssertion req slot more ∧
      collectRpCredentials (loadStoreLocked P io.load io.ids c.storage).store req = slot :: more := by
  simp only [start] at hs
  split at hs
  · cases hs
  split at hs
  · cases hs
  next slot more hcollect =>
  cases hs
  exact ⟨slot, more, rfl, hcollect⟩

/-- How `getNextAssertion` starts: without a continuation it may go on with,
or with the next slot of the one there is. -/
theorem start_getNextAssertion_cases (io : Io) (now : UInt64) (c : Core) :
    ((∀ k, c.assert = some k → ∀ slot, k.slots[k.next]? = some slot → timeBefore now k.expires = false) ∧
      start P io now .getNextAssertion c = (.done (.error errNotAllowed), c.clearAssertState)) ∨
    ∃ k slot, c.assert = some k ∧ k.slots[k.next]? = some slot ∧ timeBefore now k.expires = true ∧
      start P io now .getNextAssertion c =
        if (c.storage.store.creds slot).inUse then
          (.ask { ctapCmd := ctapGetNextAssertion, rpId := k.rpId, uv := false, rk := false }
            (.getNextAssertion slot (k.next + 1) k.clientDataHash k.rpId), c)
        else (.done (.error .enoent), c.clearAssertState) := by
  cases hk : c.assert with
  | none =>
    refine .inl ⟨fun k h => (by cases h), ?_⟩
    have hclear : c.clearAssertState = c := by
      obtain ⟨storage, assert⟩ := c
      cases hk
      rfl
    simp only [start, hk, hclear]
  | some k =>
    cases hslot : k.slots[k.next]? with
    | none =>
      refine .inl ⟨fun k' h slot h' => ?_, by simp only [start, hk, hslot]⟩
      cases h
      rw [hslot] at h'
      cases h'
    | some slot =>
      cases htime : timeBefore now k.expires with
      | false =>
        refine .inl ⟨fun k' h slot' _ => ?_, by simp only [start, hk, hslot, htime]; rfl⟩
        cases h
        exact htime
      | true =>
        refine .inr ⟨k, slot, rfl, hslot, htime, ?_⟩
        simp only [start, hk, hslot, htime]
        cases (c.storage.store.creds slot).inUse <;> rfl

/-! ## Approved -/

theorem finish_assert_other {io : Io} {now : UInt64} {rest : Rest} {c : Core} (h : rest.walks = false) :
    (finish P io now rest c).core.assert = c.assert := by
  cases rest with
  | makeCredential req => exact (makeCredential_assert io req c).1
  | selectionMakeCredential | reset | selection => rfl
  | getAssertion | getNextAssertion => cases h

/-- An answered `getAssertion` leaves a continuation if it matched several slots. -/
theorem getAssertion_assert (io : Io) (now : UInt64) (req : GetAssertReq) (slot : Fin maxCreds)
    (more : List (Fin maxCreds)) (c : Core) :
    (finish P io now (.getAssertion req slot more) c).core.assert =
      match (finish P io now (.getAssertion req slot more) c).result with
      | .error _ => c.assert
      | .ok _ => if more = [] then c.assert else some (continuationOf P now req (slot :: more)) := by
  simp only [finish, getAssertionFinish]
  split
  · rfl
  next hmac _ =>
  obtain ⟨_, hassert, _⟩ := encodeAssertion_spec (P := P) io slot req.rpId req.allow req.clientDataHash
    (req.allow.isEmpty || decide (more.length + 1 > 1) || (c.storage.store.creds slot).resident) (more.length + 1) hmac c
  split
  · next e he =>
    rw [he]
    exact hassert
  · next payload hok =>
    split
    · next hcount =>
      have hmore : more ≠ [] := by
        rintro rfl
        simp at hcount
      simp only [hok, if_neg hmore]
      rfl
    · next hcount =>
      have hmore : more = [] := by
        rw [← List.length_eq_zero_iff]
        omega
      simp only [hok, if_pos hmore]
      exact hassert

/-- A `getNextAssertion` whose continuation is gone, or has moved on. -/
theorem getNextAssertion_lost {io : Io} {now : UInt64} {slot : Fin maxCreds} {served : Nat} {hash : Bytes 32}
    {rpId : List UInt8} {c : Core} (h : ∀ k, c.assert = some k → k.next + 1 ≠ served) :
    finish P io now (.getNextAssertion slot served hash rpId) c = ⟨c, .error errNotAllowed, []⟩ := by
  simp only [finish, getNextAssertionFinish]
  split
  · rfl
  next k hk => rw [if_pos (h k hk)]

/-- A `getNextAssertion` with its continuation as it was: it answers with its
slot, and the continuation moves on. -/
theorem getNextAssertion_served (hsha : ∀ bs, (P.sha256 bs).length = 32) {io : Io} (hio : io.Signs) (now : UInt64)
    (slot : Fin maxCreds) (hash : Bytes 32) (rpId : List UInt8) {c : Core} {k : Continuation} (hk : c.assert = some k) :
    let o := finish P io now (.getNextAssertion slot (k.next + 1) hash rpId) c
    (∃ payload s, o.result = .ok payload ∧ o.effects = [.assertion s] ∧ s.slot = slot) ∧
      o.core.assert = if k.slots.length ≤ k.next + 1 then none
        else some { k with next := k.next + 1, expires := now + msecsToJiffies P assertWindowMs } := by
  intro o
  obtain ⟨payload, s, hres, heff, hslot, -, -⟩ := encodeAssertion_ok hsha hio slot rpId [] hash true 1 c
  have ho : o = { encodeAssertionLocked P io slot rpId [] hash true 1 none c with
      core := { (encodeAssertionLocked P io slot rpId [] hash true 1 none c).core with
        assert := if k.next + 1 ≥ k.slots.length then none
          else some { k with next := k.next + 1, expires := now + msecsToJiffies P assertWindowMs } } } := by
    simp only [o, finish, getNextAssertionFinish, hk, hres, ne_eq, not_true_eq_false, if_false]
  rw [ho]
  exact ⟨⟨payload, s, hres, heff, hslot⟩, rfl⟩

end AbkFido
