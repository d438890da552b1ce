/-
When the user's answer belongs to the prompt it was given to.

The queue does not say whose answer it holds. An answer is cleared away
before the next request is asked, so only an activity of an earlier request
that reports while a later one is awaited can be taken for the later one's.
-/
import AbkFido.App.Prompt

namespace AbkFido

namespace Prompting

variable {s s' : Prompting}

@[simp] theorem offer_service (answer : Answer) : (s.offer answer).service = s.service := rfl
@[simp] theorem offer_decisions (answer : Answer) : (s.offer answer).decisions = s.decisions := rfl
@[simp] theorem offer_reports (answer : Answer) : (s.offer answer).reports = s.reports := rfl
@[simp] theorem sendResult_service (q : Int) (success : Bool) : (s.sendResult q success).service = s.service := rfl
@[simp] theorem sendResult_decisions (q : Int) (success : Bool) :
    (s.sendResult q success).decisions = s.decisions := rfl
@[simp] theorem sendResult_reports (q : Int) (success : Bool) :
    (s.sendResult q success).reports = (q, success) :: s.reports := rfl

/-- What is in the queue after an offer was there, or is what was offered. -/
theorem offer_queue {answer a : Answer} (h : (s.offer answer).authResultQueue = some a) :
    s.authResultQueue = some a ∨ (s.authResultQueue = none ∧ a = answer) := by
  unfold offer at h
  cases hq : s.authResultQueue with
  | none =>
    rw [hq, Option.none_or, Option.some.injEq] at h
    exact .inr ⟨rfl, h.symm⟩
  | some b =>
    rw [hq, Option.some_or] at h
    exact .inl h

/-- Reports are only added. -/
theorem BelongsTo.mono {r : Int} {answer : Answer} (h : s.BelongsTo r answer) (hsub : s.reports ⊆ s'.reports) :
    s'.BelongsTo r answer :=
  ⟨h.1, fun hs => hsub (h.2 hs)⟩

theorem Paired.mono (h : s.Paired) (hd : s'.decisions = s.decisions) (hsub : s.reports ⊆ s'.reports) : s'.Paired := by
  intro d hmem
  rw [hd] at hmem
  obtain ⟨hallow, hdeny⟩ := h d hmem
  exact ⟨fun ha => hsub (hallow ha), hdeny⟩

/-- A decision without an answer refuses. -/
theorem Paired.deny (h : s.Paired) (r : Int) : (s.decide r false none).Paired := by
  intro d hmem
  rcases List.mem_cons.mp hmem with rfl | hmem
  · refine ⟨fun ha => (by cases ha), fun _ answer q ha => (by cases ha)⟩
  · exact h d hmem

theorem Paired.decideResult (h : s.Paired) {r : Int} {result : Option Answer}
    (hresult : ∀ answer, result = some answer → s.BelongsTo r answer) : (s.decideResult r result).Paired := by
  cases result with
  | none => exact h.deny r
  | some answer =>
    obtain ⟨hgiver, hreported⟩ := hresult answer rfl
    intro d hmem
    rcases List.mem_cons.mp hmem with rfl | hmem
    · refine ⟨hreported, fun _ a q ha hq => ?_⟩
      cases ha
      exact Option.some.inj (hq.symm.trans hgiver)
    · exact h d hmem

/-! ## Steps -/

/-- Nothing is asked, and nothing is held. -/
theorem Sound.idle (hp : s.Paired) (hs : s.service = .idle ∨ s.service = .refusing ∨ s.service = .finishing) :
    s.Sound := by
  refine ⟨hp, fun r answer h => ?_, fun r answer h => ?_⟩
  · rcases hs with hs | hs | hs <;> simp [asking, hs] at h
  · rcases hs with hs | hs | hs <;> simp [result, hs] at h

theorem sound_init : init.Sound := .idle (fun _ h => (by cases h)) (.inl rfl)

theorem Sound.handlePending (h : s.Sound) (hs : s.service = .idle) (r : Int) (fidoEnabled : Bool) :
    (s.handlePending r fidoEnabled).Sound := by
  unfold Prompting.handlePending
  split
  · exact .idle (h.paired.deny r) (.inl hs)
  split
  · exact h
  · refine ⟨h.paired, fun q answer _ hq => ?_, fun q answer hq => ?_⟩
    · cases hq
    · cases hq

/-- A report, where it does not go to the request of another. -/
theorem Sound.sendResult (h : s.Sound) {q : Int} (success : Bool)
    (hq : ∀ r, s.asking = some r → s.authResultQueue = none → q = r) : (s.sendResult q success).Sound := by
  have hsub : s.reports ⊆ (s.sendResult q success).reports := List.subset_cons_self _ _
  refine ⟨h.paired.mono rfl hsub, fun r answer hr ha => ?_, fun r answer hr => (h.taken r answer hr).mono hsub⟩
  rcases offer_queue (s := s) ha with hold | ⟨hnone, rfl⟩
  · exact (h.queued r answer hr hold).mono hsub
  · obtain rfl := hq r hr hnone
    exact ⟨rfl, fun hs => by
      cases hs
      exact List.mem_cons_self⟩

/-- The activities and the main thread's own state do not matter. -/
theorem Sound.of_same (h : s.Sound) (hqueue : s'.authResultQueue = s.authResultQueue)
    (hservice : s'.service = s.service) (hreports : s'.reports = s.reports) (hdecisions : s'.decisions = s.decisions) :
    s'.Sound := by
  have hsub : s.reports ⊆ s'.reports := by rw [hreports]; exact List.Subset.refl _
  refine ⟨h.paired.mono hdecisions hsub, fun r answer hr ha => ?_, fun r answer hr => ?_⟩
  · rw [asking, hservice] at hr
    rw [hqueue] at ha
    exact (h.queued r answer hr ha).mono hsub
  · rw [Prompting.result, hservice] at hr
    exact (h.taken r answer hr).mono hsub

theorem Sound.onCreate (h : s.Sound) {q : Int} {canAuthenticate : Bool}
    (hok : s.Undisturbed (.create q canAuthenticate)) : (s.onCreate q canAuthenticate).Sound := by
  unfold Prompting.onCreate
  split
  · exact h.of_same rfl rfl rfl rfl
  next hexpected =>
  split
  · exact h.of_same rfl rfl rfl rfl
  next hcannot =>
  have hsent : (s.sendResult q false).Sound := by
    refine h.sendResult false fun r hr hnone => hok r q hr hnone ?_
    have hthis : 0 < q ∧ q = s.expectedRequestId ∧ (!canAuthenticate) = true :=
      ⟨by omega, by omega, by simpa using hcannot⟩
    simp only [reporter]
    rw [if_pos hthis]
  exact hsent.of_same rfl rfl rfl rfl

theorem Sound.sendResultAndFinish (h : s.Sound) {i : Nat} {activity : PromptActivity} (success : Bool)
    (hok : ∀ r, s.asking = some r → s.authResultQueue = none → activity.isResultSent = false →
      activity.requestId = r) : (s.sendResultAndFinish i activity success).Sound := by
  unfold Prompting.sendResultAndFinish
  split
  · exact h
  next hsent =>
  have hsend := h.sendResult success fun r hr hnone => hok r hr hnone (by simpa using hsent)
  exact hsend.of_same rfl rfl rfl rfl

/-- The service thread's own assignments. -/
theorem Sound.proceed (h : s.Sound) (hstep : s.step .proceed = some s') : s'.Sound := by
  simp only [step] at hstep
  split at hstep
  · next r hs =>
    cases hstep
    refine ⟨h.paired, fun q answer hq ha => h.queued q answer ?_ ha, fun q answer hq => (by cases hq)⟩
    rw [asking, hs]
    exact hq
  · next r hs =>
    cases hstep
    refine ⟨h.paired, fun q answer hq ha => h.queued q answer ?_ ha, fun q answer hq => (by cases hq)⟩
    rw [asking, hs]
    exact hq
  · cases hstep
    exact .idle h.paired (.inr (.inr rfl))
  · cases hstep
    exact .idle h.paired (.inl rfl)
  · next r result hs =>
    cases hstep
    refine ⟨h.paired, fun q answer hq => (by cases hq), fun q answer hq => h.taken q answer ?_⟩
    rw [Prompting.result, hs]
    exact hq
  · next r result hs =>
    cases hstep
    have hresult : ∀ answer, result = some answer → s.BelongsTo r answer := by
      intro answer ha
      refine h.taken r answer ?_
      rw [Prompting.result, hs, ha]
      rfl
    exact .idle (h.paired.decideResult hresult) (.inl rfl)
  all_goals cases hstep

theorem Sound.step {a : PromptAction} (h : s.Sound) (hok : s.Undisturbed a) (hstep : s.step a = some s') :
    s'.Sound := by
  cases a with
  | proceed => exact h.proceed hstep
  | pending r fidoEnabled =>
    simp only [Prompting.step] at hstep
    split at hstep <;> cases hstep
    next hs => exact h.handlePending hs r fidoEnabled
  | launch success =>
    simp only [Prompting.step] at hstep
    split at hstep
    · next r hs =>
      split at hstep <;> cases hstep
      · refine ⟨h.paired, fun q answer hq ha => h.queued q answer ?_ ha, fun q answer hq => (by cases hq)⟩
        rw [asking, hs]
        exact hq
      · exact .idle (h.paired.deny r) (.inr (.inl rfl))
    · cases hstep
  | take =>
    simp only [Prompting.step] at hstep
    split at hstep <;> cases hstep
    next r answer hs hq =>
    have hbelongs := h.queued r answer (by rw [asking, hs]) hq
    refine ⟨h.paired, fun _ _ ha => (by cases ha), fun q a ha => ?_⟩
    cases ha
    exact hbelongs
  | timeout =>
    simp only [Prompting.step] at hstep
    split at hstep <;> cases hstep
    exact ⟨h.paired, fun _ _ ha => (by cases ha), fun _ _ ha => (by cases ha)⟩
  | interrupted =>
    simp only [Prompting.step] at hstep
    split at hstep <;> cases hstep
    exact .idle h.paired (.inl rfl)
  | create q canAuthenticate =>
    simp only [Prompting.step] at hstep
    split at hstep <;> cases hstep
    exact h.onCreate hok
  | callback i success =>
    simp only [Prompting.step] at hstep
    split at hstep
    · cases hstep
    obtain ⟨activity, hi, hstep⟩ := Option.bind_eq_some_iff.mp hstep
    split at hstep <;> cases hstep
    refine h.sendResultAndFinish success fun r hr hnone hsent => hok r _ hr hnone ?_
    simp [reporter, hi, hsent]
  | destroy i =>
    simp only [Prompting.step] at hstep
    split at hstep
    · cases hstep
    obtain ⟨activity, hi, rfl⟩ := Option.map_eq_some_iff.mp hstep
    refine h.sendResultAndFinish false fun r hr hnone hsent => hok r _ hr hnone ?_
    simp [reporter, hi, hsent]
  | mainProceed =>
    simp only [Prompting.step] at hstep
    split at hstep <;> cases hstep
    exact h.of_same rfl rfl rfl rfl

/-- **An answer belongs to the prompt it was given to**, in every run where no
other request's activity reports while an answer is awaited. -/
theorem paired_of_undisturbed (as : List PromptAction) (s : Prompting) (h : Runs step Undisturbed init as s) :
    s.Paired :=
  (h.invariant (I := Sound) (fun _ _ _ hI hok hstep => hI.step hok hstep) sound_init).paired

/-! ## One prompt, and a prompt left over -/

/-- A request is asked and its activity shown. -/
def promptRun (r : Int) : List PromptAction :=
  [.pending r true, .proceed, .proceed, .launch true, .create r true]

/-- Its result is taken and written. -/
def answerRun (i : Nat) (success : Bool) : List PromptAction :=
  [.callback i success, .mainProceed, .take, .proceed, .proceed]

instance (s : Prompting) (a : PromptAction) : Decidable (s.Undisturbed a) :=
  decidable_of_iff (∀ r ∈ s.asking, s.authResultQueue = none → ∀ q ∈ s.reporter a, q = r)
    ⟨fun h r q hr hnone hq => h r hr hnone q hq, fun h r hr hnone q hq => h r q hr hnone hq⟩

/-- A request times out; the next one is answered, and before that is written
the activity of the first one goes away. -/
def leftOverRun : List PromptAction :=
  promptRun 1 ++ [.timeout, .proceed, .proceed] ++ promptRun 2 ++
    [.callback 1 true, .mainProceed, .take, .destroy 0, .mainProceed, .proceed, .proceed]

theorem paired_leftOverRun : ∃ s, Runs step Undisturbed init leftOverRun s ∧
    s.reports = [(1, false), (2, true)] ∧ (∃ d ∈ s.decisions, d.requestId = 2 ∧ d.allowed = true) ∧ s.Paired := by
  have hexec : (Runs.exec step (fun s a => Decidable.decide (s.Undisturbed a)) init leftOverRun).map
      (fun s => (s.reports, s.decisions.map fun d => (d.requestId, d.allowed))) =
      some ([(1, false), (2, true)], [(2, true), (1, false)]) := by decide +kernel
  obtain ⟨s, hs, heq⟩ := Option.map_eq_some_iff.mp hexec
  obtain ⟨hreports, hdecisions⟩ := Prod.mk.inj heq
  have hrun : Runs step Undisturbed init leftOverRun s := Runs.of_exec (fun _ _ => of_decide_eq_true) hs
  have hmem : (2, true) ∈ s.decisions.map fun d => (d.requestId, d.allowed) := by
    rw [hdecisions]
    exact List.mem_cons_self
  obtain ⟨d, hd, hallowed⟩ := List.mem_map.mp hmem
  obtain ⟨hid, hallow⟩ := Prod.mk.inj hallowed
  exact ⟨s, hrun, hreports, ⟨d, hd, hid, hallow⟩, paired_of_undisturbed _ _ hrun⟩

/-- The activity of a request that has timed out is still there when the next one is asked. -/
theorem exists_not_paired : ∃ as s, Runs step (fun _ _ => True) init as s ∧ ¬ s.Paired := by
  obtain ⟨s, hs, hdecisions, hreports⟩ : ∃ s, Runs.exec step (fun _ _ => true) init
      (promptRun 1 ++ [.timeout, .proceed, .proceed] ++ promptRun 2 ++ answerRun 0 true) = some s ∧
        s.decisions = [⟨2, true, some ⟨true, some 1⟩⟩, ⟨1, false, none⟩] ∧ s.reports = [(1, true)] := ⟨_, rfl, rfl, rfl⟩
  refine ⟨_, s, Runs.of_exec (fun _ _ _ => True.intro) hs, fun h => ?_⟩
  obtain ⟨hallow, -⟩ := h ⟨2, true, some ⟨true, some 1⟩⟩ (by rw [hdecisions]; exact List.mem_cons_self)
  have hreported := hallow rfl
  rw [hreports] at hreported
  simp at hreported

end Prompting

end AbkFido
