import IntelPt.UserModeApp.Application

/-! The threads of the application together. CommunicationGetDriverHandle takes no lock, but a
ThreadProc begins only after a request of the main thread was sent, so the main thread alone opens
the driver. What ThreadProc does with its packets depends on the others only through the producer,
which the main thread may destroy. -/
namespace IntelPt.UserModeApp
open Runs

/-- The driver was opened once, by the main thread, or it failed each time; each request goes to
the handle that is kept. -/
structure OneHandle (s : Application) : Prop where
  opened : ∃ failures, s.opened = List.replicate failures (.main, none) ++
    s.driverHandle.toList.map fun handle => (.main, some handle)
  requests : ∀ request ∈ s.requests, request.2 = s.driverHandle ∧ request.2 ≠ none

def SendReady (driverHandle : Option Handle) : SendPhase → Prop
  | .overlapped | .compare => True
  | .createFile => driverHandle = none
  | .read => driverHandle ≠ none
  | .deviceIoControl used => used = driverHandle ∧ driverHandle ≠ none

def SendProgress.Ready (driverHandle : Option Handle) : SendProgress → Prop
  | .goes phase => SendReady driverHandle phase
  | .returns .sent => driverHandle ≠ none
  | .returns _ => True

def MainPhase.Ready (driverHandle : Option Handle) : MainPhase → Prop
  | .send _ phase => SendReady driverHandle phase
  | .wait _ | .createThread => driverHandle ≠ none
  | _ => True

structure Opening (s : Application) : Prop extends OneHandle s where
  ready : s.main.Ready s.driverHandle
  sending : ∀ t w, s.workers t = some w →
    s.driverHandle ≠ none ∧ ∀ phase, w.call = .send phase → SendReady s.driverHandle phase

/-- A step of CommunicationSendMessage. Only the main thread finds the driver not open. -/
theorem OneHandle.send {s s' : Application} {caller : ThreadId} {phase : SendPhase}
    {event : SendEvent} {progress : SendProgress} (h : OneHandle s)
    (hready : SendReady s.driverHandle phase) (hcaller : s.driverHandle = none → caller = .main)
    (hstep : sendStep s caller phase event = some (s', progress)) :
    OneHandle s' ∧ progress.Ready s'.driverHandle ∧
      (s.driverHandle ≠ none → s'.driverHandle = s.driverHandle) := by
  cases phase with
  | overlapped =>
    cases event <;> simp only [sendStep, reduceCtorEq] at hstep
    split_ifs at hstep <;> cases hstep <;> exact ⟨h, trivial, fun _ => rfl⟩
  | compare =>
    cases event <;> simp only [sendStep, reduceCtorEq] at hstep
    split_ifs at hstep with hnone
    · cases hstep
      exact ⟨h, hnone, fun _ => rfl⟩
    · cases hstep
      exact ⟨h, hnone, fun _ => rfl⟩
  | createFile =>
    cases event <;> simp only [sendStep, reduceCtorEq] at hstep
    next handle =>
    obtain rfl := hcaller hready
    obtain ⟨failures, hopened⟩ := h.opened
    have hnone : s.driverHandle = none := hready
    rw [hnone] at hopened
    have hrequests : ∀ request ∈ s.requests, False := fun request hr =>
      (h.requests request hr).2 ((h.requests request hr).1.trans hnone)
    cases handle with
    | none =>
      cases hstep
      refine ⟨⟨⟨failures + 1, ?_⟩, fun request hr => (hrequests request hr).elim⟩, trivial,
        fun hne => absurd hnone hne⟩
      simp only [hopened, Option.toList_none, List.map_nil, List.append_nil,
        List.replicate_succ']
    | some handle =>
      cases hstep
      refine ⟨⟨⟨failures, ?_⟩, fun request hr => (hrequests request hr).elim⟩,
        Option.some_ne_none handle, fun hne => absurd hnone hne⟩
      simp only [hopened, Option.toList_none, List.map_nil, List.append_nil, Option.toList_some,
        List.map_cons]
  | read =>
    cases event <;> simp only [sendStep, reduceCtorEq] at hstep
    cases hstep
    exact ⟨h, ⟨rfl, hready⟩, fun _ => rfl⟩
  | deviceIoControl used =>
    cases event <;> simp only [sendStep, reduceCtorEq] at hstep
    cases hstep
    obtain ⟨rfl, hopen⟩ := hready
    refine ⟨⟨h.opened, fun request hr => ?_⟩, hopen, fun _ => rfl⟩
    obtain hr | hr := List.mem_append.mp hr
    · exact h.requests request hr
    · rw [List.mem_singleton.mp hr]
      exact ⟨rfl, hopen⟩

theorem Opening.main {s s' : Application} {event : MainEvent} (h : Opening s)
    (hstep : s.mainStep event = some s') : Opening s' := by
  have hready := h.ready
  cases mainMove_of_step hstep with
  | stays => exact h
  | begins command method hmain =>
    cases method with
    | printHelp => exact h
    | _ => exact ⟨⟨h.opened, h.requests⟩, trivial, h.sending⟩
  | sends request phase event s₁ progress hmain hsend =>
    rw [hmain] at hready
    obtain ⟨hone, hprogress, hkept⟩ := h.toOneHandle.send hready (fun _ => rfl) hsend
    obtain ⟨_, _, _, rfl⟩ := sendStep_frame hsend
    refine ⟨⟨hone.opened, hone.requests⟩, ?_, fun t w hw => ?_⟩
    · cases progress with
      | goes phase => exact hprogress
      | returns outcome =>
        cases outcome with
        | sent => exact hprogress
        | _ => trivial
    · obtain ⟨hopen, hphase⟩ := h.sending t w hw
      obtain rfl := hkept hopen
      exact ⟨hopen, hphase⟩
  | answered hmain =>
    rw [hmain] at hready
    exact ⟨⟨h.opened, h.requests⟩, hready, h.sending⟩
  | creates t hmain hunused =>
    rw [hmain] at hready
    refine ⟨⟨h.opened, h.requests⟩, trivial, fun t' w hw => ?_⟩
    by_cases ht : t' = t
    · subst ht
      simp only [Function.update_self] at hw
      cases hw
      exact ⟨hready, fun _ hcall => by cases hcall⟩
    · simp only [Function.update_of_ne ht] at hw
      exact h.sending t' w hw
  | _ => exact ⟨⟨h.opened, h.requests⟩, trivial, h.sending⟩

theorem eq_goes_of_call {phase : Phase} {progress : SendProgress} {next : SendPhase}
    (h : (sendProgress phase progress).call = .send next) : progress = .goes next := by
  cases progress with
  | goes other =>
    cases h
    rfl
  | returns outcome => cases outcome <;> cases phase <;> cases h

theorem Opening.progress {s s₁ : Application} {t : Nat} {w : Worker} {progress : WorkerProgress}
    (h : Opening s) (hw : s.workers t = some w) (hmove : WorkerMove s t w s₁ progress) :
    OneHandle s₁ ∧ s₁.driverHandle = s.driverHandle ∧ s₁.main = s.main ∧
      ∀ phase, progress.call = .send phase → SendReady s.driverHandle phase := by
  obtain ⟨hopen, hphase⟩ := h.sending t w hw
  cases hmove with
  | enters =>
    refine ⟨h.toOneHandle, rfl, rfl, fun phase hcall => ?_⟩
    cases hcall
    trivial
  | calls => exact ⟨h.toOneHandle, rfl, rfl, fun phase hcall => by cases hcall⟩
  | sends phase event _ sent hcall hsend =>
    obtain ⟨hone, hsent, hkept⟩ :=
      h.toOneHandle.send (hphase phase hcall) (fun hnone => absurd hnone hopen) hsend
    obtain ⟨_, _, _, rfl⟩ := sendStep_frame hsend
    obtain rfl := hkept hopen
    refine ⟨hone, rfl, rfl, fun phase hcall => ?_⟩
    obtain rfl := eq_goes_of_call hcall
    exact hsent
  | tests call hsame hsend =>
    exact ⟨h.toOneHandle, rfl, rfl, fun phase hcall => absurd hcall (hsend phase)⟩
  | createFails | creates =>
    exact ⟨⟨h.opened, h.requests⟩, rfl, rfl, fun phase hcall => by cases hcall⟩
  | returns event call hcall =>
    refine ⟨h.toOneHandle, rfl, rfl, fun phase hsend => ?_⟩
    obtain rfl | ⟨hrk, -⟩ := hcall
    · cases hsend
    · cases hsend
      exact absurd rfl hrk

theorem Opening.worker {s s' : Application} {t : Nat} {event : WorkerEvent} (h : Opening s)
    (hstep : s.workerStep t event = some s') : Opening s' := by
  obtain ⟨w, s₁, thread, progress, hw, hprogress, rfl, -⟩ := workerStep_cases hstep
  obtain ⟨hone, hdriver, hmain, hcall⟩ := h.progress hw (workerMove_of_progress hprogress)
  refine ⟨⟨hone.opened, hone.requests⟩, ?_, fun t' w' hw' => ?_⟩
  · change s₁.main.Ready s₁.driverHandle
    rw [hmain, hdriver]
    exact h.ready
  · change s₁.driverHandle ≠ none ∧
      ∀ phase, w'.call = .send phase → SendReady s₁.driverHandle phase
    rw [hdriver]
    by_cases ht : t' = t
    · subst ht
      simp only [Function.update_self] at hw'
      cases hw'
      exact ⟨(h.sending t' w hw).1, hcall⟩
    · simp only [Function.update_of_ne ht] at hw'
      exact h.sending t' w' hw'

theorem Opening.step {s s' : Application} {event : AppEvent} (h : Opening s)
    (hstep : s.step event = some s') : Opening s' := by
  obtain ⟨-, ⟨-, rfl⟩ | ⟨-, hstep⟩⟩ := step_cases hstep
  · exact ⟨⟨h.opened, h.requests⟩, h.ready, h.sending⟩
  cases event with
  | main event => exact h.main hstep
  | worker t event => exact h.worker hstep
  | poll t =>
    obtain ⟨poller, -, rfl⟩ := pollStep_cases hstep
    exact ⟨⟨h.opened, h.requests⟩, h.ready, h.sending⟩

theorem opening_new : Opening {} where
  opened := ⟨0, rfl⟩
  requests := nofun
  ready := trivial
  sending _ _ hw := by cases hw

/-- No order of the threads opens the driver twice or uses another handle. -/
theorem one_handle (events : List AppEvent) : Every Application.step OneHandle {} events :=
  every_of_invariant Opening (fun _ h => h.toOneHandle) (fun _ _ _ h hstep => h.step hstep)
    {} events opening_new

/-! Publishing. -/

def Application.received (s : Application) : AppEvent → Option (ThreadState × Event)
  | .worker t event => (s.workers t).bind fun w => (s.workerProgress t w event).bind fun r =>
      r.2.outside.map fun outside => (w.thread, outside)
  | .main _ | .poll _ => none

/-- No ThreadProc gets a failure it does not handle, and no thread calls librdkafka with a producer
that is NULL or destroyed. -/
def WorkersFaultless (s : Application) (event : AppEvent) : Prop :=
  s.misuses event = false ∧ ∀ r ∈ s.received event, Faultless r.1 r.2

structure WorkersPublish (s : Application) : Prop where
  defined : s.undefined = false
  published : ∀ t w, s.workers t = some w → PublishedOnce w.thread

structure WorkersPublishing (s : Application) : Prop where
  defined : s.undefined = false
  publishing : ∀ t w, s.workers t = some w → Publishing w.thread

/-- The other threads leave ThreadProc's packets alone. -/
theorem worker_of_step {s s' : Application} {event : AppEvent} (hstep : s.step event = some s')
    {t : Nat} {w' : Worker} (hw' : s'.workers t = some w') :
    (∃ w, s.workers t = some w ∧ w'.thread = w.thread) ∨ (s.workers t = none ∧ w'.thread = {}) ∨
      ∃ w outside own, event = .worker t own ∧ s.workers t = some w ∧
        s.received event = some (w.thread, outside) ∧
        threadProcStep w.thread outside = some w'.thread := by
  obtain ⟨-, ⟨-, rfl⟩ | ⟨-, hstep⟩⟩ := step_cases hstep
  · exact Or.inl ⟨w', hw', rfl⟩
  cases event with
  | main event =>
    cases mainMove_of_step hstep with
    | sends request phase event s₁ progress hmain hsend =>
      obtain ⟨_, _, _, rfl⟩ := sendStep_frame hsend
      exact Or.inl ⟨w', hw', rfl⟩
    | creates t' hmain hunused =>
      by_cases ht : t = t'
      · subst ht
        simp only [Function.update_self] at hw'
        cases hw'
        exact Or.inr (Or.inl ⟨hunused.1, rfl⟩)
      · simp only [Function.update_of_ne ht] at hw'
        exact Or.inl ⟨w', hw', rfl⟩
    | begins command method => cases method <;> exact Or.inl ⟨w', hw', rfl⟩
    | _ => exact Or.inl ⟨w', hw', rfl⟩
  | worker t' event =>
    obtain ⟨w, s₁, thread, progress, hw, hprogress, rfl, hthread⟩ := workerStep_cases hstep
    by_cases ht : t = t'
    · subst ht
      simp only [Function.update_self] at hw'
      cases hw'
      obtain ⟨-, rfl⟩ | ⟨outside, hsome, hown⟩ := hthread
      · exact Or.inl ⟨w, hw, rfl⟩
      · refine Or.inr (Or.inr ⟨w, outside, event, rfl, hw, ?_, hown⟩)
        simp [Application.received, hw, hprogress, hsome]
    · simp only [Function.update_of_ne ht] at hw'
      exact Or.inl ⟨w', hw', rfl⟩
  | poll t' =>
    obtain ⟨poller, -, rfl⟩ := pollStep_cases hstep
    exact Or.inl ⟨w', hw', rfl⟩

theorem worker_kept {s s' : Application} {event : AppEvent} (hstep : s.step event = some s')
    {t : Nat} (hevent : ∀ own, event ≠ .worker t own) {w : Worker} (hw : s.workers t = some w) :
    s'.workers t = some w := by
  obtain ⟨-, ⟨-, rfl⟩ | ⟨-, hstep⟩⟩ := step_cases hstep
  · exact hw
  cases event with
  | main event =>
    cases mainMove_of_step hstep with
    | sends request phase event s₁ progress hmain hsend =>
      obtain ⟨_, _, _, rfl⟩ := sendStep_frame hsend
      exact hw
    | creates t' hmain hunused =>
      have ht : t ≠ t' := by
        rintro rfl
        cases hunused.1.symm.trans hw
      exact (Function.update_of_ne ht ..).trans hw
    | begins command method => cases method <;> exact hw
    | _ => exact hw
  | worker t' own =>
    obtain ⟨_, s₁, thread, progress, -, -, rfl, -⟩ := workerStep_cases hstep
    have ht : t ≠ t' := by
      rintro rfl
      exact hevent own rfl
    exact (Function.update_of_ne ht ..).trans hw
  | poll t' =>
    obtain ⟨poller, -, rfl⟩ := pollStep_cases hstep
    exact hw

theorem defined_of_step {s s' : Application} {event : AppEvent} (hok : s.misuses event = false)
    (hstep : s.step event = some s') : s'.undefined = false := by
  obtain ⟨hdefined, ⟨hmisuses, -⟩ | ⟨-, hstep⟩⟩ := step_cases hstep
  · rw [hok] at hmisuses
    cases hmisuses
  cases event with
  | main event =>
    cases mainMove_of_step hstep with
    | sends request phase event s₁ progress hmain hsend =>
      obtain ⟨_, _, _, rfl⟩ := sendStep_frame hsend
      exact hdefined
    | begins command method => cases method <;> exact hdefined
    | _ => exact hdefined
  | worker t event =>
    obtain ⟨w, s₁, thread, progress, hw, hprogress, rfl, -⟩ := workerStep_cases hstep
    cases workerMove_of_progress hprogress with
    | sends phase event _ progress hcall hsend =>
      obtain ⟨_, _, _, rfl⟩ := sendStep_frame hsend
      exact hdefined
    | _ => exact hdefined
  | poll t =>
    obtain ⟨poller, -, rfl⟩ := pollStep_cases hstep
    exact hdefined

theorem WorkersPublishing.step {s s' : Application} {event : AppEvent} (h : WorkersPublishing s)
    (hok : WorkersFaultless s event) (hstep : s.step event = some s') : WorkersPublishing s' := by
  refine ⟨defined_of_step hok.1 hstep, fun t w' hw' => ?_⟩
  obtain ⟨w, hw, hsame⟩ | ⟨-, hnew⟩ | ⟨w, outside, own, -, hw, hreceived, hown⟩ :=
    worker_of_step hstep hw'
  · rw [hsame]
    exact h.publishing t w hw
  · rw [hnew]
    exact publishing_new
  · exact (h.publishing t w hw).step (hok.2 _ hreceived) hown

/-- A failure that is not handled can come in, and its ThreadProc loses or repeats a packet. -/
theorem WorkersPublishing.step_fault {s : Application} {event : AppEvent}
    (h : WorkersPublishing s) (hbad : ¬ WorkersFaultless s event) :
    ∃ s', s.step event = some s' ∧ ¬ WorkersPublish s' := by
  by_cases hmisuses : s.misuses event = true
  · refine ⟨{ s with undefined := true }, ?_, fun hpublish => ?_⟩
    · simp only [Application.step, h.defined, hmisuses, Bool.false_eq_true, if_false, if_true]
    · exact Bool.false_ne_true hpublish.defined.symm
  have hdefined := step_defined h.defined (Bool.eq_false_iff.mpr hmisuses)
  simp only [WorkersFaultless, Bool.eq_false_iff.mpr hmisuses, true_and, not_forall] at hbad
  obtain ⟨r, hr, hfault⟩ := hbad
  cases event with
  | main | poll => cases hr
  | worker t event =>
    simp only [Application.received, Option.mem_def, Option.bind_eq_some_iff,
      Option.map_eq_some_iff] at hr
    obtain ⟨w, hw, ⟨s₁, progress⟩, hprogress, outside, hsome, rfl⟩ := hr
    obtain ⟨thread, hown, hbroken⟩ := (h.publishing t w hw).step_fault hfault
    cases progress with
    | goes call => cases hsome
    | returns event' call =>
      cases hsome
      refine ⟨{ s₁ with workers := Function.update s.workers t (some ⟨thread, call⟩) }, ?_,
        fun hall => hbroken (hall.published t ⟨thread, call⟩ (Function.update_self ..))⟩
      rw [hdefined]
      simp [Application.threadStep, Application.workerStep, hw, hprogress, hown]

end IntelPt.UserModeApp
