import IntelPt.UserModeApp.Application

/-! When the producer is taken down. The command exit waits for the polling thread, which never
ends, and so never gets to rd_kafka_destroy. If no polling thread was started yet it does, and
goes on reading commands with KafkaHandler as it was. -/
namespace IntelPt.UserModeApp
open Runs

def Application.Usable (s : Application) (rk : Option Producer) : Prop :=
  ∃ p, rk = some p ∧ p ∉ s.tornDown

/-- No thread has a producer in hand that is NULL or taken down, and the next message will not be
sent through one that is taken down. -/
structure Safe (s : Application) : Prop where
  current : ∀ p, s.kafkaHandler = some p → p ∉ s.tornDown
  pollers : ∀ t poller, s.pollers t = some poller → s.Usable poller.rk
  workers : ∀ t w rk, s.workers t = some w → w.call.rk = some rk → s.Usable rk
  main : ∀ rk, s.main = .flush rk ∨ s.main = .destroy rk → rk ≠ none

/-- KafkaUninit calls StopKafkaPolling only if there is a thread to wait for. -/
def PollingStarted (s : Application) (event : AppEvent) : Prop :=
  match event, s.main with
  | .main .stopKafkaPolling, .kafkaUninit _ => s.gPollingThreadHandle ≠ none
  | _, _ => True

instance (s : Application) (event : AppEvent) : Decidable (PollingStarted s event) := by
  unfold PollingStarted
  split <;> infer_instance

/-! The polling threads. -/

structure Polling (s : Application) : Prop where
  gRun : s.gRun = true
  running : ∀ t poller, s.pollers t = some poller → poller.running = true
  started : ∀ t, s.gPollingThreadHandle = some t → (s.pollers t).isSome = true
  waits : ∀ rk t, s.main = .stopKafkaPolling rk t → (s.pollers t).isSome = true

theorem Polling.main {s s' : Application} {event : MainEvent} (h : Polling s)
    (hstep : s.mainStep event = some s') : Polling s' := by
  cases mainMove_of_step hstep with
  | stays => exact h
  | begins command method hmain =>
    cases method with
    | printHelp => exact h
    | _ => exact ⟨h.gRun, h.running, h.started, nofun⟩
  | sends request phase event s₁ progress hmain hsend =>
    obtain ⟨_, _, _, rfl⟩ := sendStep_frame hsend
    refine ⟨h.gRun, h.running, h.started, fun rk t hwaits => ?_⟩
    cases progress with
    | goes phase => cases hwaits
    | returns outcome => cases outcome <;> cases hwaits
  | waits rk t hmain hpolling =>
    refine ⟨h.gRun, h.running, h.started, fun rk' t' hwaits => ?_⟩
    cases hwaits
    exact h.started t hpolling
  | _ => exact ⟨h.gRun, h.running, h.started, nofun⟩

theorem Polling.create {s : Application} (h : Polling s) (p : Nat) (rk : Option Producer) :
    Polling { s with
      gPollingThreadHandle := some p
      pollers := Function.update s.pollers p (some { rk := rk }) } := by
  refine ⟨h.gRun, fun t poller ht => ?_, fun t ht => ?_, fun rk' t ht => ?_⟩
  · by_cases htp : t = p
    · subst htp
      simp only [Function.update_self] at ht
      cases ht
      rfl
    · simp only [Function.update_of_ne htp] at ht
      exact h.running t poller ht
  · cases ht
    simp only [Function.update_self]
    rfl
  · exact isSome_update (h.waits rk' t ht)

theorem Polling.worker {s s' : Application} {t : Nat} {event : WorkerEvent} (h : Polling s)
    (hstep : s.workerStep t event = some s') : Polling s' := by
  obtain ⟨w, s₁, thread, progress, -, hprogress, rfl, -⟩ := workerStep_cases hstep
  have h₁ : Polling s₁ := by
    cases workerMove_of_progress hprogress with
    | sends phase event _ progress hcall hsend =>
      obtain ⟨_, _, _, rfl⟩ := sendStep_frame hsend
      exact ⟨h.gRun, h.running, h.started, h.waits⟩
    | createFails => exact ⟨h.gRun, h.running, nofun, h.waits⟩
    | creates rk p => exact h.create p rk
    | _ => exact h
  exact ⟨h₁.gRun, h₁.running, h₁.started, h₁.waits⟩

theorem Polling.poll {s s' : Application} {t : Nat} (h : Polling s)
    (hstep : s.pollStep t = some s') : s' = s := by
  obtain ⟨poller, hpoller, rfl⟩ := pollStep_cases hstep
  have hsame : some { poller with running := s.gRun } = s.pollers t := by
    rw [h.gRun, hpoller, ← h.running t poller hpoller]
  rw [hsame, Function.update_eq_self]

theorem Polling.step {s s' : Application} {event : AppEvent} (h : Polling s)
    (hstep : s.step event = some s') : Polling s' := by
  obtain ⟨-, ⟨-, rfl⟩ | ⟨-, hstep⟩⟩ := step_cases hstep
  · exact ⟨h.gRun, h.running, h.started, h.waits⟩
  cases event with
  | main event => exact h.main hstep
  | worker t event => exact h.worker hstep
  | poll t => exact h.poll hstep ▸ h

theorem polling_new : Polling {} := ⟨rfl, nofun, nofun, nofun⟩

/-- The wait for a polling thread does not end. -/
theorem main_of_waiting {s s' : Application} {event : AppEvent} {rk : Option Producer} {t : Nat}
    (h : Polling s) (hmain : s.main = .stopKafkaPolling rk t) (hstep : s.step event = some s') :
    s'.main = .stopKafkaPolling rk t := by
  obtain ⟨-, ⟨-, rfl⟩ | ⟨-, hstep⟩⟩ := step_cases hstep
  · exact hmain
  cases event with
  | main event =>
    cases event <;> simp only [Application.threadStep, Application.mainStep, hmain, reduceCtorEq,
      if_false] at hstep
    -- pollingEnded is left
    obtain ⟨poller, hpoller⟩ := Option.isSome_iff_exists.mp (h.waits rk t hmain)
    rw [hpoller, Option.any_some, h.running t poller hpoller] at hstep
    cases hstep
  | worker t' event =>
    obtain ⟨w, s₁, thread, progress, -, hprogress, rfl, -⟩ := workerStep_cases hstep
    cases workerMove_of_progress hprogress with
    | sends phase event _ progress hcall hsend =>
      obtain ⟨_, _, _, rfl⟩ := sendStep_frame hsend
      exact hmain
    | _ => exact hmain
  | poll t' => exact h.poll hstep ▸ hmain

/-- Once exit waits for the polling thread, no command is read any more and no producer is
destroyed, whatever the other threads do. -/
theorem exit_never_returns (events : List AppEvent) :
    Every Application.step (fun s => ∀ rk t, s.main = .stopKafkaPolling rk t →
      ∀ later, Every Application.step (fun s' => s'.main = .stopKafkaPolling rk t) s later)
      {} events := by
  have hinv : ∀ s, Polling s → ∀ rk t, s.main = .stopKafkaPolling rk t → ∀ later,
      Every Application.step (fun s' => s'.main = .stopKafkaPolling rk t) s later := by
    intro s h rk t hmain later
    refine every_of_invariant (fun s => Polling s ∧ s.main = .stopKafkaPolling rk t)
      (fun _ hs => hs.2) (fun _ _ _ hs hstep => ?_) s later ⟨h, hmain⟩
    exact ⟨hs.1.step hstep, main_of_waiting hs.1 hs.2 hstep⟩
  exact every_of_invariant Polling hinv (fun _ _ _ h hstep => h.step hstep) {} events polling_new

/-! The producers. -/

def MainReady (kafkaHandler : Option Producer) : MainPhase → Prop
  | .send .setupPt _ | .wait .setupPt | .createThread => kafkaHandler ≠ none
  | .kafkaUninit rk => rk = kafkaHandler
  | .flush _ | .destroy _ => False
  | _ => True

structure Serving (s : Application) : Prop extends Polling s where
  defined : s.undefined = false
  tornDown : s.tornDown = []
  destroyed : s.destroyed = []
  polled : ∀ t poller, s.pollers t = some poller → poller.rk ≠ none
  sending : ∀ t w, s.workers t = some w →
    s.kafkaHandler ≠ none ∧ ∀ rk, w.call.rk = some rk → rk ≠ none
  ready : MainReady s.kafkaHandler s.main

theorem Serving.safe {s : Application} (h : Serving s) : Safe s := by
  have husable : ∀ rk : Option Producer, rk ≠ none → s.Usable rk := by
    intro rk hrk
    obtain ⟨p, rfl⟩ := Option.ne_none_iff_exists'.mp hrk
    exact ⟨p, rfl, by rw [h.tornDown]; exact List.not_mem_nil⟩
  refine ⟨fun p _ => ?_, fun t poller ht => ?_, fun t w rk ht hrk => ?_, fun rk hmain => ?_⟩
  · rw [h.tornDown]
    exact List.not_mem_nil
  · exact husable _ (h.polled t poller ht)
  · exact husable rk ((h.sending t w ht).2 rk hrk)
  · have hready := h.ready
    obtain hmain | hmain := hmain <;> rw [hmain] at hready <;> exact hready.elim

theorem serving_new : Serving {} where
  toPolling := polling_new
  defined := rfl
  tornDown := rfl
  destroyed := rfl
  polled := nofun
  sending _ _ hw := by cases hw
  ready := trivial

theorem Serving.goto {s : Application} (h : Serving s) {main : MainPhase}
    (hpolling : Polling { s with main := main }) (hready : MainReady s.kafkaHandler main) :
    Serving { s with main := main } :=
  ⟨hpolling, h.defined, h.tornDown, h.destroyed, h.polled, h.sending, hready⟩

theorem Serving.uses {s : Application} (h : Serving s) (event : AppEvent) :
    s.misuses event = false := by
  have hthere : ∀ rk : Option Producer, rk ≠ none → s.gone rk = false := by
    intro rk hrk
    obtain ⟨p, rfl⟩ := Option.ne_none_iff_exists'.mp hrk
    simp [Application.gone, h.destroyed]
  have hready := h.ready
  cases event with
  | main event =>
    cases event with
    | flushed | destroyed =>
      simp only [Application.misuses]
      split
      · next rk hmain =>
        rw [hmain] at hready
        exact hready.elim
      · rfl
    | _ => rfl
  | worker t event =>
    cases event with
    | produced err =>
      simp only [Application.misuses]
      cases hw : s.workers t with
      | none => rfl
      | some w =>
        rw [Option.any_some]
        split
        · next rk hcall => exact hthere rk ((h.sending t w hw).2 rk (by rw [hcall]; rfl))
        · rfl
    | _ => rfl
  | poll t =>
    simp only [Application.misuses]
    cases hpoller : s.pollers t with
    | none => rfl
    | some poller =>
      rw [Option.any_some, hthere poller.rk (h.polled t poller hpoller), Bool.and_false]

theorem Serving.main {s s' : Application} {event : MainEvent} (h : Serving s)
    (hok : PollingStarted s (.main event)) (hstep : s.mainStep event = some s') : Serving s' := by
  have hpolling := h.toPolling.main hstep
  have hready := h.ready
  cases mainMove_of_step hstep with
  | stays => exact h
  | begins command method hmain =>
    cases method with
    | printHelp => exact h
    | commandExit => exact h.goto hpolling rfl
    | _ => exact h.goto hpolling trivial
  | kafkaInit hmain =>
    refine ⟨hpolling, h.defined, h.tornDown, h.destroyed, h.polled, fun t w hw => ?_,
      Option.some_ne_none _⟩
    exact ⟨Option.some_ne_none _, (h.sending t w hw).2⟩
  | returns => exact h.goto hpolling trivial
  | sends request phase event s₁ progress hmain hsend =>
    obtain ⟨_, _, _, rfl⟩ := sendStep_frame hsend
    refine ⟨hpolling, h.defined, h.tornDown, h.destroyed, h.polled, h.sending, ?_⟩
    rw [hmain] at hready
    cases request with
    | setupPt =>
      cases progress with
      | goes phase => exact hready
      | returns outcome =>
        cases outcome with
        | sent => exact hready
        | _ => trivial
    | _ =>
      cases progress with
      | goes phase => trivial
      | returns outcome => cases outcome <;> trivial
  | answered hmain =>
    rw [hmain] at hready
    exact h.goto hpolling hready
  | creates t hmain hunused =>
    rw [hmain] at hready
    refine ⟨hpolling, h.defined, h.tornDown, h.destroyed, h.polled, fun t' w hw => ?_, trivial⟩
    by_cases ht : t' = t
    · subst ht
      simp only [Function.update_self] at hw
      cases hw
      exact ⟨hready, nofun⟩
    · simp only [Function.update_of_ne ht] at hw
      exact h.sending t' w hw
  | tearsDown rk hmain hnone =>
    simp only [PollingStarted, hmain] at hok
    exact absurd hnone hok
  | waits rk t hmain hhandle => exact h.goto hpolling trivial
  | ended rk t hmain hstopped =>
    obtain ⟨poller, hpoller⟩ := Option.isSome_iff_exists.mp (h.waits rk t hmain)
    rw [hpoller, Option.any_some, h.running t poller hpoller] at hstopped
    cases hstopped
  | flushed rk hmain | destroyed rk hmain =>
    rw [hmain] at hready
    exact hready.elim

theorem Serving.progress {s s₁ : Application} {t : Nat} {w : Worker} {progress : WorkerProgress}
    (h : Serving s) (hpolling : Polling s₁) (hw : s.workers t = some w)
    (hmove : WorkerMove s t w s₁ progress) :
    Serving s₁ ∧ s₁.kafkaHandler = s.kafkaHandler ∧ s₁.workers = s.workers ∧
      ∀ rk, progress.call.rk = some rk → rk ≠ none := by
  obtain ⟨hcurrent, hrk⟩ := h.sending t w hw
  cases hmove with
  | enters => exact ⟨h, rfl, rfl, nofun⟩
  | calls =>
    refine ⟨h, rfl, rfl, fun rk hsome => ?_⟩
    cases hsome
    exact hcurrent
  | sends phase event s' sent hcall hsend =>
    obtain ⟨_, _, _, rfl⟩ := sendStep_frame hsend
    rw [sendProgress_rk]
    exact ⟨⟨hpolling, h.defined, h.tornDown, h.destroyed, h.polled, h.sending, h.ready⟩, rfl, rfl,
      nofun⟩
  | tests call hsame => exact ⟨h, rfl, rfl, fun rk hsome => hrk rk (hsame ▸ hsome)⟩
  | createFails rk hcall =>
    have hnew : rk ≠ none := hrk rk (by rw [hcall]; rfl)
    refine ⟨⟨hpolling, h.defined, h.tornDown, h.destroyed, h.polled, h.sending, h.ready⟩, rfl, rfl,
      fun rk' hsome => ?_⟩
    cases hsome
    exact hnew
  | creates rk p hcall hunused =>
    have hnew : rk ≠ none := hrk rk (by rw [hcall]; rfl)
    refine ⟨⟨hpolling, h.defined, h.tornDown, h.destroyed, fun t' poller ht => ?_, h.sending,
      h.ready⟩, rfl, rfl, fun rk' hsome => ?_⟩
    · by_cases htp : t' = p
      · subst htp
        simp only [Function.update_self] at ht
        cases ht
        exact hnew
      · simp only [Function.update_of_ne htp] at ht
        exact h.polled t' poller ht
    · cases hsome
      exact hnew
  | returns event call hcall =>
    refine ⟨h, rfl, rfl, fun rk hsome => ?_⟩
    obtain rfl | ⟨-, hsame⟩ := hcall
    · cases hsome
    · exact hrk rk (hsame ▸ hsome)

theorem Serving.worker {s s' : Application} {t : Nat} {event : WorkerEvent} (h : Serving s)
    (hstep : s.workerStep t event = some s') : Serving s' := by
  have hpolling := h.toPolling.worker hstep
  obtain ⟨w, s₁, thread, progress, hw, hprogress, rfl, -⟩ := workerStep_cases hstep
  have hpolling₁ : Polling s₁ := ⟨hpolling.gRun, hpolling.running, hpolling.started, hpolling.waits⟩
  obtain ⟨h₁, hcurrent, hworkers, hrk⟩ :=
    h.progress hpolling₁ hw (workerMove_of_progress hprogress)
  refine ⟨hpolling, h₁.defined, h₁.tornDown, h₁.destroyed, h₁.polled, fun t' w' hw' => ?_,
    h₁.ready⟩
  by_cases ht : t' = t
  · subst ht
    simp only [Function.update_self] at hw'
    cases hw'
    exact ⟨hcurrent ▸ (h.sending t' w hw).1, hrk⟩
  · simp only [Function.update_of_ne ht] at hw'
    exact h₁.sending t' w' (hworkers ▸ hw')

theorem Serving.step {s s' : Application} {event : AppEvent} (h : Serving s)
    (hok : PollingStarted s event) (hstep : s.step event = some s') : Serving s' := by
  rw [step_defined h.defined (h.uses event)] at hstep
  cases event with
  | main event => exact h.main hok hstep
  | worker t event => exact h.worker hstep
  | poll t => exact h.toPolling.poll hstep ▸ h

/-- If StopKafkaPolling has nothing to wait for, KafkaUninit takes down the current producer, or
there is none. -/
theorem Serving.step_tearDown {s : Application} {event : AppEvent} (h : Serving s)
    (hbad : ¬ PollingStarted s event) : ∃ s', s.step event = some s' ∧ ¬ Safe s' := by
  unfold PollingStarted at hbad
  split at hbad
  · next rk hmain =>
    have hready := h.ready
    rw [hmain] at hready
    refine ⟨{ s with main := .flush rk, tornDown := s.tornDown ++ rk.toList }, ?_, fun hsafe => ?_⟩
    · rw [step_defined h.defined rfl]
      simp only [Application.threadStep, Application.mainStep, hmain, not_not.mp hbad]
    · obtain ⟨p, rfl⟩ := Option.ne_none_iff_exists'.mp (hsafe.main rk (Or.inl rfl))
      exact hsafe.current p hready.symm (List.mem_append_right _ (List.mem_singleton_self p))
  · exact absurd trivial hbad

/-- The producers in use are there exactly in the runs in which exit finds a polling thread to
wait for. -/
theorem safe_iff (events : List AppEvent) :
    Every Application.step Safe {} events ↔ Meets Application.step PollingStarted {} events :=
  every_iff_meets Serving (fun _ h => h.safe) (fun _ _ _ h hok hstep => h.step hok hstep)
    (fun _ _ h hbad => h.step_tearDown hbad) {} events serving_new

end IntelPt.UserModeApp
