import IntelPt.UserModeApp.Publishing
import Mathlib.Logic.Function.Basic

/-! The user mode application with its threads: the main thread, which reads commands, the
ThreadProc threads that CommandSetupPt creates, and the PollKafkaThread threads. They share the
driver handle, the producer and the handle of the polling thread without a lock, so each access
to one of these is a step of its own, and the steps of the threads come in any order. -/
namespace IntelPt.UserModeApp
open Decoder

abbrev Handle := Nat

abbrev Producer := Nat

inductive CommandMethod where
  | commandTest | commandQueryPtCapabilities | commandSetupPt | printHelp | commandExit
  deriving DecidableEq, Repr

def commands : List (String × CommandMethod) :=
  [("test", .commandTest), ("query", .commandQueryPtCapabilities), ("setup", .commandSetupPt),
    ("help", .printHelp), ("exit", .commandExit)]

def findCommand (command : String) : Option CommandMethod :=
  (commands.find? fun entry => entry.1 == command).map (·.2)

inductive Request where
  | test | queryPtCapabilities | setupPt
  deriving DecidableEq, Repr

inductive SendPhase where
  /-- at malloc and CreateEvent -/
  | overlapped
  /-- at the comparison with INVALID_HANDLE_VALUE -/
  | compare
  | createFile
  /-- at `*Handle = gDriverHandle` -/
  | read
  | deviceIoControl (driverHandle : Option Handle)
  deriving DecidableEq, Repr

inductive SendEvent where
  | overlapped (malloc createEvent : Bool)
  | compare
  /-- the handle, `none` for INVALID_HANDLE_VALUE -/
  | createFile (handle : Option Handle)
  | read
  | deviceIoControl

inductive MainPhase where
  /-- in InputCommand, at scanf_s -/
  | inputCommand
  | kafkaInit
  | send (request : Request) (phase : SendPhase)
  /-- at WaitForSingleObject on the event of the request -/
  | wait (request : Request)
  /-- at CreateThread of a ThreadProc -/
  | createThread
  /-- in KafkaUninit, at the call of StopKafkaPolling -/
  | kafkaUninit (rk : Option Producer)
  /-- in StopKafkaPolling, at WaitForSingleObject on that thread -/
  | stopKafkaPolling (rk : Option Producer) (thread : Nat)
  /-- at rd_kafka_flush -/
  | flush (rk : Option Producer)
  | destroy (rk : Option Producer)
  deriving DecidableEq, Repr

inductive WorkerCall where
  | entry
  | send (phase : SendPhase)
  /-- at WaitForSingleObject on the event of the request -/
  | wait
  /-- in KafkaSendMessage, at `!gPollingThreadHandle` -/
  | polling (rk : Option Producer)
  /-- in StartKafkaPolling, at `gPollingThreadHandle != NULL` -/
  | startKafkaPolling (rk : Option Producer)
  | createThread (rk : Option Producer)
  /-- at rd_kafka_producev -/
  | produce (rk : Option Producer)
  deriving DecidableEq, Repr

def WorkerCall.rk : WorkerCall → Option (Option Producer)
  | .polling rk | .startKafkaPolling rk | .createThread rk | .produce rk => some rk
  | .entry | .send _ | .wait => none

structure Worker where
  thread : ThreadState := {}
  call : WorkerCall := .entry

structure Poller where
  rk : Option Producer
  running : Bool := true

inductive ThreadId where
  | main | worker (thread : Nat)
  deriving DecidableEq, Repr

structure Application where
  /-- gDriverHandle, `none` for INVALID_HANDLE_VALUE -/
  driverHandle : Option Handle := none
  kafkaHandler : Option Producer := none
  gPollingThreadHandle : Option Nat := none
  gRun : Bool := true
  main : MainPhase := .inputCommand
  workers : Nat → Option Worker := fun _ => none
  pollers : Nat → Option Poller := fun _ => none
  /-- how many producers there were -/
  producers : Nat := 0
  /-- the producers that KafkaUninit flushes and destroys -/
  tornDown : List Producer := []
  /-- those that rd_kafka_destroy was called for -/
  destroyed : List Producer := []
  /-- a function of librdkafka was called without a producer -/
  undefined : Bool := false
  /-- the calls of CreateFileW and what they returned -/
  opened : List (ThreadId × Option Handle) := []
  /-- the calls of DeviceIoControl and their handles -/
  requests : List (ThreadId × Option Handle) := []

inductive MainEvent where
  | inputCommand (command : String)
  | kafkaInit (confSet created : Bool)
  | send (event : SendEvent)
  | wait (result : WaitResult)
  /-- the thread that CreateThread makes, `none` for NULL -/
  | createThread (thread : Option Nat)
  | stopKafkaPolling
  | pollingEnded
  | flushed
  | destroyed

inductive WorkerEvent where
  /-- the next call of the loop -/
  | enter
  | send (event : SendEvent)
  /-- the wait for a reply ends; what was written counts for CommandGetBuffer only -/
  | reply (wait : WaitResult) (bytesWritten : BitVec 32) (data : PacketInfo)
  | calloc (available : Bool) (memory : BitVec 64 → Byte)
  /-- a test of gPollingThreadHandle -/
  | testPolling
  | createThread (thread : Option Nat)
  | produced (err : RdKafkaRespErr)

inductive AppEvent where
  | main (event : MainEvent)
  | worker (thread : Nat) (event : WorkerEvent)
  /-- a PollKafkaThread takes a turn of its loop -/
  | poll (thread : Nat)

inductive SendProgress where
  | goes (phase : SendPhase)
  | returns (outcome : SendOutcome)

def sendStep (s : Application) (caller : ThreadId) :
    SendPhase → SendEvent → Option (Application × SendProgress)
  | .overlapped, .overlapped malloc createEvent =>
    if !malloc then some (s, .returns .noOverlapped)
    else if !createEvent then some (s, .returns .noEvent)
    else some (s, .goes .compare)
  | .compare, .compare =>
    if s.driverHandle = none then some (s, .goes .createFile) else some (s, .goes .read)
  | .createFile, .createFile handle =>
    let s := { s with driverHandle := handle, opened := s.opened ++ [(caller, handle)] }
    if handle = none then some (s, .returns .noDriverHandle) else some (s, .goes .read)
  | .read, .read => some (s, .goes (.deviceIoControl s.driverHandle))
  | .deviceIoControl driverHandle, .deviceIoControl =>
    some ({ s with requests := s.requests ++ [(caller, driverHandle)] }, .returns .sent)
  | _, _ => none

def Application.Unused (s : Application) (thread : Nat) : Prop :=
  s.workers thread = none ∧ s.pollers thread = none

instance (s : Application) (thread : Nat) : Decidable (s.Unused thread) :=
  match hw : s.workers thread, hp : s.pollers thread with
  | none, none => isTrue ⟨hw, hp⟩
  | some _, _ => isFalse fun h => by rw [h.1] at hw; cases hw
  | none, some _ => isFalse fun h => by rw [h.2] at hp; cases hp

def Application.begin (s : Application) : CommandMethod → Application
  | .commandTest => { s with main := .send .test .overlapped }
  | .commandQueryPtCapabilities => { s with main := .send .queryPtCapabilities .overlapped }
  | .commandSetupPt => { s with main := .kafkaInit }
  | .printHelp => s
  | .commandExit => { s with main := .kafkaUninit s.kafkaHandler }

def Application.mainStep (s : Application) : MainEvent → Option Application
  | .inputCommand command =>
    if s.main = .inputCommand then
      match findCommand command with
      | none => some s
      | some method => some (s.begin method)
    else none
  | .kafkaInit confSet created =>
    if s.main = .kafkaInit then
      if confSet && created then
        some { s with
          kafkaHandler := some s.producers
          producers := s.producers + 1
          main := .send .setupPt .overlapped }
      else some { s with main := .inputCommand }
    else none
  | .send event =>
    match s.main with
    | .send request phase =>
      (sendStep s .main phase event).map fun r =>
        match r.2 with
        | .goes phase => { r.1 with main := .send request phase }
        | .returns outcome =>
          let (status, overlapped) := communicationSendMessage outcome
          if !status.succeeded || !overlapped then { r.1 with main := .inputCommand }
          else { r.1 with main := .wait request }
    | _ => none
  | .wait result =>
    match s.main with
    | .wait request =>
      if request = .setupPt ∧ result = .waitObject0 then some { s with main := .createThread }
      else some { s with main := .inputCommand }
    | _ => none
  | .createThread thread =>
    if s.main = .createThread then
      match thread with
      | none => some { s with main := .inputCommand }
      | some t =>
        if s.Unused t then
          some { s with
            workers := Function.update s.workers t (some {})
            main := .inputCommand }
        else none
    else none
  | .stopKafkaPolling =>
    match s.main with
    | .kafkaUninit rk =>
      match s.gPollingThreadHandle with
      -- WaitForSingleObject fails at once, and its result is not looked at
      | none => some { s with main := .flush rk, tornDown := s.tornDown ++ rk.toList }
      | some t => some { s with main := .stopKafkaPolling rk t }
    | _ => none
  | .pollingEnded =>
    match s.main with
    | .stopKafkaPolling rk t =>
      if (s.pollers t).any (·.running) then none
      else some { s with main := .flush rk, tornDown := s.tornDown ++ rk.toList }
    | _ => none
  | .flushed =>
    match s.main with
    | .flush rk => some { s with main := .destroy rk }
    | _ => none
  | .destroyed =>
    match s.main with
    | .destroy rk =>
      some { s with main := .inputCommand, destroyed := s.destroyed ++ rk.toList }
    | _ => none

inductive WorkerProgress where
  | goes (call : WorkerCall)
  | returns (event : Event) (call : WorkerCall)

def WorkerProgress.call : WorkerProgress → WorkerCall
  | .goes call => call
  | .returns _ call => call

def WorkerProgress.outside : WorkerProgress → Option Event
  | .goes _ => none
  | .returns event _ => some event

def notSent (outcome : SendOutcome) : GetBufferReply where
  send := outcome
  wait := .unsuccessful
  bytesWritten := 0
  data := ⟨⟨0, 0, 0, 0, ⟨false, false, 0⟩⟩, ⟨0, 0, 0⟩⟩

def sendProgress (phase : Phase) : SendProgress → WorkerProgress
  | .goes phase => .goes (.send phase)
  | .returns .sent => .goes .wait
  | .returns outcome =>
    match phase with
    | .freeBuffer => .returns (.freed outcome) .entry
    | _ => .returns (.reply (notSent outcome)) .entry

def Application.workerProgress (s : Application) (t : Nat) (w : Worker) :
    WorkerEvent → Option (Application × WorkerProgress)
  | .enter =>
    match w.call, w.thread.phase with
    | .entry, .getBuffer | .entry, .freeBuffer => some (s, .goes (.send .overlapped))
    | .entry, .send _ => some (s, .goes (.polling s.kafkaHandler))
    | _, _ => none
  | .send event =>
    match w.call with
    | .send phase =>
      (sendStep s (.worker t) phase event).map fun r => (r.1, sendProgress w.thread.phase r.2)
    | _ => none
  | .reply wait bytesWritten data =>
    match w.call, w.thread.phase with
    | .wait, .getBuffer => some (s, .returns (.reply ⟨.sent, wait, bytesWritten, data⟩) .entry)
    | .wait, .freeBuffer => some (s, .returns (.freed .sent) .entry)
    | _, _ => none
  | .calloc available memory =>
    match w.call, w.thread.phase with
    | .entry, .build _ => some (s, .returns (.calloc available memory) .entry)
    | _, _ => none
  | .testPolling =>
    match w.call with
    | .polling rk =>
      if s.gPollingThreadHandle = none then some (s, .goes (.startKafkaPolling rk))
      else some (s, .goes (.produce rk))
    | .startKafkaPolling rk =>
      if s.gPollingThreadHandle = none then some (s, .goes (.createThread rk))
      else some (s, .goes (.produce rk))
    | _ => none
  | .createThread thread =>
    match w.call with
    | .createThread rk =>
      let s' := { s with gPollingThreadHandle := thread }
      match thread with
      | none => some (s', .goes (.produce rk))
      | some p =>
        if s.Unused p then
          some ({ s' with pollers := Function.update s.pollers p (some { rk := rk }) },
            .goes (.produce rk))
        else none
    | _ => none
  | .produced err =>
    match w.call with
    | .produce rk =>
      some (s, .returns (.produced err) (if err = .queueFull then .produce rk else .entry))
    | _ => none

def Application.workerStep (s : Application) (t : Nat) (event : WorkerEvent) :
    Option Application :=
  (s.workers t).bind fun w =>
    (s.workerProgress t w event).bind fun r =>
      match r.2 with
      | .goes call =>
        some { r.1 with workers := Function.update s.workers t (some { w with call := call }) }
      | .returns outside call =>
        (threadProcStep w.thread outside).map fun thread =>
          { r.1 with workers := Function.update s.workers t (some ⟨thread, call⟩) }

def Application.pollStep (s : Application) (t : Nat) : Option Application :=
  (s.pollers t).bind fun poller =>
    if poller.running then
      some { s with
        pollers := Function.update s.pollers t (some { poller with running := s.gRun }) }
    else none

def Application.gone (s : Application) (rk : Option Producer) : Bool :=
  rk.all (s.destroyed.contains ·)

/-- A thread calls rd_kafka_producev, rd_kafka_poll, rd_kafka_flush or rd_kafka_destroy with such a
producer. -/
def Application.misuses (s : Application) : AppEvent → Bool
  | .main .flushed =>
    match s.main with
    | .flush rk => s.gone rk
    | _ => false
  | .main .destroyed =>
    match s.main with
    | .destroy rk => s.gone rk
    | _ => false
  | .worker t (.produced _) =>
    (s.workers t).any fun w =>
      match w.call with
      | .produce rk => s.gone rk
      | _ => false
  | .poll t => (s.pollers t).any fun poller => poller.running && s.gone poller.rk
  | .main _ | .worker _ _ => false

def Application.threadStep (s : Application) : AppEvent → Option Application
  | .main event => s.mainStep event
  | .worker t event => s.workerStep t event
  | .poll t => s.pollStep t

/-- Behind such a call nothing is known of the application. -/
def Application.step (s : Application) (event : AppEvent) : Option Application :=
  if s.undefined then none
  else if s.misuses event then some { s with undefined := true }
  else s.threadStep event

/-! What the steps can do. -/

theorem step_cases {s s' : Application} {event : AppEvent} (h : s.step event = some s') :
    s.undefined = false ∧ ((s.misuses event = true ∧ s' = { s with undefined := true }) ∨
      (s.misuses event = false ∧ s.threadStep event = some s')) := by
  simp only [Application.step] at h
  split_ifs at h with hundefined hmisuses
  · cases h
    exact ⟨Bool.eq_false_iff.mpr hundefined, Or.inl ⟨hmisuses, rfl⟩⟩
  · exact ⟨Bool.eq_false_iff.mpr hundefined, Or.inr ⟨Bool.eq_false_iff.mpr hmisuses, h⟩⟩

/-- While the application is defined and no producer misused, a thread takes its steps. -/
theorem step_defined {s : Application} (hdefined : s.undefined = false) {event : AppEvent}
    (hok : s.misuses event = false) : s.step event = s.threadStep event := by
  simp only [Application.step, hdefined, hok, Bool.false_eq_true, if_false]

theorem isSome_update {α : Type*} {threads : Nat → Option α} {p t : Nat} {thread : α}
    (h : (threads t).isSome = true) :
    (Function.update threads p (some thread) t).isSome = true := by
  by_cases ht : t = p
  · rw [ht, Function.update_self]
    rfl
  · rw [Function.update_of_ne ht]
    exact h

theorem sendStep_frame {s s' : Application} {caller : ThreadId} {phase : SendPhase}
    {event : SendEvent} {progress : SendProgress}
    (h : sendStep s caller phase event = some (s', progress)) :
    ∃ driverHandle opened requests,
      s' = { s with driverHandle := driverHandle, opened := opened, requests := requests } := by
  cases phase <;> cases event <;> simp only [sendStep, reduceCtorEq] at h
  · split_ifs at h <;> cases h <;> exact ⟨_, _, _, rfl⟩
  · split_ifs at h <;> cases h <;> exact ⟨_, _, _, rfl⟩
  · split_ifs at h <;> cases h <;> exact ⟨_, _, _, rfl⟩
  · cases h
    exact ⟨_, _, _, rfl⟩
  · cases h
    exact ⟨_, _, _, rfl⟩

def sendMain (request : Request) : SendProgress → MainPhase
  | .goes phase => .send request phase
  | .returns .sent => .wait request
  | .returns _ => .inputCommand

inductive MainMove (s : Application) : MainEvent → Application → Prop
  | stays (command : String) : MainMove s (.inputCommand command) s
  | begins (command : String) (method : CommandMethod) (h : s.main = .inputCommand) :
    MainMove s (.inputCommand command) (s.begin method)
  | kafkaInit (h : s.main = .kafkaInit) :
    MainMove s (.kafkaInit true true) { s with
      kafkaHandler := some s.producers
      producers := s.producers + 1
      main := .send .setupPt .overlapped }
  | returns (event : MainEvent) : MainMove s event { s with main := .inputCommand }
  | sends (request : Request) (phase : SendPhase) (event : SendEvent) (s' : Application)
    (progress : SendProgress) (h : s.main = .send request phase)
    (hsend : sendStep s .main phase event = some (s', progress)) :
    MainMove s (.send event) { s' with main := sendMain request progress }
  | answered (h : s.main = .wait .setupPt) :
    MainMove s (.wait .waitObject0) { s with main := .createThread }
  | creates (t : Nat) (h : s.main = .createThread) (hunused : s.Unused t) :
    MainMove s (.createThread (some t)) { s with
      workers := Function.update s.workers t (some {})
      main := .inputCommand }
  | tearsDown (rk : Option Producer) (h : s.main = .kafkaUninit rk)
    (hpolling : s.gPollingThreadHandle = none) :
    MainMove s .stopKafkaPolling { s with
      main := .flush rk
      tornDown := s.tornDown ++ rk.toList }
  | waits (rk : Option Producer) (t : Nat) (h : s.main = .kafkaUninit rk)
    (hpolling : s.gPollingThreadHandle = some t) :
    MainMove s .stopKafkaPolling { s with main := .stopKafkaPolling rk t }
  | ended (rk : Option Producer) (t : Nat) (h : s.main = .stopKafkaPolling rk t)
    (hstopped : (s.pollers t).any (·.running) = false) :
    MainMove s .pollingEnded { s with
      main := .flush rk
      tornDown := s.tornDown ++ rk.toList }
  | flushed (rk : Option Producer) (h : s.main = .flush rk) :
    MainMove s .flushed { s with main := .destroy rk }
  | destroyed (rk : Option Producer) (h : s.main = .destroy rk) :
    MainMove s .destroyed { s with
      main := .inputCommand
      destroyed := s.destroyed ++ rk.toList }

theorem mainMove_of_step {s s' : Application} {event : MainEvent}
    (h : s.mainStep event = some s') : MainMove s event s' := by
  cases event with
  | inputCommand command =>
    simp only [Application.mainStep] at h
    split_ifs at h with hmain
    cases hfind : findCommand command with
    | none =>
      rw [hfind] at h
      cases h
      exact .stays command
    | some method =>
      rw [hfind] at h
      cases h
      exact .begins command method hmain
  | kafkaInit confSet created =>
    simp only [Application.mainStep] at h
    split_ifs at h with hmain hok
    · cases h
      obtain ⟨rfl, rfl⟩ := Bool.and_eq_true_iff.mp hok
      exact .kafkaInit hmain
    · cases h
      exact .returns _
  | send event =>
    simp only [Application.mainStep] at h
    split at h
    · next request phase hmain =>
      obtain ⟨⟨s₁, progress⟩, hsend, rfl⟩ := Option.map_eq_some_iff.mp h
      have hmove := MainMove.sends request phase event s₁ progress hmain hsend
      cases progress with
      | goes phase => exact hmove
      | returns outcome => cases outcome <;> exact hmove
    · cases h
  | wait result =>
    simp only [Application.mainStep] at h
    split at h
    · next request hmain =>
      split_ifs at h with hsetup
      · cases h
        obtain ⟨rfl, rfl⟩ := hsetup
        exact .answered hmain
      · cases h
        exact .returns _
    · cases h
  | createThread thread =>
    simp only [Application.mainStep] at h
    split_ifs at h with hmain
    cases thread with
    | none =>
      cases h
      exact .returns _
    | some t =>
      simp only at h
      split_ifs at h with hunused
      cases h
      exact .creates t hmain hunused
  | stopKafkaPolling =>
    simp only [Application.mainStep] at h
    split at h
    · next rk hmain =>
      split at h
      · next hpolling =>
        cases h
        exact .tearsDown rk hmain hpolling
      · next t hpolling =>
        cases h
        exact .waits rk t hmain hpolling
    · cases h
  | pollingEnded =>
    simp only [Application.mainStep] at h
    split at h
    · next rk t hmain =>
      split_ifs at h with hrunning
      cases h
      exact .ended rk t hmain (Bool.eq_false_iff.mpr hrunning)
    · cases h
  | flushed =>
    simp only [Application.mainStep] at h
    split at h
    · next rk hmain =>
      cases h
      exact .flushed rk hmain
    · cases h
  | destroyed =>
    simp only [Application.mainStep] at h
    split at h
    · next rk hmain =>
      cases h
      exact .destroyed rk hmain
    · cases h

inductive WorkerMove (s : Application) (t : Nat) (w : Worker) :
    Application → WorkerProgress → Prop
  | enters : WorkerMove s t w s (.goes (.send .overlapped))
  | calls : WorkerMove s t w s (.goes (.polling s.kafkaHandler))
  | sends (phase : SendPhase) (event : SendEvent) (s' : Application) (progress : SendProgress)
    (h : w.call = .send phase) (hsend : sendStep s (.worker t) phase event = some (s', progress)) :
    WorkerMove s t w s' (sendProgress w.thread.phase progress)
  | tests (call : WorkerCall) (h : call.rk = w.call.rk) (hsend : ∀ phase, call ≠ .send phase) :
    WorkerMove s t w s (.goes call)
  | createFails (rk : Option Producer) (h : w.call = .createThread rk) :
    WorkerMove s t w { s with gPollingThreadHandle := none } (.goes (.produce rk))
  | creates (rk : Option Producer) (p : Nat) (h : w.call = .createThread rk)
    (hunused : s.Unused p) :
    WorkerMove s t w { s with
        gPollingThreadHandle := some p
        pollers := Function.update s.pollers p (some { rk := rk }) }
      (.goes (.produce rk))
  | returns (event : Event) (call : WorkerCall)
    (h : call = .entry ∨ call.rk ≠ none ∧ call.rk = w.call.rk) :
    WorkerMove s t w s (.returns event call)

theorem workerMove_of_progress {s s' : Application} {t : Nat} {w : Worker} {event : WorkerEvent}
    {progress : WorkerProgress} (h : s.workerProgress t w event = some (s', progress)) :
    WorkerMove s t w s' progress := by
  cases event with
  | enter =>
    simp only [Application.workerProgress] at h
    split at h
    · cases h
      exact .enters
    · cases h
      exact .enters
    · cases h
      exact .calls
    · cases h
  | send event =>
    simp only [Application.workerProgress] at h
    split at h
    · next phase hcall =>
      obtain ⟨⟨s₁, sent⟩, hsend, hr⟩ := Option.map_eq_some_iff.mp h
      cases hr
      exact .sends phase event _ sent hcall hsend
    · cases h
  | reply wait bytesWritten data =>
    simp only [Application.workerProgress] at h
    split at h
    · cases h
      exact .returns _ _ (Or.inl rfl)
    · cases h
      exact .returns _ _ (Or.inl rfl)
    · cases h
  | calloc available memory =>
    simp only [Application.workerProgress] at h
    split at h
    · cases h
      exact .returns _ _ (Or.inl rfl)
    · cases h
  | testPolling =>
    simp only [Application.workerProgress] at h
    split at h
    · next rk hcall =>
      split_ifs at h <;> cases h <;> exact .tests _ (by rw [hcall]; rfl) nofun
    · next rk hcall =>
      split_ifs at h <;> cases h <;> exact .tests _ (by rw [hcall]; rfl) nofun
    · cases h
  | createThread thread =>
    simp only [Application.workerProgress] at h
    split at h
    · next rk hcall =>
      cases thread with
      | none =>
        cases h
        exact .createFails rk hcall
      | some p =>
        simp only at h
        split_ifs at h with hunused
        cases h
        exact .creates rk p hcall hunused
    · cases h
  | produced err =>
    simp only [Application.workerProgress] at h
    split at h
    · next rk hcall =>
      cases h
      refine .returns _ _ ?_
      split_ifs
      · exact Or.inr ⟨nofun, by rw [hcall]⟩
      · exact Or.inl rfl
    · cases h

theorem sendProgress_rk (phase : Phase) (progress : SendProgress) :
    (sendProgress phase progress).call.rk = none := by
  cases progress with
  | goes => rfl
  | returns outcome => cases outcome <;> cases phase <;> rfl

theorem workerStep_cases {s s' : Application} {t : Nat} {event : WorkerEvent}
    (h : s.workerStep t event = some s') : ∃ w s₁ thread progress, s.workers t = some w ∧
      s.workerProgress t w event = some (s₁, progress) ∧
      s' = { s₁ with workers := Function.update s.workers t (some ⟨thread, progress.call⟩) } ∧
      ((progress.outside = none ∧ thread = w.thread) ∨
        ∃ event, progress.outside = some event ∧ threadProcStep w.thread event = some thread) := by
  simp only [Application.workerStep, Option.bind_eq_some_iff] at h
  obtain ⟨w, hw, ⟨s₁, progress⟩, hprogress, h⟩ := h
  cases progress with
  | goes call =>
    cases h
    exact ⟨w, s₁, w.thread, _, hw, hprogress, rfl, Or.inl ⟨rfl, rfl⟩⟩
  | returns outside call =>
    obtain ⟨thread, hthread, rfl⟩ := Option.map_eq_some_iff.mp h
    exact ⟨w, s₁, thread, _, hw, hprogress, rfl, Or.inr ⟨outside, rfl, hthread⟩⟩

theorem pollStep_cases {s s' : Application} {t : Nat} (h : s.pollStep t = some s') :
    ∃ poller, s.pollers t = some poller ∧ s' = { s with
      pollers := Function.update s.pollers t (some { poller with running := s.gRun }) } := by
  obtain ⟨poller, hpoller, h⟩ := Option.bind_eq_some_iff.mp h
  split_ifs at h
  cases h
  exact ⟨poller, hpoller, rfl⟩

end IntelPt.UserModeApp
