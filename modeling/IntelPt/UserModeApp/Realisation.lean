import IntelPt.UserModeApp.Deployment

/-! The driver with one ThreadProc is what the whole application does when it runs one ThreadProc:
everything that can happen there happens here too, with the same steps of the driver. -/
namespace IntelPt.UserModeApp
open Decoder Runs Transducer
open Driver (System DriverOp Mdl CommBufferAddress PacketInput Core CoreEvent Leaks Waits
  allocatedBy firstSession tenPages)
open DriverUtils (ofThread ofThread_append_one)

/-- There is one ThreadProc, at that place in its call; the driver is open, and there is a producer
that was not destroyed. -/
structure InCall (t : Nat) (s : Deployment) (p : Pipeline) (call : WorkerCall) : Prop where
  driver : s.driver = p.driver
  waits : s.waits = p.waits
  request : s.request t = p.request
  dequeued : ofThread t s.dequeued = p.dequeued
  mapped : ofThread t s.mapped = p.mapped
  worker : s.app.workers t = some ⟨p.thread, call⟩
  alone : ∀ t', t' ≠ t → s.app.workers t' = none
  opened : s.app.driverHandle ≠ none
  defined : s.app.undefined = false
  producer : s.app.gone s.app.kafkaHandler = false

/-- Between two events of ThreadProc: its call has not begun, or it waits for the answer to its
request, or it is before another try of rd_kafka_producev. -/
inductive Between (s : Deployment) (p : Pipeline) : WorkerCall → Prop
  | entry (h : p.request = none) : Between s p .entry
  | wait (n : Nat) (h : p.request = some n) (hphase : p.thread.phase = .getBuffer) :
    Between s p .wait
  | produce (message : KafkaMessage) (rk : Option Producer) (h : p.request = none)
    (hphase : p.thread.phase = .send message) (hrk : s.app.gone rk = false) :
    Between s p (.produce rk)

def Realises (t : Nat) (s : Deployment) (p : Pipeline) : Prop :=
  ∃ call, InCall t s p call ∧ Between s p call

def Quietly (buffers : Mdl → List Byte) (s s' : Deployment) : Prop :=
  ∃ events, Reaches Deployment.step (Deployment.Undisturbed buffers) s events s' ∧
    deployedOps events = []

structure Application.Kept (app s : Application) : Prop where
  driverHandle : app.driverHandle = s.driverHandle
  kafkaHandler : app.kafkaHandler = s.kafkaHandler
  destroyed : app.destroyed = s.destroyed
  defined : app.undefined = s.undefined

section

variable {buffers : Mdl → List Byte} {t : Nat} {s : Deployment} {p : Pipeline}

theorem Quietly.refl (s : Deployment) : Quietly buffers s s := ⟨[], reaches_nil s, rfl⟩

theorem Quietly.trans {s₁ s' : Deployment} (h : Quietly buffers s s₁)
    (h' : Quietly buffers s₁ s') : Quietly buffers s s' := by
  obtain ⟨events, hreaches, hquiet⟩ := h
  obtain ⟨later, hlater, hquiet'⟩ := h'
  refine ⟨events ++ later, hreaches.append hlater, ?_⟩
  rw [deployedOps, List.filterMap_append, ← deployedOps, ← deployedOps, hquiet, hquiet',
    List.append_nil]

/-! One event of ThreadProc. -/

/-- What it gets from outside with the event disturbs nothing, so neither does the event. -/
theorem InCall.move (buffers : Mdl → List Byte) {call : WorkerCall} {event : WorkerEvent}
    {app : Application} {progress : WorkerProgress} {thread : ThreadState} {waits : Waits}
    {request : Nat → Option Nat}
    (h : InCall t s p call)
    (hprogress : s.app.workerProgress t ⟨p.thread, call⟩ event = some (app, progress))
    (hkept : app.Kept s.app)
    (hmisuses : s.app.misuses (.worker t event) = false)
    (hrequested : s.requested (.worker t event) =
      some { s with waits := waits, request := request })
    (hok : ∀ outside ∈ progress.outside,
      outside.BringsNoPacket ∧ Undisturbed buffers p (.thread outside))
    (hstep : s.app.workerStep t event = some { app with
      workers := Function.update s.app.workers t (some ⟨thread, progress.call⟩) }) :
    ∃ s', Quietly buffers s s' ∧
      InCall t s' { p with waits := waits, request := request t, thread := thread } progress.call ∧
      s'.app.destroyed = s.app.destroyed := by
  have hreceived : ∀ r ∈ s.app.received (.worker t event), r.1 = p.thread ∧
      r.2.BringsNoPacket ∧ Undisturbed buffers p (.thread r.2) := by
    intro r hr
    simp only [Application.received, h.worker, Option.bind_some, hprogress, Option.mem_def,
      Option.map_eq_some_iff] at hr
    obtain ⟨outside, houtside, rfl⟩ := hr
    exact ⟨rfl, hok outside houtside⟩
  have hnone : s.app.FetchesNone (.worker t event) := fun r hr => (hreceived r hr).2.1
  have hundisturbed : s.Undisturbed buffers (.app (.worker t event)) := by
    refine ⟨hmisuses, fun r hr => ?_⟩
    obtain ⟨hthread, -, hr⟩ := hreceived r hr
    rw [hthread, h.dequeued]
    exact hr
  let workers := Function.update s.app.workers t (some ⟨thread, progress.call⟩)
  have happ : s.app.step (.worker t event) = some { app with workers := workers } :=
    (step_defined h.defined hmisuses).trans hstep
  have hstep' : s.step (.app (.worker t event)) = some { s with
      waits := waits
      request := request
      app := { app with workers := workers } } := by
    simp only [Deployment.step, if_pos hnone, hrequested, Option.bind_some, happ, Option.map_some]
  refine ⟨_, ⟨_, Reaches.cons hundisturbed hstep' (reaches_nil _), rfl⟩, ⟨h.driver, rfl, rfl,
    h.dequeued, h.mapped, Function.update_self .., fun t' ht => ?_, ?_, ?_, ?_⟩, hkept.destroyed⟩
  · exact (Function.update_of_ne ht ..).trans (h.alone t' ht)
  · exact hkept.driverHandle ▸ h.opened
  · exact hkept.defined ▸ h.defined
  · have hproducer := h.producer
    rw [Application.gone] at hproducer ⊢
    rw [← hkept.kafkaHandler, ← hkept.destroyed] at hproducer
    exact hproducer

theorem InCall.goes {call call' : WorkerCall} {event : WorkerEvent} {app : Application}
    (h : InCall t s p call)
    (hprogress : s.app.workerProgress t ⟨p.thread, call⟩ event = some (app, .goes call'))
    (hkept : app.Kept s.app) (hmisuses : s.app.misuses (.worker t event) = false)
    (hrequested : s.requested (.worker t event) = some s) :
    ∃ s', Quietly buffers s s' ∧ InCall t s' p call' ∧ s'.app.destroyed = s.app.destroyed := by
  have hstep : s.app.workerStep t event = some { app with
      workers := Function.update s.app.workers t (some ⟨p.thread, call'⟩) } := by
    simp only [Application.workerStep, h.worker, Option.bind_some, hprogress]
  obtain ⟨s', hquiet, h', hsame⟩ :=
    h.move buffers hprogress hkept hmisuses hrequested
      (fun _ houtside => by cases houtside) hstep
  rw [h.waits, h.request] at h'
  exact ⟨s', hquiet, h', hsame⟩

theorem InCall.returns {call call' : WorkerCall} {event : WorkerEvent} {outside : Event}
    {thread : ThreadState} {waits : Waits} {request : Nat → Option Nat} (h : InCall t s p call)
    (hprogress : s.app.workerProgress t ⟨p.thread, call⟩ event =
      some (s.app, .returns outside call'))
    (hmisuses : s.app.misuses (.worker t event) = false)
    (hrequested : s.requested (.worker t event) =
      some { s with waits := waits, request := request })
    (hnone : outside.BringsNoPacket) (hok : Undisturbed buffers p (.thread outside))
    (hthread : threadProcStep p.thread outside = some thread) :
    ∃ s', Quietly buffers s s' ∧
      InCall t s' { p with waits := waits, request := request t, thread := thread } call' ∧
      s'.app.destroyed = s.app.destroyed := by
  have hstep : s.app.workerStep t event = some { s.app with
      workers := Function.update s.app.workers t (some ⟨thread, call'⟩) } := by
    simp only [Application.workerStep, h.worker, Option.bind_some, hprogress, hthread,
      Option.map_some]
  refine h.move buffers hprogress ⟨rfl, rfl, rfl, rfl⟩ hmisuses hrequested
    (fun _ houtside => ?_) hstep
  cases houtside
  exact ⟨hnone, hok⟩

theorem InCall.returns_same {call call' : WorkerCall} {event : WorkerEvent} {outside : Event}
    {thread : ThreadState} (h : InCall t s p call)
    (hprogress : s.app.workerProgress t ⟨p.thread, call⟩ event =
      some (s.app, .returns outside call'))
    (hmisuses : s.app.misuses (.worker t event) = false)
    (hrequested : s.requested (.worker t event) = some s)
    (hnone : outside.BringsNoPacket) (hok : Undisturbed buffers p (.thread outside))
    (hthread : threadProcStep p.thread outside = some thread) :
    ∃ s', Quietly buffers s s' ∧ InCall t s' { p with thread := thread } call' ∧
      s'.app.destroyed = s.app.destroyed := by
  obtain ⟨s', hquiet, h', hsame⟩ := h.returns hprogress hmisuses hrequested hnone hok hthread
  rw [h.waits, h.request] at h'
  exact ⟨s', hquiet, h', hsame⟩

/-! Its calls. -/

theorem InCall.send {phase : SendPhase} {event : SendEvent} {app : Application}
    {progress : SendProgress} {call : WorkerCall} (h : InCall t s p (.send phase))
    (hsend : sendStep s.app (.worker t) phase event = some (app, progress))
    (hcall : sendProgress p.thread.phase progress = .goes call) (hkept : app.Kept s.app)
    (hrequested : s.requested (.worker t (.send event)) = some s) :
    ∃ s', Quietly buffers s s' ∧ InCall t s' p call := by
  have hprogress : s.app.workerProgress t ⟨p.thread, .send phase⟩ (.send event) =
      some (app, .goes call) := by
    simp only [Application.workerProgress, hsend, Option.map_some, hcall]
  obtain ⟨s', hquiet, h', -⟩ := h.goes hprogress hkept rfl hrequested
  exact ⟨s', hquiet, h'⟩

theorem InCall.enter (buffers : Mdl → List Byte) (h : InCall t s p .entry)
    (hphase : p.thread.phase = .getBuffer ∨ p.thread.phase = .freeBuffer) :
    ∃ s', Quietly buffers s s' ∧ InCall t s' p (.send .overlapped) := by
  have hprogress : s.app.workerProgress t ⟨p.thread, .entry⟩ .enter =
      some (s.app, .goes (.send .overlapped)) := by
    obtain hphase | hphase := hphase <;> simp only [Application.workerProgress, hphase]
  obtain ⟨s', hquiet, h', -⟩ := h.goes hprogress ⟨rfl, rfl, rfl, rfl⟩ rfl rfl
  exact ⟨s', hquiet, h'⟩

/-- The request of ThreadProc is about to be sent. -/
theorem InCall.deviceIoControl (buffers : Mdl → List Byte) (h : InCall t s p .entry)
    (hphase : p.thread.phase = .getBuffer ∨ p.thread.phase = .freeBuffer) :
    ∃ s' driverHandle, Quietly buffers s s' ∧
      InCall t s' p (.send (.deviceIoControl driverHandle)) := by
  have hkept (app : Application) : app.Kept app := ⟨rfl, rfl, rfl, rfl⟩
  obtain ⟨s₁, hquiet₁, h₁⟩ := h.enter buffers hphase
  have hoverlapped : sendStep s₁.app (.worker t) .overlapped (.overlapped true true) =
      some (s₁.app, .goes .compare) := rfl
  obtain ⟨s₂, hquiet₂, h₂⟩ := h₁.send hoverlapped rfl (hkept _) rfl
  have hcompare : sendStep s₂.app (.worker t) .compare .compare =
      some (s₂.app, .goes .read) := by
    simp only [sendStep, if_neg h₂.opened]
  obtain ⟨s₃, hquiet₃, h₃⟩ := h₂.send hcompare rfl (hkept _) rfl
  have hread : sendStep s₃.app (.worker t) .read .read =
      some (s₃.app, .goes (.deviceIoControl s₃.app.driverHandle)) := rfl
  obtain ⟨s₄, hquiet₄, h₄⟩ := h₃.send hread rfl (hkept _) rfl
  exact ⟨s₄, _, hquiet₁.trans (hquiet₂.trans (hquiet₃.trans hquiet₄)), h₄⟩

theorem InCall.request_sent (buffers : Mdl → List Byte) (h : InCall t s p .entry)
    (hphase : p.thread.phase = .getBuffer) : ∃ s', Quietly buffers s s' ∧
      InCall t s' { p with
        waits := p.waits.arrive
        request := some p.waits.threads.length } .wait := by
  obtain ⟨s₁, driverHandle, hquiet, h₁⟩ := h.deviceIoControl buffers (Or.inl hphase)
  let app : Application := { s₁.app with
    requests := s₁.app.requests ++ [(.worker t, driverHandle)] }
  have hasks : s₁.app.asks t = true := asks_iff.mpr ⟨_, h₁.worker, hphase⟩
  have hprogress : s₁.app.workerProgress t ⟨p.thread, .send (.deviceIoControl driverHandle)⟩
      (.send .deviceIoControl) = some (app, .goes .wait) := rfl
  have hrequested : s₁.requested (.worker t (.send .deviceIoControl)) = some { s₁ with
      waits := s₁.waits.arrive
      request := Function.update s₁.request t (some s₁.waits.threads.length) } := if_pos hasks
  have hstep : s₁.app.workerStep t (.send .deviceIoControl) = some { app with
      workers := Function.update s₁.app.workers t (some ⟨p.thread, .wait⟩) } := by
    simp only [Application.workerStep, h₁.worker, Option.bind_some, hprogress]
  obtain ⟨s₂, hquiet', h₂, -⟩ := h₁.move buffers hprogress ⟨rfl, rfl, rfl, rfl⟩ rfl
    hrequested (fun _ houtside => by cases houtside) hstep
  rw [Function.update_self, h₁.waits] at h₂
  exact ⟨s₂, hquiet.trans hquiet', h₂⟩

theorem InCall.free_sent (buffers : Mdl → List Byte) (h : InCall t s p .entry)
    (hphase : p.thread.phase = .freeBuffer) : ∃ s', Quietly buffers s s' ∧ InCall t s' p .wait := by
  obtain ⟨s₁, driverHandle, hquiet, h₁⟩ := h.deviceIoControl buffers (Or.inr hphase)
  have hasks : ¬ s₁.app.asks t = true := fun hasks => by
    obtain ⟨w, hw, hget⟩ := asks_iff.mp hasks
    cases h₁.worker.symm.trans hw
    cases hphase.symm.trans hget
  have hsent : sendStep s₁.app (.worker t) (.deviceIoControl driverHandle) .deviceIoControl =
      some ({ s₁.app with requests := s₁.app.requests ++ [(.worker t, driverHandle)] },
        .returns .sent) := rfl
  obtain ⟨s₂, hquiet', h₂⟩ := h₁.send hsent rfl ⟨rfl, rfl, rfl, rfl⟩ (if_neg hasks)
  exact ⟨s₂, hquiet.trans hquiet', h₂⟩

theorem InCall.startKafkaPolling {rk : Option Producer}
    (h : InCall t s p (.startKafkaPolling rk)) :
    ∃ s', Quietly buffers s s' ∧ InCall t s' p (.produce rk) ∧
      s'.app.destroyed = s.app.destroyed := by
  have hkept (app : Application) : app.Kept app := ⟨rfl, rfl, rfl, rfl⟩
  by_cases hpolling : s.app.gPollingThreadHandle = none
  · have hprogress : s.app.workerProgress t ⟨p.thread, .startKafkaPolling rk⟩ .testPolling =
        some (s.app, .goes (.createThread rk)) := by
      simp only [Application.workerProgress, if_pos hpolling]
    obtain ⟨s₁, hquiet₁, h₁, hsame₁⟩ := h.goes hprogress (hkept _) rfl rfl
    have hcreate : s₁.app.workerProgress t ⟨p.thread, .createThread rk⟩ (.createThread none) =
        some ({ s₁.app with gPollingThreadHandle := none }, .goes (.produce rk)) := rfl
    obtain ⟨s₂, hquiet₂, h₂, hsame₂⟩ := h₁.goes hcreate ⟨rfl, rfl, rfl, rfl⟩ rfl rfl
    exact ⟨s₂, hquiet₁.trans hquiet₂, h₂, hsame₂.trans hsame₁⟩
  · have hprogress : s.app.workerProgress t ⟨p.thread, .startKafkaPolling rk⟩ .testPolling =
        some (s.app, .goes (.produce rk)) := by
      simp only [Application.workerProgress, if_neg hpolling]
    exact h.goes hprogress (hkept _) rfl rfl

theorem InCall.kafkaSendMessage (buffers : Mdl → List Byte) {message : KafkaMessage}
    (h : InCall t s p .entry) (hphase : p.thread.phase = .send message) :
    ∃ s' rk, Quietly buffers s s' ∧ InCall t s' p (.produce rk) ∧ s'.app.gone rk = false := by
  have hkept (app : Application) : app.Kept app := ⟨rfl, rfl, rfl, rfl⟩
  have henter : s.app.workerProgress t ⟨p.thread, .entry⟩ .enter =
      some (s.app, .goes (.polling s.app.kafkaHandler)) := by
    simp only [Application.workerProgress, hphase]
  obtain ⟨s₁, hquiet₁, h₁, hsame₁⟩ := h.goes henter (hkept _) rfl rfl
  -- the producer it was called with is still there
  have hthere {s' : Deployment} (hsame : s'.app.destroyed = s₁.app.destroyed) :
      s'.app.gone s.app.kafkaHandler = false := by
    rw [Application.gone, hsame, hsame₁]
    exact h.producer
  by_cases hpolling : s₁.app.gPollingThreadHandle = none
  · have hprogress : s₁.app.workerProgress t ⟨p.thread, .polling s.app.kafkaHandler⟩
        .testPolling = some (s₁.app, .goes (.startKafkaPolling s.app.kafkaHandler)) := by
      simp only [Application.workerProgress, if_pos hpolling]
    obtain ⟨s₂, hquiet₂, h₂, hsame₂⟩ := h₁.goes hprogress (hkept _) rfl rfl
    obtain ⟨s₃, hquiet₃, h₃, hsame₃⟩ := h₂.startKafkaPolling
    exact ⟨s₃, _, hquiet₁.trans (hquiet₂.trans hquiet₃), h₃, hthere (hsame₃.trans hsame₂)⟩
  · have hprogress : s₁.app.workerProgress t ⟨p.thread, .polling s.app.kafkaHandler⟩
        .testPolling = some (s₁.app, .goes (.produce s.app.kafkaHandler)) := by
      simp only [Application.workerProgress, if_neg hpolling]
    obtain ⟨s₂, hquiet₂, h₂, hsame₂⟩ := h₁.goes hprogress (hkept _) rfl rfl
    exact ⟨s₂, _, hquiet₁.trans hquiet₂, h₂, hthere hsame₂⟩

/-! The steps of ThreadProc. -/

/-- Where no request was sent and no message is in hand the call has not begun. -/
theorem Realises.entry (h : Realises t s p) (hrequest : p.request = none)
    (hphase : ∀ message, p.thread.phase ≠ .send message) : InCall t s p .entry := by
  obtain ⟨call, hcall, hbetween⟩ := h
  cases hbetween with
  | entry => exact hcall
  | wait n hn => cases hrequest.symm.trans hn
  | produce message rk _ hsend => exact absurd hsend (hphase message)

/-- Where it was sent ThreadProc waits. -/
theorem Realises.wait (h : Realises t s p) {n : Nat} (hrequest : p.request = some n) :
    InCall t s p .wait := by
  obtain ⟨call, hcall, hbetween⟩ := h
  cases hbetween with
  | entry hnone | produce _ _ hnone => cases hrequest.symm.trans hnone
  | wait => exact hcall

theorem Realises.request_eq_none (h : Realises t s p) (hphase : p.thread.phase ≠ .getBuffer) :
    p.request = none := by
  obtain ⟨call, -, hbetween⟩ := h
  cases hbetween with
  | entry hnone | produce _ _ hnone => exact hnone
  | wait n hn hget => exact absurd hget hphase

theorem InCall.realises (h : InCall t s p .entry) (hrequest : p.request = none) :
    Realises t s p := ⟨.entry, h, .entry hrequest⟩

/-- A request that is not sent changes nothing; the others are over. -/
theorem Realises.reply {answer : GetBufferReply} {thread : ThreadState} {p₁ : Pipeline}
    (h : Realises t s p) (hnone : (Event.reply answer).BringsNoPacket)
    (hok : Undisturbed buffers p (.thread (.reply answer)))
    (hended : p.ended (.reply answer) = some p₁)
    (hthread : threadProcStep p.thread (.reply answer) = some thread) :
    ∃ s', Quietly buffers s s' ∧ Realises t s' { p₁ with thread := thread } := by
  have hphase := phase_of_reply hthread
  simp only [Pipeline.ended] at hended
  split at hended
  · next n hrequest =>
    split_ifs at hended with hsend
    cases hended
    have hcall := h.wait hrequest
    have hasks : s.app.asks t = true := asks_iff.mpr ⟨_, hcall.worker, hphase⟩
    have hprogress : s.app.workerProgress t ⟨p.thread, .wait⟩
        (.reply answer.wait answer.bytesWritten answer.data) =
          some (s.app, .returns (.reply answer) .entry) := by
      simp only [Application.workerProgress, hphase, ← hsend]
    have hrequested : s.requested
        (.worker t (.reply answer.wait answer.bytesWritten answer.data)) = some { s with
          waits := s.waits.finish n
          request := Function.update s.request t none } := by
      rw [Deployment.requested, if_pos hasks, hcall.request, hrequest]
      rfl
    obtain ⟨s', hquiet, h', -⟩ := hcall.returns hprogress rfl hrequested hnone hok hthread
    rw [Function.update_self, hcall.waits] at h'
    exact ⟨s', hquiet, h'.realises rfl⟩
  · next hrequest =>
    split_ifs at hended with hsend
    cases hended
    have hsame : thread = p.thread := by
      obtain ⟨-, status, hstatus, hget⟩ | ⟨hsent, -⟩ | ⟨-, hget⟩ :=
        commandGetBuffer_cases answer p.thread
      · simp only [threadProcStep, hphase, hget, hstatus] at hthread
        exact (Option.some.inj hthread).symm
      · exact absurd hsent hsend
      · have hkept := congrArg (·.fetched.length) (commandGetBuffer_of_none p.thread hnone)
        simp only [hget, List.length_append, List.length_singleton] at hkept
        omega
    rw [hsame]
    exact ⟨s, .refl s, h⟩

theorem Realises.calloc {available : Bool} {memory : BitVec 64 → Byte} {thread : ThreadState}
    (h : Realises t s p) (hok : Undisturbed buffers p (.thread (.calloc available memory)))
    (hthread : threadProcStep p.thread (.calloc available memory) = some thread) :
    ∃ s', Quietly buffers s s' ∧ Realises t s' { p with thread := thread } := by
  obtain ⟨packet, hphase⟩ := phase_of_calloc hthread
  have hrequest := h.request_eq_none fun hget => by cases hphase.symm.trans hget
  have hcall := h.entry hrequest fun _ hsend => by cases hphase.symm.trans hsend
  have hprogress : s.app.workerProgress t ⟨p.thread, .entry⟩ (.calloc available memory) =
      some (s.app, .returns (.calloc available memory) .entry) := by
    simp only [Application.workerProgress, hphase]
  obtain ⟨s', hquiet, h', -⟩ := hcall.returns_same hprogress rfl rfl trivial hok hthread
  exact ⟨s', hquiet, h'.realises hrequest⟩

/-- rd_kafka_producev returns; ThreadProc stays in KafkaSendMessage if its queue is full. -/
theorem InCall.produced {message : KafkaMessage} {rk : Option Producer}
    {err : RdKafkaRespErr} {thread : ThreadState} (h : InCall t s p (.produce rk))
    (hrk : s.app.gone rk = false) (hrequest : p.request = none)
    (hphase : p.thread.phase = .send message)
    (hok : Undisturbed buffers p (.thread (.produced err)))
    (hthread : threadProcStep p.thread (.produced err) = some thread) :
    ∃ s', Quietly buffers s s' ∧ Realises t s' { p with thread := thread } := by
  have hmisuses : s.app.misuses (.worker t (.produced err)) = false := by
    simp only [Application.misuses, h.worker, Option.any_some, hrk]
  by_cases hfull : err = .queueFull
  · subst hfull
    have hsame : thread = p.thread := by
      simp only [threadProcStep, hphase] at hthread
      exact (Option.some.inj hthread).symm
    have hprogress : s.app.workerProgress t ⟨p.thread, .produce rk⟩ (.produced .queueFull) =
        some (s.app, .returns (.produced .queueFull) (.produce rk)) := rfl
    obtain ⟨s', hquiet, h', hdestroyed⟩ :=
      h.returns_same hprogress hmisuses rfl trivial hok hthread
    rw [hsame] at h' ⊢
    refine ⟨s', hquiet, .produce rk, h', .produce message rk hrequest hphase ?_⟩
    rw [Application.gone, hdestroyed]
    exact hrk
  · have hprogress : s.app.workerProgress t ⟨p.thread, .produce rk⟩ (.produced err) =
        some (s.app, .returns (.produced err) .entry) := by
      simp only [Application.workerProgress, if_neg hfull]
    obtain ⟨s', hquiet, h', -⟩ := h.returns_same hprogress hmisuses rfl trivial hok hthread
    exact ⟨s', hquiet, h'.realises hrequest⟩

theorem Realises.produced {err : RdKafkaRespErr} {thread : ThreadState} (h : Realises t s p)
    (hok : Undisturbed buffers p (.thread (.produced err)))
    (hthread : threadProcStep p.thread (.produced err) = some thread) :
    ∃ s', Quietly buffers s s' ∧ Realises t s' { p with thread := thread } := by
  obtain ⟨message, hphase⟩ := phase_of_produced hthread
  obtain ⟨call, hcall, hbetween⟩ := h
  cases hbetween with
  | entry hrequest =>
    obtain ⟨s₁, rk, hquiet, h₁, hrk⟩ := hcall.kafkaSendMessage buffers hphase
    obtain ⟨s₂, hquiet', h₂⟩ := h₁.produced hrk hrequest hphase hok hthread
    exact ⟨s₂, hquiet.trans hquiet', h₂⟩
  | wait n hn hget => cases hphase.symm.trans hget
  | produce _ rk hrequest _ hrk => exact hcall.produced hrk hrequest hphase hok hthread

/-- The driver is open, so the only failures are those before it is needed. -/
theorem Realises.freed {send : SendOutcome} {thread : ThreadState} (h : Realises t s p)
    (hthread : threadProcStep p.thread (.freed send) = some thread) :
    ∃ s', Quietly buffers s s' ∧ Realises t s' { p with thread := thread } := by
  have hphase := phase_of_freed hthread
  have hrequest := h.request_eq_none fun hget => by cases hphase.symm.trans hget
  have hcall := h.entry hrequest fun _ hsend => by cases hphase.symm.trans hsend
  have hok (send : SendOutcome) : Undisturbed buffers p (.thread (.freed send)) := by
    simp [Undisturbed, Faultless, Copies, hphase]
  by_cases hsend : send = .sent
  · subst hsend
    obtain ⟨s₁, hquiet, h₁⟩ := hcall.free_sent buffers hphase
    have hasks : ¬ s₁.app.asks t = true := fun hasks => by
      obtain ⟨w, hw, hget⟩ := asks_iff.mp hasks
      cases h₁.worker.symm.trans hw
      cases hphase.symm.trans hget
    have hprogress : s₁.app.workerProgress t ⟨p.thread, .wait⟩
        (.reply .waitObject0 0 (notSent .sent).data) =
          some (s₁.app, .returns (.freed .sent) .entry) := by
      simp only [Application.workerProgress, hphase]
    obtain ⟨s₂, hquiet', h₂, -⟩ :=
      h₁.returns_same hprogress rfl (if_neg hasks) trivial (hok .sent) hthread
    exact ⟨s₂, hquiet.trans hquiet', h₂.realises hrequest⟩
  · obtain ⟨s₁, hquiet, h₁⟩ := hcall.enter buffers (Or.inr hphase)
    have hprogress : s₁.app.workerProgress t ⟨p.thread, .send .overlapped⟩
        (.send (.overlapped false false)) =
          some (s₁.app, .returns (.freed .noOverlapped) .entry) := by
      simp only [Application.workerProgress, sendStep, hphase]
      rfl
    have hsame : threadProcStep p.thread (.freed .noOverlapped) = some thread := by
      simpa [threadProcStep, hphase, commandFreeBuffer, hsend] using hthread
    obtain ⟨s₂, hquiet', h₂, -⟩ :=
      h₁.returns_same hprogress rfl rfl trivial (hok .noOverlapped) hsame
    exact ⟨s₂, hquiet.trans hquiet', h₂.realises hrequest⟩

theorem Realises.thread {event : Event} {p' : Pipeline} (h : Realises t s p)
    (hok : Undisturbed buffers p (.thread event)) (hstep : p.step (.thread event) = some p') :
    ∃ s', Quietly buffers s s' ∧ Realises t s' p' := by
  obtain ⟨hnone, p₁, thread, hended, hthread, rfl, -⟩ := thread_of_step hstep
  cases event with
  | reply answer => exact h.reply hnone hok hended hthread
  | calloc available memory =>
    cases hended
    exact h.calloc hok hthread
  | produced err =>
    cases hended
    exact h.produced hok hthread
  | freed send =>
    cases hended
    exact h.freed hthread

theorem Realises.request (buffers : Mdl → List Byte) {p' : Pipeline} (h : Realises t s p)
    (hstep : p.step .request = some p') : ∃ s', Quietly buffers s s' ∧ Realises t s' p' := by
  simp only [Pipeline.step] at hstep
  split_ifs at hstep with hasks
  cases hstep
  obtain ⟨hasks, hrequest⟩ := Bool.and_eq_true_iff.mp hasks
  have hphase := asks_iff_phase.mp hasks
  have hcall := h.entry (Option.isNone_iff_eq_none.mp hrequest)
    fun _ hsend => by cases hphase.symm.trans hsend
  obtain ⟨s', hquiet, h'⟩ := hcall.request_sent buffers hphase
  exact ⟨s', hquiet, .wait, h', .wait _ rfl hphase⟩

theorem Realises.getBuffer {input : GetBufferInput} {p' : Pipeline} (h : Realises t s p)
    (hok : Undisturbed buffers p (.getBuffer input))
    (hstep : p.step (.getBuffer input) = some p') :
    ∃ events s', Reaches Deployment.step (Deployment.Undisturbed buffers) s events s' ∧
      deployedOps events = [.getBuffer] ∧ Realises t s' p' := by
  obtain ⟨n, dto, queue, info, thread, hrequest, hdequeue, hqueue, hinfo, hthread, rfl⟩ :=
    getBuffer_of_step hstep
  have hphase := phase_of_reply hthread
  have hcall := h.wait hrequest
  have hasks : s.app.asks t = true := asks_iff.mpr ⟨_, hcall.worker, hphase⟩
  let workers := Function.update s.app.workers t (some ⟨thread, .entry⟩)
  have happ : s.app.step (.worker t (getBufferReply info input)) =
      some { s.app with workers := workers } := by
    rw [step_defined hcall.defined rfl]
    simp only [Application.threadStep, Application.workerStep, hcall.worker, Option.bind_some,
      getBufferReply, Application.workerProgress, hphase, hthread, Option.map_some]
    rfl
  let s' : Deployment := {
    driver := { s.driver with queue := queue, handed := s.driver.handed ++ dto.mdl.toList }
    waits := s.waits.finish n
    app := { s.app with workers := workers }
    request := Function.update s.request t none
    dequeued := s.dequeued ++ [(t, dto)]
    mapped := s.mapped ++ (input.mapped dto).toList.map (t, ·) }
  have hstep' : s.step (.getBuffer t input) = some s' := by
    have hqueue' : s.driver.queue = dto :: queue := hcall.driver ▸ hqueue
    have hdequeue' : s.waits.threads[n]? = some .dequeue := hcall.waits ▸ hdequeue
    simp only [Deployment.step, if_pos hasks, hcall.request, hrequest, if_pos hdequeue', hqueue',
      List.head?_cons, hinfo, happ, System.step, Option.bind_some, Option.map_some]
    rfl
  have hok' : s.Undisturbed buffers (.getBuffer t input) := hok
  refine ⟨[.getBuffer t input], s', .cons hok' hstep' (reaches_nil _), rfl, .entry,
    ⟨?_, ?_, Function.update_self .., ?_, ?_, Function.update_self .., fun t' ht => ?_,
      hcall.opened, hcall.defined, hcall.producer⟩, .entry rfl⟩
  · rw [← hcall.driver]
  · rw [← hcall.waits]
  · rw [ofThread_append_one, if_pos rfl, hcall.dequeued]
  · rw [ofThread_append_toList, if_pos rfl, hcall.mapped]
  · exact (Function.update_of_ne ht ..).trans (hcall.alone t' ht)

theorem Realises.step {event : PipelineEvent} {p' : Pipeline} (h : Realises t s p)
    (hok : Undisturbed buffers p event) (hstep : p.step event = some p') :
    ∃ events s', Reaches Deployment.step (Deployment.Undisturbed buffers) s events s' ∧
      deployedOps events = driverOps [event] ∧ Realises t s' p' := by
  -- what the driver does, with or without a call of one of its routines
  have hdriven {own : DeploymentEvent} {driver : System} {waits : Waits}
      (hown : s.Undisturbed buffers own)
      (hstep' : s.step own = some { s with driver := driver, waits := waits }) :
      ∃ s', Reaches Deployment.step (Deployment.Undisturbed buffers) s [own] s' ∧
        Realises t s' { p with driver := driver, waits := waits } := by
    obtain ⟨call, hcall, hbetween⟩ := h
    refine ⟨_, .cons hown hstep' (reaches_nil _), call, ⟨rfl, rfl, hcall.request, hcall.dequeued,
      hcall.mapped, hcall.worker, hcall.alone, hcall.opened, hcall.defined, hcall.producer⟩, ?_⟩
    cases hbetween with
    | entry hrequest => exact .entry hrequest
    | wait n hn hphase => exact .wait n hn hphase
    | produce message rk hrequest hphase hrk => exact .produce message rk hrequest hphase hrk
  obtain ⟨call, hcall, -⟩ := id h
  cases event with
  | driver op =>
    obtain ⟨hop, driver, hdriver, rfl⟩ := driver_of_step hstep
    obtain ⟨s', hreaches, h'⟩ := @hdriven (.driver op) driver
      (p.waits.behind op p.driver.queue driver.queue) trivial (by
        rw [deployment_step_driver hop, hcall.driver, hcall.waits, hdriver]
        rfl)
    exact ⟨_, s', hreaches, rfl, h'⟩
  | run n =>
    obtain ⟨waits, hrun, rfl⟩ := Option.map_eq_some_iff.mp hstep
    obtain ⟨s', hreaches, h'⟩ := @hdriven (.run n) p.driver waits trivial (by
      rw [Deployment.step, hcall.driver, hcall.waits, hrun]
      rfl)
    exact ⟨_, s', hreaches, rfl, h'⟩
  | alert n =>
    obtain ⟨waits, halert, rfl⟩ := Option.map_eq_some_iff.mp hstep
    obtain ⟨s', hreaches, h'⟩ := @hdriven (.alert n) p.driver waits trivial (by
      rw [Deployment.step, hcall.waits, halert, ← hcall.driver]
      rfl)
    exact ⟨_, s', hreaches, rfl, h'⟩
  | request =>
    obtain ⟨s', ⟨events, hreaches, hquiet⟩, h'⟩ := h.request buffers hstep
    exact ⟨events, s', hreaches, hquiet, h'⟩
  | getBuffer input => exact h.getBuffer hok hstep
  | thread event =>
    obtain ⟨s', ⟨events, hreaches, hquiet⟩, h'⟩ := h.thread hok hstep
    exact ⟨events, s', hreaches, hquiet, h'⟩

theorem Realises.run {events : List PipelineEvent} {p' : Pipeline} (h : Realises t s p)
    (hreaches : Undisturbs buffers p events p') :
    ∃ later s', Reaches Deployment.step (Deployment.Undisturbed buffers) s later s' ∧
      deployedOps later = driverOps events ∧ Realises t s' p' := by
  refine Reaches.simulated (fun p s => Realises t s p) _ _ ?_ hreaches h
  intro p event p' s h hok hstep
  exact h.step hok hstep

end

theorem inCall_of_setUp (buffers : Mdl → List Byte) (hardware : Nat → Core) (t : Nat) :
    ∃ s, Quietly buffers (Deployment.boot hardware) s ∧
      InCall t s (Pipeline.boot hardware) .entry := by
  let events : List DeploymentEvent := (setUp openEvents t).map (.app <| .main ·)
  have hok : ∀ event ∈ events, ∀ s : Deployment, s.Undisturbed buffers event := by
    intro event hevent s
    simp only [events, setUp, openEvents, List.map_cons, List.map_nil, List.cons_append,
      List.nil_append, List.mem_cons, List.not_mem_nil, or_false] at hevent
    obtain rfl | rfl | rfl | rfl | rfl | rfl | rfl | rfl | rfl := hevent <;> rfl
  have hrun : ∃ s, events.foldlM Deployment.step (Deployment.boot hardware) = some s ∧
      InCall t s (Pipeline.boot hardware) .entry := by
    refine ⟨_, rfl, rfl, rfl, rfl, rfl, rfl, Function.update_self ..,
      fun t' ht => Function.update_of_ne ht .., ?_, rfl, rfl⟩
    exact Option.some_ne_none 0
  obtain ⟨s, hrun, hcall⟩ := hrun
  exact ⟨s, ⟨events, ⟨hrun, meets_of_forall _ hok⟩, rfl⟩, hcall⟩

/-! The other way round. -/

def Deployment.Alone (t : Nat) (s : Deployment) : Prop :=
  ∀ t', t' ≠ t → s.app.workers t' = none

structure Projects (t : Nat) (s : Deployment) (p : Pipeline) : Prop where
  driver : s.driver = p.driver
  waits : s.waits = p.waits
  request : s.request t = p.request
  dequeued : ofThread t s.dequeued = p.dequeued
  mapped : ofThread t s.mapped = p.mapped
  thread : ∀ w, s.app.workers t = some w → w.thread = p.thread
  begins : s.app.workers t = none → p.thread = {}
  asked : ∀ n, p.request = some n →
    ∃ w, s.app.workers t = some w ∧ w.call = .wait ∧ w.thread.phase = .getBuffer
  alone : s.Alone t

theorem deviceIoControl_of_progress {s s' : Application} {t : Nat} {w : Worker}
    {progress : WorkerProgress}
    (h : s.workerProgress t w (.send .deviceIoControl) = some (s', progress)) :
    w.call ≠ .wait ∧ progress = .goes .wait := by
  simp only [Application.workerProgress] at h
  split at h
  · next phase hcall =>
    obtain ⟨⟨s₁, sent⟩, hsend, hr⟩ := Option.map_eq_some_iff.mp h
    rw [hcall]
    cases phase <;> simp only [sendStep, reduceCtorEq] at hsend
    cases hsend
    cases hr
    exact ⟨by simp, rfl⟩
  · cases h

theorem reply_of_wait {s s' : Application} {t : Nat} {w : Worker} {event : WorkerEvent}
    {progress : WorkerProgress} (h : s.workerProgress t w event = some (s', progress))
    (hcall : w.call = .wait) (hphase : w.thread.phase = .getBuffer) :
    ∃ wait bytesWritten data, event = .reply wait bytesWritten data ∧
      progress = .returns (.reply ⟨.sent, wait, bytesWritten, data⟩) .entry := by
  cases event <;> simp only [Application.workerProgress, hcall, hphase, reduceCtorEq] at h
  next wait bytesWritten data =>
  cases h
  exact ⟨wait, bytesWritten, data, rfl, rfl⟩

/-- Without a wait a request only fails to be sent. -/
theorem reply_of_progress {s s' : Application} {t : Nat} {w : Worker} {event : WorkerEvent}
    {answer : GetBufferReply} {call : WorkerCall}
    (h : s.workerProgress t w event = some (s', .returns (.reply answer) call)) :
    (w.call = .wait ∧ w.thread.phase = .getBuffer) ∨ answer.send ≠ .sent := by
  cases event with
  | reply wait bytesWritten data =>
    simp only [Application.workerProgress] at h
    split at h
    · next hcall hphase => exact Or.inl ⟨hcall, hphase⟩
    · cases h
    · cases h
  | send event =>
    simp only [Application.workerProgress] at h
    split at h
    · obtain ⟨⟨s₁, sent⟩, -, hr⟩ := Option.map_eq_some_iff.mp h
      obtain ⟨-, hprogress⟩ := Prod.mk.inj hr
      refine Or.inr ?_
      cases sent with
      | goes => cases hprogress
      | returns outcome =>
        cases outcome <;> simp only [sendProgress] at hprogress
        case sent => cases hprogress
        all_goals
          split at hprogress <;> cases hprogress
          simp [notSent]
    · cases h
  | enter =>
    simp only [Application.workerProgress] at h
    split at h <;> cases h
  | calloc available memory =>
    simp only [Application.workerProgress] at h
    split at h <;> cases h
  | testPolling =>
    simp only [Application.workerProgress] at h
    split at h
    · split_ifs at h <;> cases h
    · split_ifs at h <;> cases h
    · cases h
  | createThread thread =>
    simp only [Application.workerProgress] at h
    split at h
    · split at h
      · cases h
      · split_ifs at h
        cases h
    · cases h
  | produced err =>
    simp only [Application.workerProgress] at h
    split at h <;> cases h

theorem requested_cases {s : Deployment} {waits : Waits} {request : Nat → Option Nat} {t : Nat}
    {own : WorkerEvent} (h : s.requested (.worker t own) =
      some { s with waits := waits, request := request }) :
    (own = .send .deviceIoControl ∧ s.app.asks t = true ∧ waits = s.waits.arrive ∧
        request = Function.update s.request t (some s.waits.threads.length)) ∨
      (∃ wait bytesWritten data n, own = .reply wait bytesWritten data ∧ s.request t = some n ∧
        waits = s.waits.finish n ∧ request = Function.update s.request t none) ∨
      ((∀ wait bytesWritten data, own = .reply wait bytesWritten data → s.app.asks t = false) ∧
        waits = s.waits ∧ request = s.request) := by
  have hafter {s₁ : Deployment}
      (hs : some s₁ = some { s with waits := waits, request := request }) :
      waits = s₁.waits ∧ request = s₁.request := by
    have heq := Option.some.inj hs
    exact ⟨(congrArg Deployment.waits heq).symm, (congrArg Deployment.request heq).symm⟩
  simp only [Deployment.requested] at h
  split at h
  · next heq =>
    cases heq
    split_ifs at h with hasks
    · exact Or.inl ⟨rfl, hasks, hafter h⟩
    · exact Or.inr (Or.inr ⟨fun _ _ _ hreply => (by cases hreply), hafter h⟩)
  · next t' wait bytesWritten data heq =>
    cases heq
    split_ifs at h with hasks
    · obtain ⟨n, hn, hs⟩ := Option.map_eq_some_iff.mp h
      exact Or.inr (Or.inl ⟨wait, bytesWritten, data, n, rfl, hn, hafter (congrArg some hs)⟩)
    · exact Or.inr (Or.inr ⟨fun _ _ _ _ => Bool.eq_false_iff.mpr hasks, hafter h⟩)
  · next heq => cases heq
  · next hno heq =>
    cases heq
    exact Or.inr (Or.inr ⟨fun wait bytesWritten data hown => absurd rfl (hown ▸ hno _ _ _),
      hafter h⟩)
  · next heq => cases heq

section

variable {buffers : Mdl → List Byte} {t : Nat} {s s' : Deployment} {p : Pipeline}

theorem alone_of_step {event : DeploymentEvent} (hstep : s.step event = some s')
    (h : s'.Alone t) : s.Alone t := by
  intro t' ht
  by_contra hne
  have hsome := Option.isSome_iff_ne_none.mpr hne
  have hkept : (s'.app.workers t').isSome = true := by
    cases event with
    | driver op =>
      obtain ⟨-, driver, -, rfl⟩ := deployed_driver hstep
      exact hsome
    | run n | alert n =>
      obtain ⟨waits, -, rfl⟩ := Option.map_eq_some_iff.mp hstep
      exact hsome
    | getBuffer t₀ input =>
      obtain ⟨-, _, _, _, _, _, _, -, -, -, -, -, -, -, rfl⟩ := deployed_getBuffer hstep
      exact isSome_update hsome
    | app event =>
      obtain ⟨-, waits, request, app, -, happ, rfl⟩ := deployed_app hstep
      exact isSome_of_step happ hsome
  rw [h t' ht] at hkept
  cases hkept

theorem Projects.other {event : AppEvent} {app : Application} (h : Projects t s p)
    (hevent : ∀ own, event ≠ .worker t own) (hstep : s.app.step event = some app)
    (halone : Deployment.Alone t { s with app := app }) :
    Projects t { s with app := app } p := by
  refine ⟨h.driver, h.waits, h.request, h.dequeued, h.mapped, fun w' hw' => ?_, fun hnone => ?_,
    fun n hn => ?_, halone⟩
  · obtain ⟨w, hw, hsame⟩ | ⟨hunused, hnew⟩ | ⟨_, _, own, howned, -⟩ := worker_of_step hstep hw'
    · exact hsame.trans (h.thread w hw)
    · exact hnew.trans (h.begins hunused).symm
    · exact absurd howned (hevent own)
  · refine h.begins ?_
    by_contra hne
    have hkept := isSome_of_step hstep (Option.isSome_iff_ne_none.mpr hne)
    rw [show app.workers t = none from hnone] at hkept
    cases hkept
  · obtain ⟨w, hw, hwait⟩ := h.asked n hn
    exact ⟨w, worker_kept hstep hevent hw, hwait⟩

section

variable {own : WorkerEvent} {app : Application} {progress : WorkerProgress} {w : Worker}

theorem Projects.waiting (h : Projects t s p) (hw : s.app.workers t = some w) {n : Nat}
    (hn : p.request = some n) : w.call = .wait ∧ w.thread.phase = .getBuffer := by
  obtain ⟨w', hw', hwait⟩ := h.asked n hn
  cases hw.symm.trans hw'
  exact hwait

/-- An event from outside that comes with a step disturbs nothing. -/
theorem Projects.quiet (h : Projects t s p) (hok : s.Undisturbed buffers (.app (.worker t own)))
    (hnone : s.app.FetchesNone (.worker t own)) (hw : s.app.workers t = some w)
    (hprogress : s.app.workerProgress t w own = some (app, progress)) {outside : Event}
    (houtside : progress.outside = some outside) :
    outside.BringsNoPacket ∧ Undisturbed buffers p (.thread outside) := by
  have hr : (w.thread, outside) ∈ s.app.received (.worker t own) := by
    simp [Application.received, hw, hprogress, houtside]
  have hundisturbed := hok.2 _ hr
  rw [h.thread w hw, h.dequeued] at hundisturbed
  exact ⟨hnone _ hr, hundisturbed⟩

theorem Projects.goesOn (waits : Waits) {request : Nat → Option Nat} {thread : ThreadState}
    {call : WorkerCall} (h : Projects t s p) (hworker : app.workers t = some ⟨thread, call⟩)
    (halone : Deployment.Alone t { s with app := app })
    (hasked : ∀ n, request t = some n → call = .wait ∧ thread.phase = .getBuffer) :
    Projects t { s with waits := waits, request := request, app := app }
      { p with waits := waits, request := request t, thread := thread } := by
  refine ⟨h.driver, rfl, rfl, h.dequeued, h.mapped, fun w' hw' => ?_, fun hnone => ?_,
    fun n hn => ⟨_, hworker, hasked n hn⟩, halone⟩
  · cases hworker.symm.trans hw'
    rfl
  · cases hworker.symm.trans hnone

/-- Without an answer there was no request. -/
theorem Projects.unasked (h : Projects t s p) (hw : s.app.workers t = some w)
    (hprogress : s.app.workerProgress t w own = some (app, progress))
    (hno : ∀ wait bytesWritten data, own = .reply wait bytesWritten data →
      s.app.asks t = false) : p.request = none := by
  refine Option.eq_none_iff_forall_ne_some.mpr fun n hn => ?_
  obtain ⟨hcall, hphase⟩ := h.waiting hw hn
  obtain ⟨wait, bytesWritten, data, rfl, -⟩ := reply_of_wait hprogress hcall hphase
  have hasks : s.app.asks t = true := asks_iff.mpr ⟨w, hw, hphase⟩
  cases hasks.symm.trans (hno wait bytesWritten data rfl)

theorem Projects.unended (h : Projects t s p) (hw : s.app.workers t = some w)
    (hprogress : s.app.workerProgress t w own = some (app, progress))
    (hno : ∀ wait bytesWritten data, own = .reply wait bytesWritten data →
      s.app.asks t = false) {outside : Event} (houtside : progress.outside = some outside) :
    p.ended outside = some p := by
  cases outside with
  | reply answer =>
    cases progress with
    | goes => cases houtside
    | returns event call =>
      cases houtside
      obtain ⟨hcall, hphase⟩ | hsend := reply_of_progress hprogress
      · obtain ⟨wait, bytesWritten, data, rfl, -⟩ := reply_of_wait hprogress hcall hphase
        have hasks : s.app.asks t = true := asks_iff.mpr ⟨w, hw, hphase⟩
        cases hasks.symm.trans (hno wait bytesWritten data rfl)
      · simp only [Pipeline.ended, h.unasked hw hprogress hno, if_neg hsend]
  | _ => rfl

end

/-- A step of ThreadProc is one of its events, or none. -/
theorem Projects.own {own : WorkerEvent} {app : Application} {waits : Waits}
    {request : Nat → Option Nat} (h : Projects t s p)
    (hok : s.Undisturbed buffers (.app (.worker t own)))
    (hnone : s.app.FetchesNone (.worker t own))
    (hrequested : s.requested (.worker t own) = some { s with waits := waits, request := request })
    (hstep : s.app.step (.worker t own) = some app)
    (halone : Deployment.Alone t { s with app := app }) :
    ∃ events p', Undisturbs buffers p events p' ∧ driverOps events = [] ∧
      Projects t { s with waits := waits, request := request, app := app } p' := by
  obtain ⟨-, ⟨hbad, -⟩ | ⟨-, hstep⟩⟩ := step_cases hstep
  · cases hok.1.symm.trans hbad
  obtain ⟨w, s₁, thread, progress, hw, hprogress, rfl, hown⟩ := workerStep_cases hstep
  have hsame := h.thread w hw
  have hworker : Function.update s.app.workers t (some (Worker.mk thread progress.call)) t =
    some ⟨thread, progress.call⟩ := Function.update_self ..
  obtain ⟨rfl, hasks, rfl, rfl⟩ | ⟨wait, bytesWritten, data, n, rfl, hn, rfl, rfl⟩ |
    ⟨hno, rfl, rfl⟩ := requested_cases hrequested
  · -- the request is sent
    obtain ⟨hcall, rfl⟩ := deviceIoControl_of_progress hprogress
    obtain ⟨-, rfl⟩ | ⟨_, houtside, -⟩ := hown
    · obtain ⟨w', hw', hphase⟩ := asks_iff.mp hasks
      cases hw.symm.trans hw'
      have hrequest : p.request = none :=
        Option.eq_none_iff_forall_ne_some.mpr fun n hn => hcall (h.waiting hw hn).1
      rw [hsame] at hphase
      have hstep' : p.step .request = some { p with
          waits := s.waits.arrive
          request := Function.update s.request t (some s.waits.threads.length) t
          thread := w.thread } := by
        simp [Pipeline.step, hrequest, asks_iff_phase.mpr hphase, h.waits, hsame]
      exact ⟨[.request], _, .cons trivial hstep' (reaches_nil _), rfl,
        h.goesOn _ hworker halone fun _ _ => ⟨rfl, hsame ▸ hphase⟩⟩
    · cases houtside
  · -- it is over
    have hrequest := h.request.symm.trans hn
    obtain ⟨hcall, hphase⟩ := h.waiting hw hrequest
    obtain ⟨_, _, _, hreply, rfl⟩ := reply_of_wait hprogress hcall hphase
    cases hreply
    obtain ⟨hnone', -⟩ | ⟨outside, houtside, hthread⟩ := hown
    · cases hnone'
    · cases houtside
      obtain ⟨hbrings, hundisturbed⟩ := h.quiet hok hnone hw hprogress rfl
      have hstep' : p.step (.thread (.reply ⟨.sent, wait, bytesWritten, data⟩)) = some { p with
          waits := s.waits.finish n
          request := Function.update s.request t none t
          thread := thread } := by
        rw [hsame] at hthread
        simp only [Pipeline.step, if_pos hbrings, Pipeline.ended, hrequest, if_true,
          Option.bind_some, hthread, Option.map_some, Function.update_self, h.waits]
      refine ⟨_, _, .cons hundisturbed hstep' (reaches_nil _), rfl,
        h.goesOn _ hworker halone fun m hm => ?_⟩
      rw [Function.update_self] at hm
      cases hm
  · -- there is none
    have hrequest := h.unasked hw hprogress hno
    have hafter := h.goesOn s.waits hworker halone fun n hn => by
      cases hrequest.symm.trans (h.request.symm.trans hn)
    have hp : { p with waits := s.waits, request := s.request t, thread := thread } =
        { p with thread := thread } := by rw [h.waits, h.request]
    rw [hp] at hafter
    obtain ⟨-, rfl⟩ | ⟨outside, houtside, hthread⟩ := hown
    · have hstays : { p with thread := w.thread } = p := by rw [hsame]
      rw [hstays] at hafter
      exact ⟨[], p, reaches_nil p, rfl, hafter⟩
    · obtain ⟨hbrings, hundisturbed⟩ := h.quiet hok hnone hw hprogress houtside
      have hstep' : p.step (.thread outside) = some { p with thread := thread } :=
        thread_step hbrings (h.unended hw hprogress hno houtside) (hsame ▸ hthread)
      exact ⟨_, _, .cons hundisturbed hstep' (reaches_nil _), rfl, hafter⟩

theorem Projects.app {event : AppEvent} {app : Application} {waits : Waits}
    {request : Nat → Option Nat} (h : Projects t s p) (hok : s.Undisturbed buffers (.app event))
    (hnone : s.app.FetchesNone event)
    (hrequested : s.requested event = some { s with waits := waits, request := request })
    (hstep : s.app.step event = some app) (halone : Deployment.Alone t { s with app := app }) :
    ∃ events p', Undisturbs buffers p events p' ∧ driverOps events = [] ∧
      Projects t { s with waits := waits, request := request, app := app } p' := by
  have hother (hevent : ∀ own, event ≠ .worker t own) (hsame : s.requested event = some s) :
      ∃ events p', Undisturbs buffers p events p' ∧ driverOps events = [] ∧
        Projects t { s with waits := waits, request := request, app := app } p' := by
    have heq := Option.some.inj (hsame.symm.trans hrequested)
    obtain rfl : s.waits = waits := congrArg Deployment.waits heq
    obtain rfl : s.request = request := congrArg Deployment.request heq
    exact ⟨[], p, reaches_nil p, rfl, h.other hevent hstep halone⟩
  cases event with
  | main | poll => exact hother nofun rfl
  | worker t' own =>
    by_cases ht : t' = t
    · subst ht
      exact h.own hok hnone hrequested hstep halone
    · -- there is no other ThreadProc
      obtain ⟨-, ⟨hbad, -⟩ | ⟨-, hstep⟩⟩ := step_cases hstep
      · cases (undisturbed_app hok).symm.trans hbad
      obtain ⟨w, _, _, _, hw, -⟩ := workerStep_cases hstep
      cases (h.alone t' ht).symm.trans hw

theorem Projects.getBuffer {t₀ : Nat} {input : GetBufferInput} (h : Projects t s p)
    (hstep : s.step (.getBuffer t₀ input) = some s') (halone : s'.Alone t) :
    ∃ p', p.step (.getBuffer input) = some p' ∧ Projects t s' p' := by
  obtain ⟨-, n, dto, queue, info, w, thread, hn, hdequeue, hqueue, hinfo, hw, hphase, hthread,
    rfl⟩ := deployed_getBuffer hstep
  obtain rfl : t₀ = t := by
    by_contra ht
    rw [h.alone t₀ ht] at hw
    cases hw
  rw [h.thread w hw] at hthread
  rw [h.driver] at hqueue
  rw [h.waits] at hdequeue
  have hrequest := h.request.symm.trans hn
  have hbegun := Function.update_self t₀ (some (Worker.mk thread .entry)) s.app.workers
  refine ⟨{
      driver := { p.driver with queue := queue, handed := p.driver.handed ++ dto.mdl.toList }
      waits := p.waits.finish n
      thread := thread
      dequeued := p.dequeued ++ [dto]
      mapped := p.mapped ++ (input.mapped dto).toList }, ?_, ?_, ?_, Function.update_self .., ?_,
    ?_, fun w' hw' => ?_, fun hnone => ?_, nofun, halone⟩
  · simp only [Pipeline.step, hrequest, Option.bind_some, if_pos hdequeue, hqueue, List.head?_cons,
      hinfo, hthread, System.step, Option.map_some]
  · rw [h.driver]
  · rw [h.waits]
  · rw [ofThread_append_one, if_pos rfl, h.dequeued]
  · rw [ofThread_append_toList, if_pos rfl, h.mapped]
  · cases hbegun.symm.trans hw'
    rfl
  · cases hbegun.symm.trans hnone

theorem Projects.step {event : DeploymentEvent} (h : Projects t s p)
    (hok : s.Undisturbed buffers event) (hstep : s.step event = some s') (halone : s'.Alone t) :
    ∃ events p', Undisturbs buffers p events p' ∧ driverOps events = deployedOps [event] ∧
      Projects t s' p' := by
  cases event with
  | driver op =>
    obtain ⟨hop, driver, hdriver, rfl⟩ := deployed_driver hstep
    have hstep' : p.step (.driver op) = some { p with
        driver := driver
        waits := s.waits.behind op s.driver.queue driver.queue } := by
      rw [step_driver hop, ← h.driver, hdriver, h.waits]
      rfl
    exact ⟨[.driver op], _, .cons trivial hstep' (reaches_nil _), rfl, rfl, rfl, h.request,
      h.dequeued, h.mapped, h.thread, h.begins, h.asked, halone⟩
  | run n =>
    obtain ⟨waits, hrun, rfl⟩ := Option.map_eq_some_iff.mp hstep
    have hstep' : p.step (.run n) = some { p with waits := waits } := by
      rw [Pipeline.step, ← h.driver, ← h.waits, hrun]
      rfl
    exact ⟨[.run n], _, .cons trivial hstep' (reaches_nil _), rfl, h.driver, rfl, h.request,
      h.dequeued, h.mapped, h.thread, h.begins, h.asked, halone⟩
  | alert n =>
    obtain ⟨waits, halert, rfl⟩ := Option.map_eq_some_iff.mp hstep
    have hstep' : p.step (.alert n) = some { p with waits := waits } := by
      rw [Pipeline.step, ← h.waits, halert]
      rfl
    exact ⟨[.alert n], _, .cons trivial hstep' (reaches_nil _), rfl, h.driver, rfl, h.request,
      h.dequeued, h.mapped, h.thread, h.begins, h.asked, halone⟩
  | getBuffer t₀ input =>
    obtain ⟨p', hstep', h'⟩ := h.getBuffer hstep halone
    have hok' : Undisturbed buffers p (.getBuffer input) := hok
    exact ⟨_, p', Reaches.cons hok' hstep' (reaches_nil _), rfl, h'⟩
  | app event =>
    obtain ⟨hnone, waits, request, app, hrequested, happ, rfl⟩ := deployed_app hstep
    exact h.app hok hnone hrequested happ halone

theorem Projects.run {events : List DeploymentEvent} (h : Projects t s p)
    (hreaches : Reaches Deployment.step (Deployment.Undisturbed buffers) s events s')
    (halone : s'.Alone t) :
    ∃ later p', Undisturbs buffers p later p' ∧ driverOps later = deployedOps events ∧
      Projects t s' p' := by
  obtain ⟨-, hreaches⟩ :=
    hreaches.back (Deployment.Alone t) (fun _ _ _ hstep h => alone_of_step hstep h) halone
  refine Reaches.simulated (fun s p => Projects t s p) _ _ ?_ hreaches h
  intro s event s' p h hok hstep
  exact h.step hok.1 hstep (hok.2 s' hstep)

end

theorem projects_boot (hardware : Nat → Core) (t : Nat) :
    Projects t (Deployment.boot hardware) (Pipeline.boot hardware) where
  driver := rfl
  waits := rfl
  request := rfl
  dequeued := rfl
  mapped := rfl
  thread _ hw := by cases hw
  begins _ := rfl
  asked _ hn := by cases hn
  alone _ _ := rfl

/-- The deployment runs this ThreadProc and no other, and shows of it what the pipeline is. -/
structure ShowsPipeline (t : Nat) (s : Deployment) (p : Pipeline) : Prop where
  driver : s.driver = p.driver
  waits : s.waits = p.waits
  request : s.request t = p.request
  dequeued : ofThread t s.dequeued = p.dequeued
  mapped : ofThread t s.mapped = p.mapped
  worker : ∃ call, s.app.workers t = some ⟨p.thread, call⟩
  alone : ∀ t', t' ≠ t → s.app.workers t' = none

/-- What the driver and the application can get to with one ThreadProc is what the driver and
ThreadProc by themselves can, with the same steps of the driver. -/
theorem deployment_iff_pipeline (buffers : Mdl → List Byte) (hardware : Nat → Core) (t : Nat)
    (ops : List DriverOp) (p : Pipeline) :
    (∃ events s, Reaches Deployment.step (Deployment.Undisturbed buffers)
        (Deployment.boot hardware) events s ∧ deployedOps events = ops ∧ ShowsPipeline t s p) ↔
      ∃ events, Undisturbs buffers (Pipeline.boot hardware) events p ∧ driverOps events = ops := by
  constructor
  · rintro ⟨events, s, hreaches, rfl, hshows⟩
    obtain ⟨call, hworker⟩ := hshows.worker
    obtain ⟨later, p', hlater, hops, h⟩ :=
      (projects_boot hardware t).run hreaches hshows.alone
    have hsame : p' = p := by
      change Pipeline.mk p'.driver p'.waits p'.thread p'.request p'.dequeued p'.mapped = p
      rw [← h.driver, ← h.waits, ← h.thread _ hworker, ← h.request, ← h.dequeued, ← h.mapped,
        hshows.driver, hshows.waits, hshows.request, hshows.dequeued, hshows.mapped]
    exact ⟨later, hsame ▸ hlater, hops⟩
  · rintro ⟨events, hreaches, rfl⟩
    obtain ⟨s₀, ⟨setup, hsetup, hquiet⟩, hcall⟩ := inCall_of_setUp buffers hardware t
    obtain ⟨later, s, hlater, hops, call, h, -⟩ := (hcall.realises rfl).run hreaches
    refine ⟨setup ++ later, s, hsetup.append hlater, ?_, h.driver, h.waits, h.request, h.dequeued,
      h.mapped, ⟨call, h.worker⟩, h.alone⟩
    rw [deployedOps, List.filterMap_append, ← deployedOps, ← deployedOps, hquiet, hops]
    rfl

/-- With one ThreadProc read_trace gets what the core wrote into its buffers, whatever the main
thread and the polling thread do, as long as the producer is not destroyed under ThreadProc. -/
theorem readTrace_deployed {φ : Type*} [DecidableEq φ] (divide : Nat → Nat → φ) (zero : φ)
    (buffers : Mdl → List Byte) (hardware : Nat → Core) {cpu t : Nat}
    {events : List DeploymentEvent} {s : Deployment} {w : Worker} {ops rest : List DriverOp}
    {packet : PacketInput} {env : List CoreEvent}
    (hrun : events.foldlM Deployment.step (Deployment.boot hardware) = some s)
    (hmeets : Meets Deployment.step (Deployment.Undisturbed buffers) (Deployment.boot hardware)
      events)
    (hw : s.app.workers t = some w) (halone : ∀ t', t' ≠ t → s.app.workers t' = none)
    (hops : deployedOps events = ops ++ .disable cpu packet env :: rest)
    (htopa : ∀ op ∈ ops, op.TopaOutput)
    (hcore : ∀ op ∈ ops, op.cpu = none ∨ op.cpu = some cpu) (hrest : ∀ op ∈ rest, op.cpu = none)
    (hleak : Meets System.step (fun s op => ¬ Leaks s op) (System.boot hardware) ops)
    (hpacket : packet.dto = true ∧ packet.element = true)
    (hqueue : s.driver.queue = []) (hidle : w.thread.pending = [])
    (hannouncing : Announcing (s.dequeued.map Prod.snd))
    {trace : List TraceEvent} (hpossible : PossibleTrace {} trace) (hfit : HeadersFit none trace)
    (htrace : (allocatedBy cpu (System.boot hardware) ops).flatMap buffers = encodeEvents trace) :
    Traced trace (run (rawLoopBody divide zero) {} (w.thread.enqueued.map (·.message))) := by
  have hdriver := run_deployedOps events hrun
  rw [hops] at hdriver
  have hsent := Driver.sent_of_session hardware hdriver htopa hcore hrest hleak hpacket
  have hpiping := ((packets_shared_out buffers hardware events hmeets).last hrun).piping hw halone
  refine hpiping.traced divide zero hqueue hidle hannouncing hpossible hfit ?_
  rw [hsent]
  exact htrace

theorem readTrace_deployed_two_buffers :
    let sent : PacketInput := { dto := true, element := true }
    let ops : List DriverOp := firstSession ++ [.imageLoad sent 0x400000 0x1000 1000000,
      .pmi 0 true [{ topaPmi := true }], .dpc 0 (some (tenPages 2)) sent []]
    ∃ (events : List DeploymentEvent) (s : Deployment) (w : Worker),
      deployedOps events =
        ops ++ .disable 0 sent [] :: [.getBuffer, .getBuffer, .getBuffer] ∧
      events.foldlM Deployment.step (Deployment.boot fun _ => {}) = some s ∧
      s.app.workers 1 = some w ∧
      let r := run (rawLoopBody ((· / ·) : Nat → Nat → Nat) 0) {}
        (w.thread.enqueued.map (·.message))
      r.halt = none ∧ allPackets r.out =
        [⟨.tsc, some 5, .base⟩, ⟨.tntTaken, some 5, .base⟩, ⟨.tntNotTaken, some 5, .base⟩] := by
  intro sent ops
  obtain ⟨before, buffers, trace, p, hreaches, hops, hqueue, hpending, hannouncing, hpossible,
    hfit, htrace, hstamped, hmeaning⟩ := undisturbs_two_buffers
  obtain ⟨s₀, ⟨setup, hsetup, hquiet⟩, hcall⟩ := inCall_of_setUp buffers (fun _ => {}) 1
  obtain ⟨later, s, hlater, hsame, call, h, -⟩ := (hcall.realises rfl).run hreaches
  obtain ⟨hrun, hmeets⟩ := hsetup.append hlater
  have hdeployed : deployedOps (setup ++ later) =
      ops ++ .disable 0 sent [] :: [.getBuffer, .getBuffer, .getBuffer] := by
    rw [deployedOps, List.filterMap_append, ← deployedOps, ← deployedOps, hquiet, hsame]
    exact hops
  have hshared := (packets_shared_out buffers (fun _ => {}) _ hmeets).last hrun
  have hannouncing' : Announcing (s.dequeued.map Prod.snd) := by
    rw [← ofThread_of_alone h.alone hshared.known, h.dequeued]
    exact hannouncing
  have htraced := readTrace_deployed ((· / ·) : Nat → Nat → Nat) 0 buffers (fun _ => {}) hrun
    hmeets h.worker h.alone hdeployed (by decide) (by decide) (by decide) (by decide +kernel)
    ⟨rfl, rfl⟩ (h.driver ▸ hqueue) hpending hannouncing' hpossible hfit htrace
  have hgoes := htraced.goes.mpr hstamped
  exact ⟨_, s, _, hdeployed, hrun, h.worker, hgoes, (htraced.decodes hgoes).trans hmeaning⟩

end IntelPt.UserModeApp
