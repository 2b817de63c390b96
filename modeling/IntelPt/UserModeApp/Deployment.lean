import IntelPt.Driver.QueueThreads
import IntelPt.UserModeApp.TracedSession
import IntelPt.UserModeApp.Workers

/-! The driver and the whole application. The main thread may create any number of ThreadProcs;
all of them ask the driver for buffers, and it gives each packet to one of them. -/
namespace IntelPt.UserModeApp
open Decoder Runs Transducer
open Driver (System DriverOp Mdl CommBufferAddress PacketInput Core CoreEvent Leaks Waits
  allocatedBy firstSession)
open DriverUtils (ofThread ofThread_append_one)

structure Deployment where
  driver : System
  waits : Waits := {}
  app : Application := {}
  /-- the thread of the driver that has the request of a ThreadProc -/
  request : Nat → Option Nat := fun _ => none
  /-- what PtwCommandGetBuffer took out of the queue, and the ThreadProc it was for -/
  dequeued : List (Nat × CommBufferAddress) := []
  /-- where it has put the buffers, and for which ThreadProc -/
  mapped : List (Nat × BitVec 64) := []

inductive DeploymentEvent where
  | driver (op : DriverOp)
  /-- a thread of the driver goes on, without taking a packet -/
  | run (n : Nat)
  | alert (n : Nat)
  /-- the request of that ThreadProc takes a packet and is answered -/
  | getBuffer (thread : Nat) (input : GetBufferInput)
  | app (event : AppEvent)

def Application.FetchesNone (s : Application) (event : AppEvent) : Prop :=
  ∀ r ∈ s.received event, r.2.BringsNoPacket

instance (s : Application) (event : AppEvent) : Decidable (s.FetchesNone event) :=
  inferInstanceAs (Decidable (∀ r ∈ s.received event, r.2.BringsNoPacket))

def Application.asks (s : Application) (t : Nat) : Bool :=
  match s.workers t with
  | some ⟨{ phase := .getBuffer, .. }, _⟩ => true
  | _ => false

def getBufferReply (info : PacketInfo) (input : GetBufferInput) : WorkerEvent :=
  .reply input.wait (BitVec.ofNat 32 sizeofCommBufferAddress) info

def Deployment.requested (s : Deployment) : AppEvent → Option Deployment
  | .worker t (.send .deviceIoControl) =>
    if s.app.asks t then
      some { s with
        waits := s.waits.arrive
        request := Function.update s.request t (some s.waits.threads.length) }
    else some s
  | .worker t (.reply ..) =>
    if s.app.asks t then
      (s.request t).map fun n => { s with
        waits := s.waits.finish n
        request := Function.update s.request t none }
    else some s
  | .main _ | .worker _ _ | .poll _ => some s

def Deployment.step (s : Deployment) : DeploymentEvent → Option Deployment
  | .driver .getBuffer => none
  | .driver op => (s.driver.step op).map fun driver =>
      { s with driver := driver, waits := s.waits.behind op s.driver.queue driver.queue }
  | .run n => (s.waits.run s.driver.queue n).map fun waits => { s with waits := waits }
  | .alert n => (s.waits.alert n).map fun waits => { s with waits := waits }
  | .getBuffer t input =>
    if s.app.asks t then
      (s.request t).bind fun n =>
        if s.waits.threads[n]? = some .dequeue then
          s.driver.queue.head?.bind fun dto =>
            (ptwCommandGetBuffer dto input).bind fun info =>
              (s.app.step (.worker t (getBufferReply info input))).bind fun app =>
                (s.driver.step .getBuffer).map fun driver =>
                  { driver := driver
                    waits := s.waits.finish n
                    app := app
                    request := Function.update s.request t none
                    dequeued := s.dequeued ++ [(t, dto)]
                    mapped := s.mapped ++ (input.mapped dto).toList.map (t, ·) }
        else none
    else none
  | .app event =>
    if s.app.FetchesNone event then
      (s.requested event).bind fun s =>
        (s.app.step event).map fun app => { s with app := app }
    else none

def Deployment.boot (hardware : Nat → Core) : Deployment where
  driver := System.boot hardware

/-- No ThreadProc meets a fault, no producer is used that is not there, and a buffer is as it was
when its core gave it away. -/
def Deployment.Undisturbed (buffers : Mdl → List Byte) (s : Deployment) : DeploymentEvent → Prop
  | .driver _ | .run _ | .alert _ => True
  | .getBuffer _ input => input.wait = .waitObject0
  | .app (.worker t event) => s.app.misuses (.worker t event) = false ∧
      ∀ r ∈ s.app.received (.worker t event),
        Faultless r.1 r.2 ∧ Copies (held buffers (ofThread t s.dequeued)) r.1 r.2
  | .app event => s.app.misuses event = false

instance (s : ThreadState) (event : Event) : Decidable (Faultless s event) := by
  unfold Faultless
  split <;> infer_instance

instance (content : Nat → List Byte) (s : ThreadState) (event : Event) :
    Decidable (Copies content s event) := by
  unfold Copies
  split <;> infer_instance

instance (buffers : Mdl → List Byte) (s : Deployment) :
    (event : DeploymentEvent) → Decidable (s.Undisturbed buffers event)
  | .driver _ | .run _ | .alert _ => isTrue trivial
  | .getBuffer _ input => inferInstanceAs (Decidable (input.wait = .waitObject0))
  | .app (.worker t event) =>
    inferInstanceAs (Decidable (_ ∧ ∀ r ∈ s.app.received (.worker t event), _ ∧ _))
  | .app (.main event) => inferInstanceAs (Decidable (s.app.misuses (.main event) = false))
  | .app (.poll t) => inferInstanceAs (Decidable (s.app.misuses (.poll t) = false))

def deployedOps (events : List DeploymentEvent) : List DriverOp :=
  events.filterMap fun
    | .driver op => some op
    | .getBuffer .. => some .getBuffer
    | .run _ | .alert _ | .app _ => none

def sendEvents : List SendEvent := [.overlapped true true, .compare, .read, .deviceIoControl]

def openEvents : List SendEvent :=
  [.overlapped true true, .compare, .createFile (some 0), .read, .deviceIoControl]

def setUp (sends : List SendEvent) (t : Nat) : List MainEvent :=
  [.inputCommand "setup", .kafkaInit true true] ++ sends.map .send ++
    [.wait .waitObject0, .createThread (some t)]

def ask : List WorkerEvent := .enter :: sendEvents.map .send

/-- Each ThreadProc has what the driver took out of the queue for it, and nothing else. -/
structure SharedOut (buffers : Mdl → List Byte) (s : Deployment) : Prop where
  defined : s.app.undefined = false
  carrying : ∀ t w, s.app.workers t = some w →
    Carrying (held buffers (ofThread t s.dequeued)) w.thread
  shown : ∀ t w, s.app.workers t = some w →
    List.Forall₂ Shows w.thread.fetched (ofThread t s.dequeued)
  mapped : ∀ t w, s.app.workers t = some w →
    w.thread.fetched.filterMap (·.buffer) = ofThread t s.mapped
  known : ∀ p ∈ s.dequeued, (s.app.workers p.1).isSome = true
  reached : ∀ p ∈ s.mapped, (s.app.workers p.1).isSome = true
  handed : s.dequeued.filterMap (·.2.mdl) = s.driver.handed

/-! One step. -/

theorem asks_iff {s : Application} {t : Nat} :
    s.asks t = true ↔ ∃ w, s.workers t = some w ∧ w.thread.phase = .getBuffer := by
  constructor
  · intro h
    simp only [Application.asks] at h
    split at h
    · next call hw => exact ⟨_, hw, rfl⟩
    · cases h
  · rintro ⟨⟨⟨bufferId, packetInfo, phase, _, _, _, _⟩, call⟩, hw, rfl⟩
    simp only [Application.asks, hw]

/-- The answer ends the request of its ThreadProc and touches nothing else. -/
theorem answered_of_step {s s' : Application} {t : Nat} {info : PacketInfo}
    {input : GetBufferInput} (hasks : s.asks t = true)
    (hstep : s.step (.worker t (getBufferReply info input)) = some s') :
    s.undefined = false ∧ ∃ w thread, s.workers t = some w ∧ w.thread.phase = .getBuffer ∧
      threadProcStep w.thread (.reply
        ⟨.sent, input.wait, BitVec.ofNat 32 sizeofCommBufferAddress, info⟩) = some thread ∧
      s' = { s with workers := Function.update s.workers t (some ⟨thread, .entry⟩) } := by
  obtain ⟨w, hw, hphase⟩ := asks_iff.mp hasks
  obtain ⟨hdefined, ⟨hmisuses, -⟩ | ⟨-, hstep⟩⟩ := step_cases hstep
  · cases hmisuses
  refine ⟨hdefined, ?_⟩
  obtain ⟨w', s₁, thread, progress, hw', hprogress, rfl, hown⟩ := workerStep_cases hstep
  obtain rfl := Option.some.inj (hw.symm.trans hw')
  simp only [getBufferReply, Application.workerProgress, hphase] at hprogress
  split at hprogress
  · cases hprogress
    obtain ⟨hnone, -⟩ | ⟨event, hevent, hthread⟩ := hown
    · cases hnone
    · cases hevent
      exact ⟨w, thread, hw, hphase, hthread, rfl⟩
  · next hfree => cases hfree
  · cases hprogress

theorem deployment_step_driver {op : DriverOp} (hop : op ≠ .getBuffer) (s : Deployment) :
    s.step (.driver op) = (s.driver.step op).map fun driver =>
      { s with driver := driver, waits := s.waits.behind op s.driver.queue driver.queue } := by
  cases op with
  | getBuffer => exact absurd rfl hop
  | _ => rfl

theorem deployed_driver {op : DriverOp} {s s' : Deployment}
    (hstep : s.step (.driver op) = some s') :
    op ≠ .getBuffer ∧ ∃ driver, s.driver.step op = some driver ∧ s' = { s with
      driver := driver
      waits := s.waits.behind op s.driver.queue driver.queue } := by
  have hop : op ≠ .getBuffer := fun hop => by
    rw [hop] at hstep
    cases hstep
  rw [deployment_step_driver hop] at hstep
  obtain ⟨driver, hdriver, rfl⟩ := Option.map_eq_some_iff.mp hstep
  exact ⟨hop, driver, hdriver, rfl⟩

theorem deployed_getBuffer {s s' : Deployment} {t : Nat} {input : GetBufferInput}
    (hstep : s.step (.getBuffer t input) = some s') : s.app.undefined = false ∧
    ∃ n dto queue info w thread, s.request t = some n ∧
      s.waits.threads[n]? = some .dequeue ∧ s.driver.queue = dto :: queue ∧
      ptwCommandGetBuffer dto input = some info ∧ s.app.workers t = some w ∧
      w.thread.phase = .getBuffer ∧
      threadProcStep w.thread (.reply
        ⟨.sent, input.wait, BitVec.ofNat 32 sizeofCommBufferAddress, info⟩) = some thread ∧
      s' = {
        driver := { s.driver with queue := queue, handed := s.driver.handed ++ dto.mdl.toList }
        waits := s.waits.finish n
        app := { s.app with
          workers := Function.update s.app.workers t (some ⟨thread, .entry⟩) }
        request := Function.update s.request t none
        dequeued := s.dequeued ++ [(t, dto)]
        mapped := s.mapped ++ (input.mapped dto).toList.map (t, ·) } := by
  simp only [Deployment.step] at hstep
  split_ifs at hstep with hasks
  obtain ⟨n, hrequest, hstep⟩ := Option.bind_eq_some_iff.mp hstep
  split_ifs at hstep with hdequeue
  simp only [Option.bind_eq_some_iff, Option.map_eq_some_iff] at hstep
  obtain ⟨dto, hhead, info, hinfo, app, happ, driver, hdriver, rfl⟩ := hstep
  obtain ⟨hdefined, w, thread, hw, hphase, hthread, rfl⟩ := answered_of_step hasks happ
  obtain ⟨queue, hqueue⟩ := List.head?_eq_some_iff.mp hhead
  refine ⟨hdefined, n, dto, queue, info, w, thread, hrequest, hdequeue, hqueue, hinfo, hw, hphase,
    hthread, ?_⟩
  simp only [System.step, hqueue] at hdriver
  cases hdriver
  rfl

theorem requested_frame {s s₁ : Deployment} {event : AppEvent} (h : s.requested event = some s₁) :
    ∃ waits request, s₁ = { s with waits := waits, request := request } := by
  simp only [Deployment.requested] at h
  split at h
  · split_ifs at h <;> cases h <;> exact ⟨_, _, rfl⟩
  · split_ifs at h
    · obtain ⟨n, -, rfl⟩ := Option.map_eq_some_iff.mp h
      exact ⟨_, _, rfl⟩
    · cases h
      exact ⟨_, _, rfl⟩
  · cases h
    exact ⟨_, _, rfl⟩
  · cases h
    exact ⟨_, _, rfl⟩
  · cases h
    exact ⟨_, _, rfl⟩

theorem deployed_app {s s' : Deployment} {event : AppEvent}
    (hstep : s.step (.app event) = some s') : s.app.FetchesNone event ∧
      ∃ waits request app, s.requested event = some { s with waits := waits, request := request } ∧
        s.app.step event = some app ∧
        s' = { s with waits := waits, request := request, app := app } := by
  simp only [Deployment.step] at hstep
  split_ifs at hstep with hnone
  obtain ⟨s₁, hrequested, hstep⟩ := Option.bind_eq_some_iff.mp hstep
  obtain ⟨waits, request, rfl⟩ := requested_frame hrequested
  obtain ⟨app, happ, rfl⟩ := Option.map_eq_some_iff.mp hstep
  exact ⟨hnone, waits, request, app, hrequested, happ, rfl⟩

/-! What each ThreadProc gets. -/

theorem isSome_of_step {s s' : Application} {event : AppEvent} (hstep : s.step event = some s')
    {t : Nat} (h : (s.workers t).isSome = true) : (s'.workers t).isSome = true := by
  obtain ⟨-, ⟨-, rfl⟩ | ⟨-, hstep⟩⟩ := step_cases hstep
  · exact h
  cases event with
  | main event =>
    cases mainMove_of_step hstep with
    | sends request phase event s₁ progress hmain hsend =>
      obtain ⟨_, _, _, rfl⟩ := sendStep_frame hsend
      exact h
    | begins command method => cases method <;> exact h
    | creates => exact isSome_update h
    | _ => exact h
  | worker t' event =>
    obtain ⟨w, s₁, thread, progress, hw, hprogress, rfl, -⟩ := workerStep_cases hstep
    exact isSome_update h
  | poll t' =>
    obtain ⟨poller, -, rfl⟩ := pollStep_cases hstep
    exact h

theorem ofThread_eq_nil {α : Type} {s : Application} {xs : List (Nat × α)}
    (h : ∀ p ∈ xs, (s.workers p.1).isSome = true) {t : Nat} (hunused : s.workers t = none) :
    ofThread t xs = [] := by
  have hnobody : ∀ p ∈ xs, p.1 ≠ t := by
    intro p hp ht
    have hknown := h p hp
    rw [ht, hunused] at hknown
    cases hknown
  simpa [ofThread] using hnobody

theorem ofThread_append_toList {α : Type} (t t' : Nat) (xs : List (Nat × α)) (x : Option α) :
    ofThread t (xs ++ x.toList.map (t', ·)) =
      ofThread t xs ++ if t' = t then x.toList else [] := by
  cases x with
  | none => simp
  | some x => exact ofThread_append_one t t' xs x

theorem SharedOut.getBuffer {buffers : Mdl → List Byte} {s s' : Deployment} {t : Nat}
    {input : GetBufferInput} (h : SharedOut buffers s) (hok : input.wait = .waitObject0)
    (hstep : s.step (.getBuffer t input) = some s') : SharedOut buffers s' := by
  obtain ⟨hdefined, n, dto, queue, info, w, thread, -, -, -, hinfo, hw, hphase, hthread, rfl⟩ :=
    deployed_getBuffer hstep
  rw [hok] at hthread
  have hshare (t' : Nat) := ofThread_append_one t' t s.dequeued dto
  have hplace (t' : Nat) := ofThread_append_toList t' t s.mapped (input.mapped dto)
  -- the one that was asked for it, and the others
  have hothers : ∀ t' w', Function.update s.app.workers t (some ⟨thread, .entry⟩) t' = some w' →
      (t' = t ∧ w' = ⟨thread, .entry⟩) ∨ (t' ≠ t ∧ s.app.workers t' = some w') := by
    intro t' w' hw'
    by_cases ht : t' = t
    · rw [ht, Function.update_self] at hw'
      exact Or.inl ⟨ht, (Option.some.inj hw').symm⟩
    · rw [Function.update_of_ne ht] at hw'
      exact Or.inr ⟨ht, hw'⟩
  refine ⟨hdefined, fun t' w' hw' => ?_, fun t' w' hw' => ?_, fun t' w' hw' => ?_, fun p hp => ?_,
    fun p hp => ?_, ?_⟩
  · rw [hshare t']
    obtain ⟨rfl, rfl⟩ | ⟨ht, hw'⟩ := hothers t' w' hw'
    · rw [if_pos rfl]
      have hlength := (h.shown t' w hw).length_eq
      have hcarrying := (h.carrying t' w hw).congr fun n hn =>
        held_append buffers (ofThread t' s.dequeued) dto (hlength ▸ hn)
      refine hcarrying.step ⟨?_, ?_⟩ hthread
      · simp [Faultless, hphase]
      · simp only [Copies, hphase]
    · rw [if_neg (Ne.symm ht), List.append_nil]
      exact h.carrying t' w' hw'
  · rw [hshare t']
    obtain ⟨rfl, rfl⟩ | ⟨ht, hw'⟩ := hothers t' w' hw'
    · rw [if_pos rfl, fetched_of_packet hthread]
      exact List.rel_append (h.shown t' w hw)
        (List.Forall₂.cons (ptwCommandGetBuffer_shows hinfo _) .nil)
    · rw [if_neg (Ne.symm ht), List.append_nil]
      exact h.shown t' w' hw'
  · rw [hplace t']
    obtain ⟨rfl, rfl⟩ | ⟨ht, hw'⟩ := hothers t' w' hw'
    · rw [if_pos rfl, fetched_of_packet hthread, List.filterMap_append, h.mapped t' w hw]
      have hbuffer := ptwCommandGetBuffer_buffer hinfo w.thread.fetched.length
      cases hmapped : input.mapped dto <;> simp [hbuffer, hmapped]
    · rw [if_neg (Ne.symm ht), List.append_nil]
      exact h.mapped t' w' hw'
  · obtain hp | hp := List.mem_append.mp hp
    · exact isSome_update (h.known p hp)
    · rw [List.mem_singleton.mp hp]
      exact isSome_update (by rw [hw]; rfl)
  · obtain hp | hp := List.mem_append.mp hp
    · exact isSome_update (h.reached p hp)
    · obtain ⟨address, -, rfl⟩ := List.mem_map.mp hp
      exact isSome_update (by rw [hw]; rfl)
  · rw [List.filterMap_append, h.handed]
    cases hmdl : dto.mdl <;> simp [hmdl]

theorem undisturbed_app {buffers : Mdl → List Byte} {s : Deployment} {event : AppEvent}
    (h : s.Undisturbed buffers (.app event)) : s.app.misuses event = false := by
  cases event with
  | main | poll => exact h
  | worker => exact h.1

theorem SharedOut.app {buffers : Mdl → List Byte} {s : Deployment} {app : Application}
    {event : AppEvent} (h : SharedOut buffers s) (hok : s.Undisturbed buffers (.app event))
    (hnone : s.app.FetchesNone event) (hstep : s.app.step event = some app) (waits : Waits)
    (request : Nat → Option Nat) :
    SharedOut buffers { s with waits := waits, request := request, app := app } := by
  refine ⟨defined_of_step (undisturbed_app hok) hstep, fun t w' hw' => ?_, fun t w' hw' => ?_,
    fun t w' hw' => ?_, fun p hp => isSome_of_step hstep (h.known p hp),
    fun p hp => isSome_of_step hstep (h.reached p hp), h.handed⟩
  · obtain ⟨w, hw, hsame⟩ | ⟨hunused, hthread⟩ |
        ⟨w, outside, own, hevent, hw, hreceived, hthread⟩ :=
      worker_of_step hstep hw'
    · rw [hsame]
      exact h.carrying t w hw
    · rw [hthread]
      exact carrying_new _
    · rw [hevent] at hok hreceived
      exact (h.carrying t w hw).step (hok.2 _ hreceived) hthread
  · obtain ⟨w, hw, hsame⟩ | ⟨hunused, hthread⟩ |
        ⟨w, outside, own, hevent, hw, hreceived, hthread⟩ :=
      worker_of_step hstep hw'
    · rw [hsame]
      exact h.shown t w hw
    · rw [hthread, ofThread_eq_nil h.known hunused]
      exact .nil
    · rw [fetched_of_none (hnone _ hreceived) hthread]
      exact h.shown t w hw
  · obtain ⟨w, hw, hsame⟩ | ⟨hunused, hthread⟩ |
        ⟨w, outside, own, hevent, hw, hreceived, hthread⟩ :=
      worker_of_step hstep hw'
    · rw [hsame]
      exact h.mapped t w hw
    · rw [hthread, ofThread_eq_nil h.reached hunused]
      rfl
    · rw [fetched_of_none (hnone _ hreceived) hthread]
      exact h.mapped t w hw

theorem SharedOut.step {buffers : Mdl → List Byte} {s s' : Deployment} {event : DeploymentEvent}
    (h : SharedOut buffers s) (hok : s.Undisturbed buffers event)
    (hstep : s.step event = some s') : SharedOut buffers s' := by
  cases event with
  | driver op =>
    obtain ⟨hop, driver, hdriver, rfl⟩ := deployed_driver hstep
    exact ⟨h.defined, h.carrying, h.shown, h.mapped, h.known, h.reached,
      h.handed.trans (handed_of_step hop hdriver).symm⟩
  | run n | alert n =>
    obtain ⟨waits, -, rfl⟩ := Option.map_eq_some_iff.mp hstep
    exact ⟨h.defined, h.carrying, h.shown, h.mapped, h.known, h.reached, h.handed⟩
  | getBuffer t input => exact h.getBuffer hok hstep
  | app event =>
    obtain ⟨hnone, waits, request, app, -, happ, rfl⟩ := deployed_app hstep
    exact h.app hok hnone happ waits request

theorem sharedOut_boot (buffers : Mdl → List Byte) (hardware : Nat → Core) :
    SharedOut buffers (Deployment.boot hardware) where
  defined := rfl
  carrying _ _ hw := by cases hw
  shown _ _ hw := by cases hw
  mapped _ _ hw := by cases hw
  known _ hp := absurd hp List.not_mem_nil
  reached _ hp := absurd hp List.not_mem_nil
  handed := rfl

/-- However many ThreadProcs there are and however all threads, DPCs and interrupts come, each
packet taken out of the queue is published by one of them, in its turn. -/
theorem packets_shared_out (buffers : Mdl → List Byte) (hardware : Nat → Core)
    (events : List DeploymentEvent)
    (hmeets : Meets Deployment.step (Deployment.Undisturbed buffers) (Deployment.boot hardware)
      events) :
    Every Deployment.step (SharedOut buffers) (Deployment.boot hardware) events :=
  every_of_meets (SharedOut buffers) (fun _ h => h) (fun _ _ _ h hok hstep => h.step hok hstep) _
    events (sharedOut_boot buffers hardware) hmeets

/-- Two ThreadProcs ask at the same time; the second gets the first packet, and both create a
polling thread. -/
theorem packets_shared_out_two :
    let sent : PacketInput := { dto := true, element := true }
    let input : GetBufferInput := ⟨.waitObject0, 0, 0, 0⟩
    let ops : List DriverOp := firstSession ++
      [.imageLoad sent 0x400000 0x1000 1000000, .imageLoad sent 0x500000 0x2000 1000000]
    let both (event : WorkerEvent) : List DeploymentEvent :=
      [.app (.worker 1 event), .app (.worker 2 event)]
    let events : List DeploymentEvent :=
      (setUp openEvents 1 ++ setUp sendEvents 2).map (.app <| .main ·) ++ ops.map .driver ++
        ask.flatMap both ++ [.getBuffer 2 input, .getBuffer 1 input] ++
        [.calloc true fun _ => 0, .enter, .testPolling, .testPolling].flatMap both ++
        [.app (.worker 1 (.createThread (some 3))), .app (.worker 2 (.createThread (some 4)))] ++
        both (.produced .noError)
    ∃ s, events.foldlM Deployment.step (Deployment.boot fun _ => {}) = some s ∧
      SharedOut (fun _ => []) s ∧ s.dequeued.map Prod.fst = [2, 1] ∧
      ∀ t ∈ [1, 2], (s.app.workers t).map (·.thread.enqueued.length) = some 1 := by
  intro sent input ops both events
  have hmeets : Meets Deployment.step (Deployment.Undisturbed fun _ => [])
      (Deployment.boot fun _ => {}) events := by decide +kernel
  have hend : (events.foldlM Deployment.step (Deployment.boot fun _ => {})).map
      (fun s => (s.dequeued.map Prod.fst, decide (∀ t ∈ [1, 2],
        (s.app.workers t).map (·.thread.enqueued.length) = some 1))) = some ([2, 1], true) := by
    decide +kernel
  obtain ⟨s, hrun, hs⟩ := Option.map_eq_some_iff.mp hend
  obtain ⟨hdequeued, hboth⟩ := Prod.mk.inj hs
  exact ⟨s, hrun, (packets_shared_out _ _ events hmeets).last hrun, hdequeued,
    of_decide_eq_true hboth⟩

/-! One ThreadProc. -/

/-- The driver takes the steps it would take by itself. -/
theorem run_deployedOps (events : List DeploymentEvent) {s s' : Deployment}
    (hrun : events.foldlM Deployment.step s = some s') :
    (deployedOps events).foldlM System.step s.driver = some s'.driver := by
  refine run_filterMap Deployment.driver _ (fun s event s' op hstep hop => ?_)
    (fun s event s' hstep hop => ?_) hrun
  · cases event with
    | driver op' =>
      cases hop
      obtain ⟨-, driver, hdriver, rfl⟩ := deployed_driver hstep
      exact hdriver
    | getBuffer t input =>
      cases hop
      obtain ⟨-, n, dto, queue, info, w, thread, -, -, hqueue, -, -, -, -, rfl⟩ :=
        deployed_getBuffer hstep
      simp only [System.step, hqueue]
    | run | alert | app => cases hop
  · cases event with
    | driver | getBuffer => cases hop
    | run n | alert n =>
      obtain ⟨waits, -, rfl⟩ := Option.map_eq_some_iff.mp hstep
      rfl
    | app event =>
      obtain ⟨-, waits, request, app, -, -, rfl⟩ := deployed_app hstep
      rfl

theorem ofThread_of_alone {α : Type} {s : Application} {t : Nat}
    (halone : ∀ t', t' ≠ t → s.workers t' = none) {xs : List (Nat × α)}
    (hxs : ∀ p ∈ xs, (s.workers p.1).isSome = true) : ofThread t xs = xs.map Prod.snd := by
  have hall : ∀ p ∈ xs, p.1 = t := by
    intro p hp
    by_contra ht
    have hknown := hxs p hp
    rw [halone p.1 ht] at hknown
    cases hknown
  rw [ofThread, List.filter_eq_self.mpr fun p hp => decide_eq_true (hall p hp)]

/-- A ThreadProc that is alone is at the other end of the queue. -/
theorem SharedOut.piping {buffers : Mdl → List Byte} {s : Deployment} (h : SharedOut buffers s)
    {t : Nat} {w : Worker} (hw : s.app.workers t = some w)
    (halone : ∀ t', t' ≠ t → s.app.workers t' = none) :
    Piping buffers {
      driver := s.driver
      waits := s.waits
      thread := w.thread
      request := s.request t
      dequeued := s.dequeued.map Prod.snd
      mapped := s.mapped.map Prod.snd } := by
  have hdequeued := ofThread_of_alone halone h.known
  refine ⟨hdequeued ▸ h.carrying t w hw, hdequeued ▸ h.shown t w hw,
    ofThread_of_alone halone h.reached ▸ h.mapped t w hw, ?_⟩
  rw [List.filterMap_map]
  exact h.handed

end IntelPt.UserModeApp
