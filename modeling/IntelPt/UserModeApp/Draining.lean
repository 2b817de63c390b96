import IntelPt.UserModeApp.Pipeline

/-! ThreadProc gets through the queue. Wherever an undisturbed run has got to, the application can
publish what it has in hand and then everything the driver has put into the queue, unless its
request sleeps: the driver has then missed to wake it, or an image load has not tried to. -/
namespace IntelPt.UserModeApp
open Decoder Runs
open Driver (System DriverOp Mdl CommBufferAddress PacketInput Core Pc Waits firstSession tenPages)

/-- ThreadProc goes on and the driver for it. No routine of the driver is called, no wait
interrupted, and a request is answered with a packet. -/
def PipelineEvent.Own : PipelineEvent → Prop
  | .request | .run _ | .getBuffer _ | .thread (.calloc ..) | .thread (.produced _)
  | .thread (.freed _) => True
  | .driver _ | .alert _ | .thread (.reply _) => False

/-- There are packets, and the request sleeps. -/
def Pipeline.Stranded (s : Pipeline) : Prop :=
  s.driver.queue ≠ [] ∧ ∃ n ∈ s.request, s.waits.Sleeps n

instance (s : Pipeline) : Decidable s.Stranded :=
  inferInstanceAs (Decidable (_ ∧ ∃ n ∈ s.request, s.waits.Sleeps n))

def Pipeline.Asking (s : Pipeline) : Prop :=
  ∀ n, s.request = some n →
    s.thread.phase = .getBuffer ∧ ∃ pc, s.waits.threads[n]? = some pc ∧ pc.Requests

def publish (input : GetBufferInput) (memory : BitVec 64 → Byte) : List PipelineEvent :=
  [.request, .getBuffer input, .thread (.calloc true memory), .thread (.produced .noError),
    .thread (.freed .sent)]

def Pipeline.Same (s' s : Pipeline) : Prop :=
  s'.driver = s.driver ∧ s'.dequeued = s.dequeued

abbrev Undisturbs (buffers : Mdl → List Byte) :=
  Reaches Pipeline.step (Undisturbed buffers)

abbrev Proceeds (buffers : Mdl → List Byte) :=
  Reaches Pipeline.step fun s event => Undisturbed buffers s event ∧ event.Own

/-! A request. -/

section

variable {buffers : Mdl → List Byte} {s s' : Pipeline}

theorem asks_iff_phase {s : ThreadState} : s.asks = true ↔ s.phase = .getBuffer := by
  cases hphase : s.phase <;> simp [ThreadState.asks, hphase]

/-- Only ThreadProc ends its request. -/
theorem Pipeline.Asking.step {event : PipelineEvent} (h : s.Asking)
    (hstep : s.step event = some s') : s'.Asking := by
  intro n hn
  cases event with
  | driver op =>
    obtain ⟨-, driver, -, rfl⟩ := driver_of_step hstep
    obtain ⟨hphase, pc, hpc, hrequests⟩ := h n hn
    exact ⟨hphase, pc, Driver.getElem?_behind hpc, hrequests⟩
  | request =>
    simp only [Pipeline.step] at hstep
    split_ifs at hstep with hasks
    cases hstep
    cases hn
    have hphase := asks_iff_phase.mp (Bool.and_eq_true_iff.mp hasks).1
    exact ⟨hphase, .dequeue, List.getElem?_concat_length .., by decide⟩
  | run m =>
    obtain ⟨waits, hrun, rfl⟩ := Option.map_eq_some_iff.mp hstep
    obtain ⟨hphase, pc, hpc, hrequests⟩ := h n hn
    exact ⟨hphase, Driver.requests_of_run hpc hrequests hrun⟩
  | alert m =>
    obtain ⟨waits, halert, rfl⟩ := Option.map_eq_some_iff.mp hstep
    obtain ⟨hphase, pc, hpc, hrequests⟩ := h n hn
    exact ⟨hphase, Driver.requests_of_alert hpc hrequests halert⟩
  | getBuffer input =>
    obtain ⟨_, _, _, _, _, -, -, -, -, -, rfl⟩ := getBuffer_of_step hstep
    cases hn
  | thread event =>
    obtain ⟨-, s₁, thread, hended, hthread, rfl, -⟩ := thread_of_step hstep
    cases event with
    | reply answer =>
      simp only [Pipeline.ended] at hended
      split at hended
      · split_ifs at hended
        cases hended
        cases hn
      · next hnone =>
        split_ifs at hended
        cases hended
        cases hnone.symm.trans hn
    | calloc available memory =>
      cases hended
      obtain ⟨packet, hphase⟩ := phase_of_calloc hthread
      cases hphase.symm.trans (h n hn).1
    | produced err =>
      cases hended
      obtain ⟨message, hphase⟩ := phase_of_produced hthread
      cases hphase.symm.trans (h n hn).1
    | freed send =>
      cases hended
      cases (phase_of_freed hthread).symm.trans (h n hn).1

theorem asking_boot (hardware : Nat → Core) : (Pipeline.boot hardware).Asking := nofun

/-- By itself a request does not wake up. -/
theorem Pipeline.Stranded.step {event : PipelineEvent} (h : s.Stranded) (hown : event.Own)
    (hstep : s.step event = some s') : s'.Stranded := by
  obtain ⟨hqueue, n, hmem, hsleeps⟩ := h
  have hn : s.request = some n := hmem
  cases event with
  | driver | alert => exact hown.elim
  | request =>
    simp only [Pipeline.step, hn, Option.isNone_some, Bool.and_false, Bool.false_eq_true,
      if_false, reduceCtorEq] at hstep
  | run m =>
    obtain ⟨waits, hrun, rfl⟩ := Option.map_eq_some_iff.mp hstep
    exact ⟨hqueue, n, hn, hsleeps.run hqueue hrun⟩
  | getBuffer input =>
    obtain ⟨m, _, _, _, _, hm, hdequeue, -, -, -, -⟩ := getBuffer_of_step hstep
    cases hn.symm.trans hm
    simp [Driver.Waits.Sleeps, hdequeue] at hsleeps
  | thread event =>
    obtain ⟨-, s₁, thread, hended, -, rfl, -⟩ := thread_of_step hstep
    cases event with
    | reply answer => exact hown.elim
    | _ =>
      cases hended
      exact ⟨hqueue, n, hn, hsleeps⟩

theorem reaches_of_runs (ns : List Nat) : ∀ {s : Pipeline} {waits : Waits},
    s.waits.runs s.driver.queue ns = some waits →
      Proceeds buffers s (ns.map .run) { s with waits := waits } := by
  induction ns with
  | nil =>
    intro s waits hruns
    cases hruns
    exact reaches_nil _
  | cons n ns ih =>
    intro s waits hruns
    rw [Waits.runs, List.foldlM_cons, Option.bind_eq_bind, Option.bind_eq_some_iff] at hruns
    obtain ⟨waits₁, hrun, hruns⟩ := hruns
    have hstep : s.step (.run n) = some { s with waits := waits₁ } := by
      rw [Pipeline.step, hrun]
      rfl
    exact (@ih { s with waits := waits₁ } waits hruns).cons ⟨trivial, trivial⟩ hstep

/-- The request is sent, or on its way, and gets to the queue. -/
theorem reaches_dequeue (buffers : Mdl → List Byte) (hphase : s.thread.phase = .getBuffer)
    (hasking : s.Asking) (hqueue : s.driver.queue ≠ []) (hawake : ¬ s.Stranded) :
    ∃ events waits n, Proceeds buffers s events { s with waits := waits, request := some n } ∧
      waits.threads[n]? = some .dequeue := by
  cases hrequest : s.request with
  | none =>
    have hstep : s.step .request = some { s with
        waits := s.waits.arrive
        request := some s.waits.threads.length } := by
      simp [Pipeline.step, hrequest, asks_iff_phase.mpr hphase]
    exact ⟨[.request], _, _, (reaches_nil _).cons ⟨trivial, trivial⟩ hstep,
      List.getElem?_concat_length ..⟩
  | some n =>
    obtain ⟨-, pc, hpc, hrequests⟩ := hasking n hrequest
    obtain ⟨ns, waits, hruns, hdequeue⟩ := Driver.runs_of_not_sleeps s.driver.queue hpc
      hrequests fun hsleeps => hawake ⟨hqueue, n, hrequest, hsleeps⟩
    refine ⟨ns.map .run, waits, n, ?_, hdequeue⟩
    rw [← hrequest]
    exact reaches_of_runs ns hruns

/-! From each place of its loop ThreadProc can go on to the next. -/

theorem thread_step {event : Event} {thread : ThreadState} (hnone : event.BringsNoPacket)
    (hended : s.ended event = some s) (hstep : threadProcStep s.thread event = some thread) :
    s.step (.thread event) = some { s with thread := thread } := by
  simp only [Pipeline.step, if_pos hnone, hended, Option.bind_some, hstep, Option.map_some]

theorem undisturbs_of_proceeds {events : List PipelineEvent} (h : Proceeds buffers s events s') :
    Undisturbs buffers s events s' :=
  h.weaken fun _ _ h => h.1

theorem reaches_of_driver (ops : List DriverOp) : ∀ {s : Pipeline} {driver : System},
    (∀ op ∈ ops, op ≠ .getBuffer) → ops.foldlM System.step s.driver = some driver →
      ∃ waits, Undisturbs buffers s (ops.map .driver)
        { s with driver := driver, waits := waits } := by
  induction ops with
  | nil =>
    intro s driver _ hrun
    cases hrun
    exact ⟨s.waits, reaches_nil _⟩
  | cons op ops ih =>
    intro s driver hops hrun
    rw [List.foldlM_cons, Option.bind_eq_bind, Option.bind_eq_some_iff] at hrun
    obtain ⟨driver₁, hstep, hrun⟩ := hrun
    let s₁ : Pipeline := { s with
      driver := driver₁
      waits := s.waits.behind op s.driver.queue driver₁.queue }
    have hfirst : s.step (.driver op) = some s₁ := by
      rw [step_driver (hops op List.mem_cons_self), hstep]
      rfl
    obtain ⟨waits, hafter⟩ := @ih s₁ driver
      (fun o ho => hops o (List.mem_cons_of_mem op ho)) hrun
    exact ⟨waits, hafter.cons trivial hfirst⟩

theorem reaches_of_freeBuffer (hphase : s.thread.phase = .freeBuffer) :
    ∃ s', Proceeds buffers s [.thread (.freed .sent)] s' ∧ s'.Same s ∧
      s'.thread.phase = .getBuffer ∧ s'.request = s.request := by
  have hstep : threadProcStep s.thread (.freed .sent) =
      some { commandFreeBuffer .sent s.thread with phase := .getBuffer } := by
    simp only [threadProcStep, hphase]
  have hok : Undisturbed buffers s (.thread (.freed .sent)) := by
    simp [Undisturbed, Faultless, Copies, hphase]
  exact ⟨_, (reaches_nil _).cons ⟨hok, trivial⟩ (thread_step trivial rfl hstep), ⟨rfl, rfl⟩, rfl,
    rfl⟩

theorem reaches_of_send {message : KafkaMessage} (hphase : s.thread.phase = .send message) :
    ∃ s', Proceeds buffers s [.thread (.produced .noError), .thread (.freed .sent)] s' ∧
      s'.Same s ∧ s'.thread.phase = .getBuffer ∧ s'.request = s.request := by
  have hstep : ∃ thread, threadProcStep s.thread (.produced .noError) = some thread ∧
      thread.phase = .freeBuffer := by
    simp [threadProcStep, hphase, kafkaSendMessage]
  have hok : Undisturbed buffers s (.thread (.produced .noError)) := by
    simp [Undisturbed, Faultless, Copies, hphase]
  obtain ⟨thread, hthread, hfree⟩ := hstep
  obtain ⟨s', h, hidle⟩ :=
    @reaches_of_freeBuffer buffers { s with thread := thread } hfree
  exact ⟨s', h.cons ⟨hok, trivial⟩ (thread_step trivial rfl hthread), hidle⟩

theorem reaches_of_build {packet : FetchedPacket} (hphase : s.thread.phase = .build packet)
    {memory : BitVec 64 → Byte} (hcopied : packet.info.header.options.firstPacket = false →
      readMemory memory packet.info.payload.bufferAddress (10 * usnPageSize) =
        held buffers s.dequeued packet.number) :
    ∃ s', Proceeds buffers s [.thread (.calloc true memory), .thread (.produced .noError),
        .thread (.freed .sent)] s' ∧ s'.Same s ∧ s'.thread.phase = .getBuffer ∧
      s'.request = s.request := by
  have hstep : threadProcStep s.thread (.calloc true memory) = some { s.thread with
      phase := .send ⟨packet, memory, threadProc memory packet.info⟩ } := by
    simp only [threadProcStep, hphase, if_true]
  have hok : Undisturbed buffers s (.thread (.calloc true memory)) := by
    simp only [Undisturbed, Faultless, Copies, hphase]
    exact ⟨trivial, hcopied⟩
  obtain ⟨s', h, hidle⟩ := @reaches_of_send buffers { s with thread := { s.thread with
      phase := .send ⟨packet, memory, threadProc memory packet.info⟩ } } _ rfl
  exact ⟨s', h.cons ⟨hok, trivial⟩ (thread_step trivial rfl hstep), hidle⟩

theorem getBuffer_step {n : Nat} (hn : s.request = some n)
    (hdequeue : s.waits.threads[n]? = some .dequeue) {dto : CommBufferAddress}
    {queue : List CommBufferAddress} (hqueue : s.driver.queue = dto :: queue)
    (hphase : s.thread.phase = .getBuffer) {input : GetBufferInput}
    (hwait : input.wait = .waitObject0) {info : PacketInfo}
    (hinfo : ptwCommandGetBuffer dto input = some info) :
    ∃ s₁, s.step (.getBuffer input) = some s₁ ∧ s₁.driver.queue = queue ∧
      s₁.dequeued = s.dequeued ++ [dto] ∧
      s₁.thread.phase = .build ⟨s.thread.fetched.length, info⟩ ∧ s₁.request = none := by
  have hbytes : (BitVec.ofNat 32 sizeofCommBufferAddress).toNat = sizeofCommBufferAddress := rfl
  simp [Pipeline.step, hn, hdequeue, hqueue, hinfo, hwait, threadProcStep, hphase,
    commandGetBuffer, communicationSendMessage, hbytes, NtStatus.succeeded, System.step]

theorem reaches_of_dequeue (hs : Piping buffers s) {n : Nat} (hn : s.request = some n)
    (hdequeue : s.waits.threads[n]? = some .dequeue) {dto : CommBufferAddress}
    {queue : List CommBufferAddress} (hqueue : s.driver.queue = dto :: queue)
    (hphase : s.thread.phase = .getBuffer) (input : GetBufferInput)
    (hwait : input.wait = .waitObject0) {info : PacketInfo}
    (hinfo : ptwCommandGetBuffer dto input = some info) (memory : BitVec 64 → Byte)
    (hcopied : info.header.options.firstPacket = false →
      readMemory memory info.payload.bufferAddress (10 * usnPageSize) =
        dto.mdl.elim [] buffers) :
    ∃ s', Proceeds buffers s (publish input memory).tail s' ∧ s'.driver.queue = queue ∧
      s'.dequeued = s.dequeued ++ [dto] ∧ s'.thread.phase = .getBuffer ∧ s'.request = none := by
  obtain ⟨s₁, hstep, hrest, hdequeued, hbuild, hover⟩ :=
    getBuffer_step hn hdequeue hqueue hphase hwait hinfo
  have hheld : held buffers s₁.dequeued s.thread.fetched.length = dto.mdl.elim [] buffers := by
    rw [held, hdequeued, hs.shown.length_eq, List.getElem?_concat_length]
    rfl
  obtain ⟨s', h, ⟨hdriver, hkept⟩, hidle, hrequest⟩ :=
    reaches_of_build hbuild fun hfirst => (hcopied hfirst).trans hheld.symm
  exact ⟨s', h.cons ⟨hwait, trivial⟩ hstep, by rw [hdriver, hrest], hkept.trans hdequeued, hidle,
    hrequest.trans hover⟩

theorem reaches_of_publish (hs : Piping buffers s) {dto : CommBufferAddress}
    {queue : List CommBufferAddress} (hqueue : s.driver.queue = dto :: queue)
    (hphase : s.thread.phase = .getBuffer) (hrequest : s.request = none) (input : GetBufferInput)
    (hwait : input.wait = .waitObject0) {info : PacketInfo}
    (hinfo : ptwCommandGetBuffer dto input = some info) (memory : BitVec 64 → Byte)
    (hcopied : info.header.options.firstPacket = false →
      readMemory memory info.payload.bufferAddress (10 * usnPageSize) =
        dto.mdl.elim [] buffers) :
    ∃ s', Undisturbs buffers s (publish input memory) s' ∧ s'.driver.queue = queue ∧
      s'.dequeued = s.dequeued ++ [dto] ∧ s'.thread.phase = .getBuffer ∧ s'.request = none := by
  let s₁ : Pipeline := { s with
    waits := s.waits.arrive
    request := some s.waits.threads.length }
  have hstep : s.step .request = some s₁ := by
    simp [Pipeline.step, hrequest, asks_iff_phase.mpr hphase, s₁]
  have hs₁ : Piping buffers s₁ := ⟨hs.carrying, hs.shown, hs.mapped, hs.handed⟩
  obtain ⟨s', h, hafter⟩ := reaches_of_dequeue hs₁ rfl (List.getElem?_concat_length ..) hqueue
    hphase input hwait hinfo memory hcopied
  exact ⟨s', (undisturbs_of_proceeds h).cons trivial hstep, hafter⟩

theorem piping_of_reaches {events : List PipelineEvent} (hs : Piping buffers s)
    (h : Undisturbs buffers s events s') : Piping buffers s' :=
  h.keeps (Piping buffers) (fun _ _ _ h hok hstep => h.step hok hstep) hs

/-- Every packet in the queue of a ToPA processor can be asked for, wherever it gets mapped. -/
theorem ptwCommandGetBuffer_of_mappable {dto : CommBufferAddress} (h : dto.Mappable)
    (input : GetBufferInput) : ∃ info, ptwCommandGetBuffer dto input = some info ∧
      (info.header.options.firstPacket = false → info.payload.bufferAddress = input.address ∧
        dto.mdl.isSome = true) := by
  obtain ⟨firstPacket, lastPacket, cpuId, sequenceId, packetId, payload⟩ := dto
  cases payload with
  | firstPacket imageBaseAddress imageSize processorFrequency =>
    obtain rfl : firstPacket = true := h
    exact ⟨_, rfl, fun hfirst => by cases hfirst⟩
  | genericPacket bufferSize mdl =>
    obtain ⟨rfl, hmdl⟩ : firstPacket = false ∧ mdl.isSome = true := h
    obtain ⟨mdl, rfl⟩ := Option.isSome_iff_exists.mp hmdl
    exact ⟨_, rfl, fun _ => ⟨rfl, rfl⟩⟩

end

theorem Piping.held_length {buffers : Mdl → List Byte}
    (hbuffers : ∀ mdl, (buffers mdl).length = 10 * usnPageSize) {s : Pipeline}
    (h : Piping buffers s) {packet : FetchedPacket} (hpacket : packet ∈ s.thread.fetched)
    (hdata : packet.info.header.options.firstPacket = false) :
    (held buffers s.dequeued packet.number).length = 10 * usnPageSize := by
  obtain ⟨n, hn, rfl⟩ := List.getElem_of_mem hpacket
  obtain ⟨hlength, hshown⟩ := List.forall₂_iff_get.mp h.shown
  have hn' : n < s.dequeued.length := hlength ▸ hn
  have hmdl : (s.dequeued[n]).mdl ≠ none := fun hnone => by
    have hfirst := (hshown n hn hn').first_iff.mpr hnone
    rw [List.get_eq_getElem, hdata] at hfirst
    cases hfirst
  obtain ⟨mdl, hmdl⟩ := Option.ne_none_iff_exists'.mp hmdl
  rw [h.number hn, held, List.getElem?_eq_getElem hn', Option.bind_some, hmdl]
  exact hbuffers mdl

/-- Without a fault ThreadProc does not return. -/
theorem running_of_step {s s' : ThreadState} {event : Event} (h : s.phase ≠ .returned)
    (hok : Faultless s event) (hstep : threadProcStep s event = some s') :
    s'.phase ≠ .returned := by
  cases event with
  | reply answer =>
    have hphase := phase_of_reply hstep
    have hsame := (commandGetBuffer_frame answer s).2
    simp only [threadProcStep, hphase] at hstep
    split at hstep
    · cases hstep
      rw [hsame]
      exact h
    · split at hstep <;> cases hstep <;> exact fun h => by cases h
  | calloc available memory =>
    obtain ⟨packet, hphase⟩ := phase_of_calloc hstep
    simp only [Faultless, hphase] at hok
    simp only [threadProcStep, hphase, hok, if_true, Option.some.injEq] at hstep
    subst hstep
    exact fun h => by cases h
  | produced err =>
    obtain ⟨message, hphase⟩ := phase_of_produced hstep
    simp only [threadProcStep, hphase] at hstep
    split at hstep
    · cases hstep
      exact h
    · cases hstep
      exact fun h => by cases h
  | freed send =>
    simp only [threadProcStep, phase_of_freed hstep, Option.some.injEq] at hstep
    subst hstep
    exact fun h => by cases h

theorem running_of_pipeline {buffers : Mdl → List Byte} {s s' : Pipeline} {event : PipelineEvent}
    (h : s.thread.phase ≠ .returned) (hok : Undisturbed buffers s event)
    (hstep : s.step event = some s') : s'.thread.phase ≠ .returned := by
  cases event with
  | driver op =>
    obtain ⟨-, driver, -, rfl⟩ := driver_of_step hstep
    exact h
  | request =>
    simp only [Pipeline.step] at hstep
    split_ifs at hstep
    cases hstep
    exact h
  | run n | alert n =>
    obtain ⟨waits, -, rfl⟩ := Option.map_eq_some_iff.mp hstep
    exact h
  | getBuffer input =>
    obtain ⟨_, dto, queue, info, thread, -, -, -, -, hthread, rfl⟩ := getBuffer_of_step hstep
    refine running_of_step h ?_ hthread
    simp only [Faultless, phase_of_reply hthread]
    exact fun _ => hok
  | thread event =>
    obtain ⟨-, s₁, thread, -, hthread, rfl, -⟩ := thread_of_step hstep
    exact running_of_step h hok.1 hthread

section

variable {buffers : Mdl → List Byte} (hbuffers : ∀ mdl, (buffers mdl).length = 10 * usnPageSize)
include hbuffers

/-- ThreadProc gets rid of what it has in hand. -/
theorem reaches_idle {s : Pipeline} (h : Piping buffers s) (hrunning : s.thread.phase ≠ .returned) :
    ∃ later s', Proceeds buffers s later s' ∧ s'.Same s ∧ s'.thread.phase = .getBuffer ∧
      (s.thread.phase = .getBuffer ∧ s' = s ∨
        s.thread.phase ≠ .getBuffer ∧ s'.request = s.request) := by
  cases hphase : s.thread.phase with
  | getBuffer => exact ⟨[], s, reaches_nil s, ⟨rfl, rfl⟩, hphase, Or.inl ⟨rfl, rfl⟩⟩
  | build packet =>
    have hpacket : packet ∈ s.thread.fetched := by
      rw [← h.carrying.once, ThreadState.pending, hphase]
      exact List.mem_append_right _ (List.mem_singleton_self packet)
    have hmemory : ∃ memory, packet.info.header.options.firstPacket = false →
        readMemory memory packet.info.payload.bufferAddress (10 * usnPageSize) =
          held buffers s.dequeued packet.number := by
      by_cases hdata : packet.info.header.options.firstPacket = false
      · obtain ⟨memory, hmemory⟩ := exists_memory packet.info.payload.bufferAddress
          (h.held_length hbuffers hpacket hdata)
        exact ⟨memory, fun _ => hmemory⟩
      · exact ⟨fun _ => 0, fun hfirst => absurd hfirst hdata⟩
    obtain ⟨memory, hcopied⟩ := hmemory
    obtain ⟨s', hreaches, hsame, hidle, hrequest⟩ := reaches_of_build hphase hcopied
    exact ⟨_, s', hreaches, hsame, hidle, Or.inr ⟨by simp, hrequest⟩⟩
  | send message =>
    obtain ⟨s', hreaches, hsame, hidle, hrequest⟩ := reaches_of_send hphase
    exact ⟨_, s', hreaches, hsame, hidle, Or.inr ⟨by simp, hrequest⟩⟩
  | freeBuffer =>
    obtain ⟨s', hreaches, hsame, hidle, hrequest⟩ := reaches_of_freeBuffer hphase
    exact ⟨_, s', hreaches, hsame, hidle, Or.inr ⟨by simp, hrequest⟩⟩
  | returned => exact absurd hphase hrunning
  | undefined => exact absurd hphase h.carrying.defined

/-- One turn for each packet in the queue. -/
theorem reaches_drained (queue : List CommBufferAddress) : ∀ {s : Pipeline}, Piping buffers s →
    s.thread.phase = .getBuffer → s.Asking → ¬ s.Stranded → s.driver.queue = queue →
      (∀ dto ∈ queue, dto.Mappable) → ∃ later s', Proceeds buffers s later s' ∧
        s'.driver.queue = [] ∧ s'.dequeued = s.dequeued ++ queue ∧
        s'.thread.phase = .getBuffer := by
  induction queue with
  | nil =>
    intro s _ hphase _ _ hqueue _
    exact ⟨[], s, reaches_nil s, hqueue, (List.append_nil _).symm, hphase⟩
  | cons dto queue ih =>
    intro s h hphase hasking hawake hqueue hmappable
    obtain ⟨events, waits, n, hevents, hdequeue⟩ := reaches_dequeue buffers hphase
      hasking (by rw [hqueue]; exact List.cons_ne_nil _ _) hawake
    have hready : Piping buffers { s with waits := waits, request := some n } :=
      ⟨h.carrying, h.shown, h.mapped, h.handed⟩
    let input : GetBufferInput := ⟨.waitObject0, 0, 0, 0⟩
    obtain ⟨info, hinfo, hdata⟩ :=
      ptwCommandGetBuffer_of_mappable (hmappable dto List.mem_cons_self) input
    have hlength : (dto.mdl.elim (List.replicate (10 * usnPageSize) 0) buffers).length =
        10 * usnPageSize := by
      cases dto.mdl with
      | none => rw [Option.elim_none, List.length_replicate]
      | some mdl => rw [Option.elim_some, hbuffers mdl]
    obtain ⟨memory, hmemory⟩ := exists_memory 0 hlength
    have hcopied : info.header.options.firstPacket = false →
        readMemory memory info.payload.bufferAddress (10 * usnPageSize) =
          dto.mdl.elim [] buffers := by
      intro hfirst
      obtain ⟨haddress, hmdl⟩ := hdata hfirst
      obtain ⟨mdl, hmdl⟩ := Option.isSome_iff_exists.mp hmdl
      rw [haddress, hmemory, hmdl]
      rfl
    obtain ⟨s₁, hturn, hrest, hdequeued, hidle, hover⟩ :=
      reaches_of_dequeue hready rfl hdequeue hqueue hphase input rfl hinfo memory hcopied
    -- behind the turn there is no request
    obtain ⟨later, s', hlater, hempty, hall, hdone⟩ :=
      ih (piping_of_reaches hready (undisturbs_of_proceeds hturn)) hidle
        (fun m hm => by cases hover.symm.trans hm)
        (fun ⟨_, m, hm, _⟩ => by cases hover.symm.trans hm) hrest
        fun other hother => hmappable other (List.mem_cons_of_mem dto hother)
    refine ⟨_, s', (hevents.append hturn).append hlater, hempty, ?_, hdone⟩
    rw [hall, hdequeued, List.append_assoc]
    rfl

/-- However far an undisturbed run on ToPA processors has got, the application alone can publish
what it has in hand and then every packet in the queue, exactly if its request does not sleep. -/
theorem drains_iff (hardware : Nat → Core) {events : List PipelineEvent} {s : Pipeline}
    (hrun : events.foldlM Pipeline.step (Pipeline.boot hardware) = some s)
    (hmeets : Meets Pipeline.step (Undisturbed buffers) (Pipeline.boot hardware) events)
    (htopa : ∀ op ∈ driverOps events, op.TopaOutput) :
    (∃ later s', later.foldlM Pipeline.step s = some s' ∧
      Meets Pipeline.step (fun s event => Undisturbed buffers s event ∧ event.Own) s later ∧
      s'.driver.queue = [] ∧ s'.thread.pending = [] ∧
      s'.dequeued = s.dequeued ++ s.driver.queue ∧
      s'.thread.enqueued.length = s'.dequeued.length) ↔ ¬ s.Stranded := by
  constructor
  · rintro ⟨later, s', hlater, hmeets', hempty, -, -, -⟩ hstranded
    have hkept : Pipeline.Stranded s' := Reaches.keeps Pipeline.Stranded
      (fun _ _ _ h hok hstep => h.step hok.2 hstep) hstranded ⟨hlater, hmeets'⟩
    exact hkept.1 hempty
  intro hawake
  have hpiping := piping_of_run hrun hmeets
  have hrunning : s.thread.phase ≠ .returned :=
    (every_of_meets (fun s => s.thread.phase ≠ .returned) (fun _ h => h)
      (fun _ _ _ h hok hstep => running_of_pipeline h hok hstep) _ events
      (fun h => by cases h) hmeets).last hrun
  have hasking : s.Asking :=
    (every_of_invariant Pipeline.Asking (fun _ h => h) (fun _ _ _ h hstep => h.step hstep) _ events
      (asking_boot hardware)).last hrun
  have hserviceable := Driver.serviceable_of_run (run_driverOps events hrun) htopa
  obtain ⟨first, s₁, hfirst, ⟨hdriver, hkept⟩, hphase, hplace⟩ :=
    reaches_idle hbuffers hpiping hrunning
  -- a request is there only if nothing was in hand
  have hsame : s₁.Asking ∧ ¬ s₁.Stranded := by
    obtain ⟨-, rfl⟩ | ⟨hbusy, hrequest⟩ := hplace
    · exact ⟨hasking, hawake⟩
    · have hnone : s₁.request = none := by
        rw [hrequest]
        exact Option.eq_none_iff_forall_ne_some.mpr fun n hn => hbusy (hasking n hn).1
      exact ⟨fun n hn => by (cases hnone.symm.trans hn),
        fun ⟨_, n, hn, _⟩ => by (cases hnone.symm.trans hn)⟩
  obtain ⟨later, s', hlater, hempty, hall, hidle⟩ :=
    reaches_drained hbuffers s.driver.queue
      (piping_of_reaches hpiping (undisturbs_of_proceeds hfirst)) hphase hsame.1 hsame.2
      (by rw [hdriver]) hserviceable.queue
  obtain ⟨hrun', hmeets'⟩ := hfirst.append hlater
  have hs' := piping_of_reaches hpiping (undisturbs_of_proceeds ⟨hrun', hmeets'⟩)
  have hpending : s'.thread.pending = [] := by rw [ThreadState.pending, hidle]
  refine ⟨first ++ later, s', hrun', hmeets', hempty, hpending, by rw [hall, hkept], ?_⟩
  rw [← hs'.shown.length_eq, ← hs'.carrying.once, hpending, List.append_nil, List.length_map]

end

/-- The FIRST packet does not wake the request, the buffer behind it is about to. -/
theorem drains_two_packets :
    let sent : PacketInput := { dto := true, element := true }
    let asleep : List PipelineEvent := [.request, .run 0, .run 0, .run 0]
    let ops : List DriverOp := firstSession ++ [.imageLoad sent 0x400000 0x1000 1000000]
    let dpc : List DriverOp :=
      [.pmi 0 true [{ topaPmi := true }], .dpc 0 (some (tenPages 2)) sent []]
    let boot : Pipeline := Pipeline.boot fun _ => {}
    ((asleep ++ ops.map PipelineEvent.driver).foldlM Pipeline.step boot).map
        (decide ·.Stranded) = some true ∧
      ∃ (s s' : Pipeline) (later : List PipelineEvent),
        (asleep ++ (ops ++ dpc).map PipelineEvent.driver).foldlM Pipeline.step boot = some s ∧
        s.driver.queue.length = 2 ∧ later.foldlM Pipeline.step s = some s' ∧
        s'.driver.queue = [] ∧ s'.thread.enqueued.length = 2 := by
  intro sent asleep ops dpc boot
  let buffers : Mdl → List Byte := fun _ => List.replicate (10 * usnPageSize) 0xFF
  have hbuffers : ∀ mdl, (buffers mdl).length = 10 * usnPageSize := by
    intro mdl
    rw [List.length_replicate]
  have hend : ((asleep ++ (ops ++ dpc).map PipelineEvent.driver).foldlM Pipeline.step boot).map
      (fun s => (s.driver.queue.length, decide s.Stranded)) = some (2, false) := by
    decide +kernel
  obtain ⟨s, hrun, hs⟩ := Option.map_eq_some_iff.mp hend
  obtain ⟨hqueue, hawake⟩ := Prod.mk.inj hs
  have hmeets : Meets Pipeline.step (Undisturbed buffers) boot
      (asleep ++ (ops ++ dpc).map PipelineEvent.driver) := by
    refine meets_of_forall _ fun event hevent s => ?_
    obtain hevent | hevent := List.mem_append.mp hevent
    · simp only [asleep, List.mem_cons, List.not_mem_nil, or_false] at hevent
      obtain rfl | rfl | rfl | rfl := hevent <;> trivial
    · obtain ⟨op, -, rfl⟩ := List.mem_map.mp hevent
      trivial
  obtain ⟨later, s', hlater, -, hempty, -, hall, hlength⟩ :=
    (drains_iff hbuffers (fun _ => {}) hrun hmeets (by decide)).mpr (of_decide_eq_false hawake)
  refine ⟨by decide +kernel, s, s', later, hrun, hqueue, hlater, hempty, ?_⟩
  -- ThreadProc has not begun
  have hnone : s.dequeued = [] := by
    have hdequeued : ((asleep ++ (ops ++ dpc).map PipelineEvent.driver).foldlM Pipeline.step
        boot).map (fun s => s.dequeued.length) = some 0 := by decide +kernel
    rw [hrun] at hdequeued
    exact List.length_eq_zero_iff.mp (Option.some.inj hdequeued)
  rw [hlength, hall, hnone]
  exact hqueue

end IntelPt.UserModeApp
