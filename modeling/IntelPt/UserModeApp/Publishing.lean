import IntelPt.Decoder.WireFormat
import IntelPt.Lib.Runs

/-! ThreadProc of the user mode application, with CommandGetBuffer and KafkaSendMessage. One step
is one event from outside: a reply of the driver, an allocation, the result of one call of
rd_kafka_producev, a reply to CommandFreeBuffer. Events come in any order of results. -/
namespace IntelPt.UserModeApp
open Decoder LittleEndian Runs

inductive NtStatus where
  | cmcStatusSuccess | statusInterrupted | statusInvalidHandle
  deriving DecidableEq, Repr

/- SUCCEEDED: both STATUS_INTERRUPTED and STATUS_INVALID_HANDLE have the sign bit set. -/
def NtStatus.succeeded : NtStatus → Bool
  | .cmcStatusSuccess => true
  | .statusInterrupted | .statusInvalidHandle => false

/-- How far CommunicationSendMessage gets; what DeviceIoControl returns is only printed. -/
inductive SendOutcome where
  | noOverlapped | noEvent | noDriverHandle | sent
  deriving DecidableEq, Repr

/- The status, and whether `*ResponseAvailable` is set to an OVERLAPPED. -/
def communicationSendMessage : SendOutcome → NtStatus × Bool
  | .noOverlapped => (.statusInterrupted, false)
  | .noEvent => (.statusInterrupted, false)
  | .noDriverHandle => (.statusInvalidHandle, false)
  | .sent => (.cmcStatusSuccess, true)

inductive WaitResult where
  | waitObject0 | unsuccessful
  deriving DecidableEq, Repr

structure GetBufferReply where
  send : SendOutcome
  wait : WaitResult
  bytesWritten : BitVec 32
  data : PacketInfo

def sizeofCommBufferAddress : Nat := sizeofPacketHeaderInformation + 8 + 4 + 8

/-- A COMM_BUFFER_ADDRESS that CommandGetBuffer stored, the `number`-th of them. -/
structure FetchedPacket where
  number : Nat
  info : PacketInfo
  deriving DecidableEq, Repr

/-- A message, the packet it is for, and the memory of the process when it was put together. -/
structure KafkaMessage where
  packet : FetchedPacket
  memory : BitVec 64 → Byte
  message : List Byte

/-- The bytes are those of the packet's header and behind them those of the image, or what was in
the packet's buffer. -/
def KafkaMessage.Built (m : KafkaMessage) : Prop :=
  let info := m.packet.info
  m.message = packed info.header.fields ++
    if info.header.options.firstPacket then
      packed [(8, info.payload.imageBaseAddress.toNat), (4, info.payload.imageSize.toNat),
        (8, info.payload.processorFrequency.toNat)]
    else readMemory m.memory info.payload.bufferAddress (10 * usnPageSize)

/-- What rd_kafka_producev returns; `other` is any error but RD_KAFKA_RESP_ERR__QUEUE_FULL. -/
inductive RdKafkaRespErr where
  | noError | queueFull | other
  deriving DecidableEq, Repr

structure SendReturn where
  status : NtStatus
  err : RdKafkaRespErr

inductive Phase where
  /-- in CommandGetBuffer -/
  | getBuffer
  /-- at the allocation of the message for the packet -/
  | build (packet : FetchedPacket)
  /-- in KafkaSendMessage, at rd_kafka_producev -/
  | send (message : KafkaMessage)
  /-- in CommandFreeBuffer -/
  | freeBuffer
  | returned
  /-- it has used a `packetInfo` that was never assigned -/
  | undefined

/-- The locals of ThreadProc, `none` before they are assigned, and what it has done. -/
structure ThreadState where
  bufferId : Option (BitVec 64) := none
  packetInfo : Option FetchedPacket := none
  phase : Phase := .getBuffer
  fetched : List FetchedPacket := []
  enqueued : List KafkaMessage := []
  returns : List SendReturn := []
  freeRequests : List (Option (BitVec 64)) := []

inductive Event where
  | reply (reply : GetBufferReply)
  | calloc (available : Bool) (memory : BitVec 64 → Byte)
  | produced (err : RdKafkaRespErr)
  | freed (send : SendOutcome)

def commandGetBuffer (reply : GetBufferReply) (s : ThreadState) : NtStatus × ThreadState :=
  let (status, overlapped) := communicationSendMessage reply.send
  if !status.succeeded || !overlapped then (status, s)
  else
    match reply.wait with
    | .waitObject0 =>
      if reply.bytesWritten.toNat ≠ sizeofCommBufferAddress then (.statusInvalidHandle, s)
      else
        let packet : FetchedPacket := ⟨s.fetched.length, reply.data⟩
        (status, { s with
          packetInfo := some packet
          bufferId := some (reply.data.header.sequenceId.setWidth 64)
          fetched := s.fetched ++ [packet] })
    -- printed, and nothing else: the status is still the one of the request
    | .unsuccessful => (status, s)

/-- One round of KafkaSendMessage; `none` is its `goto retry`. -/
def kafkaSendMessage : RdKafkaRespErr → Option NtStatus
  | .noError => some .cmcStatusSuccess
  | .queueFull => none
  -- printed, and then the end of the function
  | .other => some .cmcStatusSuccess

/-- The request reaches the driver if it is sent; its status is assigned and never read. -/
def commandFreeBuffer (send : SendOutcome) (s : ThreadState) : ThreadState :=
  if send = .sent then { s with freeRequests := s.freeRequests ++ [s.bufferId] } else s

def threadProcStep (s : ThreadState) (event : Event) : Option ThreadState :=
  match s.phase, event with
  | .getBuffer, .reply reply =>
    let (status, s) := commandGetBuffer reply s
    if !status.succeeded then some s
    else
      match s.packetInfo with
      | none => some { s with phase := .undefined }
      | some packet => some { s with phase := .build packet }
  | .build packet, .calloc available memory =>
    if available then
      some { s with phase := .send ⟨packet, memory, threadProc memory packet.info⟩ }
    else some { s with phase := .returned }
  | .send message, .produced err =>
    match kafkaSendMessage err with
    | none => some s
    | some status =>
      some { s with
        phase := .freeBuffer
        enqueued := if err = .noError then s.enqueued ++ [message] else s.enqueued
        returns := s.returns ++ [⟨status, err⟩] }
  | .freeBuffer, .freed send => some { commandFreeBuffer send s with phase := .getBuffer }
  | _, _ => none

/-- A thread that has returned takes no event. -/
example (s : ThreadState) (event : Event) (h : s.phase = .returned) :
    threadProcStep s event = none := by
  simp [threadProcStep, h]

def ThreadState.pending (s : ThreadState) : List FetchedPacket :=
  match s.phase with
  | .build packet => [packet]
  | .send message => [message.packet]
  | _ => []

/-- Every fetched packet but the one in hand was enqueued once, in order, and the one in hand was
not; messages are built from their packets, and KafkaSendMessage reports every failure. -/
structure PublishedOnce (s : ThreadState) : Prop where
  once : s.enqueued.map (·.packet) ++ s.pending = s.fetched
  numbered : s.fetched.map (·.number) = List.range s.fetched.length
  built : ∀ m ∈ s.enqueued, m.Built
  reported : ∀ r ∈ s.returns, r.status.succeeded = true → r.err = .noError
  defined : s.phase ≠ .undefined

def ThreadState.messages (s : ThreadState) : List KafkaMessage :=
  match s.phase with
  | .send message => s.enqueued ++ [message]
  | _ => s.enqueued

/-- What the memory was at each allocation of a message. -/
def memories (events : List Event) : List (BitVec 64 → Byte) :=
  events.filterMap fun
    | .calloc true memory => some memory
    | _ => none

/-- In every state; and what a message has of the memory was there when it was allocated. -/
structure PublishesOnce (events : List Event) : Prop where
  every : Every threadProcStep PublishedOnce {} events
  memory : ∀ earlier later s, events = earlier ++ later →
    earlier.foldlM threadProcStep {} = some s → s.messages.map (·.memory) = memories earlier

/-- A request that was sent is waited for with success, a message can be allocated, and an error
of rd_kafka_producev is QUEUE_FULL. -/
def Faultless (s : ThreadState) (event : Event) : Prop :=
  match s.phase, event with
  | .getBuffer, .reply reply => reply.send = .sent → reply.wait = .waitObject0
  | .build _, .calloc available _ => available = true
  | .send _, .produced err => err ≠ .other
  | _, _ => True

/-! What CommandGetBuffer can do. -/

theorem commandGetBuffer_cases (reply : GetBufferReply) (s : ThreadState) :
    ((reply.send = .sent → reply.wait = .waitObject0) ∧
        ∃ status, status.succeeded = false ∧ commandGetBuffer reply s = (status, s)) ∨
      (reply.send = .sent ∧ reply.wait = .unsuccessful ∧
        commandGetBuffer reply s = (.cmcStatusSuccess, s)) ∨
      (reply.wait = .waitObject0 ∧ commandGetBuffer reply s =
        (.cmcStatusSuccess, { s with
          packetInfo := some ⟨s.fetched.length, reply.data⟩
          bufferId := some (reply.data.header.sequenceId.setWidth 64)
          fetched := s.fetched ++ [⟨s.fetched.length, reply.data⟩] })) := by
  cases hsend : reply.send with
  | noOverlapped | noEvent =>
    refine Or.inl ⟨fun h => by (cases h), .statusInterrupted, rfl, ?_⟩
    simp [commandGetBuffer, communicationSendMessage, hsend, NtStatus.succeeded]
  | noDriverHandle =>
    refine Or.inl ⟨fun h => by (cases h), .statusInvalidHandle, rfl, ?_⟩
    simp [commandGetBuffer, communicationSendMessage, hsend, NtStatus.succeeded]
  | sent =>
    cases hwait : reply.wait with
    | unsuccessful =>
      refine Or.inr (Or.inl ⟨rfl, rfl, ?_⟩)
      simp [commandGetBuffer, communicationSendMessage, hsend, NtStatus.succeeded, hwait]
    | waitObject0 =>
      by_cases hbytes : reply.bytesWritten.toNat = sizeofCommBufferAddress
      · refine Or.inr (Or.inr ⟨rfl, ?_⟩)
        simp [commandGetBuffer, communicationSendMessage, hsend, NtStatus.succeeded, hwait, hbytes]
      · refine Or.inl ⟨fun _ => rfl, .statusInvalidHandle, rfl, ?_⟩
        simp [commandGetBuffer, communicationSendMessage, hsend, NtStatus.succeeded, hwait, hbytes]

structure Publishing (s : ThreadState) : Prop extends PublishedOnce s where
  message : ∀ message, s.phase = .send message → message.Built

theorem publishing_new : Publishing {} where
  once := rfl
  numbered := rfl
  built := fun m hm => absurd hm List.not_mem_nil
  reported := fun r hr => absurd hr List.not_mem_nil
  defined := fun h => by cases h
  message := fun _ h => by cases h

theorem Publishing.fetch {s : ThreadState} (h : Publishing s) (hphase : s.phase = .getBuffer)
    (info : PacketInfo) (bufferId : Option (BitVec 64)) :
    Publishing { s with
      packetInfo := some ⟨s.fetched.length, info⟩
      bufferId := bufferId
      fetched := s.fetched ++ [⟨s.fetched.length, info⟩]
      phase := .build ⟨s.fetched.length, info⟩ } where
  once := by
    have honce := h.once
    simp only [ThreadState.pending, hphase, List.append_nil] at honce
    simp only [ThreadState.pending, honce]
  numbered := by
    rw [List.map_append, h.numbered, List.length_append, List.length_singleton,
      List.range_succ]
    rfl
  built := h.built
  reported := h.reported
  defined := fun h => by cases h
  message := fun _ h => by cases h

/-! Each event is taken in one phase only. -/

theorem phase_of_reply {s s' : ThreadState} {reply : GetBufferReply}
    (h : threadProcStep s (.reply reply) = some s') : s.phase = .getBuffer := by
  cases hphase : s.phase <;> simp [threadProcStep, hphase] at h ⊢

theorem phase_of_calloc {s s' : ThreadState} {available : Bool} {memory : BitVec 64 → Byte}
    (h : threadProcStep s (.calloc available memory) = some s') :
    ∃ packet, s.phase = .build packet := by
  cases hphase : s.phase <;> simp [threadProcStep, hphase] at h ⊢

theorem phase_of_produced {s s' : ThreadState} {err : RdKafkaRespErr}
    (h : threadProcStep s (.produced err) = some s') :
    ∃ message, s.phase = .send message := by
  cases hphase : s.phase <;> simp [threadProcStep, hphase] at h ⊢

theorem phase_of_freed {s s' : ThreadState} {send : SendOutcome}
    (h : threadProcStep s (.freed send) = some s') : s.phase = .freeBuffer := by
  cases hphase : s.phase <;> simp [threadProcStep, hphase] at h ⊢

theorem Publishing.reply {s s' : ThreadState} {reply : GetBufferReply} (h : Publishing s)
    (hphase : s.phase = .getBuffer) (hok : reply.send = .sent → reply.wait = .waitObject0)
    (hstep : threadProcStep s (.reply reply) = some s') : Publishing s' := by
  simp only [threadProcStep, hphase] at hstep
  obtain ⟨-, status, hs, hget⟩ | ⟨hsend, hwait, -⟩ | ⟨-, hget⟩ := commandGetBuffer_cases reply s
  · simp only [hget, hs, Bool.not_false, if_true, Option.some.injEq] at hstep
    exact hstep ▸ h
  · rw [hok hsend] at hwait
    cases hwait
  · simp only [hget, NtStatus.succeeded, Bool.not_true, Bool.false_eq_true, if_false,
      Option.some.injEq] at hstep
    exact hstep ▸ h.fetch hphase reply.data _

theorem Publishing.calloc {s s' : ThreadState} {packet : FetchedPacket}
    {memory : BitVec 64 → Byte} (h : Publishing s) (hphase : s.phase = .build packet)
    (hstep : threadProcStep s (.calloc true memory) = some s') : Publishing s' := by
  have honce := h.once
  simp only [ThreadState.pending, hphase] at honce
  simp only [threadProcStep, hphase, if_true, Option.some.injEq] at hstep
  subst hstep
  refine ⟨⟨honce, h.numbered, h.built, h.reported, fun h => by cases h⟩, ?_⟩
  intro message hsend
  cases hsend
  exact threadProc_eq memory packet.info

theorem Publishing.enqueued {s s' : ThreadState} {message : KafkaMessage}
    (h : Publishing s) (hphase : s.phase = .send message)
    (hstep : threadProcStep s (.produced .noError) = some s') : Publishing s' := by
  have honce := h.once
  simp only [ThreadState.pending, hphase] at honce
  simp only [threadProcStep, hphase, kafkaSendMessage, if_true, Option.some.injEq] at hstep
  subst hstep
  refine ⟨⟨?_, h.numbered, ?_, ?_, fun h => by cases h⟩, fun _ h => by cases h⟩
  · simp only [ThreadState.pending, List.map_append, List.append_nil]
    exact honce
  · intro m hm
    obtain hm | hm := List.mem_append.mp hm
    · exact h.built m hm
    · rw [List.mem_singleton.mp hm]
      exact h.message message hphase
  · intro r hr
    obtain hr | hr := List.mem_append.mp hr
    · exact h.reported r hr
    · rw [List.mem_singleton.mp hr]
      exact fun _ => rfl

theorem Publishing.freed {s s' : ThreadState} {send : SendOutcome} (h : Publishing s)
    (hphase : s.phase = .freeBuffer) (hstep : threadProcStep s (.freed send) = some s') :
    Publishing s' := by
  have honce := h.once
  simp only [ThreadState.pending, hphase] at honce
  simp only [threadProcStep, hphase, commandFreeBuffer, Option.some.injEq] at hstep
  subst hstep
  split <;> exact ⟨⟨honce, h.numbered, h.built, h.reported, fun h => by cases h⟩,
    fun _ h => by cases h⟩

theorem Publishing.step {s s' : ThreadState} {event : Event} (h : Publishing s)
    (hok : Faultless s event) (hstep : threadProcStep s event = some s') : Publishing s' := by
  cases event with
  | reply reply =>
    have hphase := phase_of_reply hstep
    simp only [Faultless, hphase] at hok
    exact h.reply hphase hok hstep
  | calloc available memory =>
    obtain ⟨packet, hphase⟩ := phase_of_calloc hstep
    simp only [Faultless, hphase] at hok
    subst hok
    exact h.calloc hphase hstep
  | produced err =>
    obtain ⟨message, hphase⟩ := phase_of_produced hstep
    simp only [Faultless, hphase] at hok
    cases err with
    | noError => exact h.enqueued hphase hstep
    | queueFull =>
      simp only [threadProcStep, hphase, kafkaSendMessage, Option.some.injEq] at hstep
      exact hstep ▸ h
    | other => exact absurd rfl hok
  | freed send => exact h.freed (phase_of_freed hstep) hstep

/-- After a failed wait the packet of the turn before is in hand again, or none ever was. -/
theorem Publishing.wait_failed {s : ThreadState} {reply : GetBufferReply} (h : Publishing s)
    (hphase : s.phase = .getBuffer) (hsend : reply.send = .sent)
    (hwait : reply.wait ≠ .waitObject0) :
    ∃ s', threadProcStep s (.reply reply) = some s' ∧ ¬ PublishedOnce s' := by
  have honce := h.once
  simp only [ThreadState.pending, hphase, List.append_nil] at honce
  obtain ⟨hobject, -⟩ | ⟨-, -, hget⟩ | ⟨hobject, -⟩ := commandGetBuffer_cases reply s
  · exact absurd (hobject hsend) hwait
  · cases hinfo : s.packetInfo with
    | none =>
      refine ⟨{ s with phase := .undefined }, ?_, fun hp => hp.defined rfl⟩
      simp [threadProcStep, hphase, hget, hinfo, NtStatus.succeeded]
    | some packet =>
      refine ⟨{ s with phase := .build packet }, ?_, fun hp => ?_⟩
      · simp [threadProcStep, hphase, hget, hinfo, NtStatus.succeeded]
      · have hagain : s.enqueued.map (·.packet) ++ [packet] = s.fetched := hp.once
        rw [honce] at hagain
        exact absurd hagain (by simp)
  · exact absurd hobject hwait

/-- A step that is not faultless ends where the property does not hold. -/
theorem Publishing.step_fault {s : ThreadState} {event : Event} (h : Publishing s)
    (hbad : ¬ Faultless s event) :
    ∃ s', threadProcStep s event = some s' ∧ ¬ PublishedOnce s' := by
  have honce := h.once
  simp only [ThreadState.pending] at honce
  cases hphase : s.phase with
  | getBuffer =>
    cases event with
    | calloc _ _ | produced _ | freed _ => simp [Faultless, hphase] at hbad
    | reply reply =>
      simp only [Faultless, hphase, Classical.not_imp] at hbad
      exact h.wait_failed hphase hbad.1 hbad.2
  | build packet =>
    rw [hphase] at honce
    cases event with
    | reply _ | produced _ | freed _ => simp [Faultless, hphase] at hbad
    | calloc available memory =>
      simp only [Faultless, hphase, Bool.not_eq_true] at hbad
      refine ⟨{ s with phase := .returned }, by simp [threadProcStep, hphase, hbad], fun hp => ?_⟩
      have hlost : s.enqueued.map (·.packet) ++ [] = s.fetched := hp.once
      rw [← honce] at hlost
      simp at hlost
  | send message =>
    cases event with
    | reply _ | calloc _ _ | freed _ => simp [Faultless, hphase] at hbad
    | produced err =>
      simp only [Faultless, hphase, not_not] at hbad
      subst hbad
      refine ⟨_, by simp [threadProcStep, hphase, kafkaSendMessage]; rfl, fun hp => ?_⟩
      have hlast := hp.reported ⟨.cmcStatusSuccess, .other⟩
        (List.mem_append_right _ List.mem_cons_self) rfl
      cases hlast
  | freeBuffer | returned | undefined => simp [Faultless, hphase] at hbad

/-- However often the queue is full, the message is enqueued if the last call takes it. -/
theorem enqueued_after_retries {s : ThreadState} {message : KafkaMessage}
    (h : s.phase = .send message) (retries : Nat) :
    (List.replicate retries (Event.produced .queueFull) ++ [Event.produced .noError]).foldlM
        threadProcStep s =
      some { s with
        phase := .freeBuffer
        enqueued := s.enqueued ++ [message]
        returns := s.returns ++ [⟨.cmcStatusSuccess, .noError⟩] } := by
  induction retries with
  | zero => simp [threadProcStep, h, kafkaSendMessage]
  | succ retries ih =>
    have hretry : threadProcStep s (.produced .queueFull) = some s := by
      simp [threadProcStep, h, kafkaSendMessage]
    rw [List.replicate_succ, List.cons_append, List.foldlM_cons, hretry]
    exact ih

theorem memory_of_step {s s' : ThreadState} {event : Event} (hok : Faultless s event)
    (hstep : threadProcStep s event = some s') :
    s'.messages.map (·.memory) = s.messages.map (·.memory) ++ memories [event] := by
  cases event with
  | reply reply =>
    have hphase := phase_of_reply hstep
    simp only [Faultless, hphase] at hok
    simp only [threadProcStep, hphase] at hstep
    obtain ⟨-, status, hs, hget⟩ | ⟨hsend, hwait, -⟩ | ⟨-, hget⟩ := commandGetBuffer_cases reply s
    · simp only [hget, hs, Bool.not_false, if_true, Option.some.injEq] at hstep
      subst hstep
      exact (List.append_nil _).symm
    · rw [hok hsend] at hwait
      cases hwait
    · simp only [hget, NtStatus.succeeded, Bool.not_true, Bool.false_eq_true, if_false,
        Option.some.injEq] at hstep
      subst hstep
      simp only [ThreadState.messages, hphase]
      exact (List.append_nil _).symm
  | calloc available memory =>
    obtain ⟨packet, hphase⟩ := phase_of_calloc hstep
    simp only [Faultless, hphase] at hok
    subst hok
    simp only [threadProcStep, hphase, if_true, Option.some.injEq] at hstep
    subst hstep
    simp only [ThreadState.messages, hphase, List.map_append]
    rfl
  | produced err =>
    obtain ⟨message, hphase⟩ := phase_of_produced hstep
    simp only [Faultless, hphase] at hok
    cases err with
    | noError =>
      simp only [threadProcStep, hphase, kafkaSendMessage, if_true, Option.some.injEq] at hstep
      subst hstep
      simp only [ThreadState.messages, hphase]
      exact (List.append_nil _).symm
    | queueFull =>
      simp only [threadProcStep, hphase, kafkaSendMessage, Option.some.injEq] at hstep
      subst hstep
      exact (List.append_nil _).symm
    | other => exact absurd rfl hok
  | freed send =>
    have hphase := phase_of_freed hstep
    simp only [threadProcStep, hphase, commandFreeBuffer, Option.some.injEq] at hstep
    subst hstep
    simp only [ThreadState.messages, hphase]
    split <;> exact (List.append_nil _).symm

theorem memory_of_run {events : List Event} : ∀ {s s' : ThreadState},
    Meets threadProcStep Faultless s events → events.foldlM threadProcStep s = some s' →
      s'.messages.map (·.memory) = s.messages.map (·.memory) ++ memories events := by
  induction events with
  | nil =>
    intro s s' _ hrun
    cases hrun
    exact (List.append_nil _).symm
  | cons event events ih =>
    intro s s' hmeets hrun
    rw [List.foldlM_cons, Option.bind_eq_bind, Option.bind_eq_some_iff] at hrun
    obtain ⟨s₁, hstep, hrun⟩ := hrun
    have hsplit : memories (event :: events) = memories [event] ++ memories events :=
      List.filterMap_append (l := [event])
    rw [ih (hmeets.2 s₁ hstep) hrun, memory_of_step hmeets.1 hstep, hsplit, List.append_assoc]

/-- In every run the packets are published once and failures reported exactly if every event is
faultless in the state it comes in. -/
theorem publishedOnce_iff (events : List Event) :
    PublishesOnce events ↔ Meets threadProcStep Faultless {} events := by
  have hevery : Every threadProcStep PublishedOnce {} events ↔
      Meets threadProcStep Faultless {} events :=
    every_iff_meets Publishing (fun _ h => h.toPublishedOnce)
      (fun _ _ _ h hok hstep => h.step hok hstep) (fun _ _ h hbad => h.step_fault hbad)
      {} events publishing_new
  refine ⟨fun h => hevery.mp h.every, fun hmeets => ⟨hevery.mpr hmeets, ?_⟩⟩
  rintro earlier later s rfl hrun
  exact memory_of_run hmeets.of_append hrun

/-- A reply that is complete, a message that is allocated, and a broker that refuses its size. -/
theorem not_publishedOnce_refused : ¬ ∀ events : List Event, PublishesOnce events := by
  intro h
  let info : PacketInfo := ⟨⟨22, 1, 0, 0, ⟨true, false, 0⟩⟩, ⟨0, 0, 0⟩⟩
  have hrun := (h [.reply ⟨.sent, .waitObject0, 42, info⟩, .calloc true fun _ => 0,
    .produced .other]).every
  have hlast := (((hrun.2 _ rfl).2 _ rfl).2 _ rfl).reported ⟨.cmcStatusSuccess, .other⟩
    List.mem_cons_self rfl
  cases hlast

end IntelPt.UserModeApp
