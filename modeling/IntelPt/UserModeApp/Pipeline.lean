import IntelPt.Driver.Mapping
import IntelPt.Driver.Requests
import IntelPt.UserModeApp.Delivery

/-! The driver and ThreadProc together. The routines of the driver and the steps of ThreadProc
come in any order; they meet in PtwCommandGetBuffer, which takes a packet out of the queue and
gives it to CommandGetBuffer, and waits as long as it finds none. -/
namespace IntelPt.UserModeApp
open Decoder Runs Transducer
open Driver (System DriverOp Mdl CommBufferAddress Core Waits Pc)

structure Pipeline where
  driver : System
  waits : Waits := {}
  thread : ThreadState := {}
  /-- the thread of the driver that has the request of ThreadProc -/
  request : Option Nat := none
  /-- what PtwCommandGetBuffer took out of the queue -/
  dequeued : List CommBufferAddress := []
  /-- where MmMapLockedPagesSpecifyCache has put its buffers -/
  mapped : List (BitVec 64) := []

structure GetBufferInput where
  wait : WaitResult
  /-- where MmMapLockedPagesSpecifyCache puts the buffer -/
  address : BitVec 64
  /-- what nobody writes: the bits behind the flags, the bytes behind GenericPacket -/
  others : BitVec 14
  unwritten : BitVec 64

inductive PipelineEvent where
  | driver (op : DriverOp)
  /-- ThreadProc sends its request -/
  | request
  /-- a thread of the driver goes on, without taking a packet -/
  | run (n : Nat)
  | alert (n : Nat)
  /-- the request takes a packet and is answered -/
  | getBuffer (input : GetBufferInput)
  | thread (event : Event)

def GetBufferInput.mapped (input : GetBufferInput) (dto : CommBufferAddress) :
    Option (BitVec 64) :=
  dto.mdl.map fun _ => input.address

/-- What PtwCommandGetBuffer writes. A NULL MDL cannot be mapped, and no other packet is in the
queue. -/
def ptwCommandGetBuffer (dto : CommBufferAddress) (input : GetBufferInput) : Option PacketInfo :=
  let header : PacketHeaderInformation := {
    headerSize := BitVec.ofNat 32 sizeofPacketHeaderInformation
    packetId := BitVec.ofNat 64 dto.packetId
    cpuId := BitVec.ofNat 32 dto.cpuId
    sequenceId := BitVec.ofNat 32 dto.sequenceId
    options := ⟨dto.firstPacket, dto.lastPacket, input.others⟩ }
  match dto.firstPacket, dto.payload with
  | true, .firstPacket imageBaseAddress imageSize processorFrequency =>
    some ⟨header, imageBaseAddress, imageSize, processorFrequency⟩
  | false, .genericPacket bufferSize (some _) =>
    some ⟨header, input.address, bufferSize, input.unwritten⟩
  | _, _ => none

def Event.BringsNoPacket : Event → Prop
  | .reply answer => ¬ (answer.send = .sent ∧ answer.wait = .waitObject0 ∧
      answer.bytesWritten.toNat = sizeofCommBufferAddress)
  | _ => True

instance : (event : Event) → Decidable event.BringsNoPacket
  | .reply _ => inferInstanceAs (Decidable (¬ _))
  | .calloc .. | .produced _ | .freed _ => isTrue trivial

def ThreadState.asks (s : ThreadState) : Bool :=
  match s.phase with
  | .getBuffer => true
  | _ => false

/-- A reply ends the request it is for; without one there is the failure to send it. -/
def Pipeline.ended (s : Pipeline) : Event → Option Pipeline
  | .reply answer =>
    match s.request with
    | some n =>
      if answer.send = .sent then some { s with waits := s.waits.finish n, request := none }
      else none
    | none => if answer.send = .sent then none else some s
  | .calloc .. | .produced _ | .freed _ => some s

def Pipeline.step (s : Pipeline) : PipelineEvent → Option Pipeline
  | .driver .getBuffer => none
  | .driver op => (s.driver.step op).map fun driver =>
      { s with driver := driver, waits := s.waits.behind op s.driver.queue driver.queue }
  | .request =>
    if s.thread.asks && s.request.isNone then
      some { s with waits := s.waits.arrive, request := some s.waits.threads.length }
    else none
  | .run n => (s.waits.run s.driver.queue n).map fun waits => { s with waits := waits }
  | .alert n => (s.waits.alert n).map fun waits => { s with waits := waits }
  | .getBuffer input =>
    s.request.bind fun n =>
      if s.waits.threads[n]? = some .dequeue then
        s.driver.queue.head?.bind fun dto =>
          (ptwCommandGetBuffer dto input).bind fun info =>
            let reply : GetBufferReply :=
              ⟨.sent, input.wait, BitVec.ofNat 32 sizeofCommBufferAddress, info⟩
            (threadProcStep s.thread (.reply reply)).bind fun thread =>
              (s.driver.step .getBuffer).map fun driver =>
                { driver := driver
                  waits := s.waits.finish n
                  thread := thread
                  dequeued := s.dequeued ++ [dto]
                  mapped := s.mapped ++ (input.mapped dto).toList }
      else none
  | .thread event =>
    if event.BringsNoPacket then
      (s.ended event).bind fun s =>
        (threadProcStep s.thread event).map fun thread => { s with thread := thread }
    else none

def Pipeline.boot (hardware : Nat → Core) : Pipeline where
  driver := System.boot hardware

def held (buffers : Mdl → List Byte) (dequeued : List CommBufferAddress) (n : Nat) : List Byte :=
  (dequeued[n]?.bind (·.mdl)).elim [] buffers

/-- ThreadProc meets no fault, and a buffer is as it was when its core gave it away. -/
def Undisturbed (buffers : Mdl → List Byte) (s : Pipeline) : PipelineEvent → Prop
  | .driver _ | .request | .run _ | .alert _ => True
  | .getBuffer input => input.wait = .waitObject0
  | .thread event =>
    Faultless s.thread event ∧ Copies (held buffers s.dequeued) s.thread event

def driverOps (events : List PipelineEvent) : List DriverOp :=
  events.filterMap fun
    | .driver op => some op
    | .getBuffer _ => some .getBuffer
    | .request | .run _ | .alert _ | .thread _ => none

def ShowsPayload (payload : CommPayloadUnion) : Driver.CommPayload → Prop
  | .firstPacket imageBaseAddress imageSize processorFrequency =>
    payload = ⟨imageBaseAddress, imageSize, processorFrequency⟩
  | .genericPacket bufferSize mdl => payload.imageSize = bufferSize ∧ mdl.isSome = true

def FetchedPacket.buffer (packet : FetchedPacket) : Option (BitVec 64) :=
  if packet.info.header.options.firstPacket then none
  else some packet.info.payload.bufferAddress

structure Shows (packet : FetchedPacket) (dto : CommBufferAddress) : Prop where
  fromDriver : packet.FromDriver
  packetId : packet.info.header.packetId = BitVec.ofNat 64 dto.packetId
  cpuId : packet.info.header.cpuId = BitVec.ofNat 32 dto.cpuId
  sequenceId : packet.info.header.sequenceId = BitVec.ofNat 32 dto.sequenceId
  firstPacket : packet.info.header.options.firstPacket = dto.firstPacket
  lastPacket : packet.info.header.options.lastPacket = dto.lastPacket
  payload : ShowsPayload packet.info.payload dto.payload
  /-- the packets without a buffer are the FIRST packets -/
  first : dto.firstPacket = true ↔ dto.mdl = none

/-- A FIRST packet comes first, and each carries a frequency. -/
structure Announcing (dtos : List CommBufferAddress) : Prop where
  first : ∀ dto ∈ dtos.head?, dto.firstPacket = true
  frequency : ∀ dto ∈ dtos, ∀ imageBaseAddress imageSize processorFrequency,
    dto.payload = .firstPacket imageBaseAddress imageSize processorFrequency →
      processorFrequency ≠ 0

structure Piping (buffers : Mdl → List Byte) (s : Pipeline) : Prop where
  carrying : Carrying (held buffers s.dequeued) s.thread
  shown : List.Forall₂ Shows s.thread.fetched s.dequeued
  mapped : s.thread.fetched.filterMap (·.buffer) = s.mapped
  handed : s.dequeued.filterMap (·.mdl) = s.driver.handed

theorem ptwCommandGetBuffer_shows {dto : CommBufferAddress} {input : GetBufferInput}
    {info : PacketInfo} (h : ptwCommandGetBuffer dto input = some info) (number : Nat) :
    Shows ⟨number, info⟩ dto := by
  obtain ⟨firstPacket, lastPacket, cpuId, sequenceId, packetId, payload⟩ := dto
  cases firstPacket with
  | true =>
    cases payload with
    | firstPacket imageBaseAddress imageSize processorFrequency =>
      cases h
      exact ⟨rfl, rfl, rfl, rfl, rfl, rfl, rfl, iff_of_true rfl rfl⟩
    | genericPacket => cases h
  | false =>
    cases payload with
    | firstPacket => cases h
    | genericPacket bufferSize mdl =>
      cases mdl with
      | none => cases h
      | some mdl =>
        cases h
        exact ⟨rfl, rfl, rfl, rfl, rfl, rfl, ⟨rfl, rfl⟩,
          iff_of_false Bool.false_ne_true (Option.some_ne_none mdl)⟩

theorem ptwCommandGetBuffer_buffer {dto : CommBufferAddress} {input : GetBufferInput}
    {info : PacketInfo} (h : ptwCommandGetBuffer dto input = some info) (number : Nat) :
    (FetchedPacket.mk number info).buffer = input.mapped dto := by
  obtain ⟨firstPacket, lastPacket, cpuId, sequenceId, packetId, payload⟩ := dto
  cases firstPacket with
  | true =>
    cases payload with
    | firstPacket imageBaseAddress imageSize processorFrequency =>
      cases h
      rfl
    | genericPacket => cases h
  | false =>
    cases payload with
    | firstPacket => cases h
    | genericPacket bufferSize mdl =>
      cases mdl with
      | none => cases h
      | some mdl =>
        cases h
        rfl

theorem Shows.first_iff {packet : FetchedPacket} {dto : CommBufferAddress} (h : Shows packet dto) :
    packet.info.header.options.firstPacket = true ↔ dto.mdl = none := by
  rw [h.firstPacket]
  exact h.first

theorem announces_of_shown {packets : List FetchedPacket} {dtos : List CommBufferAddress}
    (h : List.Forall₂ Shows packets dtos) (hannouncing : Announcing dtos) : Announces packets := by
  obtain ⟨hlength, hshown⟩ := List.forall₂_iff_get.mp h
  refine ⟨fun packet hpacket => ?_, fun packet hpacket hfirst => ?_⟩
  · cases h with
    | nil => cases hpacket
    | cons hone _ =>
      cases hpacket
      exact hone.firstPacket.trans (hannouncing.first _ rfl)
  · obtain ⟨n, hn, rfl⟩ := List.getElem_of_mem hpacket
    have hn' : n < dtos.length := hlength ▸ hn
    have hone := hshown n hn hn'
    have hpayload := hone.payload
    have hmdl := hone.first_iff.mp hfirst
    cases hdto : (dtos.get ⟨n, hn'⟩).payload with
    | firstPacket imageBaseAddress imageSize processorFrequency =>
      rw [hdto] at hpayload
      have hfrequency := hannouncing.frequency _ (List.get_mem dtos _) _ _ _ hdto
      exact (congrArg CommPayloadUnion.processorFrequency hpayload).trans_ne hfrequency
    | genericPacket bufferSize mdl =>
      rw [hdto] at hpayload
      rw [CommBufferAddress.mdl, hdto] at hmdl
      obtain ⟨-, hsome⟩ := hpayload
      rw [show mdl = none from hmdl] at hsome
      cases hsome

theorem handed_of_step {s s' : System} {op : DriverOp} (hop : op ≠ .getBuffer)
    (hstep : s.step op = some s') : s'.handed = s.handed := by
  cases op with
  | getBuffer => exact absurd rfl hop
  | imageLoad =>
    cases hstep
    rfl
  | init | pmi =>
    simp only [System.step] at hstep
    split_ifs at hstep
    cases hstep
    rfl
  | setup | disable =>
    simp only [System.step] at hstep
    obtain ⟨_, -, rfl⟩ := Option.map_eq_some_iff.mp hstep
    rfl
  | dpc =>
    simp only [System.step] at hstep
    split_ifs at hstep
    obtain ⟨_, -, rfl⟩ := Option.map_eq_some_iff.mp hstep
    rfl

/-- A packet with another number changes nothing for the messages there are. -/
theorem Carrying.congr {content content' : Nat → List Byte} {s : ThreadState}
    (h : Carrying content s)
    (hsame : ∀ n < s.fetched.length, content n = content' n) : Carrying content' s := by
  have hnumber : ∀ packet ∈ s.fetched, content packet.number = content' packet.number := by
    intro packet hpacket
    refine hsame _ (List.mem_range.mp ?_)
    rw [← h.numbered]
    exact List.mem_map_of_mem hpacket
  have hcarries : ∀ m : KafkaMessage, m.packet ∈ s.fetched → Carries content m →
      Carries content' m := by
    intro m hpacket hcarries
    exact ⟨hcarries.built, fun hfirst => (hcarries.copied hfirst).trans (hnumber _ hpacket)⟩
  refine ⟨h.toPublishing, fun m hm => ?_, fun m hphase => ?_⟩
  · refine hcarries m ?_ (h.carried m hm)
    rw [← h.once]
    exact List.mem_append_left _ (List.mem_map_of_mem hm)
  · refine hcarries m ?_ (h.inHand m hphase)
    rw [← h.once, ThreadState.pending, hphase]
    exact List.mem_append_right _ (List.mem_singleton_self m.packet)

theorem held_append (buffers : Mdl → List Byte) (dequeued : List CommBufferAddress)
    (dto : CommBufferAddress) {n : Nat} (hn : n < dequeued.length) :
    held buffers dequeued n = held buffers (dequeued ++ [dto]) n := by
  rw [held, held, List.getElem?_append_left hn]

/-! What ThreadProc fetches. -/

theorem fetched_of_reply {s s' : ThreadState} {answer : GetBufferReply}
    (hstep : threadProcStep s (.reply answer) = some s') :
    s'.fetched = (commandGetBuffer answer s).2.fetched := by
  simp only [threadProcStep, phase_of_reply hstep] at hstep
  split at hstep
  · cases hstep
    rfl
  · split at hstep <;> cases hstep <;> rfl

/-- Without a packet CommandGetBuffer leaves the locals as they are. -/
theorem commandGetBuffer_of_none {answer : GetBufferReply} (s : ThreadState)
    (hnone : (Event.reply answer).BringsNoPacket) : (commandGetBuffer answer s).2 = s := by
  simp only [Event.BringsNoPacket] at hnone
  cases hsend : answer.send with
  | sent =>
    cases hwait : answer.wait with
    | waitObject0 =>
      have hbytes : answer.bytesWritten.toNat ≠ sizeofCommBufferAddress :=
        fun hbytes => hnone ⟨hsend, hwait, hbytes⟩
      simp [commandGetBuffer, communicationSendMessage, hsend, hwait, hbytes, NtStatus.succeeded]
    | unsuccessful =>
      simp [commandGetBuffer, communicationSendMessage, hsend, hwait, NtStatus.succeeded]
  | _ => simp [commandGetBuffer, communicationSendMessage, hsend, NtStatus.succeeded]

theorem fetched_of_none {s s' : ThreadState} {event : Event} (hnone : event.BringsNoPacket)
    (hstep : threadProcStep s event = some s') : s'.fetched = s.fetched := by
  cases event with
  | reply answer => rw [fetched_of_reply hstep, commandGetBuffer_of_none s hnone]
  | calloc available memory =>
    obtain ⟨packet, hphase⟩ := phase_of_calloc hstep
    simp only [threadProcStep, hphase] at hstep
    split_ifs at hstep <;> cases hstep <;> rfl
  | produced err =>
    obtain ⟨message, hphase⟩ := phase_of_produced hstep
    simp only [threadProcStep, hphase] at hstep
    split at hstep <;> cases hstep <;> rfl
  | freed send =>
    simp only [threadProcStep, phase_of_freed hstep, commandFreeBuffer] at hstep
    split_ifs at hstep <;> cases hstep <;> rfl

theorem fetched_of_packet {s s' : ThreadState} {info : PacketInfo}
    (hstep : threadProcStep s (.reply
      ⟨.sent, .waitObject0, BitVec.ofNat 32 sizeofCommBufferAddress, info⟩) = some s') :
    s'.fetched = s.fetched ++ [⟨s.fetched.length, info⟩] := by
  have hbytes : (BitVec.ofNat 32 sizeofCommBufferAddress).toNat = sizeofCommBufferAddress := rfl
  rw [fetched_of_reply hstep]
  simp [commandGetBuffer, communicationSendMessage, hbytes, NtStatus.succeeded]

/-! The two together. -/

theorem step_driver {op : DriverOp} (hop : op ≠ .getBuffer) (s : Pipeline) :
    s.step (.driver op) = (s.driver.step op).map fun driver =>
      { s with driver := driver, waits := s.waits.behind op s.driver.queue driver.queue } := by
  cases op with
  | getBuffer => exact absurd rfl hop
  | _ => rfl

theorem driver_of_step {s s' : Pipeline} {op : DriverOp} (hstep : s.step (.driver op) = some s') :
    op ≠ .getBuffer ∧ ∃ driver, s.driver.step op = some driver ∧ s' = { s with
      driver := driver
      waits := s.waits.behind op s.driver.queue driver.queue } := by
  have hop : op ≠ .getBuffer := fun hop => by
    rw [hop] at hstep
    cases hstep
  rw [step_driver hop] at hstep
  obtain ⟨driver, hdriver, rfl⟩ := Option.map_eq_some_iff.mp hstep
  exact ⟨hop, driver, hdriver, rfl⟩

theorem getBuffer_of_step {s s' : Pipeline} {input : GetBufferInput}
    (hstep : s.step (.getBuffer input) = some s') : ∃ n dto queue info thread,
      s.request = some n ∧ s.waits.threads[n]? = some .dequeue ∧ s.driver.queue = dto :: queue ∧
      ptwCommandGetBuffer dto input = some info ∧
      threadProcStep s.thread (.reply
        ⟨.sent, input.wait, BitVec.ofNat 32 sizeofCommBufferAddress, info⟩) = some thread ∧
      s' = {
        driver := { s.driver with queue := queue, handed := s.driver.handed ++ dto.mdl.toList }
        waits := s.waits.finish n
        thread := thread
        dequeued := s.dequeued ++ [dto]
        mapped := s.mapped ++ (input.mapped dto).toList } := by
  simp only [Pipeline.step, Option.bind_eq_some_iff] at hstep
  obtain ⟨n, hrequest, hstep⟩ := hstep
  split_ifs at hstep with hdequeue
  simp only [Option.bind_eq_some_iff, Option.map_eq_some_iff] at hstep
  obtain ⟨dto, hhead, info, hinfo, thread, hthread, driver, hdriver, rfl⟩ := hstep
  obtain ⟨queue, hqueue⟩ := List.head?_eq_some_iff.mp hhead
  refine ⟨n, dto, queue, info, thread, hrequest, hdequeue, hqueue, hinfo, hthread, ?_⟩
  simp only [System.step, hqueue] at hdriver
  cases hdriver
  rfl

/-- The steps of ThreadProc that bring no packet leave the driver alone, but for the request. -/
theorem thread_of_step {s s' : Pipeline} {event : Event}
    (hstep : s.step (.thread event) = some s') :
    event.BringsNoPacket ∧ ∃ s₁ thread, s.ended event = some s₁ ∧
      threadProcStep s.thread event = some thread ∧ s' = { s₁ with thread := thread } ∧
      s₁.driver = s.driver ∧ s₁.dequeued = s.dequeued ∧ s₁.mapped = s.mapped := by
  simp only [Pipeline.step] at hstep
  split_ifs at hstep with hnone
  obtain ⟨s₁, hended, hstep⟩ := Option.bind_eq_some_iff.mp hstep
  obtain ⟨thread, hthread, rfl⟩ := Option.map_eq_some_iff.mp hstep
  have hsame : s₁.thread = s.thread ∧ s₁.driver = s.driver ∧ s₁.dequeued = s.dequeued ∧
      s₁.mapped = s.mapped := by
    cases event with
    | reply answer =>
      simp only [Pipeline.ended] at hended
      split at hended <;> split_ifs at hended <;> cases hended <;> exact ⟨rfl, rfl, rfl, rfl⟩
    | _ =>
      cases hended
      exact ⟨rfl, rfl, rfl, rfl⟩
  obtain ⟨hsame, hdriver, hdequeued, hmapped⟩ := hsame
  exact ⟨hnone, s₁, thread, hended, hsame ▸ hthread, rfl, hdriver, hdequeued, hmapped⟩

theorem Piping.getBuffer {buffers : Mdl → List Byte} {s s' : Pipeline} {input : GetBufferInput}
    (h : Piping buffers s) (hok : input.wait = .waitObject0)
    (hstep : s.step (.getBuffer input) = some s') : Piping buffers s' := by
  obtain ⟨n, dto, queue, info, thread, -, -, hqueue, hinfo, hthread, rfl⟩ :=
    getBuffer_of_step hstep
  rw [hok] at hthread
  have hlength := h.shown.length_eq
  have hcarrying : Carrying (held buffers (s.dequeued ++ [dto])) s.thread :=
    h.carrying.congr fun n hn => held_append buffers s.dequeued dto (hlength ▸ hn)
  have hphase := phase_of_reply hthread
  refine ⟨hcarrying.step ⟨?_, ?_⟩ hthread, ?_, ?_, ?_⟩
  · simp [Faultless, hphase]
  · simp only [Copies, hphase]
  · rw [fetched_of_packet hthread]
    exact List.rel_append h.shown (List.Forall₂.cons (ptwCommandGetBuffer_shows hinfo _) .nil)
  · rw [fetched_of_packet hthread, List.filterMap_append, h.mapped]
    have hbuffer := ptwCommandGetBuffer_buffer hinfo s.thread.fetched.length
    cases hmapped : input.mapped dto <;> simp [hbuffer, hmapped]
  · rw [List.filterMap_append, h.handed]
    cases hmdl : dto.mdl <;> simp [hmdl]

theorem Piping.step {buffers : Mdl → List Byte} {s s' : Pipeline} {event : PipelineEvent}
    (h : Piping buffers s) (hok : Undisturbed buffers s event) (hstep : s.step event = some s') :
    Piping buffers s' := by
  cases event with
  | driver op =>
    obtain ⟨hop, driver, hdriver, rfl⟩ := driver_of_step hstep
    exact ⟨h.carrying, h.shown, h.mapped, h.handed.trans (handed_of_step hop hdriver).symm⟩
  | request =>
    simp only [Pipeline.step] at hstep
    split_ifs at hstep
    cases hstep
    exact ⟨h.carrying, h.shown, h.mapped, h.handed⟩
  | run n | alert n =>
    obtain ⟨waits, -, rfl⟩ := Option.map_eq_some_iff.mp hstep
    exact ⟨h.carrying, h.shown, h.mapped, h.handed⟩
  | getBuffer input => exact h.getBuffer hok hstep
  | thread event =>
    obtain ⟨hnone, s₁, thread, -, hthread, rfl, hdriver, hdequeued, hmapped⟩ :=
      thread_of_step hstep
    refine ⟨?_, ?_, ?_, ?_⟩
    · change Carrying (held buffers s₁.dequeued) thread
      rw [hdequeued]
      exact h.carrying.step hok hthread
    · change List.Forall₂ Shows thread.fetched s₁.dequeued
      rw [fetched_of_none hnone hthread, hdequeued]
      exact h.shown
    · change thread.fetched.filterMap (·.buffer) = s₁.mapped
      rw [fetched_of_none hnone hthread, hmapped]
      exact h.mapped
    · change s₁.dequeued.filterMap (·.mdl) = s₁.driver.handed
      rw [hdequeued, hdriver]
      exact h.handed

theorem piping_boot (buffers : Mdl → List Byte) (hardware : Nat → Core) :
    Piping buffers (Pipeline.boot hardware) where
  carrying := carrying_new _
  shown := .nil
  mapped := rfl
  handed := rfl

theorem run_driverOps (events : List PipelineEvent) {s s' : Pipeline}
    (hrun : events.foldlM Pipeline.step s = some s') :
    (driverOps events).foldlM System.step s.driver = some s'.driver := by
  refine run_filterMap Pipeline.driver _ (fun s event s' op hstep hop => ?_)
    (fun s event s' hstep hop => ?_) hrun
  · cases event with
    | driver op' =>
      cases hop
      obtain ⟨-, driver, hdriver, rfl⟩ := driver_of_step hstep
      exact hdriver
    | getBuffer input =>
      cases hop
      obtain ⟨n, dto, queue, info, thread, -, -, hqueue, -, -, rfl⟩ := getBuffer_of_step hstep
      simp only [System.step, hqueue]
    | request | run | alert | thread => cases hop
  · cases event with
    | driver | getBuffer => cases hop
    | request =>
      simp only [Pipeline.step] at hstep
      split_ifs at hstep
      cases hstep
      rfl
    | run n | alert n =>
      obtain ⟨waits, -, rfl⟩ := Option.map_eq_some_iff.mp hstep
      rfl
    | thread event =>
      obtain ⟨-, s₁, thread, -, -, rfl, hdriver, -, -⟩ := thread_of_step hstep
      exact hdriver

/-- What ThreadProc copies is what was in the buffers it was handed. -/
theorem bufferBytes_of_shown {buffers : Mdl → List Byte} {content : Nat → List Byte}
    {packets : List FetchedPacket} {dtos : List CommBufferAddress}
    (h : List.Forall₂ (fun packet dto => Shows packet dto ∧
      content packet.number = dto.mdl.elim [] buffers) packets dtos) :
    bufferBytes content packets = (dtos.filterMap (·.mdl)).flatMap buffers := by
  induction h with
  | nil => rfl
  | @cons packet dto packets dtos hpacket _ ih =>
    obtain ⟨hshows, hcontent⟩ := hpacket
    have hfirst := hshows.first_iff
    cases hmdl : dto.mdl with
    | none =>
      rw [bufferBytes, List.filter_cons_of_neg (by simp [hfirst.mpr hmdl]),
        List.filterMap_cons_none hmdl]
      exact ih
    | some mdl =>
      have hdata : packet.info.header.options.firstPacket = false :=
        Bool.eq_false_iff.mpr fun ht => Option.some_ne_none mdl (hmdl.symm.trans (hfirst.mp ht))
      rw [hmdl] at hcontent
      rw [bufferBytes, List.filter_cons_of_pos (by simp [hdata]), List.filterMap_cons_some hmdl,
        List.flatMap_cons, List.flatMap_cons, hcontent]
      exact congrArg (buffers mdl ++ ·) ih

theorem Piping.number {buffers : Mdl → List Byte} {s : Pipeline} (h : Piping buffers s) {n : Nat}
    (hn : n < s.thread.fetched.length) : (s.thread.fetched[n]).number = n := by
  have hnth := congrArg (·[n]?) h.carrying.numbered
  simpa [hn] using hnth

theorem Piping.bufferBytes {buffers : Mdl → List Byte} {s : Pipeline} (h : Piping buffers s) :
    bufferBytes (held buffers s.dequeued) s.thread.fetched =
      s.driver.handed.flatMap buffers := by
  rw [← h.handed]
  refine bufferBytes_of_shown ?_
  obtain ⟨hlength, hshown⟩ := List.forall₂_iff_get.mp h.shown
  refine List.forall₂_iff_get.mpr ⟨hlength, fun n hn hn' => ⟨hshown n hn hn', ?_⟩⟩
  rw [List.get_eq_getElem, h.number hn, held, List.getElem?_eq_getElem hn']
  rfl

/-- Once ThreadProc has got through the queue, read_trace gets what the trace in the buffers that
left their cores means. -/
theorem Piping.traced {buffers : Mdl → List Byte} {s : Pipeline} (hs : Piping buffers s)
    {φ : Type*} [DecidableEq φ] (divide : Nat → Nat → φ) (zero : φ)
    (hqueue : s.driver.queue = []) (hidle : s.thread.pending = [])
    (hannouncing : Announcing s.dequeued)
    {trace : List TraceEvent} (hpossible : PossibleTrace {} trace) (hfit : HeadersFit none trace)
    (htrace : s.driver.sent.flatMap buffers = encodeEvents trace) :
    Traced trace (run (rawLoopBody divide zero) {} (s.thread.enqueued.map (·.message))) := by
  refine hs.carrying.traced divide zero hidle (fun packet hpacket => ?_)
    (announces_of_shown hs.shown hannouncing) hpossible hfit ?_
  · obtain ⟨n, hn, rfl⟩ := List.getElem_of_mem hpacket
    obtain ⟨hlength, hshown⟩ := List.forall₂_iff_get.mp hs.shown
    exact (hshown n hn (hlength ▸ hn)).fromDriver
  · rw [hs.bufferBytes, ← htrace, System.sent, hqueue, List.filterMap_nil, List.append_nil]

theorem piping_of_run {buffers : Mdl → List Byte} {hardware : Nat → Core}
    {events : List PipelineEvent} {s : Pipeline}
    (hrun : events.foldlM Pipeline.step (Pipeline.boot hardware) = some s)
    (hmeets : Meets Pipeline.step (Undisturbed buffers) (Pipeline.boot hardware) events) :
    Piping buffers s :=
  (every_of_meets (Piping buffers) (fun _ h => h) (fun _ _ _ h hok hstep => h.step hok hstep) _
    events (piping_boot buffers hardware) hmeets).last hrun

end IntelPt.UserModeApp
