import IntelPt.Decoder.MessageLoop
import IntelPt.UserModeApp.Publishing

/-! From the driver's packets to the decoded trace: ThreadProc fetches packets, copies their
buffers into messages and publishes them; read_trace takes the messages in the order they were
published. -/
namespace IntelPt.UserModeApp
open Decoder Runs Transducer

/-- The buffer of the packet holds this when ThreadProc copies it. -/
def Copies (content : Nat → List Byte) (s : ThreadState) (event : Event) : Prop :=
  match s.phase, event with
  | .build packet, .calloc _ memory => packet.info.header.options.firstPacket = false →
      readMemory memory packet.info.payload.bufferAddress (10 * usnPageSize) =
        content packet.number
  | _, _ => True

/-- The message is the one of its packet, with that content unless it is a FIRST packet. -/
structure Carries (content : Nat → List Byte) (m : KafkaMessage) : Prop where
  built : m.Built
  copied : m.packet.info.header.options.firstPacket = false →
    readMemory m.memory m.packet.info.payload.bufferAddress (10 * usnPageSize) =
      content m.packet.number

structure Carrying (content : Nat → List Byte) (s : ThreadState) : Prop extends Publishing s where
  carried : ∀ m ∈ s.enqueued, Carries content m
  inHand : ∀ message, s.phase = .send message → Carries content message

theorem carrying_new (content : Nat → List Byte) : Carrying content {} where
  toPublishing := publishing_new
  carried := fun m hm => absurd hm List.not_mem_nil
  inHand := fun _ h => by cases h

theorem commandGetBuffer_frame (reply : GetBufferReply) (s : ThreadState) :
    (commandGetBuffer reply s).2.enqueued = s.enqueued ∧
      (commandGetBuffer reply s).2.phase = s.phase := by
  obtain ⟨-, status, -, hget⟩ | ⟨-, -, hget⟩ | ⟨-, hget⟩ := commandGetBuffer_cases reply s <;>
    rw [hget] <;> exact ⟨rfl, rfl⟩

theorem Carrying.reply {content : Nat → List Byte} {s s' : ThreadState} {reply : GetBufferReply}
    (h : Carrying content s) (hpublishing : Publishing s')
    (hstep : threadProcStep s (.reply reply) = some s') : Carrying content s' := by
  have hphase := phase_of_reply hstep
  obtain ⟨henqueued, hsame⟩ := commandGetBuffer_frame reply s
  simp only [threadProcStep, hphase] at hstep
  have hs' : s'.enqueued = s.enqueued ∧ ∀ message, s'.phase ≠ .send message := by
    split at hstep
    · cases hstep
      exact ⟨henqueued, fun _ hsend => by rw [hsame, hphase] at hsend; cases hsend⟩
    · split at hstep
      · cases hstep
        exact ⟨henqueued, fun _ hsend => by cases hsend⟩
      · cases hstep
        exact ⟨henqueued, fun _ hsend => by cases hsend⟩
  exact ⟨hpublishing, hs'.1 ▸ h.carried, fun message hsend => absurd hsend (hs'.2 message)⟩

theorem Carrying.step {content : Nat → List Byte} {s s' : ThreadState} {event : Event}
    (h : Carrying content s) (hok : Faultless s event ∧ Copies content s event)
    (hstep : threadProcStep s event = some s') : Carrying content s' := by
  have hpublishing := h.toPublishing.step hok.1 hstep
  cases event with
  | reply reply => exact h.reply hpublishing hstep
  | calloc available memory =>
    obtain ⟨packet, hphase⟩ := phase_of_calloc hstep
    obtain ⟨hfaultless, hcopies⟩ := hok
    simp only [Faultless, hphase] at hfaultless
    simp only [Copies, hphase] at hcopies
    simp only [threadProcStep, hphase, hfaultless, if_true, Option.some.injEq] at hstep
    subst hstep
    refine ⟨hpublishing, h.carried, fun message hsend => ⟨hpublishing.message message hsend, ?_⟩⟩
    cases hsend
    exact hcopies
  | produced err =>
    obtain ⟨message, hphase⟩ := phase_of_produced hstep
    have hinHand := h.inHand message hphase
    cases err with
    | noError =>
      simp only [threadProcStep, hphase, kafkaSendMessage, if_true, Option.some.injEq] at hstep
      subst hstep
      refine ⟨hpublishing, fun m hm => ?_, fun _ hsend => by cases hsend⟩
      obtain hm | hm := List.mem_append.mp hm
      · exact h.carried m hm
      · rw [List.mem_singleton.mp hm]
        exact hinHand
    | queueFull =>
      simp only [threadProcStep, hphase, kafkaSendMessage, Option.some.injEq] at hstep
      exact hstep ▸ h
    | other =>
      have hfaultless := hok.1
      simp only [Faultless, hphase] at hfaultless
      exact absurd rfl hfaultless
  | freed send =>
    have hphase := phase_of_freed hstep
    simp only [threadProcStep, hphase, commandFreeBuffer, Option.some.injEq] at hstep
    subst hstep
    refine ⟨hpublishing, ?_, fun _ hsend => by cases hsend⟩
    split <;> exact h.carried

/-! What read_trace gets. -/

/-- The driver has put the size of the header into it. -/
def FetchedPacket.FromDriver (packet : FetchedPacket) : Prop :=
  packet.info.header.headerSize = BitVec.ofNat 32 sizeofPacketHeaderInformation

def bufferBytes (content : Nat → List Byte) (packets : List FetchedPacket) : List Byte :=
  (packets.filter fun packet => !packet.info.header.options.firstPacket).flatMap
    fun packet => content packet.number

/-- A FIRST packet comes first, and each carries a frequency. -/
structure Announces (packets : List FetchedPacket) : Prop where
  first : ∀ packet ∈ packets.head?, packet.info.header.options.firstPacket = true
  frequency : ∀ packet ∈ packets, packet.info.header.options.firstPacket = true →
    packet.info.payload.processorFrequency ≠ 0

structure Parsed (content : Nat → List Byte) (k : KafkaMessage) (m : Message) : Prop where
  parse : parseMessage k.message = .ok (some m)
  type : m.header.packetType = .first ↔ k.packet.info.header.options.firstPacket = true
  values : m.header.packetType = .first → ∃ values, unpackFirst m.body = .ok values ∧
    values.processorFrequency = k.packet.info.payload.processorFrequency.toNat
  body : m.header.packetType ≠ .first → m.body = content k.packet.number

theorem Carries.parsed {content : Nat → List Byte} {k : KafkaMessage} (h : Carries content k)
    (hdriver : k.packet.FromDriver) : ∃ m, Parsed content k m := by
  obtain ⟨hbuilt, hcontent⟩ := h
  have hmessage := hbuilt.trans (threadProc_eq k.memory k.packet.info).symm
  obtain ⟨⟨number, ⟨headerSize, packetId, cpuId, sequenceId, options⟩, payload⟩, memory,
    bytes⟩ := k
  obtain rfl : headerSize = BitVec.ofNat 32 sizeofPacketHeaderInformation := hdriver
  obtain ⟨body, hparse, hbody⟩ :=
    threadProc_parsed memory packetId cpuId sequenceId options payload
  refine ⟨_, hmessage ▸ hparse, ?_, ?_, ?_⟩
  · cases options.firstPacket <;> cases options.lastPacket <;> simp
  · intro hfirst
    cases hf : options.firstPacket with
    | true =>
      rw [hf, if_pos rfl] at hbody
      exact ⟨_, hbody, rfl⟩
    | false => cases hl : options.lastPacket <;> simp [hf, hl] at hfirst
  · intro hdata
    cases hf : options.firstPacket with
    | true => simp [hf] at hdata
    | false =>
      rw [hf, if_neg Bool.false_ne_true] at hbody
      exact hbody.trans (hcontent hf)

theorem exists_messages {content : Nat → List Byte} (sent : List KafkaMessage)
    (hparsed : ∀ k ∈ sent, ∃ m, Parsed content k m) :
    ∃ messages, List.Forall₂ (Parsed content) sent messages := by
  induction sent with
  | nil => exact ⟨[], .nil⟩
  | cons k sent ih =>
    obtain ⟨m, hm⟩ := hparsed k List.mem_cons_self
    obtain ⟨messages, hmessages⟩ := ih fun k hk => hparsed k (List.mem_cons_of_mem _ hk)
    exact ⟨m :: messages, .cons hm hmessages⟩

section

variable {content : Nat → List Byte} {sent : List KafkaMessage} {messages : List Message}

theorem traceBytes_of_parsed (h : List.Forall₂ (Parsed content) sent messages) :
    traceBytes messages = bufferBytes content (sent.map (·.packet)) := by
  induction h with
  | nil => rfl
  | @cons k m sent messages hm _ ih =>
    cases hf : k.packet.info.header.options.firstPacket with
    | true =>
      have hskip : m.header.packetType = .first := hm.type.mpr hf
      rw [traceBytes, List.filter_cons_of_neg (by simp [hskip]), bufferBytes, List.map_cons,
        List.filter_cons_of_neg (by simp [hf])]
      exact ih
    | false =>
      have hdata : m.header.packetType ≠ .first := fun hfirst => by
        rw [hm.type.mp hfirst] at hf
        cases hf
      rw [traceBytes, List.filter_cons_of_pos (by simp [hdata]), bufferBytes, List.map_cons,
        List.filter_cons_of_pos (by simp [hf]), List.flatMap_cons, List.flatMap_cons,
        hm.body hdata]
      exact congrArg (content k.packet.number ++ ·) ih

theorem announced_of_parsed (h : List.Forall₂ (Parsed content) sent messages)
    (hannounces : Announces (sent.map (·.packet))) : Announced messages := by
  obtain ⟨hlength, hparsed⟩ := List.forall₂_iff_get.mp h
  refine ⟨fun m hm => ?_, fun m hm hfirst => ?_⟩
  · cases h with
    | nil => cases hm
    | cons hone _ =>
      cases hm
      exact hone.type.mpr (hannounces.first _ rfl)
  · obtain ⟨n, hn, rfl⟩ := List.getElem_of_mem hm
    have hn' : n < sent.length := hlength ▸ hn
    have hone := hparsed n hn' hn
    obtain ⟨values, hunpacked, hfrequency⟩ := hone.values hfirst
    refine ⟨values, hunpacked, fun hzero => ?_⟩
    rw [hzero] at hfrequency
    exact hannounces.frequency _ (List.mem_map_of_mem (List.getElem_mem hn'))
      (hone.type.mp hfirst) (BitVec.eq_of_toNat_eq hfrequency.symm)

end

theorem Carrying.traced {content : Nat → List Byte} {s : ThreadState} (hs : Carrying content s)
    {φ : Type*} [DecidableEq φ] (divide : Nat → Nat → φ) (zero : φ)
    (hidle : s.pending = []) (hdriver : ∀ packet ∈ s.fetched, packet.FromDriver)
    (hannounces : Announces s.fetched) {trace : List TraceEvent}
    (hpossible : PossibleTrace {} trace) (hfit : HeadersFit none trace)
    (htrace : bufferBytes content s.fetched = encodeEvents trace) :
    Traced trace (run (rawLoopBody divide zero) {} (s.enqueued.map (·.message))) := by
  have hfetched : s.enqueued.map (·.packet) = s.fetched := by
    rw [← hs.once, hidle, List.append_nil]
  obtain ⟨messages, hparsed⟩ := exists_messages s.enqueued fun k hk =>
    (hs.carried k hk).parsed (hdriver k.packet (hfetched ▸ List.mem_map_of_mem hk))
  have hraw : List.Forall₂ (fun r m => parseMessage r = .ok (some m))
      (s.enqueued.map (·.message)) messages :=
    List.forall₂_map_left_iff.mpr (hparsed.imp fun _ _ h => h.parse)
  rw [run_rawLoopBody divide zero hraw]
  refine traced_loop divide zero (announced_of_parsed hparsed (hfetched ▸ hannounces)) hpossible
    hfit ?_
  rw [traceBytes_of_parsed hparsed, hfetched, htrace]

/-- If ThreadProc meets no fault and has nothing in hand, read_trace gets from the messages what
the trace in the fetched buffers means. The trace may be cut anywhere into the buffers. -/
theorem readTrace_delivered {φ : Type*} [DecidableEq φ] (divide : Nat → Nat → φ) (zero : φ)
    {events : List Event} {s : ThreadState} {content : Nat → List Byte}
    (hrun : events.foldlM threadProcStep {} = some s)
    (hmeets : Meets threadProcStep (fun s event => Faultless s event ∧ Copies content s event)
      {} events)
    (hidle : s.pending = []) (hdriver : ∀ packet ∈ s.fetched, packet.FromDriver)
    (hannounces : Announces s.fetched) {trace : List TraceEvent}
    (hpossible : PossibleTrace {} trace) (hfit : HeadersFit none trace)
    (htrace : bufferBytes content s.fetched = encodeEvents trace) :
    Traced trace (run (rawLoopBody divide zero) {} (s.enqueued.map (·.message))) := by
  have hevery := every_of_meets (Carrying content) (fun _ h => h)
    (fun _ _ _ h hok hstep => h.step hok hstep) {} events (carrying_new content) hmeets
  exact (hevery.last hrun).traced divide zero hidle hdriver hannounces hpossible hfit htrace

theorem exists_memory (address : BitVec 64) {content : List Byte}
    (hlength : content.length = 10 * usnPageSize) :
    ∃ memory, readMemory memory address (10 * usnPageSize) = content := by
  refine ⟨fun a => content.getD (a - address).toNat 0, ?_⟩
  refine List.ext_getElem (by simp [readMemory, hlength]) fun n hn hn' => ?_
  have hsmall : n < 2 ^ 64 := by
    rw [hlength] at hn'
    exact hn'.trans (by decide)
  have hoffset : (address + BitVec.ofNat 64 n - address).toNat = n := by
    rw [BitVec.add_comm, BitVec.add_sub_cancel, BitVec.toNat_ofNat, Nat.mod_eq_of_lt hsmall]
  simp only [readMemory, List.getElem_map, List.getElem_range, hoffset]
  exact List.getD_eq_getElem content 0 hn'

/-- A time and a branch, and then padding. -/
theorem exists_trace_branch (padding : Nat) : ∃ (trace : List TraceEvent) (buffer : List Byte),
    buffer.length = 9 + padding ∧ PossibleTrace {} trace ∧ HeadersFit none trace ∧
      encodeEvents trace = buffer ∧ StampedTrace {} trace ∧
      meaning {} trace = [⟨.tsc, some 5, .base⟩, ⟨.tntTaken, some 5, .base⟩] := by
  let begins : List TraceEvent := [.time 5, .branches ⟨[true], by decide, by decide⟩]
  have hfill : (0xFF : Byte) ∈ unusedPacketBytes := by decide
  refine ⟨begins ++ (List.replicate padding (.fill 0xFF) ++ []), encodeEvents begins ++
    (List.replicate padding 0xFF ++ []), ?_, ?_, ?_, ?_, ?_, ?_⟩
  · rw [List.length_append, List.append_nil, List.length_replicate]
    rfl
  · exact ⟨trivial, trivial, possibleTrace_fill hfill _ trivial⟩
  · exact ⟨by decide, by decide, headersFit_fill _ trivial⟩
  · rw [encodeEvents, List.flatMap_append, ← encodeEvents, ← encodeEvents, encodeEvents_fill]
    rfl
  · exact ⟨by decide, by decide, stampedTrace_fill _ _ trivial⟩
  · rw [meaning_append, meaning_fill]
    rfl

/-- A FIRST packet and a buffer; the broker takes the second message at the second try. -/
theorem meets_two_packets (content : Nat → List Byte) (memory : BitVec 64 → Byte)
    (hcopies : readMemory memory 0x10000 (10 * usnPageSize) = content 1) :
    let first : PacketInfo := ⟨⟨22, 0, 0, 0, ⟨true, false, 0⟩⟩, ⟨0x400000, 0x1000, 1000000⟩⟩
    let data : PacketInfo := ⟨⟨22, 1, 0, 0, ⟨false, true, 0⟩⟩, ⟨0x10000, 0, 0⟩⟩
    Runs.Meets threadProcStep (fun s event => Faultless s event ∧ Copies content s event) {}
      [.reply ⟨.sent, .waitObject0, 42, first⟩, .calloc true memory, .produced .noError,
        .freed .sent, .reply ⟨.sent, .waitObject0, 42, data⟩, .calloc true memory,
        .produced .queueFull, .produced .noError, .freed .sent] := by
  intro first data
  have hcopies' : readMemory memory data.payload.bufferAddress (10 * usnPageSize) = content 1 :=
    hcopies
  simp [Runs.Meets, threadProcStep, commandGetBuffer, communicationSendMessage, kafkaSendMessage,
    commandFreeBuffer, Faultless, Copies, NtStatus.succeeded, sizeofCommBufferAddress,
    sizeofPacketHeaderInformation, first, hcopies']

theorem readTrace_delivered_branch :
    let first : PacketInfo := ⟨⟨22, 0, 0, 0, ⟨true, false, 0⟩⟩, ⟨0x400000, 0x1000, 1000000⟩⟩
    let data : PacketInfo := ⟨⟨22, 1, 0, 0, ⟨false, true, 0⟩⟩, ⟨0x10000, 0, 0⟩⟩
    ∃ (memory : BitVec 64 → Byte) (s : ThreadState), [Event.reply ⟨.sent, .waitObject0, 42, first⟩,
        .calloc true memory, .produced .noError, .freed .sent,
        .reply ⟨.sent, .waitObject0, 42, data⟩, .calloc true memory, .produced .queueFull,
        .produced .noError, .freed .sent].foldlM threadProcStep {} = some s ∧
      let r := run (rawLoopBody ((· / ·) : Nat → Nat → Nat) 0) {} (s.enqueued.map (·.message))
      r.halt = none ∧ allPackets r.out = [⟨.tsc, some 5, .base⟩, ⟨.tntTaken, some 5, .base⟩] := by
  intro first data
  obtain ⟨trace, buffer, hlength, hpossible, hfit, htrace, hstamped, hmeaning⟩ :=
    exists_trace_branch 40951
  obtain ⟨memory, hcopies⟩ := exists_memory 0x10000 hlength
  have hmeets := meets_two_packets (fun _ => buffer) memory hcopies
  have hdriver : ∀ packet ∈ [FetchedPacket.mk 0 first, ⟨1, data⟩], packet.FromDriver := by
    simp [FetchedPacket.FromDriver, first, data, sizeofPacketHeaderInformation]
  have hannounces : Announces [FetchedPacket.mk 0 first, ⟨1, data⟩] :=
    ⟨by simp [first], by simp [first, data]⟩
  have hbytes : bufferBytes (fun _ => buffer) [FetchedPacket.mk 0 first, ⟨1, data⟩] =
      encodeEvents trace := by
    simp [bufferBytes, first, data, htrace]
  have htraced := readTrace_delivered ((· / ·) : Nat → Nat → Nat) 0 rfl hmeets rfl hdriver
    hannounces hpossible hfit hbytes
  have hgoes := htraced.goes.mpr hstamped
  exact ⟨memory, _, rfl, hgoes, (htraced.decodes hgoes).trans hmeaning⟩

end IntelPt.UserModeApp
