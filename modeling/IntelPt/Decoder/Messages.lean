import IntelPt.Decoder.Meaning
import IntelPt.Decoder.Sequences

/-! How the stream is cut into messages does not matter. What was decoded is taken out of the
interpreter after each message, and nothing the interpreter does depends on it. -/
namespace IntelPt.Decoder
open Transducer
variable {table : List PacketDefinition}

def PacketInterpretor.after (st : PacketInterpretor) (packets : List Packet) :
    PacketInterpretor :=
  { st with succession := packets ++ st.succession }

/-! The succession is only ever appended to. -/

theorem searchLoop_after (byte : Byte) (packets : List Packet) (st : PacketInterpretor)
    (ds : List PacketDefinition) : ∀ new, searchLoop byte (st.after packets) ds new =
      ((searchLoop byte st ds new).1.after packets, (searchLoop byte st ds new).2) := by
  induction ds with
  | nil => intro new; rfl
  | cons d ds ih =>
    intro new
    have hindex : (st.after packets).headerIndex = st.headerIndex := rfl
    have haccumulator : (st.after packets).accumulator = st.accumulator := rfl
    simp only [searchLoop, hindex, haccumulator]
    cases d.packetHeader[st.headerIndex]? with
    | none => rfl
    | some pattern =>
      by_cases hv : validateHeaderByte byte pattern = true
      · by_cases hl : st.headerIndex + 1 = d.packetHeader.length
        · simp only [hv, hl, if_true]
          cases d.packetLength.eval st.accumulator <;> rfl
        · simp only [hv, hl, if_true, if_false]
          exact ih _
      · simp only [hv]
        exact ih _

theorem searchHeader_after (byte : Byte) (packets : List Packet) (st : PacketInterpretor) :
    searchHeader byte (st.after packets) =
      ((searchHeader byte st).1.after packets, (searchHeader byte st).2) := by
  have hloop := searchLoop_after byte packets st st.currentCandidates []
  have hcandidates : (st.after packets).currentCandidates = st.currentCandidates := rfl
  rw [searchHeader, searchHeader, hcandidates, hloop]
  cases searchLoop byte st st.currentCandidates [] with
  | mk found rest =>
    obtain ⟨new, error⟩ := rest
    cases error with
    | some e => rfl
    | none => cases hin : found.inPacket <;> simp [PacketInterpretor.after, hin]

theorem completePacket_after (table : List PacketDefinition) (packets : List Packet)
    (st : PacketInterpretor) : completePacket table (st.after packets) =
      (completePacket table st).map (·.after packets) := by
  cases hc : st.currentPacket with
  | none =>
    have hc' : (st.after packets).currentPacket = none := hc
    simp only [completePacket, hc, hc', Result.map]
  | some d =>
    have hc' : (st.after packets).currentPacket = some d := hc
    by_cases hl : st.currentPacketLength ≤ st.accumulator.length
    · have hl' : (st.after packets).currentPacketLength ≤ (st.after packets).accumulator.length :=
        hl
      cases hd : d.handle with
      | none =>
        simp only [completePacket, hc, hc', hl, hl', if_true, hd]
        cases h : st.context.disableInterpreting <;>
          simp [PacketInterpretor.after, Result.map, h]
      | some handle =>
        have haccumulator : (st.after packets).accumulator = st.accumulator := rfl
        have hcontext : (st.after packets).context = st.context := rfl
        rw [completePacket_fire hc hl hd, completePacket_fire hc' hl' hd, haccumulator, hcontext]
        cases handle st.accumulator d.packetName st.context with
        | error e => rfl
        | ok r =>
          cases hoff : r.2.disableInterpreting <;>
            simp [afterPacket, PacketInterpretor.after, Result.map, hoff]
    · have hwait : ∀ e, st.currentPacket = some e →
          st.accumulator.length < st.currentPacketLength := fun _ _ => Nat.lt_of_not_le hl
      have hwait' : ∀ e, (st.after packets).currentPacket = some e →
          (st.after packets).accumulator.length < (st.after packets).currentPacketLength :=
        fun _ _ => Nat.lt_of_not_le hl
      rw [completePacket_wait hwait, completePacket_wait hwait']
      rfl

theorem processByte_after (table : List PacketDefinition) (packets : List Packet)
    (st : PacketInterpretor) (byte : Byte) : processByte table (st.after packets) byte =
      (processByte table st byte).map (·.after packets) := by
  cases hin : st.inPacket with
  | true =>
    have hin' : (st.after packets).inPacket = true := hin
    rw [processByte_buffer hin, processByte_buffer hin', ← completePacket_after]
    rfl
  | false =>
    have hin' : (st.after packets).inPacket = false := hin
    by_cases hfill : byte ∈ unusedPacketBytes
    · simp only [processByte, hin, hin', Bool.false_eq_true, if_false, hfill, if_true]
      have hcandidates : (st.after packets).currentCandidates = st.currentCandidates := rfl
      rw [hcandidates]
      split <;> rfl
    · have hbuffered : buffered (st.after packets) byte = (buffered st byte).after packets := rfl
      rw [processByte_search hin hfill, processByte_search hin' hfill, hbuffered,
        searchHeader_after]
      cases searchHeader byte (buffered st byte) with
      | mk found error =>
        cases error with
        | some e => rfl
        | none => exact completePacket_after table packets found

/-- The run is the same, behind the packets from before. -/
theorem feed_after (table : List PacketDefinition) (packets : List Packet)
    (st : PacketInterpretor) (bs : List Byte) :
    feed table (st.after packets) bs = (feed table st bs).map (·.after packets) :=
  (run_map (fun st b _ => (processByte_after table packets st b).symm) st).symm

/-! The message loop. -/

def traceBytes (messages : List Message) : List Byte :=
  (messages.filter fun m => m.header.packetType ≠ .first).flatMap (·.body)

def allPackets (decoded : List Decoded) : List Packet := decoded.flatMap (·.packets)

theorem run_decodeMessage (messages : List Message) : ∀ {st : PacketInterpretor},
    st.succession = [] →
      (run decodeMessage st messages).halt =
          (feed packetDefinitions st (traceBytes messages)).halt ∧
        ((feed packetDefinitions st (traceBytes messages)).halt = none →
          allPackets (run decodeMessage st messages).out =
            (feed packetDefinitions st (traceBytes messages)).st.succession) := by
  induction messages with
  | nil => exact fun hst => ⟨rfl, fun _ => hst.symm⟩
  | cons m messages ih =>
    intro st hst
    by_cases hf : m.header.packetType = .first
    · have hone := decodeMessage_idle (Or.inl hf) hst
      have hbytes : traceBytes (m :: messages) = traceBytes messages := by
        simp [traceBytes, hf]
      obtain ⟨hhalt, hpackets⟩ := ih hst
      rw [run_cons (by rw [hone]), hone, hbytes]
      exact ⟨hhalt, hpackets⟩
    · have hbytes : traceBytes (m :: messages) = m.body ++ traceBytes messages := by
        simp [traceBytes, hf]
      rw [hbytes]
      cases hbody : (feed packetDefinitions st m.body).halt with
      | some e =>
        have hone : decodeMessage st m =
            { st := (feed packetDefinitions st m.body).st, halt := some e } := by
          simp only [decodeMessage, hf, if_false, hbody]
        have hall : feed packetDefinitions st (m.body ++ traceBytes messages) =
          feed packetDefinitions st m.body := run_append_halt hbody _
        rw [run_cons_halt (by rw [hone]), hone, hall, hbody]
        exact ⟨rfl, fun h => by cases h⟩
      | none =>
        let fed := (feed packetDefinitions st m.body).st
        have hone : decodeMessage st m =
            { st := (getSuccession fed).2,
              out := [⟨m.header.sequenceId, (getSuccession fed).1⟩] } := by
          simp only [decodeMessage, hf, if_false, hbody]
          rfl
        have hfed : fed = (getSuccession fed).2.after fed.succession := by
          simp [PacketInterpretor.after, getSuccession]
        have htaken : (getSuccession fed).2.succession = [] := rfl
        obtain ⟨hhalt, hpackets⟩ := ih htaken
        have hrest := feed_after packetDefinitions fed.succession (getSuccession fed).2
          (traceBytes messages)
        rw [← hfed] at hrest
        rw [run_cons (by rw [hone]), hone, feed_append hbody]
        have hrest' : feed packetDefinitions (feed packetDefinitions st m.body).st
            (traceBytes messages) = _ := hrest
        rw [hrest']
        refine ⟨hhalt, fun h => ?_⟩
        have hsame := hpackets h
        simp only [allPackets, List.flatMap_append, List.flatMap_cons, List.flatMap_nil,
          List.append_nil] at hsame ⊢
        rw [hsame]
        rfl

/-- read_trace raises what one run over all data bytes raises, and decodes the same packets,
wherever the bytes are cut and whichever FIRST messages come in between. -/
theorem readTrace_traceBytes {messages : List Message}
    (hfirst : ∀ m ∈ messages, m.header.packetType = .first → m.body.length = 20) :
    (readTrace messages).halt =
        (feed packetDefinitions newInterpretor (traceBytes messages)).halt ∧
      ((readTrace messages).halt = none → allPackets (readTrace messages).out =
        (feed packetDefinitions newInterpretor (traceBytes messages)).st.succession) := by
  have hnew : newInterpretor.succession = [] := rfl
  obtain ⟨hhalt, hpackets⟩ := run_decodeMessage messages hnew
  rw [← readTrace_map hfirst] at hhalt hpackets
  exact ⟨hhalt, fun h => hpackets (hhalt ▸ h)⟩

/-- A TSC packet that is cut in two, with the FIRST message of another core in between. -/
theorem readTrace_traceBytes_cut :
    let first : List Byte := List.replicate 20 1
    let messages : List Message := [⟨⟨0, 0, 1, .first⟩, first⟩, ⟨⟨1, 0, 1, .data⟩, [0x19, 1, 0]⟩,
      ⟨⟨0, 1, 2, .first⟩, first⟩, ⟨⟨1, 1, 2, .data⟩, [0, 0, 0, 0, 0, 0x06]⟩]
    (readTrace messages).halt = none ∧
      allPackets (readTrace messages).out =
        [⟨.tsc, some 1, .base⟩, ⟨.tntTaken, some 1, .base⟩] := by
  intro first messages
  obtain ⟨hhalt, hpackets⟩ := @readTrace_traceBytes messages (by decide)
  have hfed : (feed packetDefinitions newInterpretor (traceBytes messages)).halt = none ∧
      (feed packetDefinitions newInterpretor (traceBytes messages)).st.succession =
        [⟨.tsc, some 1, .base⟩, ⟨.tntTaken, some 1, .base⟩] := ⟨rfl, rfl⟩
  exact ⟨hhalt.trans hfed.1, (hpackets (hhalt.trans hfed.1)).trans hfed.2⟩

end IntelPt.Decoder
