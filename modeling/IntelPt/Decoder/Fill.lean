import IntelPt.Decoder.Dispatch
import IntelPt.Decoder.WireFormat

/-! Fill bytes between packets. They change the byte count and nothing else, and the byte count
has no influence on what is decoded. -/
namespace IntelPt.Decoder
open Transducer
variable {table : List PacketDefinition}

def PacketInterpretor.counting (st : PacketInterpretor) (n : Nat) : PacketInterpretor :=
  { st with internalByteIdx := n }

/-- The same handler calls, exception and state, but for the byte count. -/
def SameDecoding (r r' : Result PacketInterpretor HandlerCall PyError) : Prop :=
  r.map (·.counting 0) = r'.map (·.counting 0)

structure Consumed (st : PacketInterpretor) (bs : List Byte) : Prop where
  halt : (feed packetDefinitions st bs).halt = none
  not_in : (feed packetDefinitions st bs).st.inPacket = false
  accumulator : (feed packetDefinitions st bs).st.accumulator = []

def shippedPayload (memory : BitVec 64 → Byte) (packetInfo : PacketInfo) : List Byte :=
  (threadProc memory packetInfo).drop sizeofPacketHeaderInformation

/-- The buffer the driver filled with 0xFF, of which the first `bufferSize` bytes were written. -/
structure PartlyWritten (memory : BitVec 64 → Byte) (packetInfo : PacketInfo)
    (bufferSize : Nat) : Prop where
  not_first : packetInfo.header.options.firstPacket = false
  fits : bufferSize ≤ 10 * usnPageSize
  prefilled : ∀ i, bufferSize ≤ i → i < 10 * usnPageSize →
    memory (packetInfo.payload.bufferAddress + BitVec.ofNat 64 i) = 0xFF

/-- Fill behind a consumed stream has no effect, be it any fill or the rest of a buffer. -/
structure FillTransparent (st : PacketInterpretor) : Prop where
  fill : ∀ s f t, Consumed st s → (∀ b ∈ f, b ∈ unusedPacketBytes) →
    SameDecoding (feed packetDefinitions st (s ++ f ++ t)) (feed packetDefinitions st (s ++ t))
  shipped : ∀ before memory packetInfo bufferSize t,
    PartlyWritten memory packetInfo bufferSize →
    Consumed st (before ++ readMemory memory packetInfo.payload.bufferAddress bufferSize) →
    SameDecoding (feed packetDefinitions st (before ++ shippedPayload memory packetInfo ++ t))
      (feed packetDefinitions st
        (before ++ readMemory memory packetInfo.payload.bufferAddress bufferSize ++ t))

/-! The byte count is written and never read. -/

theorem searchLoop_counting (byte : Byte) (n : Nat) (st : PacketInterpretor)
    (ds : List PacketDefinition) : ∀ new, searchLoop byte (st.counting n) ds new =
      ((searchLoop byte st ds new).1.counting n, (searchLoop byte st ds new).2) := by
  induction ds with
  | nil => intro new; rfl
  | cons d ds ih =>
    intro new
    have hindex : (st.counting n).headerIndex = st.headerIndex := rfl
    have haccumulator : (st.counting n).accumulator = st.accumulator := rfl
    simp only [searchLoop, hindex, haccumulator]
    cases d.packetHeader[st.headerIndex]? with
    | none => rfl
    | some pattern =>
      by_cases hv : validateHeaderByte byte pattern = true
      · by_cases hl : st.headerIndex + 1 = d.packetHeader.length
        · simp only [hv, hl, if_true]
          cases d.packetLength.eval st.accumulator <;> rfl
        · simp only [hv, hl, if_true, if_false]
          exact ih _
      · simp only [hv]
        exact ih _

theorem searchHeader_counting (byte : Byte) (n : Nat) (st : PacketInterpretor) :
    searchHeader byte (st.counting n) =
      ((searchHeader byte st).1.counting n, (searchHeader byte st).2) := by
  have hloop := searchLoop_counting byte n st st.currentCandidates []
  have hcandidates : (st.counting n).currentCandidates = st.currentCandidates := rfl
  rw [searchHeader, searchHeader, hcandidates, hloop]
  cases searchLoop byte st st.currentCandidates [] with
  | mk found rest =>
    obtain ⟨new, error⟩ := rest
    cases error with
    | some e => rfl
    | none =>
      cases hin : found.inPacket <;> simp [PacketInterpretor.counting, hin]

theorem completePacket_counting (table : List PacketDefinition) (n : Nat)
    (st : PacketInterpretor) : completePacket table (st.counting n) =
      (completePacket table st).map (·.counting n) := by
  cases hc : st.currentPacket with
  | none =>
    have hc' : (st.counting n).currentPacket = none := hc
    simp only [completePacket, hc, hc', Result.map]
  | some d =>
    have hc' : (st.counting n).currentPacket = some d := hc
    by_cases hl : st.currentPacketLength ≤ st.accumulator.length
    · have hl' : (st.counting n).currentPacketLength ≤ (st.counting n).accumulator.length := hl
      cases hd : d.handle with
      | none =>
        simp only [completePacket, hc, hc', hl, hl', if_true, hd]
        cases h : st.context.disableInterpreting <;>
          simp [PacketInterpretor.counting, Result.map, h]
      | some handle =>
        have haccumulator : (st.counting n).accumulator = st.accumulator := rfl
        have hcontext : (st.counting n).context = st.context := rfl
        rw [completePacket_fire hc hl hd, completePacket_fire hc' hl' hd, haccumulator, hcontext]
        cases handle st.accumulator d.packetName st.context with
        | error e => rfl
        | ok r => rfl
    · have hwait : ∀ e, st.currentPacket = some e →
          st.accumulator.length < st.currentPacketLength := fun _ _ => Nat.lt_of_not_le hl
      have hwait' : ∀ e, (st.counting n).currentPacket = some e →
          (st.counting n).accumulator.length < (st.counting n).currentPacketLength :=
        fun _ _ => Nat.lt_of_not_le hl
      rw [completePacket_wait hwait, completePacket_wait hwait']
      rfl

theorem processByte_counting (table : List PacketDefinition) (n : Nat) (st : PacketInterpretor)
    (byte : Byte) : processByte table (st.counting n) byte =
      (processByte table st byte).map (·.counting (n + 1)) := by
  cases hin : st.inPacket with
  | true =>
    have hin' : (st.counting n).inPacket = true := hin
    rw [processByte_buffer hin, processByte_buffer hin', ← completePacket_counting]
    rfl
  | false =>
    have hin' : (st.counting n).inPacket = false := hin
    by_cases hfill : byte ∈ unusedPacketBytes
    · simp only [processByte, hin, hin', Bool.false_eq_true, if_false, hfill, if_true]
      have hcandidates : (st.counting n).currentCandidates = st.currentCandidates := rfl
      rw [hcandidates]
      split <;> rfl
    · have hbuffered : buffered (st.counting n) byte = (buffered st byte).counting (n + 1) := rfl
      rw [processByte_search hin hfill, processByte_search hin' hfill, hbuffered,
        searchHeader_counting]
      cases searchHeader byte (buffered st byte) with
      | mk found error =>
        cases error with
        | some e => rfl
        | none => exact completePacket_counting table (n + 1) found

/-- States that differ in the byte count alone decode alike. -/
theorem feed_counting (table : List PacketDefinition) (n : Nat) (st : PacketInterpretor)
    (bs : List Byte) :
    (feed table (st.counting n) bs).map (·.counting 0) =
      (feed table st bs).map (·.counting 0) := by
  have hproject : ∀ s, (feed table s bs).map (·.counting 0) =
      run (fun s b => (processByte table s b).map (·.counting 0)) (s.counting 0) bs := by
    refine run_map fun s b _ => ?_
    rw [processByte_counting]
    rfl
  rw [hproject, hproject]
  rfl

/-! Fill at a packet boundary. -/

theorem Running.atBoundary (ht : TableWellFormed table) {st : PacketInterpretor}
    (h : Running table st) (hin : st.inPacket = false) (hacc : st.accumulator = []) :
    AtBoundary table st := by
  have hs := h.searching hin
  have hcandidates := hs.candidates
  have hindex := hs.index
  rw [hacc, filter_alive_nil ht] at hcandidates
  rw [hacc] at hindex
  exact ⟨hin, hacc, hcandidates, hindex⟩

theorem feed_fill {f : List Byte} (hf : ∀ b ∈ f, b ∈ unusedPacketBytes) :
    ∀ {st : PacketInterpretor}, AtBoundary table st →
      feed table st f = { st := st.counting (st.internalByteIdx + f.length) } := by
  induction f with
  | nil => intro st _; rfl
  | cons b f ih =>
    intro st hst
    have hb : b ∈ unusedPacketBytes := hf b List.mem_cons_self
    have hstep : processByte table st b = { st := st.counting (st.internalByteIdx + 1) } := by
      simp [processByte, hst.not_in, hb, hst.candidates, PacketInterpretor.counting]
    have hnext : AtBoundary table (st.counting (st.internalByteIdx + 1)) :=
      ⟨hst.not_in, hst.accumulator, hst.candidates, hst.index⟩
    have htail := ih (fun c hc => hf c (List.mem_cons_of_mem b hc)) hnext
    have hcount : (st.counting (st.internalByteIdx + 1)).internalByteIdx + f.length =
        st.internalByteIdx + (b :: f).length := by
      rw [List.length_cons]
      change st.internalByteIdx + 1 + f.length = _
      omega
    rw [feed, run_cons (by rw [hstep]), hstep]
    rw [feed, hcount] at htail
    rw [htail]
    rfl

theorem sameDecoding_fill {st : PacketInterpretor} (hr : Running packetDefinitions st)
    {s f : List Byte} (hs : Consumed st s) (hf : ∀ b ∈ f, b ∈ unusedPacketBytes)
    (t : List Byte) :
    SameDecoding (feed packetDefinitions st (s ++ f ++ t))
      (feed packetDefinitions st (s ++ t)) := by
  have hboundary := (hr.feed packetDefinitions_wellFormed hs.halt).atBoundary
    packetDefinitions_wellFormed hs.not_in hs.accumulator
  have hfill := feed_fill hf hboundary
  have hft : feed packetDefinitions (feed packetDefinitions st s).st (f ++ t) =
      feed packetDefinitions ((feed packetDefinitions st s).st.counting
        ((feed packetDefinitions st s).st.internalByteIdx + f.length)) t := by
    rw [feed_append (by rw [hfill]), hfill]
    rfl
  have hcount := feed_counting packetDefinitions
    ((feed packetDefinitions st s).st.internalByteIdx + f.length) (feed packetDefinitions st s).st t
  rw [← hft] at hcount
  have hst := congrArg Result.st hcount
  have hout := congrArg Result.out hcount
  have hhalt := congrArg Result.halt hcount
  rw [SameDecoding, List.append_assoc, feed_append hs.halt, feed_append hs.halt]
  simp only [Result.map] at hst hout hhalt ⊢
  rw [hst, hout, hhalt]

/-! The payload of a partly written buffer. -/

theorem shippedPayload_eq {memory : BitVec 64 → Byte} {packetInfo : PacketInfo}
    (h : packetInfo.header.options.firstPacket = false) : shippedPayload memory packetInfo =
      readMemory memory packetInfo.payload.bufferAddress (10 * usnPageSize) := by
  have hlen := header_length packetInfo.header
  rw [shippedPayload, threadProc_eq, if_neg (by rw [h]; exact Bool.false_ne_true), ← hlen,
    List.drop_left]

theorem readMemory_add (memory : BitVec 64 → Byte) (address : BitVec 64) (m n : Nat) :
    readMemory memory address (m + n) = readMemory memory address m ++
      (List.range n).map fun i => memory (address + BitVec.ofNat 64 (m + i)) := by
  simp [readMemory, List.range_add]

theorem PartlyWritten.payload {memory : BitVec 64 → Byte} {packetInfo : PacketInfo}
    {bufferSize : Nat} (h : PartlyWritten memory packetInfo bufferSize) :
    ∃ f, (∀ b ∈ f, b ∈ unusedPacketBytes) ∧ shippedPayload memory packetInfo =
      readMemory memory packetInfo.payload.bufferAddress bufferSize ++ f := by
  obtain ⟨rest, hrest⟩ := Nat.exists_eq_add_of_le h.fits
  refine ⟨_, ?_, by rw [shippedPayload_eq h.not_first, hrest, readMemory_add]⟩
  intro b hb
  obtain ⟨i, hi, rfl⟩ := List.mem_map.mp hb
  have hlt := List.mem_range.mp hi
  rw [h.prefilled (bufferSize + i) (by omega) (by omega)]
  decide

/-- Fill is transparent to a fresh interpreter, whatever it is given to decode. -/
theorem fillTransparent_new (frequency base size : Option Nat) :
    FillTransparent (packetInterpretor packetDefinitions frequency base size) := by
  have hr := running_new packetDefinitions_wellFormed frequency base size
  refine ⟨fun s f t hs hf => sameDecoding_fill hr hs hf t, ?_⟩
  intro before memory packetInfo bufferSize t hbuffer hconsumed
  obtain ⟨f, hf, hpayload⟩ := hbuffer.payload
  rw [hpayload, ← List.append_assoc]
  exact sameDecoding_fill hr hconsumed hf t

end IntelPt.Decoder
