import IntelPt.Decoder.Recovery
import IntelPt.Lib.Conservation

/-! Where the bytes of a stream go, be it well formed or not. The accumulator collects them and
the handlers get them; only a fill byte can take some away. -/
namespace IntelPt.Decoder
open Transducer
variable {table : List PacketDefinition}

def collectedBytes (r : Result PacketInterpretor HandlerCall PyError) : List Byte :=
  r.contents HandlerCall.packetData PacketInterpretor.accumulator

/-- A byte is read, unless it is fill and comes outside of a packet. -/
def reads (st : PacketInterpretor) (byte : Byte) : List Byte :=
  if !st.inPacket && unusedPacketBytes.contains byte then [] else [byte]

def readBytes (table : List PacketDefinition) : PacketInterpretor → List Byte → List Byte :=
  readAll (processByte table) reads

/-- The byte is fill, and comes when the header of some candidate has been read in part. -/
def Interrupts (st : PacketInterpretor) (byte : Byte) : Prop :=
  st.inPacket = false ∧ byte ∈ unusedPacketBytes ∧ st.accumulator ≠ [] ∧
    st.currentCandidates ≠ []

/-! One byte. -/

/-- Calling the handler moves the accumulator into the call. -/
theorem completePacket_collected (ht : TableWellFormed table) (st : PacketInterpretor)
    (hm : ∀ d, st.currentPacket = some d → d ∈ table) :
    ((completePacket table st).out.flatMap (·.packetData)).Sublist st.accumulator ∧
      ((completePacket table st).halt = none →
        collectedBytes (completePacket table st) = st.accumulator) := by
  by_cases hw : ∀ d, st.currentPacket = some d → st.accumulator.length < st.currentPacketLength
  · rw [completePacket_wait hw]
    exact ⟨List.nil_sublist _, fun _ => rfl⟩
  · push Not at hw
    obtain ⟨d, hc, hl⟩ := hw
    obtain ⟨handle, hd⟩ := Option.isSome_iff_exists.mp (ht.has_handle d (hm d hc))
    have hout : (completePacket table st).out.flatMap (·.packetData) = st.accumulator := by
      rw [completePacket_fire_out hc hl hd]
      exact List.append_nil _
    refine ⟨hout ▸ List.Sublist.refl _, fun hh => ?_⟩
    obtain ⟨hsame, hlt⟩ | ⟨hb, -⟩ := completePacket_cases ht st hm hh
    · exact absurd (hlt d hc) (Nat.not_lt.mpr hl)
    · rw [collectedBytes, Result.contents, hb.accumulator, List.append_nil]
      exact hout

/-- A byte that is no fill between packets goes into the accumulator. -/
theorem processByte_collected (ht : TableWellFormed table) {st : PacketInterpretor} {byte : Byte}
    (hr : Running table st) (h : ¬ (st.inPacket = false ∧ byte ∈ unusedPacketBytes)) :
    ((processByte table st byte).out.flatMap (·.packetData)).Sublist (st.accumulator ++ [byte]) ∧
      ((processByte table st byte).halt = none →
        collectedBytes (processByte table st byte) = st.accumulator ++ [byte]) := by
  cases hin : st.inPacket with
  | true =>
    rw [processByte_buffer hin]
    exact completePacket_collected ht (buffered st byte) hr.current_mem
  | false =>
    have hs := hr.searching hin
    have hfill : byte ∉ unusedPacketBytes := fun hb => h ⟨hin, hb⟩
    by_cases hc : ∃ d ∈ st.currentCandidates, completes byte st.headerIndex d = true
    · obtain ⟨d, hd, -, ⟨e, -, hout, hhalt⟩ | ⟨n, -, heq⟩⟩ := processByte_enter hs hfill hc
      · rw [hout, hhalt]
        exact ⟨List.nil_sublist _, fun hnone => by cases hnone⟩
      · rw [heq]
        refine completePacket_collected ht (entered st byte d n) fun e he => ?_
        cases he
        exact hd
    · have hnc : ∀ d ∈ st.currentCandidates, completes byte st.headerIndex d = false :=
        fun d hd => Bool.eq_false_iff.mpr fun hcd => hc ⟨d, hd, hcd⟩
      rw [processByte_narrow hs hfill hnc]
      exact completePacket_collected ht (narrowed st byte) hr.current_mem

/-- Fill outside of packets empties the accumulator if it interrupts a header, and leaves it
otherwise. -/
theorem processByte_fill_accumulator {longest : Nat} (hw : PacketsWithin table longest)
    {st : PacketInterpretor} (hs : Searching table st) {byte : Byte}
    (hb : byte ∈ unusedPacketBytes) : (Interrupts st byte ∧
        (processByte table st byte).st.accumulator = []) ∨
      (¬ Interrupts st byte ∧ (processByte table st byte).st.accumulator = st.accumulator) := by
  by_cases hi : Interrupts st byte
  · left
    refine ⟨hi, ?_⟩
    obtain ⟨-, -, hread, hcandidates⟩ := hi
    obtain hat | hat := hs.feed_zero hw hcandidates
    · exact absurd hat.accumulator hread
    · -- both fill bytes are treated alike
      have hsame : (feed table st [0x00]).st = (processByte table st byte).st := by
        have hzero : (0x00 : Byte) ∈ unusedPacketBytes := by decide
        simp only [feed_singleton, processByte, hs.not_in, Bool.false_eq_true, if_false, hb,
          hzero, if_true]
      rw [← hsame]
      exact hat.accumulator
  · right
    refine ⟨hi, ?_⟩
    simp only [processByte, hs.not_in, Bool.false_eq_true, if_false, hb, if_true]
    split
    · next hreset =>
      have hcandidates : st.currentCandidates ≠ [] := fun hnil => hreset.2 (by rw [hnil]; rfl)
      by_contra hread
      exact hi ⟨hs.not_in, hb, Ne.symm hread, hcandidates⟩
    · rfl

/-- A byte is lost in one way only. -/
theorem processByte_conserves (ht : TableWellFormed table) {longest : Nat}
    (hw : PacketsWithin table longest) {st : PacketInterpretor} {byte : Byte}
    (hr : Running table st) (hh : (processByte table st byte).halt = none) :
    Conserves HandlerCall.packetData PacketInterpretor.accumulator reads
      (fun st byte => ¬ Interrupts st byte) st byte (processByte table st byte) := by
  by_cases hfill : st.inPacket = false ∧ byte ∈ unusedPacketBytes
  · have hreads : reads st byte = [] := by simp [reads, hfill]
    have hs := hr.searching hfill.1
    have hout := (processByte_fill ht hs hfill.2).1
    have hcontents : (processByte table st byte).contents HandlerCall.packetData
        PacketInterpretor.accumulator = (processByte table st byte).st.accumulator := by
      rw [Result.contents, hout, List.flatMap_nil, List.nil_append]
    obtain ⟨hi, hempty⟩ | ⟨hi, hsame⟩ := processByte_fill_accumulator hw hs hfill.2
    · refine ⟨?_, iff_of_false (fun heq => hi.2.2.1 ?_) (not_not.mpr hi)⟩
      · rw [hcontents, hempty]
        exact List.nil_sublist _
      · rw [hcontents, hempty, hreads, List.append_nil] at heq
        exact heq.symm
    · have heq : (processByte table st byte).contents HandlerCall.packetData
          PacketInterpretor.accumulator = st.accumulator ++ reads st byte := by
        rw [hcontents, hsame, hreads, List.append_nil]
      exact ⟨heq ▸ List.Sublist.refl _, iff_of_true heq hi⟩
  · have hreads : reads st byte = [byte] := if_neg (by simpa using hfill)
    have heq := (processByte_collected ht hr hfill).2 hh
    have hi : ¬ Interrupts st byte := fun hi => hfill ⟨hi.1, hi.2.1⟩
    rw [← hreads] at heq
    exact ⟨heq ▸ List.Sublist.refl _, iff_of_true heq hi⟩

theorem processByte_out_sublist (ht : TableWellFormed table) {st : PacketInterpretor} {byte : Byte}
    (hr : Running table st) : ((processByte table st byte).out.flatMap (·.packetData)).Sublist
      (st.accumulator ++ [byte]) := by
  by_cases hfill : st.inPacket = false ∧ byte ∈ unusedPacketBytes
  · rw [(processByte_fill ht (hr.searching hfill.1) hfill.2).1]
    exact List.nil_sublist _
  · exact (processByte_collected ht hr hfill).1

theorem reads_sublist (st : PacketInterpretor) (byte : Byte) : (reads st byte).Sublist [byte] := by
  rw [reads]
  split
  · exact List.nil_sublist _
  · exact List.Sublist.refl _

/-! A whole stream. -/

/-- The handlers get bytes of the stream in the order of the stream and none of them twice,
whatever the stream is. Without an exception every byte that is not fill outside of packets is
with a handler or in the accumulator, if and only if no fill byte interrupts a header. -/
theorem bytes_conserved_of_table (ht : TableWellFormed table) {longest : Nat}
    (hw : PacketsWithin table longest) (frequency base size : Option Nat) (stream : List Byte) :
    let fresh := packetInterpretor table frequency base size
    let r := feed table fresh stream
    (r.out.flatMap (·.packetData)).Sublist stream ∧
      (r.halt = none →
        (collectedBytes r).Sublist (readBytes table fresh stream) ∧
        (collectedBytes r = readBytes table fresh stream ↔
          Meets (processByte table) (fun st byte => ¬ Interrupts st byte) fresh stream)) := by
  have hnew := running_new ht frequency base size
  have hinv : ∀ st byte, Running table st → (processByte table st byte).halt = none →
      Running table (processByte table st byte).st := fun _ _ hr hh => hr.step ht hh
  have hstep : ∀ st byte, Running table st → (processByte table st byte).halt = none →
      Conserves HandlerCall.packetData PacketInterpretor.accumulator reads
        (fun st byte => ¬ Interrupts st byte) st byte (processByte table st byte) :=
    fun _ _ hr hh => processByte_conserves ht hw hr hh
  refine ⟨?_, fun hh => ⟨?_, ?_⟩⟩
  · exact out_sublist (Running table) hinv hstep reads_sublist
      (fun _ _ hr => processByte_out_sublist ht hr) stream hnew
  · exact contents_sublist (Running table) hinv hstep stream hnew hh
  · exact contents_eq_iff_meets (Running table) hinv hstep stream hnew hh

theorem bytes_conserved (frequency base size : Option Nat) (stream : List Byte) :
    let fresh := packetInterpretor packetDefinitions frequency base size
    let r := feed packetDefinitions fresh stream
    (r.out.flatMap (·.packetData)).Sublist stream ∧
      (r.halt = none →
        (collectedBytes r).Sublist (readBytes packetDefinitions fresh stream) ∧
        (collectedBytes r = readBytes packetDefinitions fresh stream ↔
          Meets (processByte packetDefinitions) (fun st byte => ¬ Interrupts st byte)
            fresh stream)) :=
  bytes_conserved_of_table packetDefinitions_wellFormed packetDefinitions_within ..

theorem bytes_conserved_fill :
    let fresh := packetInterpretor packetDefinitions
    Meets (processByte packetDefinitions) (fun st byte => ¬ Interrupts st byte) fresh
        [0x00, 0x19, 0x00, 0xFF, 0, 0, 0, 0, 0, 0xFF, 0x06] ∧
      ¬ Meets (processByte packetDefinitions) (fun st byte => ¬ Interrupts st byte) fresh
        [0x02, 0xFF, 0x06] := by
  intro fresh
  obtain ⟨-, hkept⟩ := bytes_conserved none none none
    [0x00, 0x19, 0x00, 0xFF, 0, 0, 0, 0, 0, 0xFF, 0x06]
  obtain ⟨-, hlost⟩ := bytes_conserved none none none [0x02, 0xFF, 0x06]
  refine ⟨(hkept rfl).2.mp rfl, fun hmeets => ?_⟩
  have heq : [(0x06 : Byte)] = [0x02, 0x06] := (hlost rfl).2.mpr hmeets
  cases heq

end IntelPt.Decoder
