import IntelPt.Decoder.IntelPacketDefinitions
import IntelPt.Lib.Transducer

/-! The byte-wise state machine of PacketInterpreter.py. The definition table is a parameter;
the program runs it on `packetDefinitions`. A step's outputs are the handler calls it makes. -/
namespace IntelPt.Decoder
open Transducer

structure PacketInterpretor where
  internalByteIdx : Nat := 0
  accumulator : List Byte := []
  currentCandidates : List PacketDefinition
  headerIndex : Nat := 0
  succession : List Packet := []
  inPacket : Bool := false
  currentPacket : Option PacketDefinition := none
  currentPacketLength : Nat := 0
  context : Context := {}
  procFrequency : Option Nat := none
  imgBase : Option Nat := none
  imgSize : Option Nat := none

def packetInterpretor (table : List PacketDefinition)
    (processorFrequency imageBase imageSize : Option Nat := none) : PacketInterpretor :=
  { currentCandidates := table, procFrequency := processorFrequency, imgBase := imageBase,
    imgSize := imageSize }

structure HandlerCall where
  definition : PacketDefinition
  packetName : PacketName
  packetData : List Byte

/-- The loop of __search_header over the candidates that are left. Raising in the length
computation leaves the state with the packet entered and the old length. -/
def searchLoop (byte : Byte) (st : PacketInterpretor) :
    List PacketDefinition → List PacketDefinition →
      PacketInterpretor × List PacketDefinition × Option PyError
  | [], newCandidates => (st, newCandidates, none)
  | d :: ds, newCandidates =>
    match d.packetHeader[st.headerIndex]? with
    | none => (st, newCandidates, some .indexError)
    | some pattern =>
      if validateHeaderByte byte pattern then
        if st.headerIndex + 1 = d.packetHeader.length then
          let st := { st with headerIndex := 0, inPacket := true, currentPacket := some d }
          match d.packetLength.eval st.accumulator with
          | .error e => (st, [], some e)
          | .ok n => ({ st with currentPacketLength := n }, [], none)
        else searchLoop byte st ds (newCandidates ++ [d])
      else searchLoop byte st ds newCandidates

def searchHeader (byte : Byte) (st : PacketInterpretor) : PacketInterpretor × Option PyError :=
  match searchLoop byte st st.currentCandidates [] with
  | (st, _, some e) => (st, some e)
  | (st, newCandidates, none) =>
    if st.inPacket then (st, none)
    else ({ st with headerIndex := st.headerIndex + 1, currentCandidates := newCandidates }, none)

/- What the succession gets from a handler result. -/
def HandlerResult.packets : HandlerResult → List Packet
  | .one packet => [packet]
  | .list packets => packets

theorem HandlerResult.forall_mem_one {P : Packet → Prop} {packet : Packet} (h : P packet) :
    ∀ el ∈ (HandlerResult.one packet).packets, P el := by
  intro el hel
  rw [List.mem_singleton.mp hel]
  exact h

def completePacket (table : List PacketDefinition) (st : PacketInterpretor) :
    Result PacketInterpretor HandlerCall PyError :=
  match st.currentPacket with
  | none => { st := st }
  | some d =>
    if st.currentPacketLength ≤ st.accumulator.length then
      let boundary (st : PacketInterpretor) : PacketInterpretor :=
        { st with inPacket := false, accumulator := [], currentCandidates := table,
                  headerIndex := 0 }
      match d.handle with
      | none =>
        -- `result` was never assigned
        if st.context.disableInterpreting then { st := boundary st }
        else { st := st, halt := some .unboundLocalError }
      | some handle =>
        let call : HandlerCall := ⟨d, d.packetName, st.accumulator⟩
        match handle st.accumulator d.packetName st.context with
        | .error e => { st := st, out := [call], halt := some e }
        | .ok (result, context) =>
          let st := { st with context := context }
          if context.disableInterpreting then { st := boundary st, out := [call] }
          else
            { st := boundary { st with succession := st.succession ++ result.packets },
              out := [call] }
    else { st := st }

def processByte (table : List PacketDefinition) (st : PacketInterpretor) (byte : Byte) :
    Result PacketInterpretor HandlerCall PyError :=
  let st := { st with internalByteIdx := st.internalByteIdx + 1 }
  if st.inPacket then
    completePacket table { st with accumulator := st.accumulator ++ [byte] }
  else if byte ∈ unusedPacketBytes then
    if st.currentCandidates.length ≠ table.length ∧ st.currentCandidates.length ≠ 0 then
      { st := { st with currentCandidates := table, accumulator := [], headerIndex := 0 } }
    else { st := st }
  else
    match searchHeader byte { st with accumulator := st.accumulator ++ [byte] } with
    | (st, some e) => { st := st, halt := some e }
    | (st, none) => completePacket table st

def feed (table : List PacketDefinition) :
    PacketInterpretor → List Byte → Result PacketInterpretor HandlerCall PyError :=
  run (processByte table)

theorem feed_singleton (table : List PacketDefinition) (st : PacketInterpretor) (b : Byte) :
    feed table st [b] = processByte table st b :=
  run_singleton st b

theorem feed_append {table : List PacketDefinition} {st : PacketInterpretor} {bs : List Byte}
    (h : (feed table st bs).halt = none) (cs : List Byte) :
    feed table st (bs ++ cs) =
      { st := (feed table (feed table st bs).st cs).st,
        out := (feed table st bs).out ++ (feed table (feed table st bs).st cs).out,
        halt := (feed table (feed table st bs).st cs).halt } :=
  run_append h cs

theorem feed_out_prefix (table : List PacketDefinition) (st : PacketInterpretor)
    (bs cs : List Byte) : (feed table st bs).out <+: (feed table st (bs ++ cs)).out :=
  run_out_prefix st bs cs

def getSuccession (st : PacketInterpretor) : List Packet × PacketInterpretor :=
  (st.succession, { st with succession := [] })

end IntelPt.Decoder
