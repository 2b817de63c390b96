import IntelPt.Decoder.PacketInterpreter
import Mathlib.Data.List.Sort
import Mathlib.Logic.Function.Basic

/-! `parser` and the message loop of TraceDecoder.py, up to the list of decoded packets a
message yields. `parser` only calls `process_byte`, so the interpreter it feeds is a parameter.
A message is given by its unpacked header and the bytes after it. -/
namespace IntelPt.Decoder
open Transducer
variable {σ ω : Type*}

structure CachedPacket where
  bytes : List Byte
  packetId : Nat
  cpuId : Nat
  deriving DecidableEq, Repr

structure OrderList where
  lastPacketId : Nat := 0
  outOfOrderPackets : List CachedPacket := []
  deriving DecidableEq, Repr

abbrev PacketOrderLists := Nat → Option OrderList

/- `list.sort(key = lambda x: x[1])`, which is stable. -/
def sortByPacketId (packets : List CachedPacket) : List CachedPacket :=
  packets.insertionSort fun a b => a.packetId ≤ b.packetId

/- `out_of_order_packets[0] == last_packet_id + 1` compares a tuple with an integer, which
Python answers with False whatever the two are. -/
def cachedEqInt (_ : CachedPacket) (_ : Nat) : Bool := false

def drain (processByte : σ → Byte → Result σ ω PyError) :
    σ → Nat → List CachedPacket → Result (σ × OrderList) ω PyError
  | interpretor, lastPacketId, [] => { st := (interpretor, ⟨lastPacketId, []⟩) }
  | interpretor, lastPacketId, packet :: packets =>
    if cachedEqInt packet (lastPacketId + 1) then
      let r := run processByte interpretor packet.bytes
      match r.halt with
      | some e =>
        { st := (r.st, ⟨lastPacketId, packet :: packets⟩), out := r.out, halt := some e }
      | none =>
        let rest := drain processByte r.st packet.packetId packets
        { st := rest.st, out := r.out ++ rest.out, halt := rest.halt }
    else { st := (interpretor, ⟨lastPacketId, packet :: packets⟩) }

structure ParserState (σ : Type*) where
  interpretor : σ
  packetOrderLists : PacketOrderLists

def parser (processByte : σ → Byte → Result σ ω PyError) (bytes : List Byte)
    (sequenceId packetId cpuId : Nat) (st : ParserState σ) :
    Result (ParserState σ) ω PyError :=
  let order := (st.packetOrderLists sequenceId).getD {}
  let cached :=
    if packetId ≠ order.lastPacketId + 1 then
      sortByPacketId (order.outOfOrderPackets ++ [⟨bytes, packetId, cpuId⟩])
    else order.outOfOrderPackets
  let store (order : OrderList) : PacketOrderLists :=
    Function.update st.packetOrderLists sequenceId (some order)
  -- the packet is processed whether it was cached or not
  let r := run processByte st.interpretor bytes
  match r.halt with
  | some e =>
    { st := ⟨r.st, store ⟨order.lastPacketId, cached⟩⟩, out := r.out, halt := some e }
  | none =>
    let d := drain processByte r.st packetId cached
    { st := ⟨d.st.1, store d.st.2⟩, out := r.out ++ d.out, halt := d.halt }

theorem drain_eq (processByte : σ → Byte → Result σ ω PyError) (interpretor : σ)
    (lastPacketId : Nat) (packets : List CachedPacket) :
    drain processByte interpretor lastPacketId packets =
      { st := (interpretor, ⟨lastPacketId, packets⟩) } := by
  cases packets with
  | nil => rfl
  | cons packet packets => simp [drain, cachedEqInt]

def OrderList.after (order : OrderList) (bytes : List Byte) (packetId cpuId : Nat) : OrderList where
  lastPacketId := packetId
  outOfOrderPackets :=
    if packetId ≠ order.lastPacketId + 1 then
      sortByPacketId (order.outOfOrderPackets ++ [⟨bytes, packetId, cpuId⟩])
    else order.outOfOrderPackets

theorem parser_ok {processByte : σ → Byte → Result σ ω PyError} {bytes : List Byte}
    {st : ParserState σ} (h : (run processByte st.interpretor bytes).halt = none)
    (sequenceId packetId cpuId : Nat) :
    parser processByte bytes sequenceId packetId cpuId st =
      { st := ⟨(run processByte st.interpretor bytes).st,
          Function.update st.packetOrderLists sequenceId
            (some (((st.packetOrderLists sequenceId).getD {}).after bytes packetId cpuId))⟩,
        out := (run processByte st.interpretor bytes).out } := by
  simp only [parser, h, drain_eq, List.append_nil, OrderList.after]

theorem parser_interpretor (processByte : σ → Byte → Result σ ω PyError) (bytes : List Byte)
    (sequenceId packetId cpuId : Nat) (st : ParserState σ) :
    (parser processByte bytes sequenceId packetId cpuId st).st.interpretor =
        (run processByte st.interpretor bytes).st ∧
      (parser processByte bytes sequenceId packetId cpuId st).out =
        (run processByte st.interpretor bytes).out ∧
      (parser processByte bytes sequenceId packetId cpuId st).halt =
        (run processByte st.interpretor bytes).halt := by
  cases h : (run processByte st.interpretor bytes).halt with
  | some e => simp [parser, h]
  | none => simp [parser_ok h]

/-! The message loop. -/

inductive PacketType where
  | first | last | data
  deriving DecidableEq, Repr

structure MessageHeader where
  packetId : Nat
  cpuId : Nat
  sequenceId : Nat
  packetType : PacketType
  deriving DecidableEq, Repr

structure Message where
  header : MessageHeader
  body : List Byte
  deriving DecidableEq, Repr

def littleEndian : List Byte → Nat
  | [] => 0
  | b :: bs => b.toNat + 256 * littleEndian bs

structure FirstPacketValues where
  imageBaseAddress : Nat
  imageSize : Nat
  processorFrequency : Nat

/- `unpack("=QLQ", ..)`, which takes exactly 8 + 4 + 8 bytes. -/
def unpackFirst (body : List Byte) : Except PyError FirstPacketValues :=
  if body.length = 20 then
    .ok {
      imageBaseAddress := littleEndian (body.take 8)
      imageSize := littleEndian ((body.drop 8).take 4)
      processorFrequency := littleEndian (body.drop 12) }
  else .error .structError

structure TraceReader where
  interpretor : PacketInterpretor := packetInterpretor packetDefinitions
  sequenceInterpreters : Nat → Option PacketInterpretor := fun _ => none
  packetOrderLists : PacketOrderLists := fun _ => none

structure Decoded where
  sequenceId : Nat
  packets : List Packet
  deriving DecidableEq, Repr

def readMessage (st : TraceReader) (msg : Message) : Result TraceReader Decoded PyError :=
  let sequenceId := msg.header.sequenceId
  let finish (st : TraceReader) : Result TraceReader Decoded PyError :=
    let (packets, interpretor) := getSuccession st.interpretor
    { st := { st with interpretor := interpretor }, out := [⟨sequenceId, packets⟩] }
  match msg.header.packetType with
  | .first =>
    match unpackFirst msg.body with
    | .error e => { st := st, halt := some e }
    | .ok values =>
      finish { st with
        sequenceInterpreters := Function.update st.sequenceInterpreters sequenceId
          (some (packetInterpretor packetDefinitions values.processorFrequency
            values.imageBaseAddress values.imageSize))
        packetOrderLists := Function.update st.packetOrderLists sequenceId (some {}) }
  | .last | .data =>
    let r := parser (processByte packetDefinitions) msg.body sequenceId msg.header.packetId
      msg.header.cpuId ⟨st.interpretor, st.packetOrderLists⟩
    let st := { st with
      interpretor := r.st.interpretor, packetOrderLists := r.st.packetOrderLists }
    match r.halt with
    | some e => { st := st, halt := some e }
    | none => finish st

def readTrace : List Message → Result TraceReader Decoded PyError :=
  run readMessage {}

end IntelPt.Decoder
