import IntelPt.Decoder.BranchOutcomes
import IntelPt.Decoder.IpCompression
import IntelPt.Decoder.Synchronisation

/-! What a trace says, and that the decoder finds it out. A trace is a list of events; its meaning
is given without bytes, its encoding without a decoder. -/
namespace IntelPt.Decoder
open HeaderCode Transducer

inductive TraceEvent where
  /-- conditional branches, in a short TNT packet -/
  | branches (outcomes : TntOutcomes .short)
  /-- FUP and the three TIP packets -/
  | ip (event : IpEvent)
  /-- MODE.Exec -/
  | exec (interruptFlag csd cslLma : Bool)
  /-- MODE.TSX -/
  | tsx (txAbort inTx : Bool)
  /-- TSC -/
  | time (value : BitVec 56)
  /-- CBR -/
  | frequency (ratio reserved : Byte)
  | psb
  | psbend
  /-- any packet the decoder has no class for -/
  | unclassified (packet : IntelPacket)
  | fill (byte : Byte)

/-! The encoding. -/

def execByte (interruptFlag csd cslLma : Bool) : Byte :=
  BitVec.ofNat 8 (4 * interruptFlag.toNat + 2 * csd.toNat + cslLma.toNat)

def tsxByte (txAbort inTx : Bool) : Byte :=
  BitVec.ofNat 8 (0x20 + 2 * txAbort.toNat + inTx.toNat)

def psbHeader : List Byte := (List.replicate 7 [0x02, 0x82]).flatten

def TraceEvent.pieces : TraceEvent → List Byte × List Byte
  | .branches outcomes => (tntBytes .short outcomes.taken, [])
  | .ip event => ([event.header], event.payload)
  | .exec interruptFlag csd cslLma => ([0x99], [execByte interruptFlag csd cslLma])
  | .tsx txAbort inTx => ([0x99], [tsxByte txAbort inTx])
  | .time value => ([0x19], LittleEndian.bytes 7 value.toNat)
  | .frequency ratio reserved => ([0x02, 0x03], [ratio, reserved])
  | .psb => (psbHeader, [0x02, 0x82])
  | .psbend => ([0x02, 0x23], [])
  | .unclassified packet => (packet.header, packet.payload)
  | .fill byte => ([], [byte])

def TraceEvent.bytes (event : TraceEvent) : List Byte := event.pieces.1 ++ event.pieces.2

def encodeEvents (events : List TraceEvent) : List Byte := events.flatMap TraceEvent.bytes

/-! The meaning. -/

structure Knowledge where
  time : Option Nat := none
  last : Option Address := none
  inGroup : Bool := false
  deriving DecidableEq, Repr

def TraceEvent.next (k : Knowledge) : TraceEvent → Knowledge
  | .ip event => { k with last := event.address.or k.last }
  | .time value => { k with time := some value.toNat }
  | .psb => { k with inGroup := true }
  | .psbend => { k with inGroup := false }
  | _ => k

def TraceEvent.tells (time : Option Nat) : TraceEvent → List Packet
  | .branches outcomes => outcomes.taken.map fun taken => packetTnt taken time
  | .ip event =>
    [⟨event.kind.packetId, time,
      .tip event.compression.code (event.address.map BitVec.toNat)⟩]
  | .exec interruptFlag csd cslLma => [⟨.mode, time, .mode (.exec interruptFlag csd cslLma)⟩]
  | .tsx txAbort inTx => [⟨.mode, time, .mode (.tsx txAbort inTx)⟩]
  | .time _ => [⟨.tsc, time, .base⟩]
  | .frequency ratio _ => [⟨.cbr, time, .cbr ratio⟩]
  | .psb => [⟨.psb, time, .base⟩]
  | .psbend => [⟨.psbend, time, .base⟩]
  | .unclassified _ => [⟨.undefined, none, .base⟩]
  | .fill _ => []

/-- Of a PSB..PSBEND group only the end is told. -/
def meaning : Knowledge → List TraceEvent → List Packet
  | _, [] => []
  | k, event :: events =>
    (if (event.next k).inGroup then [] else event.tells (event.next k).time) ++
      meaning (event.next k) events

/-! Which traces there are. -/

def TraceEvent.Possible (k : Knowledge) : TraceEvent → Prop
  | .ip event => event.Valid k.last
  | .exec _ csd cslLma => ¬ (csd = true ∧ cslLma = true)
  | .unclassified packet => packet.definition.handle = some placeholderFunction
  | .fill byte => byte ∈ unusedPacketBytes
  | _ => True

def PossibleTrace : Knowledge → List TraceEvent → Prop
  | _, [] => True
  | k, event :: events => event.Possible k ∧ PossibleTrace (event.next k) events

/-- No header is longer than the packet before it, fill aside. -/
def HeadersFit : Option Nat → List TraceEvent → Prop
  | _, [] => True
  | before, event :: events =>
    (∀ n ∈ before, event.pieces.1.length ≤ n) ∧
      HeadersFit (if event.pieces.1 = [] then before else some event.bytes.length) events

instance HeadersFit.decidable : ∀ before events, Decidable (HeadersFit before events)
  | _, [] => isTrue trivial
  | before, event :: events =>
    have := HeadersFit.decidable
      (if event.pieces.1 = [] then before else some event.bytes.length) events
    inferInstanceAs (Decidable (_ ∧ _))

/-! A trace that goes on. -/

theorem PossibleTrace.of_append {earlier later : List TraceEvent} : ∀ {k : Knowledge},
    PossibleTrace k (earlier ++ later) → PossibleTrace k earlier := by
  induction earlier with
  | nil => exact fun _ => trivial
  | cons event earlier ih => exact fun h => ⟨h.1, ih h.2⟩

theorem HeadersFit.of_append {earlier later : List TraceEvent} : ∀ {before : Option Nat},
    HeadersFit before (earlier ++ later) → HeadersFit before earlier := by
  induction earlier with
  | nil => exact fun _ => trivial
  | cons event earlier ih => exact fun h => ⟨h.1, ih h.2⟩

theorem meaning_append (earlier later : List TraceEvent) : ∀ k : Knowledge,
    meaning k (earlier ++ later) =
      meaning k earlier ++ meaning (earlier.foldl TraceEvent.next k) later := by
  induction earlier with
  | nil => exact fun _ => rfl
  | cons event earlier ih =>
    intro k
    rw [List.cons_append, meaning, meaning, ih, List.foldl_cons, List.append_assoc]

/-! Padding says nothing. -/

section

variable {byte : Byte}

theorem encodeEvents_fill (n : Nat) (rest : List TraceEvent) :
    encodeEvents (List.replicate n (.fill byte) ++ rest) =
      List.replicate n byte ++ encodeEvents rest := by
  induction n with
  | zero => rfl
  | succ n ih =>
    rw [List.replicate_succ, List.replicate_succ, List.cons_append, List.cons_append, ← ih]
    rfl

theorem possibleTrace_fill (hbyte : byte ∈ unusedPacketBytes) (n : Nat) {k : Knowledge}
    {rest : List TraceEvent} (h : PossibleTrace k rest) :
    PossibleTrace k (List.replicate n (.fill byte) ++ rest) := by
  induction n with
  | zero => exact h
  | succ n ih => exact ⟨hbyte, ih⟩

theorem headersFit_fill (n : Nat) {before : Option Nat} {rest : List TraceEvent}
    (h : HeadersFit before rest) : HeadersFit before (List.replicate n (.fill byte) ++ rest) := by
  induction n with
  | zero => exact h
  | succ n ih => exact ⟨fun m _ => Nat.zero_le m, ih⟩

theorem meaning_fill (k : Knowledge) (n : Nat) (rest : List TraceEvent) :
    meaning k (List.replicate n (.fill byte) ++ rest) = meaning k rest := by
  induction n with
  | zero => rfl
  | succ n ih =>
    rw [List.replicate_succ, List.cons_append, meaning, ← ih]
    exact congrArg (· ++ _) (ite_self _)

end

/-! One event. -/

structure Context.Holds (c : Context) (k : Knowledge) : Prop where
  time : c.tsc = k.time
  last : c.lastIp = k.last.map BitVec.toNat
  gate : c.disableInterpreting = k.inGroup

structure Told (event : TraceEvent) (k : Knowledge) (c : Context) (packet : IntelPacket)
    (handle : Handler) (result : HandlerResult) (c' : Context) : Prop where
  bytes : packet.bytes = event.bytes
  header : packet.header.length = event.pieces.1.length
  handler : packet.definition.handle = some handle
  handled : handle packet.bytes packet.definition.packetName c = .ok (result, c')
  holds : c'.Holds (event.next k)
  tells : result.packets = event.tells (event.next k).time

section

variable {k : Knowledge} {c : Context}

theorem told_branches (hc : c.Holds k) (outcomes : TntOutcomes .short) :
    ∃ packet handle result c', Told (.branches outcomes) k c packet handle result c' := by
  obtain ⟨q, hq, hheader, hh⟩ := exists_tntPacket outcomes
  have hr := tntPacketHandler_short outcomes.fits q.definition.packetName c
  refine ⟨q, _, _, _, ?_, hheader, hh, by rw [hq]; exact hr, hc, ?_⟩
  · rw [hq, TraceEvent.bytes, TraceEvent.pieces, List.append_nil]
  · rw [hc.time]
    rfl

theorem told_ip (hc : c.Holds k) {event : IpEvent} (hv : event.Valid k.last) :
    ∃ packet handle result c', Told (.ip event) k c packet handle result c' := by
  obtain ⟨d, hd, hn, hh, hs, hl⟩ := ip_definition event.kind event.compression
  obtain ⟨packet, hr, hid, hfields⟩ := fupTip_valid hv hc.last
  obtain ⟨_, _, _, -, hone, -⟩ := fupTipPacketHandler_ok hr
  have htsc : packet.tsc = c.tsc := by
    cases hone
    rfl
  rw [← hn] at hr
  rw [← payload_length hv] at hl
  refine ⟨⟨d, hd, [event.header], event.payload, hs, hl⟩, _, _, _, rfl, rfl, hh, hr,
    ⟨hc.time, rfl, hc.gate⟩, ?_⟩
  have hpacket : packet = ⟨event.kind.packetId, k.time,
      .tip event.compression.code (event.address.map BitVec.toNat)⟩ := by
    rw [← hid, ← hfields, ← hc.time, ← htsc]
  rw [hpacket]
  rfl

theorem told_mode {event : TraceEvent} {payload : Byte} (fields : PacketFields)
    (hevent : event.pieces = ([0x99], [payload])) (hnext : event.next k = k)
    (htells : event.tells k.time = [⟨.mode, k.time, fields⟩]) (hc : c.Holds k)
    (hmode : packetMode payload c.tsc = .ok ⟨.mode, c.tsc, fields⟩) :
    ∃ packet handle result c', Told event k c packet handle result c' := by
  let d : PacketDefinition := ⟨.mode, [.bits ['1', '0', '0', '1', '1', '0', '0', '1']], .const 2,
    some modePacketHandler⟩
  have hd : d ∈ packetDefinitions := by simp [d, packetDefinitions]
  have hr : ∃ c', modePacketHandler [0x99, payload] .mode c =
      .ok (.one ⟨.mode, c.tsc, fields⟩, c') ∧ c'.Holds k := by
    simp only [modePacketHandler, List.getElem?_cons_succ, List.getElem?_cons_zero, hmode]
    split
    · exact ⟨_, rfl, hc.time, hc.last, hc.gate⟩
    · exact ⟨_, rfl, hc⟩
  obtain ⟨c', hr, hc'⟩ := hr
  refine ⟨⟨d, hd, [0x99], [payload], by decide, rfl⟩, _, _, _, ?_, ?_, rfl, hr, ?_, ?_⟩
  · rw [TraceEvent.bytes, hevent]
    rfl
  · rw [hevent]
  · rw [hnext]
    exact hc'
  · rw [hnext, htells, ← hc.time]
    rfl

theorem told_time (hc : c.Holds k) (value : BitVec 56) :
    ∃ packet handle result c', Told (.time value) k c packet handle result c' := by
  let d : PacketDefinition := ⟨.tsc, [.bits ['0', '0', '0', '1', '1', '0', '0', '1']], .const 8,
    some tscPacketHandler⟩
  have hd : d ∈ packetDefinitions := by simp [d, packetDefinitions]
  have hl : d.packetLength.eval [0x19] =
      .ok (1 + (LittleEndian.bytes 7 value.toNat).length) := by
    rw [LittleEndian.bytes_length]
    rfl
  have hvalue : packetTsc (0x19 :: LittleEndian.bytes 7 value.toNat) =
      ⟨.tsc, some value.toNat, .base⟩ := by
    have hlt : value.toNat < 256 ^ 7 := value.isLt
    simp only [packetTsc, List.drop_succ_cons, List.drop_zero, foldBytes_bytes,
      Nat.mod_eq_of_lt hlt, packetBase]
  have hr : tscPacketHandler (0x19 :: LittleEndian.bytes 7 value.toNat) .tsc c =
      .ok (.one ⟨.tsc, some value.toNat, .base⟩, { c with tsc := some value.toNat }) := by
    rw [tscPacketHandler, hvalue]
  exact ⟨⟨d, hd, [0x19], LittleEndian.bytes 7 value.toNat, by decide, hl⟩, _, _, _, rfl, rfl, rfl,
    hr, ⟨rfl, hc.last, hc.gate⟩, rfl⟩

theorem told_frequency (hc : c.Holds k) (ratio reserved : Byte) :
    ∃ packet handle result c', Told (.frequency ratio reserved) k c packet handle result c' := by
  let d : PacketDefinition := ⟨.cbr, [extended, .bits ['0', '0', '0', '0', '0', '0', '1', '1']],
    .const 4, some cbrPacketHandler⟩
  have hd : d ∈ packetDefinitions := by simp [d, packetDefinitions]
  refine ⟨⟨d, hd, [0x02, 0x03], [ratio, reserved], by decide, rfl⟩, _, _, _, rfl, rfl, rfl, rfl,
    hc, ?_⟩
  rw [hc.time]
  rfl

theorem told_psb (hc : c.Holds k) :
    ∃ packet handle result c', Told .psb k c packet handle result c' := by
  refine ⟨⟨packetDefinitions[15], List.getElem_mem _, psbHeader, [0x02, 0x82], by decide, rfl⟩,
    _, _, _, rfl, rfl, rfl, rfl, ⟨hc.time, hc.last, rfl⟩, ?_⟩
  rw [hc.time]
  rfl

theorem told_psbend (hc : c.Holds k) :
    ∃ packet handle result c', Told .psbend k c packet handle result c' := by
  refine ⟨psbendPacket, _, _, _, rfl, rfl, rfl, rfl, ⟨hc.time, hc.last, rfl⟩, ?_⟩
  rw [hc.time]
  rfl

theorem exists_told (hc : c.Holds k) {event : TraceEvent} (hp : event.Possible k)
    (hheader : event.pieces.1 ≠ []) :
    ∃ packet handle result c', Told event k c packet handle result c' := by
  cases event with
  | branches outcomes => exact told_branches hc outcomes
  | ip event => exact told_ip hc hp
  | exec interruptFlag csd cslLma =>
    refine told_mode (.mode (.exec interruptFlag csd cslLma)) rfl rfl rfl hc ?_
    cases interruptFlag <;> cases csd <;> cases cslLma <;>
      first | rfl | exact absurd ⟨rfl, rfl⟩ hp
  | tsx txAbort inTx =>
    refine told_mode (.mode (.tsx txAbort inTx)) rfl rfl rfl hc ?_
    cases txAbort <;> cases inTx <;> rfl
  | time value => exact told_time hc value
  | frequency ratio reserved => exact told_frequency hc ratio reserved
  | psb => exact told_psb hc
  | psbend => exact told_psbend hc
  | unclassified packet => exact ⟨packet, _, _, _, rfl, rfl, hp, rfl, hc, rfl⟩
  | fill byte => exact absurd rfl hheader

end

/-! Whole traces. -/

structure Knows (st : PacketInterpretor) (k : Knowledge) (before : Option Nat) : Prop where
  boundary : AtBoundary packetDefinitions st
  remembered : ∀ d, st.currentPacket = some d → before = some st.currentPacketLength
  holds : st.context.Holds k

theorem knows_new (frequency base size : Option Nat) :
    Knows (packetInterpretor packetDefinitions frequency base size) {} none :=
  ⟨atBoundary_new packetDefinitions frequency base size, fun d hd => by (cases hd), rfl, rfl, rfl⟩

structure Learnt (st : PacketInterpretor) (bytes : List Byte) (k : Knowledge)
    (before : Option Nat) (packets : List Packet) : Prop where
  halt : (feed packetDefinitions st bytes).halt = none
  knows : Knows (feed packetDefinitions st bytes).st k before
  succession : (feed packetDefinitions st bytes).st.succession = st.succession ++ packets

theorem learn_fill {st : PacketInterpretor} {k : Knowledge} {before : Option Nat}
    (h : Knows st k before) {byte : Byte} (hb : byte ∈ unusedPacketBytes) :
    Learnt st [byte] k before [] := by
  have hfeed : feed packetDefinitions st [byte] =
      { st := { st with internalByteIdx := st.internalByteIdx + 1 } } := by
    rw [feed_singleton]
    simp [processByte, h.boundary.not_in, hb, h.boundary.candidates]
  refine ⟨by rw [hfeed], ?_, by rw [hfeed]; simp⟩
  rw [hfeed]
  exact ⟨⟨h.boundary.not_in, h.boundary.accumulator, h.boundary.candidates, h.boundary.index⟩,
    h.remembered, h.holds⟩

theorem learn_packet {st : PacketInterpretor} {k : Knowledge} {before : Option Nat}
    (h : Knows st k before) {event : TraceEvent}
    (hfit : ∀ n ∈ before, event.pieces.1.length ≤ n) {packet : IntelPacket} {handle : Handler}
    {result : HandlerResult} {c' : Context}
    (ht : Told event k st.context packet handle result c') :
    Learnt st event.bytes (event.next k) (some event.bytes.length)
      (if (event.next k).inGroup then [] else event.tells (event.next k).time) := by
  have hremembered : ∀ d, st.currentPacket = some d →
      packet.header.length ≤ st.currentPacketLength := by
    intro d hd
    rw [ht.header]
    exact hfit _ (h.remembered d hd)
  have hd := feed_packet packetDefinitions_wellFormed packet h.boundary hremembered ht.handler
    ht.handled
  have hemission := hd.emission ht.handler ht.handled
  rw [ht.bytes] at hd hemission
  refine ⟨hd.halt, ⟨hd.boundary, fun _ _ => by rw [hd.currentPacketLength],
    by rw [hd.context]; exact ht.holds⟩, ?_⟩
  have hsuccession := congrArg Emission.succession hemission
  rw [Emission.accept, ht.holds.gate, ht.tells] at hsuccession
  refine hsuccession.trans ?_
  cases (event.next k).inGroup with
  | true => exact (List.append_nil _).symm
  | false => rfl

theorem learn_event {st : PacketInterpretor} {k : Knowledge} {before : Option Nat}
    (h : Knows st k before) {event : TraceEvent} (hp : event.Possible k)
    (hfit : ∀ n ∈ before, event.pieces.1.length ≤ n) :
    Learnt st event.bytes (event.next k)
      (if event.pieces.1 = [] then before else some event.bytes.length)
      (if (event.next k).inGroup then [] else event.tells (event.next k).time) := by
  by_cases hheader : event.pieces.1 = []
  · cases event with
    | fill byte =>
      have htold : (if (TraceEvent.next k (.fill byte)).inGroup then []
          else TraceEvent.tells (TraceEvent.next k (.fill byte)).time (.fill byte)) = [] :=
        ite_self _
      rw [htold]
      exact learn_fill h hp
    | unclassified packet =>
      exact absurd hheader (packet.header_ne_nil packetDefinitions_wellFormed)
    | branches _ | ip _ | exec _ _ _ | tsx _ _ | time _ | frequency _ _ | psb | psbend =>
      cases hheader
  · rw [if_neg hheader]
    obtain ⟨packet, handle, result, c', ht⟩ := exists_told h.holds hp hheader
    exact learn_packet h hfit ht

theorem Learnt.append {st : PacketInterpretor} {bytes more : List Byte} {k k' : Knowledge}
    {before before' : Option Nat} {packets later : List Packet}
    (h : Learnt st bytes k before packets)
    (hmore : Learnt (feed packetDefinitions st bytes).st more k' before' later) :
    Learnt st (bytes ++ more) k' before' (packets ++ later) := by
  have happ := feed_append h.halt more
  refine ⟨by rw [happ]; exact hmore.halt, by rw [happ]; exact hmore.knows, ?_⟩
  rw [happ, ← List.append_assoc, ← h.succession]
  exact hmore.succession

theorem learn_trace (events : List TraceEvent) : ∀ {st : PacketInterpretor} {k : Knowledge}
    {before : Option Nat}, Knows st k before → PossibleTrace k events → HeadersFit before events →
      ∃ before', Learnt st (encodeEvents events) (events.foldl TraceEvent.next k) before'
        (meaning k events) := by
  induction events with
  | nil => exact fun h _ _ => ⟨_, rfl, h, (List.append_nil _).symm⟩
  | cons event events ih =>
    intro st k before h hp hfit
    have hone := learn_event h hp.1 hfit.1
    obtain ⟨before', hrest⟩ := ih hone.knows hp.2 hfit.2
    exact ⟨before', hone.append hrest⟩

/-- A fresh interpreter finds out the meaning of every trace in which the headers fit. -/
theorem decode_encodeEvents (events : List TraceEvent) (hpossible : PossibleTrace {} events)
    (hfit : HeadersFit none events) (frequency base size : Option Nat) :
    let r := feed packetDefinitions (packetInterpretor packetDefinitions frequency base size)
      (encodeEvents events)
    r.halt = none ∧ r.st.succession = meaning {} events ∧
      r.st.context.Holds (events.foldl TraceEvent.next {}) := by
  obtain ⟨before, h⟩ := learn_trace events (knows_new frequency base size) hpossible hfit
  exact ⟨h.halt, h.succession, h.knows.holds⟩

/-- A PSB group with the time, the frequency and an address in it, then branches, a compressed
address, an MTC packet and padding. Of the group only the PSBEND is decoded. -/
theorem decode_encodeEvents_group :
    let mtc : IntelPacket := ⟨packetDefinitions[11], List.getElem_mem _, [0x59], [0x07],
      by decide, rfl⟩
    let events : List TraceEvent := [.psb, .time 0x123456, .frequency 0x24 0,
      .ip ⟨.fup, .full, some 0x00007FF612345678⟩, .psbend, .exec true false true,
      .branches ⟨[true, false, true], by decide, by decide⟩,
      .ip ⟨.tip, .update16, some 0x00007FF61234FF00⟩, .unclassified mtc, .fill 0xFF]
    let r := feed packetDefinitions (packetInterpretor packetDefinitions) (encodeEvents events)
    r.halt = none ∧ r.st.succession = [⟨.psbend, some 0x123456, .base⟩,
      ⟨.mode, some 0x123456, .mode (.exec true false true)⟩, ⟨.tntTaken, some 0x123456, .base⟩,
      ⟨.tntNotTaken, some 0x123456, .base⟩, ⟨.tntTaken, some 0x123456, .base⟩,
      ⟨.tip, some 0x123456, .tip 1 (some 0x00007FF61234FF00)⟩, ⟨.undefined, none, .base⟩] := by
  intro mtc events
  have hfill : (0xFF : Byte) ∈ unusedPacketBytes := by decide
  have hupdate : (0x00007FF61234FF00 : Address) >>> 16 = (0x00007FF612345678 : Address) >>> 16 := by
    decide
  have hpossible : PossibleTrace {} events :=
    ⟨trivial, trivial, trivial, trivial, trivial, (by simp [TraceEvent.Possible]), trivial,
      hupdate, rfl, hfill, trivial⟩
  obtain ⟨hhalt, hsuccession, -⟩ :=
    decode_encodeEvents events hpossible (by decide) none none none
  exact ⟨hhalt, hsuccession⟩

end IntelPt.Decoder
