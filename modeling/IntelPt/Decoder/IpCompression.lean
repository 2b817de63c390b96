import IntelPt.Decoder.Emission
import IntelPt.Lib.Bits
import IntelPt.Lib.LittleEndian

/-! IP compression over whole histories: the address of every FUP and TIP packet comes back from
its compressed form, whatever other packets with one-byte headers are in between. -/
namespace IntelPt.Decoder
open HeaderCode Transducer

abbrev Address := BitVec 64

inductive IpKind where
  | tip | tipPge | tipPgd | fup
  deriving DecidableEq, Repr

def IpKind.bits : IpKind → Nat
  | .tip => 0b01101
  | .tipPge => 0b10001
  | .tipPgd => 0b00001
  | .fup => 0b11101

def IpKind.packetName : IpKind → PacketName
  | .tip => .tip
  | .tipPge => .tipPge
  | .tipPgd => .tipPgd
  | .fup => .fup

def IpKind.packetId : IpKind → PacketId
  | .tip => .tip
  | .tipPge => .tipPge
  | .tipPgd => .tipPgd
  | .fup => .fup

inductive IpCompression where
  | suppressed | update16 | update32 | signExtended48 | update48 | full
  deriving DecidableEq, Repr

def IpCompression.code : IpCompression → Nat
  | .suppressed => 0
  | .update16 => 1
  | .update32 => 2
  | .signExtended48 => 3
  | .update48 => 4
  | .full => 6

def IpCompression.size : IpCompression → Nat
  | .suppressed => 0
  | .update16 => 2
  | .update32 => 4
  | .signExtended48 => 6
  | .update48 => 6
  | .full => 8

structure IpEvent where
  kind : IpKind
  compression : IpCompression
  address : Option Address
  deriving DecidableEq, Repr

def IpEvent.Valid (last : Option Address) (event : IpEvent) : Prop :=
  match event.compression, event.address, last with
  | .suppressed, none, _ => True
  | .update16, some address, some last => address >>> 16 = last >>> 16
  | .update32, some address, some last => address >>> 32 = last >>> 32
  | .update48, some address, some last => address >>> 48 = last >>> 48
  | .signExtended48, some address, _ =>
    ∀ i < 64, 47 ≤ i → address.getLsbD i = address.getLsbD 47
  | .full, some _, _ => True
  | _, _, _ => False

def ipHeader (kind : IpKind) (compression : IpCompression) : Byte :=
  BitVec.ofNat 8 (compression.code <<< 5 ||| kind.bits)

def IpEvent.header (event : IpEvent) : Byte := ipHeader event.kind event.compression

def IpEvent.payload (event : IpEvent) : List Byte :=
  match event.address with
  | none => []
  | some address => LittleEndian.bytes event.compression.size address.toNat

inductive TraceItem where
  | ip (event : IpEvent)
  | tnt (byte : Byte)
  | mode (payload : Byte)
  | tsc (payload : List Byte)
  | mtc (payload : Byte)
  | fill (byte : Byte)
  deriving DecidableEq, Repr

def TraceItem.bytes : TraceItem → List Byte
  | .ip event => event.header :: event.payload
  | .tnt byte => [byte]
  | .mode payload => [0x99, payload]
  | .tsc payload => 0x19 :: payload
  | .mtc payload => [0x59, payload]
  | .fill byte => [byte]

def TraceItem.Valid (last : Option Address) : TraceItem → Prop
  | .ip event => event.Valid last
  | .tnt byte => byte.toNat % 2 = 0 ∧ 2 < byte.toNat
  | .mode payload => ∃ packet, packetMode payload none = .ok packet
  | .tsc payload => payload.length = 7
  | .mtc _ => True
  | .fill byte => byte ∈ unusedPacketBytes

def TraceItem.last (last : Option Address) : TraceItem → Option Address
  | .ip event => event.address.or last
  | _ => last

def ValidTrace : Option Address → List TraceItem → Prop
  | _, [] => True
  | last, item :: items => item.Valid last ∧ ValidTrace (item.last last) items

def encode (items : List TraceItem) : List Byte := items.flatMap TraceItem.bytes

def TraceItem.ipEvent : TraceItem → Option IpEvent
  | .ip event => some event
  | _ => none

def ipEvents (items : List TraceItem) : List IpEvent := items.filterMap TraceItem.ipEvent

def ipPackets (packets : List Packet) : List (PacketId × PacketFields) :=
  (packets.filter fun packet => packet.packetId ∈ [.tip, .tipPge, .tipPgd, .fup]).map
    fun packet => (packet.packetId, packet.fields)

def IpEvent.decoded (event : IpEvent) : PacketId × PacketFields :=
  (event.kind.packetId, .tip event.compression.code (event.address.map BitVec.toNat))

theorem ipPackets_append (ps qs : List Packet) :
    ipPackets (ps ++ qs) = ipPackets ps ++ ipPackets qs := by
  simp [ipPackets]

theorem ipPackets_singleton {packet : Packet}
    (h : packet.packetId ∈ [.tip, .tipPge, .tipPgd, .fup]) :
    ipPackets [packet] = [(packet.packetId, packet.fields)] := by
  simp only [ipPackets, List.filter_cons, decide_eq_true h, if_true]
  rfl

/-! The address arithmetic. -/

theorem foldBytes_eq (data : List Byte) : foldBytes data = LittleEndian.value data := by
  have hfold : ∀ data : List Byte, data.foldr (fun d acc => (acc + d.toNat) <<< 8) 0 =
      256 * LittleEndian.value data := by
    intro data
    induction data with
    | nil => rfl
    | cons b bs ih =>
      rw [List.foldr_cons, ih, Nat.shiftLeft_eq, LittleEndian.value]
      omega
  rw [foldBytes, List.foldl_reverse, hfold, Nat.shiftRight_eq_div_pow]
  exact Nat.mul_div_cancel_left _ (by decide)

theorem foldBytes_bytes (n x : Nat) : foldBytes (LittleEndian.bytes n x) = x % 256 ^ n := by
  rw [foldBytes_eq, LittleEndian.value_bytes]

theorem shiftRight_toNat {address last : Address} {k : Nat} (h : address >>> k = last >>> k) :
    address.toNat >>> k = last.toNat >>> k := by
  rw [← BitVec.toNat_ushiftRight, h, BitVec.toNat_ushiftRight]

/-- An update keeps the high bits of the last address. -/
theorem reconstruct_update {k : Nat} {address last : Address}
    (h : address >>> k = last >>> k) (payloadType : Nat) {mask n : Nat}
    (hm : lastIpMask payloadType = some mask) (hmask : mask = Bits.highMask 64 k)
    (hn : 256 ^ n = 2 ^ k) :
    reconstructAddress payloadType (some last.toNat)
      (foldBytes (LittleEndian.bytes n address.toNat)) = .ok address.toNat := by
  have hmerge := Bits.merge_high_low address.isLt (shiftRight_toNat h)
  simp only [reconstructAddress, hm, foldBytes_bytes, hn, hmask, hmerge]

theorem reconstruct_signExtended {address : Address}
    (h : ∀ i < 64, 47 ≤ i → address.getLsbD i = address.getLsbD 47) (lastIp : Option Nat) :
    reconstructAddress 0b011 lastIp (foldBytes (LittleEndian.bytes 6 address.toNat)) =
      .ok address.toNat := by
  have hext := Bits.signExtend (k := 48) address.isLt (by decide)
    fun i hi hk => h i hi (by omega)
  have hset : signExtendMask true = Bits.highMask 64 48 := by decide
  have hclear : signExtendMask false = 2 ^ 48 - 1 := by decide
  rw [foldBytes_bytes, show 256 ^ 6 = 2 ^ 48 from rfl]
  simp only [reconstructAddress, lastIpMask, if_true, Bits.and_shift_ne_zero, hset, hclear]
  rw [← apply_ite Except.ok]
  exact congrArg Except.ok hext

theorem reconstruct_full (address : Address) (lastIp : Option Nat) :
    reconstructAddress 0b110 lastIp (foldBytes (LittleEndian.bytes 8 address.toNat)) =
      .ok address.toNat := by
  have hlt : address.toNat < 256 ^ 8 := address.isLt
  rw [foldBytes_bytes, Nat.mod_eq_of_lt hlt]
  rfl

theorem reconstruct_valid {event : IpEvent} {last : Option Address} (h : event.Valid last)
    {address : Address} (ha : event.address = some address) :
    reconstructAddress event.compression.code (last.map BitVec.toNat)
      (foldBytes event.payload) = .ok address.toNat := by
  obtain ⟨kind, compression, _⟩ := event
  cases ha
  cases compression with
  | suppressed => cases h
  | update16 =>
    cases last with
    | none => cases h
    | some last => exact reconstruct_update h 1 rfl (by decide) rfl
  | update32 =>
    cases last with
    | none => cases h
    | some last => exact reconstruct_update h 2 rfl (by decide) rfl
  | signExtended48 => exact reconstruct_signExtended h _
  | update48 =>
    cases last with
    | none => cases h
    | some last => exact reconstruct_update h 4 rfl (by decide) rfl
  | full => exact reconstruct_full address _

/-! The packets. -/

theorem ipHeader_code (kind : IpKind) (compression : IpCompression) :
    (ipHeader kind compression).toNat >>> 5 &&& 0b0111 = compression.code := by
  cases kind <;> cases compression <;> decide

theorem ip_definition (kind : IpKind) (compression : IpCompression) :
    ∃ d ∈ packetDefinitions, d.packetName = kind.packetName ∧
      d.handle = some fupTipPacketHandler ∧
      spells validateHeaderByte d.packetHeader [ipHeader kind compression] = true ∧
      d.packetLength.eval [ipHeader kind compression] = .ok (1 + compression.size) := by
  cases kind with
  | tip =>
    exact ⟨packetDefinitions[2], List.getElem_mem _, rfl, rfl,
      by cases compression <;> decide, by cases compression <;> rfl⟩
  | tipPge =>
    exact ⟨packetDefinitions[3], List.getElem_mem _, rfl, rfl,
      by cases compression <;> decide, by cases compression <;> rfl⟩
  | tipPgd =>
    exact ⟨packetDefinitions[4], List.getElem_mem _, rfl, rfl,
      by cases compression <;> decide, by cases compression <;> rfl⟩
  | fup =>
    exact ⟨packetDefinitions[5], List.getElem_mem _, rfl, rfl,
      by cases compression <;> decide, by cases compression <;> rfl⟩

theorem payload_length {event : IpEvent} {last : Option Address} (h : event.Valid last) :
    event.payload.length = event.compression.size := by
  obtain ⟨kind, compression, address⟩ := event
  cases address with
  | none =>
    cases compression with
    | suppressed => rfl
    | update16 | update32 | signExtended48 | update48 | full => cases h
  | some address => exact LittleEndian.bytes_length _ _

theorem code_eq_zero {event : IpEvent} {last : Option Address} (h : event.Valid last) :
    event.compression.code = 0 ↔ event.address = none := by
  obtain ⟨kind, compression, address⟩ := event
  cases address with
  | none =>
    cases compression with
    | suppressed => exact iff_of_true rfl rfl
    | update16 | update32 | signExtended48 | update48 | full => cases h
  | some address =>
    cases compression with
    | suppressed => cases h
    | update16 | update32 | signExtended48 | update48 | full => simp [IpCompression.code]

/-- The handler gives the event's own packet and remembers its address. -/
theorem fupTip_valid {event : IpEvent} {last : Option Address} (h : event.Valid last)
    {context : Context} (hl : context.lastIp = last.map BitVec.toNat) :
    ∃ packet, fupTipPacketHandler (event.header :: event.payload) event.kind.packetName context =
        .ok (.one packet, { context with lastIp := (event.address.or last).map BitVec.toNat }) ∧
      packet.packetId = event.kind.packetId ∧
      packet.fields = .tip event.compression.code (event.address.map BitVec.toNat) := by
  have hid : fupTipPacketId event.kind.packetName = some event.kind.packetId := by
    cases event.kind <;> rfl
  simp only [fupTipPacketHandler, hid, List.getElem?_cons_zero, IpEvent.header, ipHeader_code,
    List.drop_succ_cons, List.drop_zero, hl]
  cases ha : event.address with
  | none =>
    have hc := (code_eq_zero h).mpr ha
    have hsame : { context with lastIp := last.map BitVec.toNat } = context := by rw [← hl]
    refine ⟨{ packetTip event.kind.packetId context.tsc with fields := .tip 0 none }, ?_, rfl,
      by rw [hc]; rfl⟩
    simp only [hc, if_true, Option.none_or, hsame]
  | some address =>
    have hc : event.compression.code ≠ 0 := fun h0 => by
      cases ha.symm.trans ((code_eq_zero h).mp h0)
    refine ⟨{ packetTip event.kind.packetId context.tsc with
      fields := .tip event.compression.code (some address.toNat) }, ?_, rfl, rfl⟩
    simp only [hc, if_false, reconstruct_valid h ha, Option.some_or, Option.map_some]

structure Ready (st : PacketInterpretor) (last : Option Address) : Prop where
  boundary : AtBoundary packetDefinitions st
  remembered : ∀ d, st.currentPacket = some d → 1 ≤ st.currentPacketLength
  enabled : st.context.disableInterpreting = false
  lastIp : st.context.lastIp = last.map BitVec.toNat

structure Read (st : PacketInterpretor) (bytes : List Byte) (last : Option Address)
    (packets : List Packet) : Prop where
  halt : (feed packetDefinitions st bytes).halt = none
  ready : Ready (feed packetDefinitions st bytes).st last
  succession : (feed packetDefinitions st bytes).st.succession = st.succession ++ packets

def Handled (st : PacketInterpretor) (bytes : List Byte) (name : PacketName)
    (packets : List Packet) : Prop :=
  ∃ d ∈ packetDefinitions, d.packetName = name ∧ ∃ handle, d.handle = some handle ∧
    ∃ result, handle bytes name st.context =
      .ok (result, (feed packetDefinitions st bytes).st.context) ∧ result.packets = packets

/-- A packet with a one-byte header, in whatever context its handler takes it. -/
theorem read_packet {st : PacketInterpretor} {last last' : Option Address} (h : Ready st last)
    {d : PacketDefinition} (hd : d ∈ packetDefinitions) {header : Byte} (payload : List Byte)
    (hs : spells validateHeaderByte d.packetHeader [header] = true)
    (hl : d.packetLength.eval [header] = .ok (1 + payload.length))
    {handle : Handler} (hh : d.handle = some handle) {result : HandlerResult} {context : Context}
    (hr : handle (header :: payload) d.packetName st.context = .ok (result, context))
    (he : context.disableInterpreting = false) (hip : context.lastIp = last'.map BitVec.toNat) :
    Read st (header :: payload) last' result.packets ∧
      Handled st (header :: payload) d.packetName result.packets := by
  let p : WellFormedPacket packetDefinitions := ⟨d, hd, [header], payload, hs, hl⟩
  have hdel : Delivered packetDefinitions d (header :: payload) context
      (feed packetDefinitions st (header :: payload)) :=
    feed_packet packetDefinitions_wellFormed p h.boundary h.remembered hh hr
  refine ⟨⟨hdel.halt, ⟨hdel.boundary, fun e _ => ?_, ?_, ?_⟩, hdel.succession hh hr he⟩,
    d, hd, rfl, handle, hh, result, by rw [hdel.context]; exact hr, rfl⟩
  · rw [hdel.currentPacketLength]
    exact Nat.succ_pos _
  · rw [hdel.context, he]
  · rw [hdel.context, hip]

theorem read_fill {st : PacketInterpretor} {last : Option Address} (h : Ready st last)
    {byte : Byte} (hb : byte ∈ unusedPacketBytes) : Read st [byte] last [] ∧
      (feed packetDefinitions st [byte]).st.context = st.context := by
  have hstep : processByte packetDefinitions st byte =
      { st := { st with internalByteIdx := st.internalByteIdx + 1 } } := by
    simp [processByte, h.boundary.not_in, hb, h.boundary.candidates]
  have hfeed : feed packetDefinitions st [byte] =
      { st := { st with internalByteIdx := st.internalByteIdx + 1 } } := by
    rw [feed_singleton, hstep]
  refine ⟨⟨by rw [hfeed], ?_, by rw [hfeed]; simp⟩, by rw [hfeed]⟩
  rw [hfeed]
  exact ⟨⟨h.boundary.not_in, h.boundary.accumulator, h.boundary.candidates, h.boundary.index⟩,
    h.remembered, h.enabled, h.lastIp⟩

theorem read_ip {st : PacketInterpretor} {last : Option Address} (h : Ready st last)
    {event : IpEvent} (hv : event.Valid last) :
    ∃ packets, Read st (event.header :: event.payload) (event.address.or last) packets ∧
      Handled st (event.header :: event.payload) event.kind.packetName packets ∧
      ipPackets packets = [event.decoded] := by
  obtain ⟨d, hd, hn, hh, hs, hl⟩ := ip_definition event.kind event.compression
  obtain ⟨packet, hr, hid, hfields⟩ := fupTip_valid hv h.lastIp
  rw [← hn] at hr
  rw [← payload_length hv] at hl
  obtain ⟨hread, hhandled⟩ := read_packet h hd _ hs hl hh hr h.enabled rfl
  refine ⟨_, hread, hn ▸ hhandled, ?_⟩
  have hmem : packet.packetId ∈ [.tip, .tipPge, .tipPgd, .fup] := by
    rw [hid]
    cases event.kind <;> decide
  rw [IpEvent.decoded, ← hid, ← hfields]
  exact ipPackets_singleton hmem

theorem ipPackets_tntEmit (tsc : Option Nat) (n auxData : Nat) :
    ipPackets (tntEmit tsc n auxData) = [] := by
  induction n generalizing auxData with
  | zero => rfl
  | succ n ih =>
    have hone : ∀ taken, ipPackets [packetTnt taken tsc] = [] := by
      intro taken
      cases taken <;> rfl
    rw [tntEmit, ← List.singleton_append, ipPackets_append, hone, ih, List.append_nil]

theorem read_tnt {st : PacketInterpretor} {last : Option Address} (h : Ready st last)
    {byte : Byte} (heven : byte.toNat % 2 = 0) (hbig : 2 < byte.toNat) :
    ∃ packets, Read st [byte] last packets ∧ Handled st [byte] .tnt packets ∧
      ipPackets packets = [] := by
  have hs : spells validateHeaderByte [tntHeader] [byte] = true := by
    simp [spells, tntHeader, validateHeaderByte, Nat.and_one_is_mod, heven, hbig]
  let d : PacketDefinition := ⟨.tnt, [tntHeader], .const 1, some tntPacketHandler⟩
  have hd : d ∈ packetDefinitions := by simp [d, packetDefinitions]
  obtain ⟨hread, hhandled⟩ := read_packet h hd [] hs rfl rfl rfl h.enabled h.lastIp
  exact ⟨_, hread, hhandled, ipPackets_tntEmit _ _ _⟩

theorem packetMode_ok {data : Byte} (h : ∃ packet, packetMode data none = .ok packet)
    (tsc : Option Nat) : ∃ packet, packetMode data tsc = .ok packet := by
  obtain ⟨packet, hp⟩ := h
  simp only [packetMode] at hp ⊢
  split at hp
  · split at hp
    · cases hp
    · rw [if_pos ‹_›, if_neg ‹_›]
      exact ⟨_, rfl⟩
  · split at hp
    · rw [if_neg ‹_›, if_pos ‹_›]
      exact ⟨_, rfl⟩
    · cases hp

theorem read_mode {st : PacketInterpretor} {last : Option Address} (h : Ready st last)
    {payload : Byte} (hv : ∃ packet, packetMode payload none = .ok packet) :
    ∃ packets, Read st [0x99, payload] last packets ∧ Handled st [0x99, payload] .mode packets ∧
      ipPackets packets = [] := by
  obtain ⟨packet, hp⟩ := packetMode_ok hv st.context.tsc
  have hid := (packetMode_stamped hp).1
  have hr : ∃ context, modePacketHandler [0x99, payload] .mode st.context =
      .ok (.one packet, context) ∧ context.disableInterpreting = st.context.disableInterpreting ∧
        context.lastIp = st.context.lastIp := by
    simp only [modePacketHandler, List.getElem?_cons_succ, List.getElem?_cons_zero, hp]
    split
    · exact ⟨_, rfl, rfl, rfl⟩
    · exact ⟨_, rfl, rfl, rfl⟩
  obtain ⟨context, hr, he, hip⟩ := hr
  let d : PacketDefinition := ⟨.mode, [.bits ['1', '0', '0', '1', '1', '0', '0', '1']], .const 2,
    some modePacketHandler⟩
  have hd : d ∈ packetDefinitions := by simp [d, packetDefinitions]
  obtain ⟨hread, hhandled⟩ := read_packet h hd [payload] (by decide) rfl rfl hr
    (he.trans h.enabled) (hip.trans h.lastIp)
  refine ⟨_, hread, hhandled, ?_⟩
  simp [HandlerResult.packets, ipPackets, hid]

theorem read_tsc {st : PacketInterpretor} {last : Option Address} (h : Ready st last)
    {payload : List Byte} (hl : payload.length = 7) :
    ∃ packets, Read st (0x19 :: payload) last packets ∧
      Handled st (0x19 :: payload) .tsc packets ∧ ipPackets packets = [] := by
  let d : PacketDefinition := ⟨.tsc, [.bits ['0', '0', '0', '1', '1', '0', '0', '1']], .const 8,
    some tscPacketHandler⟩
  have hd : d ∈ packetDefinitions := by simp [d, packetDefinitions]
  have hs : spells validateHeaderByte d.packetHeader [0x19] = true := by decide
  obtain ⟨hread, hhandled⟩ := read_packet h hd payload hs (by rw [hl]; rfl) rfl rfl h.enabled
    h.lastIp
  exact ⟨_, hread, hhandled, rfl⟩

theorem read_mtc {st : PacketInterpretor} {last : Option Address} (h : Ready st last)
    (payload : Byte) :
    ∃ packets, Read st [0x59, payload] last packets ∧ Handled st [0x59, payload] .mtc packets ∧
      ipPackets packets = [] := by
  let d : PacketDefinition := ⟨.mtc, [.bits ['0', '1', '0', '1', '1', '0', '0', '1']], .const 2,
    some placeholderFunction⟩
  have hd : d ∈ packetDefinitions := by simp [d, packetDefinitions]
  have hs : spells validateHeaderByte d.packetHeader [0x59] = true := by decide
  obtain ⟨hread, hhandled⟩ := read_packet h hd [payload] hs rfl rfl rfl h.enabled h.lastIp
  exact ⟨_, hread, hhandled, rfl⟩

def TraceItem.packetName : TraceItem → Option PacketName
  | .ip event => some event.kind.packetName
  | .tnt _ => some .tnt
  | .mode _ => some .mode
  | .tsc _ => some .tsc
  | .mtc _ => some .mtc
  | .fill _ => none

/-- The packets come from the item's own handler call, which fill does not make. -/
def HandledItem (st : PacketInterpretor) (item : TraceItem) (packets : List Packet) : Prop :=
  match item.packetName with
  | some name => Handled st item.bytes name packets
  | none => packets = [] ∧ (feed packetDefinitions st item.bytes).st.context = st.context

theorem read_item {st : PacketInterpretor} {last : Option Address} (h : Ready st last)
    {item : TraceItem} (hv : item.Valid last) :
    ∃ packets, Read st item.bytes (item.last last) packets ∧ HandledItem st item packets ∧
      ipPackets packets = item.ipEvent.toList.map IpEvent.decoded := by
  cases item with
  | ip event => exact read_ip h hv
  | tnt byte => exact read_tnt h hv.1 hv.2
  | mode payload => exact read_mode h hv
  | tsc payload => exact read_tsc h hv
  | mtc payload => exact read_mtc h payload
  | fill byte => exact ⟨[], (read_fill h hv).1, ⟨rfl, (read_fill h hv).2⟩, rfl⟩

theorem Read.append {st : PacketInterpretor} {bytes rest : List Byte}
    {last last' : Option Address} {packets more : List Packet}
    (h : Read st bytes last packets)
    (hrest : Read (feed packetDefinitions st bytes).st rest last' more) :
    Read st (bytes ++ rest) last' (packets ++ more) := by
  have happ := feed_append h.halt rest
  refine ⟨by rw [happ]; exact hrest.halt, by rw [happ]; exact hrest.ready, ?_⟩
  rw [happ, ← List.append_assoc, ← h.succession]
  exact hrest.succession

theorem read_trace (items : List TraceItem) : ∀ {st : PacketInterpretor} {last : Option Address},
    Ready st last → ValidTrace last items → ∃ packets last', Read st (encode items) last' packets ∧
      ipPackets packets = (ipEvents items).map IpEvent.decoded := by
  induction items with
  | nil =>
    intro st last h _
    exact ⟨[], last, ⟨rfl, h, (List.append_nil _).symm⟩, rfl⟩
  | cons item items ih =>
    intro st last h hv
    obtain ⟨packets, hread, -, hip⟩ := read_item h hv.1
    obtain ⟨more, last', hrest, hip'⟩ := ih hread.ready hv.2
    refine ⟨packets ++ more, last', hread.append hrest, ?_⟩
    rw [ipPackets_append, hip, hip', ← List.map_append]
    cases item <;> rfl

theorem ready_new (frequency base size : Option Nat) :
    Ready (packetInterpretor packetDefinitions frequency base size) none :=
  ⟨atBoundary_new packetDefinitions frequency base size, fun d hd => by (cases hd), rfl, rfl⟩

/-- A fresh interpreter gives back every IP event, with its address in full. -/
theorem ipPackets_encode (items : List TraceItem) (h : ValidTrace none items)
    (frequency base size : Option Nat) :
    let r := feed packetDefinitions (packetInterpretor packetDefinitions frequency base size)
      (encode items)
    r.halt = none ∧ ipPackets r.st.succession = (ipEvents items).map IpEvent.decoded := by
  obtain ⟨packets, last, hread, hip⟩ := read_trace items (ready_new frequency base size) h
  refine ⟨hread.halt, ?_⟩
  rw [hread.succession, ← hip]
  rfl

/-- Every compression once, with a TNT, a TSC, a MODE and a fill byte in between. -/
theorem ipPackets_encode_all_codes :
    let items : List TraceItem := [
      .ip ⟨.tipPge, .full, some 0x00007FF612345678⟩, .tnt 0x06,
      .ip ⟨.tip, .update16, some 0x00007FF61234FF00⟩, .tsc [0x19, 0xFF, 0, 0, 0, 0, 0],
      .ip ⟨.fup, .update32, some 0x00007FF619001902⟩, .mode 0x01, .fill 0xFF,
      .ip ⟨.fup, .signExtended48, some 0xFFFFF80011223344⟩,
      .ip ⟨.tip, .update48, some 0xFFFF000000000000⟩, .mtc 0x00,
      .ip ⟨.tipPgd, .suppressed, none⟩]
    let r := feed packetDefinitions (packetInterpretor packetDefinitions) (encode items)
    r.halt = none ∧ ipPackets r.st.succession = (ipEvents items).map IpEvent.decoded := by
  refine ipPackets_encode _ ?_ none none none
  refine ⟨trivial, ⟨by decide, by decide⟩, ?_, rfl, ?_, ⟨_, rfl⟩, ?_, ?_, ?_, trivial, trivial,
    trivial⟩
  · change (0x00007FF61234FF00 : Address) >>> 16 = 0x00007FF612345678 >>> 16
    decide
  · change (0x00007FF619001902 : Address) >>> 32 = 0x00007FF61234FF00 >>> 32
    decide
  · change (0xFF : Byte) ∈ unusedPacketBytes
    decide
  · change ∀ i < 64, 47 ≤ i → (0xFFFFF80011223344 : Address).getLsbD i =
      (0xFFFFF80011223344 : Address).getLsbD 47
    decide
  · change (0xFFFF000000000000 : Address) >>> 48 = 0xFFFFF80011223344 >>> 48
    decide

end IntelPt.Decoder
