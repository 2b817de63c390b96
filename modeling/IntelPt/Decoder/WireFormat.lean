import IntelPt.Decoder.TraceDecoder
import IntelPt.Lib.Bits
import IntelPt.Lib.LittleEndian

/-! The message format as it is written down on both sides: the packed structures of Public.h,
filled by ThreadProc of the user mode application, and the struct formats that `read_trace`
takes messages apart with. -/
namespace IntelPt.Decoder
open LittleEndian Transducer

/-! The C side. Structures are packed, so a field begins where the one before it ends. -/

structure PacketInformation where
  firstPacket : Bool
  lastPacket : Bool
  others : BitVec 14
  deriving DecidableEq, Repr

def PacketInformation.word (options : PacketInformation) : BitVec 16 :=
  options.others ++ BitVec.ofBool options.lastPacket ++ BitVec.ofBool options.firstPacket

structure PacketHeaderInformation where
  headerSize : BitVec 32
  packetId : BitVec 64
  cpuId : BitVec 32
  sequenceId : BitVec 32
  options : PacketInformation
  deriving DecidableEq, Repr

def PacketHeaderInformation.fields (header : PacketHeaderInformation) : List (Nat × Nat) :=
  [(4, header.headerSize.toNat), (8, header.packetId.toNat), (4, header.cpuId.toNat),
    (4, header.sequenceId.toNat), (2, header.options.word.toNat)]

def sizeofPacketHeaderInformation : Nat := 4 + 8 + 4 + 4 + 2

/-- The Payload union; GenericPacket lies over the first two fields of FirstPacket. -/
structure CommPayloadUnion where
  imageBaseAddress : BitVec 64
  imageSize : BitVec 32
  processorFrequency : BitVec 64
  deriving DecidableEq, Repr

def CommPayloadUnion.bufferAddress (payload : CommPayloadUnion) : BitVec 64 :=
  payload.imageBaseAddress

structure PacketInfo where
  header : PacketHeaderInformation
  payload : CommPayloadUnion
  deriving DecidableEq, Repr

def sizeofKafkaPacket : Nat := sizeofPacketHeaderInformation + 1
def sizeofKafkaPacketFirst : Nat := sizeofPacketHeaderInformation + 8 + 4 + 8

def usnPageSize : Nat := 4096

def readMemory (memory : BitVec 64 → Byte) (address : BitVec 64) (size : Nat) : List Byte :=
  (List.range size).map fun i => memory (address + BitVec.ofNat 64 i)

/-- The message ThreadProc sends for a packet: calloc, and then one copy after the other. -/
def threadProc (memory : BitVec 64 → Byte) (packetInfo : PacketInfo) : List Byte :=
  let header := packed packetInfo.header.fields
  if packetInfo.header.options.firstPacket then
    let packetFirst := List.replicate sizeofKafkaPacketFirst 0
    let packetFirst := memcpy packetFirst 0 header
    let packetFirst := memcpy packetFirst sizeofPacketHeaderInformation
      (bytes 8 packetInfo.payload.imageBaseAddress.toNat)
    let packetFirst := memcpy packetFirst (sizeofPacketHeaderInformation + 8)
      (bytes 4 packetInfo.payload.imageSize.toNat)
    memcpy packetFirst (sizeofPacketHeaderInformation + 8 + 4)
      (bytes 8 packetInfo.payload.processorFrequency.toNat)
  else
    let iptBuffer := packetInfo.payload.bufferAddress
    let packet := List.replicate (sizeofKafkaPacket - 1 + 10 * usnPageSize) 0
    let packet := memcpy packet 0 header
    memcpy packet sizeofPacketHeaderInformation
      (readMemory memory iptBuffer (10 * usnPageSize))

/-! The Python side. -/

/-- Characters of a struct format with "=": standard sizes, no padding, little endian here. -/
inductive FormatChar where
  | H | I | L | Q
  deriving DecidableEq, Repr

def FormatChar.size : FormatChar → Nat
  | .H => 2
  | .I => 4
  | .L => 4
  | .Q => 8

def calcsize (format : List FormatChar) : Nat := (format.map FormatChar.size).sum

def unpack (format : List FormatChar) (bytes : List Byte) : Except PyError (List Nat) :=
  if bytes.length = calcsize format then
    .ok (LittleEndian.fields (format.map FormatChar.size) bytes)
  else .error .structError

def packetHeaderStructControlSum : List FormatChar := [.I]
def packetHeaderStruct : List FormatChar := [.I, .Q, .I, .I, .H]
def packetPayloadStructFirst : List FormatChar := [.Q, .L, .Q]

def packetFirstMask : Nat := 0b001
def packetLastMask : Nat := 0b010

def packetType (options : Nat) : PacketType :=
  if options &&& packetFirstMask ≠ 0 then .first
  else if options &&& packetLastMask ≠ 0 then .last else .data

/-- The beginning of the loop body; `none` where it continues with the next message. -/
def parseMessage (msg : List Byte) : Except PyError (Option Message) :=
  match unpack packetHeaderStructControlSum (msg.take (calcsize packetHeaderStructControlSum)) with
  | .error e => .error e
  | .ok controlSum =>
    if controlSum ≠ [calcsize packetHeaderStruct] then .ok none
    else
      match unpack packetHeaderStruct (msg.take (calcsize packetHeaderStruct)) with
      | .ok [_, packetId, cpuId, sequenceId, options] =>
        .ok (some ⟨⟨packetId, cpuId, sequenceId, packetType options⟩,
          msg.drop (calcsize packetHeaderStruct)⟩)
      | .ok _ => .error .indexError
      | .error e => .error e

/-- `unpackFirst` is the format string it stands for. -/
theorem unpackFirst_eq (body : List Byte) : unpackFirst body =
    match unpack packetPayloadStructFirst body with
    | .ok [base, size, frequency] => .ok ⟨base, size, frequency⟩
    | .ok _ => .error .indexError
    | .error e => .error e := by
  have hvalue : ∀ bs : List Byte, littleEndian bs = value bs := by
    intro bs
    induction bs with
    | nil => rfl
    | cons b bs ih => rw [littleEndian, value, ih]
  by_cases h : body.length = 20
  · have hsize : body.length = calcsize packetPayloadStructFirst := h
    have htake : ((body.drop 8).drop 4).take 8 = body.drop 12 := by
      rw [List.drop_drop, List.take_of_length_le (by simp [h])]
    rw [unpackFirst, if_pos h, unpack, if_pos hsize]
    simp only [packetPayloadStructFirst, List.map_cons, List.map_nil, FormatChar.size,
      LittleEndian.fields, hvalue, htake]
  · have hsize : body.length ≠ calcsize packetPayloadStructFirst := h
    rw [unpackFirst, if_neg h, unpack, if_neg hsize]

/-! Both sides agree. -/

@[simp] theorem header_length (header : PacketHeaderInformation) :
    (packed header.fields).length = sizeofPacketHeaderInformation := by
  simp [PacketHeaderInformation.fields, sizeofPacketHeaderInformation]

theorem header_fits (header : PacketHeaderInformation) :
    ∀ f ∈ header.fields, f.2 < 256 ^ f.1 := by
  have h1 := header.headerSize.isLt
  have h2 := header.packetId.isLt
  have h3 := header.cpuId.isLt
  have h4 := header.sequenceId.isLt
  have h5 := header.options.word.isLt
  simp only [PacketHeaderInformation.fields, List.forall_mem_cons, List.not_mem_nil,
    false_imp_iff, implies_true, and_true]
  exact ⟨h1, h2, h3, h4, h5⟩

theorem readMemory_length (memory : BitVec 64 → Byte) (address : BitVec 64) (size : Nat) :
    (readMemory memory address size).length = size := by
  simp [readMemory]

/-- A message of ThreadProc is the packed header and then the packed FIRST fields or the data. -/
theorem threadProc_eq (memory : BitVec 64 → Byte) (packetInfo : PacketInfo) :
    threadProc memory packetInfo = packed packetInfo.header.fields ++
      if packetInfo.header.options.firstPacket then
        packed [(8, packetInfo.payload.imageBaseAddress.toNat),
          (4, packetInfo.payload.imageSize.toNat),
          (8, packetInfo.payload.processorFrequency.toNat)]
      else readMemory memory packetInfo.payload.bufferAddress (10 * usnPageSize) := by
  let header := packed packetInfo.header.fields
  have hlen : header.length = sizeofPacketHeaderInformation := header_length packetInfo.header
  have hstart : ∀ n, memcpy (List.replicate (sizeofPacketHeaderInformation + n) 0) 0 header =
      header ++ List.replicate n 0 := fun n =>
    @memcpy_fill [] header 0 _ rfl hlen 0 n
  cases hf : packetInfo.header.options.firstPacket with
  | true =>
    let base := bytes 8 packetInfo.payload.imageBaseAddress.toNat
    let size := bytes 4 packetInfo.payload.imageSize.toNat
    have hsize : sizeofKafkaPacketFirst = sizeofPacketHeaderInformation + (8 + (4 + (8 + 0))) := rfl
    have hbase : (header ++ base).length = sizeofPacketHeaderInformation + 8 := by
      rw [List.length_append, hlen, bytes_length]
    have himage : (header ++ base ++ size).length = sizeofPacketHeaderInformation + 8 + 4 := by
      rw [List.length_append, hbase, bytes_length]
    simp only [threadProc, hf, if_true]
    rw [hsize, hstart, memcpy_fill hlen (bytes_length _ _), memcpy_fill hbase (bytes_length _ _),
      memcpy_fill himage (bytes_length _ _)]
    simp [packed, header, base, size]
  | false =>
    have hsize : sizeofKafkaPacket - 1 + 10 * usnPageSize =
        sizeofPacketHeaderInformation + (10 * usnPageSize + 0) := rfl
    simp only [threadProc, hf, Bool.false_eq_true, if_false]
    rw [hsize, hstart, memcpy_fill hlen (readMemory_length _ _ _), List.replicate_zero,
      List.append_nil]

/-- The two flags are bits 0 and 1, whatever the other bits hold. -/
theorem packetType_word (options : PacketInformation) :
    packetType options.word.toNat =
      if options.firstPacket then .first else if options.lastPacket then .last else .data := by
  have hbit : ∀ i, (options.word.toNat &&& (1 <<< i) != 0) = options.word.getLsbD i :=
    fun i => Bits.and_shift_ne_zero _ i
  have hfirst : options.word.getLsbD 0 = options.firstPacket := by
    rw [PacketInformation.word, BitVec.getLsbD_append, if_pos (by decide)]
    cases options.firstPacket <;> rfl
  have hlast : options.word.getLsbD 1 = options.lastPacket := by
    rw [PacketInformation.word, BitVec.getLsbD_append, if_neg (by decide), BitVec.getLsbD_append,
      if_pos (by decide)]
    cases options.lastPacket <;> rfl
  have h0 : options.word.toNat &&& packetFirstMask ≠ 0 ↔ options.firstPacket = true := by
    rw [← hfirst, ← hbit 0, bne_iff_ne]
    rfl
  have h1 : options.word.toNat &&& packetLastMask ≠ 0 ↔ options.lastPacket = true := by
    rw [← hlast, ← hbit 1, bne_iff_ne]
    rfl
  simp only [packetType, h0, h1]

def driverHeader (packetId : BitVec 64) (cpuId sequenceId : BitVec 32)
    (options : PacketInformation) : PacketHeaderInformation :=
  { headerSize := BitVec.ofNat 32 sizeofPacketHeaderInformation, packetId, cpuId, sequenceId,
    options }

/-- A message that begins with a driver's header is parsed to what the header says. -/
theorem parseMessage_packed (packetId : BitVec 64) (cpuId sequenceId : BitVec 32)
    (options : PacketInformation) (body : List Byte) :
    parseMessage (packed (driverHeader packetId cpuId sequenceId options).fields ++ body) =
      .ok (some ⟨⟨packetId.toNat, cpuId.toNat, sequenceId.toNat,
        if options.firstPacket then .first else if options.lastPacket then .last else .data⟩,
        body⟩) := by
  let header := driverHeader packetId cpuId sequenceId options
  have hlen : (packed header.fields).length = calcsize packetHeaderStruct := header_length header
  have hsum : unpack packetHeaderStructControlSum
      ((packed header.fields ++ body).take (calcsize packetHeaderStructControlSum)) =
        .ok [calcsize packetHeaderStruct] := by
    have htake : (packed header.fields ++ body).take (calcsize packetHeaderStructControlSum) =
        bytes 4 (calcsize packetHeaderStruct) := by
      rw [PacketHeaderInformation.fields, packed_cons, List.append_assoc]
      exact take_bytes_append _ _ _
    have hone : (bytes 4 (calcsize packetHeaderStruct)).length =
        calcsize packetHeaderStructControlSum := bytes_length _ _
    rw [htake, unpack, if_pos hone]
    rfl
  have hheader : unpack packetHeaderStruct
      ((packed header.fields ++ body).take (calcsize packetHeaderStruct)) =
        .ok [calcsize packetHeaderStruct, packetId.toNat, cpuId.toNat, sequenceId.toNat,
          options.word.toNat] := by
    have hfields := fields_packed (header_fits header) []
    rw [List.append_nil] at hfields
    rw [← hlen, List.take_left, unpack, if_pos hlen]
    exact congrArg Except.ok hfields
  have hbody : (packed header.fields ++ body).drop (calcsize packetHeaderStruct) = body := by
    rw [← hlen, List.drop_left]
  change parseMessage (packed header.fields ++ body) = _
  simp only [parseMessage, hsum, ne_eq, not_true_eq_false, if_false, hheader, hbody,
    packetType_word]

theorem unpackFirst_packed (base : BitVec 64) (size : BitVec 32) (frequency : BitVec 64) :
    unpackFirst (packed [(8, base.toNat), (4, size.toNat), (8, frequency.toNat)]) =
      .ok ⟨base.toNat, size.toNat, frequency.toNat⟩ := by
  let record := [(8, base.toNat), (4, size.toNat), (8, frequency.toNat)]
  have hfits : ∀ f ∈ record, f.2 < 256 ^ f.1 := by
    have h1 := base.isLt
    have h2 := size.isLt
    have h3 := frequency.isLt
    simp only [record, List.forall_mem_cons, List.not_mem_nil, false_imp_iff, implies_true,
      and_true]
    exact ⟨h1, h2, h3⟩
  have hlen : (packed record).length = calcsize packetPayloadStructFirst := packed_length record
  have hfields := fields_packed hfits []
  rw [List.append_nil] at hfields
  have hunpack : unpack packetPayloadStructFirst (packed record) =
      .ok [base.toNat, size.toNat, frequency.toNat] := by
    rw [unpack, if_pos hlen]
    exact congrArg Except.ok hfields
  rw [unpackFirst_eq, hunpack]

/-- What ThreadProc sends is parsed to what the driver put into the packet. -/
theorem threadProc_parsed (memory : BitVec 64 → Byte) (packetId : BitVec 64)
    (cpuId sequenceId : BitVec 32) (options : PacketInformation) (payload : CommPayloadUnion) :
    ∃ body, parseMessage
        (threadProc memory ⟨driverHeader packetId cpuId sequenceId options, payload⟩) =
          .ok (some ⟨⟨packetId.toNat, cpuId.toNat, sequenceId.toNat,
            if options.firstPacket then .first else if options.lastPacket then .last else .data⟩,
            body⟩) ∧
      if options.firstPacket then
        unpackFirst body = .ok ⟨payload.imageBaseAddress.toNat, payload.imageSize.toNat,
          payload.processorFrequency.toNat⟩
      else body = readMemory memory payload.bufferAddress (10 * usnPageSize) := by
  refine ⟨_, by rw [threadProc_eq]; exact parseMessage_packed .., ?_⟩
  cases hf : options.firstPacket with
  | true =>
    simp only [driverHeader, hf, if_true]
    exact unpackFirst_packed _ _ _
  | false => simp only [driverHeader, hf, Bool.false_eq_true, if_false]

end IntelPt.Decoder
