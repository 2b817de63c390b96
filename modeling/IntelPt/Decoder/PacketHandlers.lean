import IntelPt.Decoder.InternalPacketDefinitions

/-! The packet handlers, as in PacketHandlers.py. A handler gets all bytes of the packet and
the shared context; none of them changes the context before it raises. -/
namespace IntelPt.Decoder

inductive PacketName where
  | tnt | tntExtended | tip | tipPge | tipPgd | fup | pip | mode | traceStop | cbr | tsc | mtc
  | tma | vmcs | ovf | psb | psbend | mnt | ptw | exstop | mwait | pwre | pwrx | bbp | bep
  deriving DecidableEq, Repr

structure Context where
  disableInterpreting : Bool := false
  tsc : Option Nat := none
  lastIp : Option Nat := none
  addressingMode : Option OpMode := none
  deriving DecidableEq, Repr

inductive HandlerResult where
  | one (packet : Packet)
  | list (packets : List Packet)
  deriving DecidableEq, Repr

abbrev Handler :=
  List Byte → PacketName → Context → Except PyError (HandlerResult × Context)

def placeholderFunction : Handler := fun _ _ context =>
  .ok (.one (packetBase .undefined), context)

def tscPacketHandler : Handler := fun packetData _ context =>
  let packet := packetTsc packetData
  .ok (.one packet, { context with tsc := packet.tsc })

def psbPacketHandler : Handler := fun _ _ context =>
  .ok (.one (packetBase .psb context.tsc), { context with disableInterpreting := true })

def psbendPacketHandler : Handler := fun _ _ context =>
  .ok (.one (packetBase .psbend context.tsc), { context with disableInterpreting := false })

/- The first `while` of tnt_packet_handler; `n` is `8 - idx`. -/
def tntSkip : Nat → Nat → Nat × Nat
  | 0, auxData => (0, auxData)
  | n + 1, auxData =>
    if auxData &&& (1 <<< 8) = 0 then tntSkip n (auxData <<< 1) else (n + 1, auxData)

/- The second `while`; again `n` is `8 - idx`. -/
def tntEmit (tsc : Option Nat) : Nat → Nat → List Packet
  | 0, _ => []
  | n + 1, auxData =>
    packetTnt (auxData &&& (1 <<< 8) != 0) tsc :: tntEmit tsc n (auxData <<< 1)

def tntPacketHandler : Handler := fun packetData _ context =>
  match packetData[0]? with
  | none => .error .indexError
  | some b =>
    let (n, auxData) := tntSkip 8 b.toNat
    -- `idx += 1` may leave `idx` at 9, where the second loop does not run either
    .ok (.list (tntEmit context.tsc (n - 1) (auxData <<< 1)), context)

def lastIpMask : Nat → Option Nat
  | 0b001 => some 0xFFFFFFFFFFFF0000
  | 0b010 => some 0xFFFFFFFF00000000
  | 0b100 => some 0xFFFF000000000000
  | _ => none

def signExtendMask (sign : Bool) : Nat :=
  if sign then 0xFFFF000000000000 else 0x0000FFFFFFFFFFFF

def unknownNameError : PyError := .exception "Unknown packet name"

def lastIpError : PyError :=
  .exception "LastIP not available in context. Trace is inconsistent!"

/- The packet class by name; every other name raises. -/
def fupTipPacketId : PacketName → Option PacketId
  | .fup => some .fup
  | .tip => some .tip
  | .tipPge => some .tipPge
  | .tipPgd => some .tipPgd
  | _ => none

/- The address an IP packet stands for. `x & ~mask` clears the bits of the mask. -/
def reconstructAddress (payloadType : Nat) (lastIp : Option Nat) (addr : Nat) :
    Except PyError Nat :=
  match lastIpMask payloadType with
  | some mask =>
    match lastIp with
    | none => .error lastIpError
    | some lastIp => .ok (lastIp &&& mask ||| Nat.ldiff addr mask)
  | none =>
    if payloadType = 0b011 then
      if addr &&& (1 <<< 47) != 0 then .ok (addr ||| signExtendMask true)
      else .ok (addr &&& signExtendMask false)
    else .ok addr

def fupTipPacketHandler : Handler := fun packetData packetName context =>
  match fupTipPacketId packetName with
  | none => .error unknownNameError
  | some packetId =>
    match packetData[0]? with
    | none => .error .indexError
    | some b =>
      let packet := packetTip packetId context.tsc
      let payloadType := b.toNat >>> 5 &&& 0b0111
      if payloadType = 0b000 then
        .ok (.one { packet with fields := .tip payloadType none }, context)
      else
        match reconstructAddress payloadType context.lastIp (foldBytes (packetData.drop 1)) with
        | .error e => .error e
        | .ok addr =>
          .ok (.one { packet with fields := .tip payloadType (some addr) },
            { context with lastIp := some addr })

def modePacketHandler : Handler := fun packetData _ context =>
  match packetData[1]? with
  | none => .error .indexError
  | some b =>
    match packetMode b context.tsc with
    | .error e => .error e
    | .ok packet =>
      match opmode packet.fields with
      | some m => .ok (.one packet, { context with addressingMode := some m })
      | none => .ok (.one packet, context)

def cbrPacketHandler : Handler := fun packetData _ context =>
  match packetCbr (packetData.drop 2) context.tsc with
  | .error e => .error e
  | .ok packet => .ok (.one packet, context)

/-! What a handler returns. A packet has the time stamp of the context, and each handler has its
own key of the context to write. -/

section

variable {data : List Byte} {name : PacketName} {c c' : Context} {r : HandlerResult}

theorem tntPacketHandler_ok (h : tntPacketHandler data name c = .ok (r, c')) :
    ∃ n auxData, r = .list (tntEmit c.tsc n auxData) ∧ c' = c := by
  simp only [tntPacketHandler] at h
  split at h
  · cases h
  · cases h
    exact ⟨_, _, rfl, rfl⟩

theorem fupTipPacketHandler_ok (h : fupTipPacketHandler data name c = .ok (r, c')) :
    ∃ packetId fields lastIp, fupTipPacketId name = some packetId ∧
      r = .one ⟨packetId, c.tsc, fields⟩ ∧ c' = { c with lastIp := lastIp } := by
  simp only [fupTipPacketHandler] at h
  split at h
  · cases h
  · rename_i packetId hid
    split at h
    · cases h
    · split at h
      · cases h
        exact ⟨packetId, _, c.lastIp, hid, rfl, rfl⟩
      · split at h
        · cases h
        · cases h
          exact ⟨packetId, _, _, hid, rfl, rfl⟩

theorem modePacketHandler_ok (h : modePacketHandler data name c = .ok (r, c')) :
    ∃ packet addressingMode, packet.packetId = .mode ∧ packet.tsc = c.tsc ∧
      r = .one packet ∧ c' = { c with addressingMode := addressingMode } := by
  simp only [modePacketHandler] at h
  split at h
  · cases h
  · split at h
    · cases h
    · rename_i packet hpacket
      obtain ⟨hid, htsc⟩ := packetMode_stamped hpacket
      split at h
      · cases h
        exact ⟨packet, _, hid, htsc, rfl, rfl⟩
      · cases h
        exact ⟨packet, c.addressingMode, hid, htsc, rfl, rfl⟩

theorem cbrPacketHandler_ok (h : cbrPacketHandler data name c = .ok (r, c')) :
    ∃ fields, r = .one ⟨.cbr, c.tsc, fields⟩ ∧ c' = c := by
  simp only [cbrPacketHandler, packetCbr] at h
  split at h
  · cases h
  · rename_i hcbr
    split at hcbr
    · cases hcbr
    · cases hcbr
      cases h
      exact ⟨_, rfl, rfl⟩

end

end IntelPt.Decoder
