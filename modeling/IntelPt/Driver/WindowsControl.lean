import IntelPt.Driver.ProcessorTrace

/-! The per-core routines of ProcessorTraceWindowsControl.c: the PMI handler, the DPC it queues,
and the setup and disable DPCs. A routine that reads gIptPerCoreControl before IptInitPerCore
has filled it follows an arbitrary pointer; such a call has no result. -/
namespace IntelPt.Driver

def Core.start (core : Core) (env : List CoreEvent) : Core :=
  { core with env := env, log := [], allocated := [] }

inductive CommPayload where
  | firstPacket (imageBaseAddress : BitVec 64) (imageSize : BitVec 32)
    (processorFrequency : BitVec 64)
  | genericPacket (bufferSize : BitVec 32) (bufferAddress : Option Mdl)
  deriving DecidableEq, Repr

structure CommBufferAddress where
  firstPacket : Bool
  lastPacket : Bool
  cpuId : Nat
  sequenceId : Nat
  packetId : Nat
  payload : CommPayload
  deriving DecidableEq, Repr

def CommBufferAddress.mdl (dto : CommBufferAddress) : Option Mdl :=
  match dto.payload with
  | .firstPacket .. => none
  | .genericPacket _ mdl => mdl

/-- What a routine gets from outside: the allocations, the ids it stamps, its core number. -/
structure PacketInput where
  dto : Bool
  element : Bool
  cpuId : Nat := 0
  sequenceId : Nat := 0
  packetId : Nat := 0

/-- The packet of an image load, PtwHookImageLoadCr3 and PtwHookImageLoadCodeBase alike. -/
def ptwHookImageLoad (input : PacketInput) (imageBaseAddress : BitVec 64) (imageSize : BitVec 32)
    (processorFrequency : BitVec 64) : Option CommBufferAddress :=
  if input.dto && input.element then
    some {
      firstPacket := true
      lastPacket := false
      cpuId := input.cpuId
      sequenceId := input.sequenceId
      packetId := input.packetId
      payload := .firstPacket imageBaseAddress imageSize processorFrequency }
  else none

/-- The element that reaches the queue, if both allocations succeed. -/
def enqueued (input : PacketInput) (lastPacket : Bool) (size : BitVec 32) (mdl : Option Mdl) :
    Option CommBufferAddress :=
  if input.dto && input.element then
    some {
      firstPacket := false
      lastPacket := lastPacket
      cpuId := input.cpuId
      sequenceId := input.sequenceId
      packetId := input.packetId
      payload := .genericPacket size mdl }
  else none

def iptDpc (t : Core → Core) (pages : Option Mdl) (input : PacketInput) (core : Core) :
    Option (Option CommBufferAddress × Core) :=
  core.options.map fun options =>
    let (status, mdl, size, core) := iptUnlinkFullTopaBuffers t pages options core
    if status ≠ .success then (none, core)
    else if !input.dto then (none, core)
    else
      let core := iptResetPmi t core
      (enqueued input false size mdl, (iptResumeTrace t core).2)

/-- `dpcObject` tells whether the KDPC can be allocated. -/
def iptPmiHandler (t : Core → Core) (dpcObject : Bool) (core : Core) : Core :=
  let (reason, core) := iptTopaPmiReason t core
  if !reason then iptResetPmi t core
  else
    let core := iptPauseTrace t core
    if dpcObject then { core with dpcQueue := core.dpcQueue ++ [.iptDpc] } else core

def irq (core : Core) : Core :=
  match core.env with
  | [] => core
  | e :: env =>
    let core := { core with env := env }.hardware e
    match e.pmi with
    | none => core
    | some dpcObject => iptPmiHandler hw dpcObject core

def ptwIpiPerCoreSetup (t : Core → Core) (capabilities : Except NtStatus IntelPtCapabilities)
    (config : IntelPtConfiguration) (beyond : Nat → BitVec 32) (core : Core) : Option Core :=
  core.options.map fun options =>
    -- a failure of IptSetup is printed and then ignored
    let (_, core) := iptSetup t capabilities config beyond options core
    (iptEnableTrace t core).2

def ptwDpcPerCoreDisable (t : Core → Core) (input : PacketInput) (core : Core) :
    Option (Option CommBufferAddress × Core) :=
  core.options.map fun _ =>
    let (mdl, size, core) := iptDisableTrace t core
    (enqueued input true size mdl, core)

end IntelPt.Driver
