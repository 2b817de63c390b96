import IntelPt.Driver.Validation

/-! The functions of ProcessorTrace.c on one core. Before every register access the
environment may act: a function takes that action as a parameter `t`, which is the hardware
alone or, where interrupts are enabled, the hardware and the PMI handler. -/
namespace IntelPt.Driver

/-- What happens before one register access. -/
structure CoreEvent where
  error : Bool := false
  stopped : Bool := false
  /-- the write position, if the hardware moved it -/
  outputMaskPtrs : Option (BitVec 64) := none
  topaPmi : Bool := false
  /-- a PMI is delivered, and whether its DPC object can be allocated -/
  pmi : Option Bool := none

inductive Dpc where
  | iptDpc | perCoreSetup | perCoreDisable
  deriving DecidableEq, Repr

/-- What is observed of a core, each with TraceEn at that moment. -/
inductive LogEntry where
  | write (w : MsrWrite) (traceEn : Bool)
  /-- the return of IptEnableTrace, IptPauseTrace, IptResumeTrace or IptDisableTrace -/
  | returned (runningStatus : IptRunningStatus) (traceEn : Bool)
  /-- the code is about to act on the status register -/
  | decision (traceEn triggerEn : Bool)
  /-- IPT_STATUS_ENABLED is stored -/
  | storesEnabled (traceEn : Bool)

structure Core where
  ctl : RtitCtl := {}
  status : RtitStatus := {}
  outputBase : BitVec 64 := 0
  outputMaskPtrs : BitVec 64 := 0
  topaPmi : Bool := false
  /-- gIptPerCoreControl of this core; `none` until IptInitPerCore has set it -/
  options : Option IntelPtOutputOptions := none
  dpcQueue : List Dpc := []
  env : List CoreEvent := []
  log : List LogEntry := []
  /-- the buffers IptAllocateNewTopaBuffer has returned -/
  allocated : List Mdl := []

def Core.setRunningStatus (core : Core) (status : IptRunningStatus) : Core :=
  { core with options := core.options.map fun o => { o with runningStatus := status } }

def Core.runningStatus (core : Core) : IptRunningStatus :=
  (core.options.map (·.runningStatus)).getD .uninitialized

def Core.triggerEn (core : Core) : Bool :=
  core.ctl.traceEn && !core.status.error && !core.status.stopped

/-- The next event of the environment, without its interrupt. Error and Stopped are only set
while TraceEn is. -/
def Core.hardware (core : Core) (e : CoreEvent) : Core :=
  { core with
    status := {
      error := core.status.error || core.ctl.traceEn && e.error
      stopped := core.status.stopped || core.ctl.traceEn && e.stopped }
    outputMaskPtrs := if core.ctl.traceEn then e.outputMaskPtrs.getD core.outputMaskPtrs
      else core.outputMaskPtrs
    topaPmi := core.topaPmi || e.topaPmi }

def hw (core : Core) : Core :=
  match core.env with
  | [] => core
  | e :: env => { core with env := env }.hardware e

def Core.apply (core : Core) : MsrWrite → Core
  | .rtitCtl value => { core with ctl := value }
  | .rtitStatus value => { core with status := value }
  | .rtitOutputBase value => { core with outputBase := value }
  | .rtitOutputMaskPtrs value => { core with outputMaskPtrs := value }
  | .perfGlobalOvfCtrl clear => { core with topaPmi := core.topaPmi && !clear }
  | .rtitCr3Match _ | .rtitAddrA _ _ | .rtitAddrB _ _ => core

def Core.logged (core : Core) (e : LogEntry) : Core := { core with log := core.log ++ [e] }

def wrote (w : MsrWrite) (core : Core) : Core :=
  { core.apply w with log := core.log ++ [.write w core.ctl.traceEn] }

def writeMsr (t : Core → Core) (w : MsrWrite) (core : Core) : Core := wrote w (t core)

def returned (core : Core) : Core :=
  core.logged (.returned core.runningStatus core.ctl.traceEn)

def decided (core : Core) : Core := core.logged (.decision core.ctl.traceEn core.triggerEn)

def storeEnabled (core : Core) : Core :=
  (core.setRunningStatus .enabled).logged (.storesEnabled core.ctl.traceEn)

def iptTopaPmiReason (t : Core → Core) (core : Core) : Bool × Core :=
  let core := t core
  (core.topaPmi, core)

def iptResetPmi (t : Core → Core) : Core → Core := writeMsr t (.perfGlobalOvfCtrl true)

def iptError (t : Core → Core) (core : Core) : Bool × Core :=
  let core := t core
  (core.status.error, core)

def iptClearError (t : Core → Core) (core : Core) : Core :=
  let core := t core
  writeMsr t (.rtitStatus { core.status with error := false }) core

def iptEnabled (t : Core → Core) (core : Core) : Bool × Core :=
  let core := t core
  (core.triggerEn, core)

/- Reads RTIT_CTL and writes it back with TraceEn changed. -/
def writeTraceEn (t : Core → Core) (value : Bool) (core : Core) : Core :=
  let core := t core
  writeMsr t (.rtitCtl { core.ctl with traceEn := value }) core

/- `if (IptError()) IptClearError()` -/
def clearPendingError (t : Core → Core) (core : Core) : Core :=
  let (error, core) := iptError t core
  if error then iptClearError t core else core

def iptEnableTrace (t : Core → Core) (core : Core) : NtStatus × Core :=
  let core := clearPendingError t core
  let core := writeTraceEn t true core
  let (error, core) := iptError t core
  let core := decided core
  if error then (.unsuccessful, returned core)
  else
    let (enabled, core) := iptEnabled t core
    let core := decided core
    -- an interrupt may still come before the store
    if enabled then (.success, returned (storeEnabled (t core)))
    else (.unsuccessful, returned core)

def iptClearTraceEn (t : Core → Core) : Core → Core := writeTraceEn t false

/- `(ULONG)OutputOffset + ((ULONG)(MaskOrTableOffset >> 8) * PAGE_SIZE)` -/
def bufferSize (outMask : BitVec 64) : BitVec 32 :=
  outMask.extractLsb' 32 32 + (outMask.extractLsb' 0 32 >>> 8) * 4096

/-- The buffer, its size, and the core with tracing off. -/
def iptDisableTrace (t : Core → Core) (core : Core) : Option Mdl × BitVec 32 × Core :=
  let core := iptClearTraceEn t core
  -- IA32_RTIT_STATUS is read for a message only
  let core := t core
  let core := t core
  (core.options.bind (·.topaMdl), bufferSize core.outputMaskPtrs,
    returned (core.setRunningStatus .disabled))

/- With an error pending IptEnabled is asked for a message. -/
def reportPendingError (t : Core → Core) (core : Core) : Core :=
  let (error, core) := iptError t core
  if error then (iptEnabled t core).2 else core

/- `if (IptEnabled()) IptClearTraceEn()` -/
def clearIfEnabled (t : Core → Core) (core : Core) : Core :=
  let (enabled, core) := iptEnabled t core
  let core := decided core
  if enabled then iptClearTraceEn t core else core

def iptPauseTrace (t : Core → Core) (core : Core) : Core :=
  let core := reportPendingError t core
  let core := clearIfEnabled t core
  returned (core.setRunningStatus .paused)

def iptResumeTrace (t : Core → Core) (core : Core) : NtStatus × Core :=
  let (enabled, core) := iptEnabled t core
  if enabled then (.success, returned core)
  else
    let (status, core) := iptEnableTrace t core
    (status, returned core)

/-- `pages` is what MmAllocatePagesForMdlEx returns. -/
def iptAllocateNewTopaBuffer (entriesCount : Nat) (topaTable : List TopaEntry)
    (nextTopaPa : BitVec 64) (pages : Option Mdl) : NtStatus × List TopaEntry × Option Mdl :=
  match pages with
  | none => (.insufficientResources, topaTable, none)
  | some mdl =>
    let entry (i : Nat) : TopaEntry :=
      { outputRegionBasePhysicalAddress := mdl.pfns.getD i 0
        «end» := false
        -- `EntriesCount - 2` is unsigned: with a single entry it is no index
        int := i + 2 == entriesCount
        stop := false
        size := 0 }
    let last : TopaEntry :=
      { topaTable.getD entriesCount {} with
        outputRegionBasePhysicalAddress := (nextTopaPa >>> 12).setWidth 52
        stop := false
        int := false
        «end» := true }
    (.success, (List.range entriesCount).map entry ++ [last], some mdl)

def storeNewTopa (options : IntelPtOutputOptions) (topaTable : List TopaEntry)
    (newMdl : Option Mdl) (core : Core) : Core :=
  match newMdl with
  | none => core
  | some mdl =>
    { core with
      options := some { options with topaTable := topaTable, topaMdl := some mdl }
      allocated := core.allocated ++ [mdl] }

/-- The status, the unlinked buffer, its size, and the core. -/
def iptUnlinkFullTopaBuffers (t : Core → Core) (pages : Option Mdl) (options : IntelPtOutputOptions)
    (core : Core) : NtStatus × Option Mdl × BitVec 32 × Core :=
  if options.runningStatus = .enabled then (.cannotMake, none, 0, core)
  else
    let mdl := options.topaMdl
    let (status, topaTable, newMdl) := iptAllocateNewTopaBuffer options.topaEntries
      options.topaTable options.topaTablePa pages
    let core := storeNewTopa options topaTable newMdl core
    -- IA32_RTIT_STATUS is read for a message only
    let core := t core
    let core := t core
    let size := bufferSize core.outputMaskPtrs
    let core := writeMsr t (.rtitOutputMaskPtrs options.outputMask) core
    let core := writeMsr t (.rtitOutputBase options.topaTablePa) core
    (status, mdl, size, core)

/-- What the allocations of IptInitPerCore return: the pool memory for the structure, with
whatever it holds, the physical address of the table or region, and the pages. -/
structure InitAlloc where
  pool : Option IntelPtOutputOptions
  table : Option (BitVec 64)
  pages : Option Mdl
  /-- what the stack holds in `bufferVa` and `bufferPa` of IptInitSingleRegionOutput -/
  bufferVa : BitVec 64 := 0
  bufferPa : BitVec 64 := 0

def defaultNumberOfTopaEntries : Nat := 10

def iptInitTopaOutput (capabilities : IntelPtCapabilities) (alloc : InitAlloc)
    (options : IntelPtOutputOptions) : NtStatus × IntelPtOutputOptions :=
  if capabilities.topaOutputSupport then
    let options :=
      if capabilities.topaMultipleOutputEntriesSupport then
        { options with outputType := .toPA, topaEntries := defaultNumberOfTopaEntries }
      else { options with outputType := .toPASingleRegion, topaEntries := 1 }
    if options.topaEntries > capabilities.topaOutputEntries.toNat then (.tooManyLinks, options)
    else
      match alloc.table with
      | none => (.insufficientResources, options)
      | some pa =>
        let zeroed := List.replicate (options.topaEntries + 1) ({} : TopaEntry)
        let options := { options with topaTablePa := pa, topaTable := zeroed }
        match iptAllocateNewTopaBuffer options.topaEntries zeroed pa alloc.pages with
        | (.success, topaTable, mdl) =>
          (.success, { options with
            topaTable := topaTable
            topaMdl := mdl
            outputMask := 0x7F
            runningStatus := .initialized })
        | (status, _, _) => (status, options)
  else (.notSupported, options)

/-- IptPageAllocation: whether `bufferVa` is not NULL behind it, and `bufferPa`. It returns
nothing, and without memory leaves the two as they were. -/
def iptPageAllocation (alloc : InitAlloc) : Bool × BitVec 64 :=
  match alloc.table with
  | none => (alloc.bufferVa != 0, alloc.bufferPa)
  | some pa => (true, pa)

def iptInitSingleRegionOutput (alloc : InitAlloc) (options : IntelPtOutputOptions) :
    NtStatus × IntelPtOutputOptions :=
  let (bufferVa, bufferPa) := iptPageAllocation alloc
  if !bufferVa || bufferPa == 0 then (.insufficientResources, options)
  else (.success, { options with topaTablePa := bufferPa, outputMask := 4095 })

def iptInitOutputStructure (capabilities : IntelPtCapabilities) (alloc : InitAlloc)
    (options : IntelPtOutputOptions) : NtStatus × IntelPtOutputOptions :=
  if capabilities.topaOutputSupport then iptInitTopaOutput capabilities alloc options
  else iptInitSingleRegionOutput alloc options

def initStores (capabilities : IntelPtCapabilities) (alloc : InitAlloc) :
    Option IntelPtOutputOptions :=
  alloc.pool.bind fun pool =>
    match iptInitOutputStructure capabilities alloc
        { pool with topaEntries := defaultNumberOfTopaEntries } with
    | (.success, options) => some options
    | _ => none

def storeOptions (capabilities : IntelPtCapabilities) (options : IntelPtOutputOptions)
    (core : Core) : Core :=
  { core with
    options := some options
    allocated := core.allocated ++
      if capabilities.topaOutputSupport then options.topaMdl.toList else [] }

/-- Runs before the PMI handler is registered, so the structure may be stored in the control
record before tracing is switched off. -/
def iptInitPerCore (t : Core → Core) (capabilities : IntelPtCapabilities) (alloc : InitAlloc)
    (core : Core) : NtStatus × Core :=
  -- `IptEnabled` of the control structure is set here and never read
  let (_, core) := iptEnabled t core
  match alloc.pool with
  | none => (.insufficientResources, core)
  | some pool =>
    match iptInitOutputStructure capabilities alloc
        { pool with topaEntries := defaultNumberOfTopaEntries } with
    | (.success, options) =>
      let core := storeOptions capabilities options core
      let (enabled, core) := iptEnabled t core
      let core := decided core
      if enabled then (.success, (iptDisableTrace t core).2.2) else (.success, core)
    | (status, _) => (status, core)

def iptConfigureProcessorTrace (t : Core → Core) (config : IntelPtConfiguration)
    (options : IntelPtOutputOptions) (core : Core) : Core :=
  (configureWrites config options).foldl (fun core w => writeMsr t w core) core

def iptSetup (t : Core → Core) (capabilities : Except NtStatus IntelPtCapabilities)
    (config : IntelPtConfiguration) (beyond : Nat → BitVec 32) (options : IntelPtOutputOptions)
    (core : Core) : NtStatus × Core :=
  match (iptValidateConfigurationRequest capabilities config beyond).1 with
  | .success => (.success, iptConfigureProcessorTrace t config options core)
  | status => (status, core)

end IntelPt.Driver
