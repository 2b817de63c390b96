import Mathlib.Data.Fin.VecNotation
import Mathlib.Tactic.Common

/-! Register layouts and shared structures, as in IntelProcessorTraceDefs.h and
ProcessorTraceShared.h. Bit-fields of one bit are `Bool`; `unsigned short`, `int` enumerations
and pointers are `BitVec` of their width. -/
namespace IntelPt.Driver

inductive NtStatus where
  | success | unsuccessful | notSupported | insufficientResources | cannotMake | tooManyLinks
  | noMoreEntries
  deriving DecidableEq, Repr

abbrev NtStatusCode := BitVec 32

def NtStatusCode.NtSuccess (status : NtStatusCode) : Prop := status.msb = false

instance (status : NtStatusCode) : Decidable status.NtSuccess :=
  inferInstanceAs (Decidable (_ = _))

def statusSuccess : NtStatusCode := 0x00000000
def statusNoMoreEntries : NtStatusCode := 0x8000001A
def statusNotImplemented : NtStatusCode := 0xC0000002
def statusAccessDenied : NtStatusCode := 0xC0000022
def statusInsufficientResources : NtStatusCode := 0xC000009A
def statusInvalidParameter1 : NtStatusCode := 0xC00000EF
def statusInvalidParameter2 : NtStatusCode := 0xC00000F0

abbrev FailureStatus := { status : NtStatusCode // ¬ status.NtSuccess }

structure RtitCtl where
  traceEn : Bool := false
  cycEn : Bool := false
  os : Bool := false
  user : Bool := false
  pwrEvtEn : Bool := false
  fupOnPtw : Bool := false
  fabricEn : Bool := false
  cr3Filter : Bool := false
  toPA : Bool := false
  mtcEn : Bool := false
  tscEn : Bool := false
  disRetc : Bool := false
  ptwEn : Bool := false
  branchEn : Bool := false
  mtcFreq : BitVec 4 := 0
  cycThresh : BitVec 4 := 0
  psbFreq : BitVec 4 := 0
  addr0Cfg : BitVec 4 := 0
  addr1Cfg : BitVec 4 := 0
  addr2Cfg : BitVec 4 := 0
  addr3Cfg : BitVec 4 := 0
  injectPsbPmiOnEnable : Bool := false
  deriving DecidableEq, Repr

def RtitCtl.addrCfg (ctl : RtitCtl) : Fin 4 → BitVec 4 :=
  ![ctl.addr0Cfg, ctl.addr1Cfg, ctl.addr2Cfg, ctl.addr3Cfg]

structure RtitStatus where
  error : Bool := false
  stopped : Bool := false
  deriving DecidableEq, Repr

inductive MsrWrite where
  | rtitCtl (value : RtitCtl)
  | rtitStatus (value : RtitStatus)
  | rtitOutputBase (value : BitVec 64)
  | rtitOutputMaskPtrs (value : BitVec 64)
  | rtitCr3Match (value : BitVec 64)
  | rtitAddrA (n : Fin 4) (value : BitVec 64)
  | rtitAddrB (n : Fin 4) (value : BitVec 64)
  | perfGlobalOvfCtrl (topaPmi : Bool)
  deriving DecidableEq, Repr

/-! The configuration request. -/

def rangeUnused : BitVec 32 := 0
def rangeFilterEn : BitVec 32 := 1
def rangeTraceStop : BitVec 32 := 2
def rangeMax : BitVec 32 := 3

structure IntelPtRange where
  baseAddress : BitVec 64 := 0
  endAddress : BitVec 64 := 0
  rangeType : BitVec 32 := 0

structure IntelPtFilteringRange where
  enable : BitVec 16 := 0
  numberOfRanges : BitVec 16 := 0
  rangeOptions : Fin 4 → IntelPtRange := fun _ => {}

structure IntelPtFilteringCr3 where
  enable : BitVec 16 := 0
  cr3Address : BitVec 64 := 0

structure IntelPtFilteringCpl where
  filterUm : BitVec 16 := 0
  filterKm : BitVec 16 := 0

structure IntelPtFilteringOptions where
  filterCr3 : IntelPtFilteringCr3 := {}
  filterCpl : IntelPtFilteringCpl := {}
  filterRange : IntelPtFilteringRange := {}

structure IntelPtPacketFreq where
  enable : BitVec 16 := 0
  frequency : BitVec 32 := 0

structure IntelPtPacket where
  enable : BitVec 16 := 0

structure IntelPtPacketMisc where
  enableFupPacketsAfterPtw : BitVec 16 := 0
  disableRetCompression : BitVec 16 := 0
  injectPsbPmiOnEnable : BitVec 16 := 0
  psbFrequency : BitVec 32 := 0

structure IntelPtPacketGenerationOptions where
  packetCyc : IntelPtPacketFreq := {}
  packetPwr : IntelPtPacket := {}
  packteMtc : IntelPtPacketFreq := {}
  packetTsc : IntelPtPacket := {}
  packetCofi : IntelPtPacket := {}
  packetPtw : IntelPtPacket := {}
  misc : IntelPtPacketMisc := {}

structure IntelPtConfiguration where
  filteringOptions : IntelPtFilteringOptions := {}
  packetGenerationOptions : IntelPtPacketGenerationOptions := {}

structure IntelPtCapabilities where
  maximumValidSubleaf : BitVec 32 := 0
  cr3FilteringSupport : Bool := false
  configurablePsbAndCycleAccurateModeSupport : Bool := false
  mtcSupport : Bool := false
  ptwriteSupport : Bool := false
  powerEventTraceSupport : Bool := false
  psbAndPmiPreservationSupport : Bool := false
  topaOutputSupport : Bool := false
  topaMultipleOutputEntriesSupport : Bool := false
  numberOfAddressRanges : BitVec 3 := 0
  topaOutputEntries : BitVec 64 := 0

/-! The output structure of a core. -/

inductive IntelPtOutputType where
  | singleRegion | toPA | toPASingleRegion | traceTransportSubsystem
  deriving DecidableEq, Repr

/-- IPT_RUNNING_STATUS; IPT_STATUS_DISABLED is the same value as IPT_STATUS_INITIALIZED. -/
inductive IptRunningStatus where
  | uninitialized | initialized | paused | enabled
  deriving DecidableEq, Repr

abbrev IptRunningStatus.disabled : IptRunningStatus := .initialized

abbrev Pfn := BitVec 52

structure TopaEntry where
  «end» : Bool := false
  int : Bool := false
  stop : Bool := false
  size : BitVec 4 := 0
  outputRegionBasePhysicalAddress : Pfn := 0
  deriving DecidableEq, Repr

structure Mdl where
  id : Nat
  pfns : List Pfn
  deriving DecidableEq, Repr

/-- INTEL_PT_OUTPUT_OPTIONS; the table at `TopaTableVa` is kept by its content. -/
structure IntelPtOutputOptions where
  runningStatus : IptRunningStatus := .uninitialized
  outputType : IntelPtOutputType := .singleRegion
  topaEntries : Nat
  topaMdl : Option Mdl := none
  topaTablePa : BitVec 64 := 0
  topaTable : List TopaEntry := []
  outputMask : BitVec 64 := 0

end IntelPt.Driver
