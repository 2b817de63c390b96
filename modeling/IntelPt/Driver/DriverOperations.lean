import IntelPt.Driver.WindowsControl

/-! The driver as a machine over any number of cores. One step is one routine on one core, with
whatever the hardware and, in a DPC, the PMI handler do meanwhile; the routines come in any
order. -/
namespace IntelPt.Driver

structure System where
  cores : Nat → Core
  queue : List CommBufferAddress := []
  /-- the buffers PtwCommandGetBuffer has returned -/
  handed : List Mdl := []
  /-- the buffers IptAllocateNewTopaBuffer has returned -/
  allocated : List Mdl := []

inductive DriverOp where
  | init (cpu : Nat) (capabilities : IntelPtCapabilities) (alloc : InitAlloc)
    (env : List CoreEvent)
  | setup (cpu : Nat) (capabilities : Except NtStatus IntelPtCapabilities)
    (config : IntelPtConfiguration) (beyond : Nat → BitVec 32) (env : List CoreEvent)
  | pmi (cpu : Nat) (dpcObject : Bool) (env : List CoreEvent)
  | dpc (cpu : Nat) (pages : Option Mdl) (packet : PacketInput) (env : List CoreEvent)
  | disable (cpu : Nat) (packet : PacketInput) (env : List CoreEvent)
  | imageLoad (packet : PacketInput) (imageBaseAddress : BitVec 64) (imageSize : BitVec 32)
    (processorFrequency : BitVec 64)
  | getBuffer

def Mdl.Apart (a b : Mdl) : Prop := ∀ pfn ∈ a.pfns, pfn ∉ b.pfns

instance (a b : Mdl) : Decidable (a.Apart b) := List.decidableBAll _ a.pfns

def System.Fresh (s : System) (entries : Nat) (pages : Option Mdl) : Prop :=
  ∀ mdl ∈ pages, mdl ∉ s.allocated ∧
    (∀ other ∈ s.allocated, mdl.Apart other) ∧ mdl.pfns.length = entries

instance (s : System) (entries : Nat) (pages : Option Mdl) : Decidable (s.Fresh entries pages) :=
  inferInstanceAs (Decidable (∀ mdl ∈ pages, _))

def System.put (s : System) (cpu : Nat) (core : Core) (packet : Option CommBufferAddress) :
    System where
  cores := Function.update s.cores cpu core
  queue := s.queue ++ packet.toList
  handed := s.handed
  allocated := s.allocated ++ core.allocated

def initEntries (capabilities : IntelPtCapabilities) : Nat :=
  if capabilities.topaMultipleOutputEntriesSupport then defaultNumberOfTopaEntries else 1

def System.step (s : System) : DriverOp → Option System
  | .init cpu capabilities alloc env =>
    if s.Fresh (initEntries capabilities) alloc.pages then
      some (s.put cpu (iptInitPerCore hw capabilities alloc ((s.cores cpu).start env)).2 none)
    else none
  | .setup cpu capabilities config beyond env =>
    (ptwIpiPerCoreSetup irq capabilities config beyond ((s.cores cpu).start env)).map
      fun core => s.put cpu core none
  | .pmi cpu dpcObject env =>
    if (s.cores cpu).options.isSome then
      some (s.put cpu (iptPmiHandler hw dpcObject ((s.cores cpu).start env)) none)
    else none
  | .dpc cpu pages packet env =>
    if s.Fresh ((s.cores cpu).options.elim 0 (·.topaEntries)) pages then
      (iptDpc irq pages packet ((s.cores cpu).start env)).map fun r => s.put cpu r.2 r.1
    else none
  | .disable cpu packet env =>
    (ptwDpcPerCoreDisable irq packet ((s.cores cpu).start env)).map fun r => s.put cpu r.2 r.1
  | .imageLoad packet imageBaseAddress imageSize processorFrequency =>
    let dto := ptwHookImageLoad packet imageBaseAddress imageSize processorFrequency
    some { s with queue := s.queue ++ dto.toList }
  | .getBuffer =>
    match s.queue with
    | [] => none
    | dto :: queue => some { s with queue := queue, handed := s.handed ++ dto.mdl.toList }

def System.boot (hardware : Nat → Core) : System where
  cores cpu := { hardware cpu with options := none, log := [] }

/-! A session on core 0. -/

def topaCapabilities : IntelPtCapabilities where
  topaOutputSupport := true
  topaMultipleOutputEntriesSupport := true
  topaOutputEntries := 0x7F

def tenPages (id : Nat) : Mdl where
  id := id
  pfns := (List.range 10).map fun n => BitVec.ofNat 52 (10 * id + n)

def initAlloc : InitAlloc where
  pool := some { topaEntries := 0 }
  table := some 0x1000
  pages := some (tenPages 0)

def firstSession : List DriverOp :=
  [.init 0 topaCapabilities initAlloc [], .setup 0 (.ok topaCapabilities) {} (fun _ => 0) []]

end IntelPt.Driver
