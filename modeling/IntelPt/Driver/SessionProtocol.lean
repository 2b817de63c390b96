import IntelPt.Driver.StartUp
import IntelPt.Driver.PacketIds

/-! Tracing sessions over all cores: image loads, thread creations and process exits as the hooks
of ProcessorTraceWindowsControl.c see them, the DPCs these queue on each core, and the PMIs in
between. An image load opens a sequence, and gQueueHead is to hold every sequence in order: its
FIRST packet, the data of its process only, and a LAST packet from each core. -/
namespace IntelPt.Driver
open Runs

variable {n : Nat}

inductive QueuedDpc where
  /-- with the sequence that was traced on the core when the PMI came -/
  | iptDpc (captured : Option (BitVec 32))
  /-- with the sequence of the process that the thread belongs to -/
  | perCoreSetup (sequence : Option (BitVec 32)) (config : IntelPtConfiguration)
  | perCoreDisable (call : Nat)

structure Sent where
  packet : CommBufferAddress
  captured : Option (BitVec 32) := none

structure ExitCall where
  call : Nat
  sequence : Option (BitVec 32)
  deriving DecidableEq

structure Protocol (n : Nat) where
  cores : Fin n → Core
  dpcs : Fin n → List QueuedDpc := fun _ => []
  gProcessId : Nat := 0
  gThreadHooked : Bool := false
  gImageBasePaStart : BitVec 64 := 0
  gImageBasePaEnd : BitVec 64 := 0
  data : DriverData := {}
  /-- everything that has been enqueued in gQueueHead -/
  queue : List Sent := []
  /-- how often PtwHookThreadCreation is registered -/
  threadNotify : Nat := 0
  exits : List ExitCall := []
  calls : Nat := 0
  /-- the image loads, the last one first: the process, and the sequence it has opened -/
  opened : List (Nat × BitVec 32) := []
  /-- the sequences whose process has exited -/
  exited : List (BitVec 32) := []
  /-- the sequence traced on each core, between its setup and its disable DPC -/
  traced : Fin n → Option (BitVec 32) := fun _ => none

structure ImageLoad (n : Nat) where
  /-- FullImageName contains ExecutableName -/
  found : Bool := true
  processId : Nat
  cpu : Fin n
  imageBase : BitVec 64 := 0
  imageSize : BitVec 64 := 0
  processorFrequency : BitVec 64 := 0

structure RoutineInput where
  env : List CoreEvent := []
  pages : Mdl
  capabilities : Except NtStatus IntelPtCapabilities := .ok {}
  beyond : Nat → BitVec 32 := fun _ => 0

inductive ProtocolInput (n : Nat) where
  | imageLoad (load : ImageLoad n)
  | threadCreation (thread : ThreadCreation)
  /-- `create` tells whether there is a CreateInfo -/
  | processExit (processId : Nat) (create : Bool)
  /-- the call finds all its DPCs finished and goes on -/
  | exitReturns (call : Nat)
  | pmi (cpu : Fin n) (env : List CoreEvent)
  /-- the core runs the first DPC of its queue -/
  | dpc (cpu : Fin n) (input : RoutineInput)

def Protocol.openedBy (s : Protocol n) (processId : Nat) : Option (BitVec 32) :=
  (s.opened.find? fun o => o.1 = processId).map (·.2)

def Protocol.stamp (s : Protocol n) (cpu : Fin n) : PacketInput where
  dto := true
  element := true
  cpuId := cpu
  sequenceId := (duGetSequenceId s.data).toNat
  packetId := (duGetPacketId s.data).1.toNat

def Protocol.enqueue (s : Protocol n) (sent : Option Sent) : Protocol n :=
  { s with
    data := if sent.isSome then (duGetPacketId s.data).2 else s.data
    queue := s.queue ++ sent.toList }

/-- A routine leaves the core. The PMIs that came `during` it have queued their IptDpcs. -/
def Protocol.leave (s : Protocol n) (cpu : Fin n) (core : Core) (rest : List QueuedDpc)
    (during traced : Option (BitVec 32)) (sent : Option Sent) : Protocol n :=
  { s.enqueue sent with
    cores := Function.update s.cores cpu { core with dpcQueue := [] }
    dpcs := Function.update s.dpcs cpu (rest ++ core.dpcQueue.map fun _ => .iptDpc during)
    traced := Function.update s.traced cpu traced }

def ptwHookImageLoadCr3 (load : ImageLoad n) (s : Protocol n) : Protocol n :=
  if !load.found then s
  else
    let data := { duIncreaseSequenceId s.data with packetIdCounter := 0 }
    let s := { s with
      gProcessId := load.processId
      data := data
      gImageBasePaStart := load.imageBase
      gImageBasePaEnd := load.imageBase + load.imageSize
      threadNotify := s.threadNotify + 1
      opened := (load.processId, duGetSequenceId data) :: s.opened }
    s.enqueue ((ptwHookImageLoad (s.stamp load.cpu) load.imageBase (load.imageSize.setWidth 32)
      load.processorFrequency).map fun packet => { packet := packet })

def Protocol.startUp (s : Protocol n) : StartUp n where
  cores := s.cores
  gProcessId := s.gProcessId
  gThreadHooked := s.gThreadHooked

/-- PtwHookThreadCreation up to the queueing of its DPCs. The system passes the process id as
ParentId. -/
def Protocol.threadCreation (thread : ThreadCreation) (s : Protocol n) : Protocol n :=
  if thread.Hooks s.startUp then
    let config := threadCreationConfiguration thread.cr3 s.gImageBasePaStart s.gImageBasePaEnd
    { s with
      gThreadHooked := true
      dpcs := fun cpu => s.dpcs cpu ++ [.perCoreSetup (s.openedBy thread.parentId) config] }
  else s

def Protocol.processExit (processId : Nat) (create : Bool) (s : Protocol n) : Protocol n :=
  if create then s
  else if s.gProcessId = 0 ∨ processId ≠ s.gProcessId then
    { s with exited := (s.openedBy processId).toList ++ s.exited }
  else { s with
    calls := s.calls + 1
    exits := ⟨s.calls, s.openedBy processId⟩ :: s.exits
    dpcs := fun cpu => s.dpcs cpu ++ [.perCoreDisable s.calls] }

def QueuedDpc.disables (call : Nat) : QueuedDpc → Bool
  | .perCoreDisable c => c == call
  | _ => false

/-- The rest of PtwHookProcessExit, once no DPC of the call is left. -/
def Protocol.exitReturns (s : Protocol n) (call : Nat) : Option (Protocol n) :=
  match s.exits.find? fun exit => exit.call = call with
  | none => none
  | some exit =>
    if ∀ cpu, (s.dpcs cpu).any (·.disables call) = false then some { s with
      threadNotify := s.threadNotify - 1
      gProcessId := 0
      gThreadHooked := false
      exits := s.exits.filter fun exit => exit.call ≠ call
      exited := exit.sequence.toList ++ s.exited }
    else none

def Protocol.runDpc (s : Protocol n) (cpu : Fin n) (input : RoutineInput) (rest : List QueuedDpc) :
    QueuedDpc → Option (Protocol n)
  | .iptDpc captured =>
    (iptDpc irq (some input.pages) (s.stamp cpu) ((s.cores cpu).start input.env)).map fun r =>
      s.leave cpu r.2 rest (s.traced cpu) (s.traced cpu)
        (r.1.map fun packet => { packet := packet, captured := captured })
  | .perCoreSetup sequence config =>
    (ptwIpiPerCoreSetup irq input.capabilities config input.beyond
      ((s.cores cpu).start input.env)).map fun core =>
        s.leave cpu core rest sequence sequence none
  | .perCoreDisable _ =>
    (ptwDpcPerCoreDisable irq (s.stamp cpu) ((s.cores cpu).start input.env)).map fun r =>
      s.leave cpu r.2 rest (s.traced cpu) none
        (r.1.map fun packet => { packet := packet, captured := s.traced cpu })

def Protocol.step (s : Protocol n) : ProtocolInput n → Option (Protocol n)
  | .imageLoad load => some (ptwHookImageLoadCr3 load s)
  | .threadCreation thread => if 0 < s.threadNotify then some (s.threadCreation thread) else none
  | .processExit processId create => some (s.processExit processId create)
  | .exitReturns call => s.exitReturns call
  | .pmi cpu env =>
    if (s.cores cpu).options.isSome then
      some (s.leave cpu (iptPmiHandler hw true ((s.cores cpu).start env)) (s.dpcs cpu)
        (s.traced cpu) (s.traced cpu) none)
    else none
  | .dpc cpu input =>
    match s.dpcs cpu with
    | [] => none
    | dpc :: rest => s.runDpc cpu input rest dpc

def Protocol.stamped (s : Protocol n) (id : BitVec 32) : List CommBufferAddress :=
  (s.queue.map (·.packet)).filter fun d => d.sequenceId = id.toNat

def Protocol.sentBy (s : Protocol n) (id : BitVec 32) (cpu : Fin n) : List CommBufferAddress :=
  (s.stamped id).filter fun d => d.cpuId = cpu

/-- One LAST packet, with nothing behind it. -/
def EndsWithLast (packets : List CommBufferAddress) : Prop :=
  ∃ before last, packets = before ++ [last] ∧ last.lastPacket = true ∧
    ∀ d ∈ before, d.lastPacket = false

/-- Every sequence opened has one FIRST packet, in front of its others; what was captured while
a sequence was traced is stamped with it; and a sequence whose process has exited ends on every
core with its LAST packet. -/
structure SessionProtocol (s : Protocol n) : Prop where
  first : ∀ o ∈ s.opened, ∃ first rest, s.stamped o.2 = first :: rest ∧
    first.firstPacket = true ∧ ∀ d ∈ rest, d.firstPacket = false
  captured : ∀ sent ∈ s.queue, ∀ id, sent.captured = some id → sent.packet.sequenceId = id.toNat
  last : ∀ id ∈ s.exited, ∀ cpu, EndsWithLast (s.sentBy id cpu)

/-- An image is loaded while no process is traced, in a process with an id; tracing is set up
for the process whose image was loaded last, and it exits once; and an IptDpc runs before the
disable DPC of the sequence whose data it hands over. -/
def Orderly (s : Protocol n) : ProtocolInput n → Prop
  | .imageLoad load => load.found = true → load.processId ≠ 0 ∧ s.gProcessId = 0 ∧
      s.data.sequenceIdCounter.toNat + 1 < 2 ^ 32
  | .threadCreation thread => thread.Hooks s.startUp → thread.parentId = s.gProcessId ∧ s.exits = []
  | .processExit processId create => create = false → processId = s.gProcessId → s.exits = []
  | .dpc cpu _ =>
    match (s.dpcs cpu).head? with
    | some (.iptDpc captured) => captured.isSome = true ∧ captured = s.traced cpu
    | _ => True
  | .exitReturns _ | .pmi _ _ => True

instance (s : Protocol n) : (input : ProtocolInput n) → Decidable (Orderly s input)
  | .imageLoad load => inferInstanceAs (Decidable (load.found = true → _ ∧ _ ∧ _))
  | .threadCreation thread => inferInstanceAs (Decidable (thread.Hooks s.startUp → _ ∧ _))
  | .processExit processId create =>
    inferInstanceAs (Decidable (create = false → processId = s.gProcessId → _))
  | .dpc cpu _ =>
    match h : (s.dpcs cpu).head? with
    | some (.iptDpc captured) =>
      decidable_of_iff (captured.isSome = true ∧ captured = s.traced cpu)
        (by simp only [Orderly, h])
    | none => isTrue (by simp only [Orderly, h])
    | some (.perCoreSetup _ _) => isTrue (by simp only [Orderly, h])
    | some (.perCoreDisable _) => isTrue (by simp only [Orderly, h])
  | .exitReturns _ | .pmi _ _ => isTrue trivial

/-! The packets that the routines make. -/

theorem enqueued_spec {input : PacketInput} {lastPacket : Bool} {size : BitVec 32}
    {mdl : Option Mdl} {d : CommBufferAddress}
    (h : enqueued input lastPacket size mdl = some d) :
    d.firstPacket = false ∧ d.lastPacket = lastPacket ∧ d.cpuId = input.cpuId ∧
      d.sequenceId = input.sequenceId := by
  simp only [enqueued] at h
  split at h
  · cases h
    exact ⟨rfl, rfl, rfl, rfl⟩
  · cases h

theorem iptDpc_packet {t : Core → Core} {pages : Option Mdl} {input : PacketInput} {core : Core}
    {r : Option CommBufferAddress × Core} (h : iptDpc t pages input core = some r)
    {d : CommBufferAddress} (hd : r.1 = some d) :
    d.firstPacket = false ∧ d.lastPacket = false ∧ d.cpuId = input.cpuId ∧
      d.sequenceId = input.sequenceId := by
  obtain ⟨options, -, hr⟩ := Option.map_eq_some_iff.mp h
  dsimp only at hr
  split at hr
  · cases hr
    cases hd
  · split at hr
    · cases hr
      cases hd
    · cases hr
      exact enqueued_spec hd

theorem ptwDpcPerCoreDisable_packet {t : Core → Core} {s : Protocol n} {cpu : Fin n} {core : Core}
    {r : Option CommBufferAddress × Core} (h : ptwDpcPerCoreDisable t (s.stamp cpu) core = some r) :
    ∃ d, r.1 = some d ∧ d.firstPacket = false ∧ d.lastPacket = true ∧ d.cpuId = cpu ∧
      d.sequenceId = s.data.sequenceIdCounter.toNat := by
  obtain ⟨options, -, hr⟩ := Option.map_eq_some_iff.mp h
  cases hr
  exact ⟨_, rfl, rfl, rfl, rfl, rfl⟩

/-! What joins the queue. -/

theorem sequenceIdCounter_enqueue (s : Protocol n) (sent : Option Sent) :
    (s.enqueue sent).data.sequenceIdCounter = s.data.sequenceIdCounter := by
  simp only [Protocol.enqueue]
  split
  · rfl
  · rfl

theorem stamped_enqueue (s : Protocol n) (sent : Option Sent) (id : BitVec 32) :
    (s.enqueue sent).stamped id = s.stamped id ++
      (sent.map (·.packet)).toList.filter fun d => d.sequenceId = id.toNat := by
  simp only [Protocol.stamped, Protocol.enqueue, List.map_append, List.filter_append]
  cases sent with
  | none => rfl
  | some sent => rfl

theorem sentBy_enqueue (s : Protocol n) (sent : Option Sent) (id : BitVec 32) (cpu : Fin n) :
    (s.enqueue sent).sentBy id cpu = s.sentBy id cpu ++
      ((sent.map (·.packet)).toList.filter fun d => d.sequenceId = id.toNat).filter
        fun d => d.cpuId = cpu.val := by
  rw [Protocol.sentBy, stamped_enqueue, List.filter_append, Protocol.sentBy]

structure Sent.Of (sent : Sent) (id : BitVec 32) (cpu : Fin n) : Prop where
  notFirst : sent.packet.firstPacket = false
  sequenceId : sent.packet.sequenceId = id.toNat
  cpuId : sent.packet.cpuId = cpu
  captured : ∀ other, sent.captured = some other → other = id

variable {s s' : Protocol n} {sent : Option Sent} {id other : BitVec 32} {cpu k : Fin n}

theorem sentBy_current (h : ∀ d ∈ sent, d.Of id cpu) :
    (s.enqueue sent).sentBy id cpu = s.sentBy id cpu ++ (sent.map (·.packet)).toList := by
  rw [sentBy_enqueue]
  cases sent with
  | none => rfl
  | some sent =>
    have hd := h sent rfl
    simp [hd.sequenceId, hd.cpuId]

theorem sentBy_other (h : ∀ d ∈ sent, d.Of id cpu) (hne : other ≠ id ∨ k ≠ cpu) :
    (s.enqueue sent).sentBy other k = s.sentBy other k := by
  rw [sentBy_enqueue]
  cases sent with
  | none => exact List.append_nil _
  | some sent =>
    have hd := h sent rfl
    have hnil : (([sent.packet].filter fun d => d.sequenceId = other.toNat).filter
        fun d => d.cpuId = k.val) = [] := by
      obtain hne | hne := hne
      · have hid : id.toNat ≠ other.toNat := fun h => hne (BitVec.eq_of_toNat_eq h.symm)
        simp [hd.sequenceId, hid]
      · have hcpu : cpu.val ≠ k.val := fun h => hne (Fin.ext h.symm)
        simp [hd.cpuId, hcpu]
    simp only [Option.map_some, Option.toList_some, hnil, List.append_nil]

theorem SessionProtocol.enqueue (h : SessionProtocol s) (hsent : ∀ d ∈ sent, d.Of id cpu)
    (hopen : id ∉ s.exited) : SessionProtocol (s.enqueue sent) where
  first o ho := by
    obtain ⟨first, rest, hstamped, hfirst, hrest⟩ := h.first o ho
    refine ⟨first, rest ++ (sent.map (·.packet)).toList.filter fun d => d.sequenceId = o.2.toNat,
      ?_, hfirst, fun d hmem => ?_⟩
    · rw [stamped_enqueue, hstamped]
      rfl
    · obtain hmem | hmem := List.mem_append.mp hmem
      · exact hrest d hmem
      · obtain ⟨sent', hsent', rfl⟩ :=
          Option.mem_map.mp (Option.mem_toList.mp (List.mem_of_mem_filter hmem))
        exact (hsent sent' hsent').notFirst
  captured d hmem other hcaptured := by
    obtain hmem | hmem := List.mem_append.mp hmem
    · exact h.captured d hmem other hcaptured
    · have hd := hsent d (Option.mem_toList.mp hmem)
      rw [hd.captured other hcaptured]
      exact hd.sequenceId
  last other hother k := by
    have hne : other ≠ id := fun heq => hopen (heq ▸ hother)
    rw [sentBy_other hsent (Or.inl hne)]
    exact h.last other hother k

/-! The invariant. -/

def QueuedDpc.perCore : QueuedDpc → Bool
  | .iptDpc _ => false
  | _ => true

def Protocol.pending (s : Protocol n) (cpu : Fin n) : List QueuedDpc :=
  (s.dpcs cpu).filter (·.perCore)

inductive Setups (id : BitVec 32) (hooked : Bool) : List QueuedDpc → Prop where
  | none : Setups id hooked []
  | one (config : IntelPtConfiguration) (h : hooked = true) :
    Setups id hooked [.perCoreSetup (some id) config]

inductive CorePhase (id : BitVec 32) (hooked : Bool) (exit : Option Nat) (pending : List QueuedDpc)
    (traced : Option (BitVec 32)) (sent : List CommBufferAddress) : Prop where
  | tracing (setups : List QueuedDpc) (hsetups : Setups id hooked setups)
    (hpending : pending = setups ++ (exit.map .perCoreDisable).toList)
    (htraced : ∀ other, traced = some other → other = id)
    (hsent : ∀ d ∈ sent, d.lastPacket = false)
  | ended (hexit : exit.isSome = true) (hpending : pending = []) (htraced : traced = none)
    (hsent : EndsWithLast sent)

structure Idle (s : Protocol n) : Prop where
  processId : s.gProcessId = 0
  hooked : s.gThreadHooked = false
  threadNotify : s.threadNotify = 0
  exits : s.exits = []
  cores : ∀ cpu, s.pending cpu = [] ∧ s.traced cpu = none
  closed : ∀ o ∈ s.opened, o.2 ∈ s.exited

structure Running (s : Protocol n) (exit : Option Nat) : Prop where
  processId : s.gProcessId ≠ 0
  threadNotify : s.threadNotify = 1
  opener : s.openedBy s.gProcessId = some s.data.sequenceIdCounter
  others : ∀ o ∈ s.opened, o.2 ∈ s.exited ∨ o = (s.gProcessId, s.data.sequenceIdCounter)
  current : s.data.sequenceIdCounter ∉ s.exited
  exits : s.exits = (exit.map fun call => ⟨call, some s.data.sequenceIdCounter⟩).toList
  cores : ∀ cpu, CorePhase s.data.sequenceIdCounter s.gThreadHooked exit (s.pending cpu)
    (s.traced cpu) (s.sentBy s.data.sequenceIdCounter cpu)

structure InSession (s : Protocol n) : Prop where
  sent : ∀ d ∈ s.queue, d.packet.sequenceId ≤ s.data.sequenceIdCounter.toNat
  opened : ∀ o ∈ s.opened, o.2.toNat ≤ s.data.sequenceIdCounter.toNat
  exited : ∀ id ∈ s.exited, id.toNat ≤ s.data.sequenceIdCounter.toNat
  protocol : SessionProtocol s
  phase : Idle s ∨ ∃ exit, Running s exit

theorem mem_of_openedBy {processId : Nat} (h : s.openedBy processId = some id) :
    (processId, id) ∈ s.opened := by
  obtain ⟨o, ho, rfl⟩ := Option.map_eq_some_iff.mp h
  have hid := List.find?_some ho
  rw [← of_decide_eq_true hid]
  exact List.mem_of_find?_eq_some ho

/-! A routine leaves its core. -/

theorem pending_leave (s : Protocol n) (cpu : Fin n) (core : Core) (rest : List QueuedDpc)
    (during traced : Option (BitVec 32)) (sent : Option Sent) (k : Fin n) :
    (s.leave cpu core rest during traced sent).pending k =
      if k = cpu then rest.filter (·.perCore) else s.pending k := by
  simp only [Protocol.pending, Protocol.leave, Function.update_apply]
  split
  · have hpmi : (core.dpcQueue.map fun _ => QueuedDpc.iptDpc during).filter (·.perCore) = [] := by
      refine List.filter_eq_nil_iff.mpr fun d hd => ?_
      obtain ⟨-, -, rfl⟩ := List.mem_map.mp hd
      exact Bool.false_ne_true
    rw [List.filter_append, hpmi, List.append_nil]
  · rfl

theorem InSession.leave (h : InSession s) {exit : Option Nat} (hrun : Running s exit) {core : Core}
    {rest : List QueuedDpc} {during traced : Option (BitVec 32)}
    (hsent : ∀ d ∈ sent, d.Of s.data.sequenceIdCounter cpu)
    (hphase : CorePhase s.data.sequenceIdCounter s.gThreadHooked exit (rest.filter (·.perCore))
      traced (s.sentBy s.data.sequenceIdCounter cpu ++ (sent.map (·.packet)).toList)) :
    InSession (s.leave cpu core rest during traced sent) := by
  have hcurrent : (s.leave cpu core rest during traced sent).data.sequenceIdCounter =
      s.data.sequenceIdCounter := sequenceIdCounter_enqueue s sent
  have hprotocol := h.protocol.enqueue hsent hrun.current
  refine ⟨fun d hd => ?_, ?_, ?_, ⟨hprotocol.first, hprotocol.captured, hprotocol.last⟩,
    Or.inr ⟨exit, ?_⟩⟩
  · rw [hcurrent]
    obtain hd | hd := List.mem_append.mp hd
    · exact h.sent d hd
    · exact Nat.le_of_eq (hsent d (Option.mem_toList.mp hd)).sequenceId
  · rw [hcurrent]
    exact h.opened
  · rw [hcurrent]
    exact h.exited
  · refine ⟨hrun.processId, hrun.threadNotify, ?_, ?_, ?_, ?_, fun k => ?_⟩
    · rw [hcurrent]
      exact hrun.opener
    · rw [hcurrent]
      exact hrun.others
    · rw [hcurrent]
      exact hrun.current
    · rw [hcurrent]
      exact hrun.exits
    · rw [hcurrent, pending_leave]
      by_cases hk : k = cpu
      · subst hk
        have htraced : (s.leave k core rest during traced sent).traced k = traced :=
          Function.update_self _ _ _
        have hsent' : (s.leave k core rest during traced sent).sentBy s.data.sequenceIdCounter k =
            s.sentBy s.data.sequenceIdCounter k ++ (sent.map (·.packet)).toList :=
          sentBy_current hsent
        rw [if_pos rfl, htraced, hsent']
        exact hphase
      · have htraced : (s.leave cpu core rest during traced sent).traced k = s.traced k :=
          Function.update_of_ne hk _ _
        have hsent' : (s.leave cpu core rest during traced sent).sentBy
            s.data.sequenceIdCounter k = s.sentBy s.data.sequenceIdCounter k :=
          sentBy_other hsent (Or.inr hk)
        rw [if_neg hk, htraced, hsent']
        exact hrun.cores k

theorem inSession_pmi (h : InSession s) (core : Core) :
    InSession (s.leave cpu core (s.dpcs cpu) (s.traced cpu) (s.traced cpu) none) := by
  have hnone : ∀ d ∈ (none : Option Sent), d.Of s.data.sequenceIdCounter cpu :=
    fun _ hd => by cases hd
  obtain hidle | ⟨exit, hrun⟩ := h.phase
  · have hqueue : s.queue ++ [] = s.queue := List.append_nil _
    have hprotocol : SessionProtocol (s.enqueue none) := by
      rw [Protocol.enqueue, Option.toList_none, hqueue]
      exact ⟨h.protocol.first, h.protocol.captured, h.protocol.last⟩
    refine ⟨fun d hd => h.sent d (hqueue ▸ hd), h.opened, h.exited,
      ⟨hprotocol.first, hprotocol.captured, hprotocol.last⟩, Or.inl ⟨hidle.processId, hidle.hooked,
        hidle.threadNotify, hidle.exits, fun k => ⟨?_, ?_⟩, hidle.closed⟩⟩
    · rw [pending_leave]
      split
      · exact (hidle.cores cpu).1
      · exact (hidle.cores k).1
    · simp only [Protocol.leave, Function.update_apply]
      split
      · exact (hidle.cores cpu).2
      · exact (hidle.cores k).2
  · refine h.leave hrun hnone ?_
    simp only [Option.map_none, Option.toList_none, List.append_nil]
    exact hrun.cores cpu

/-! The DPCs. -/

variable {exit : Option Nat} {rest : List QueuedDpc} {input : RoutineInput}

theorem Running.corePhase (h : Running s exit) {dpcs : List QueuedDpc}
    (hdpcs : s.dpcs cpu = dpcs) : CorePhase s.data.sequenceIdCounter s.gThreadHooked exit
      (dpcs.filter (·.perCore)) (s.traced cpu) (s.sentBy s.data.sequenceIdCounter cpu) := by
  rw [← hdpcs]
  exact h.cores cpu

theorem orderly_iptDpc {captured : Option (BitVec 32)}
    (hdpcs : s.dpcs cpu = .iptDpc captured :: rest) (hok : Orderly s (.dpc cpu input)) :
    captured.isSome = true ∧ captured = s.traced cpu := by
  simp only [Orderly, hdpcs, List.head?_cons] at hok
  exact hok

/-- While no process is traced, no DPC that may run is queued. -/
theorem Idle.not_dpc (h : Idle s) {dpc : QueuedDpc} (hdpcs : s.dpcs cpu = dpc :: rest)
    (hok : Orderly s (.dpc cpu input)) : False := by
  have hpending := (h.cores cpu).1
  rw [Protocol.pending, hdpcs] at hpending
  cases dpc with
  | iptDpc captured =>
    obtain ⟨hsome, rfl⟩ := orderly_iptDpc hdpcs hok
    rw [(h.cores cpu).2] at hsome
    cases hsome
  | perCoreSetup => cases hpending
  | perCoreDisable => cases hpending

theorem inSession_iptDpc (h : InSession s) (hrun : Running s exit)
    {captured : Option (BitVec 32)} (hdpcs : s.dpcs cpu = .iptDpc captured :: rest)
    (hok : Orderly s (.dpc cpu input))
    (hstep : s.runDpc cpu input rest (.iptDpc captured) = some s') : InSession s' := by
  obtain ⟨hsome, hcaptured⟩ := orderly_iptDpc hdpcs hok
  obtain ⟨r, hr, rfl⟩ := Option.map_eq_some_iff.mp hstep
  cases hrun.corePhase hdpcs with
  | ended _ _ htraced _ =>
    rw [hcaptured, htraced] at hsome
    cases hsome
  | tracing setups hsetups hpending htraced hsent =>
    have hpacket : ∀ sent ∈ r.1.map fun packet => Sent.mk packet captured,
        sent.Of s.data.sequenceIdCounter cpu ∧ sent.packet.lastPacket = false := by
      intro sent hmem
      obtain ⟨d, hd, rfl⟩ := Option.mem_map.mp hmem
      obtain ⟨hfirst, hlast, hcpu, hsequence⟩ := iptDpc_packet hr hd
      exact ⟨⟨hfirst, hsequence, hcpu, fun other ho => htraced other (hcaptured.symm.trans ho)⟩,
        hlast⟩
    refine h.leave hrun (fun sent hmem => (hpacket sent hmem).1)
      (.tracing setups hsetups hpending htraced fun d hd => ?_)
    obtain hd | hd := List.mem_append.mp hd
    · exact hsent d hd
    · obtain ⟨sent, hmem, rfl⟩ := Option.mem_map.mp (Option.mem_toList.mp hd)
      exact (hpacket sent hmem).2

theorem inSession_perCoreSetup (h : InSession s) (hrun : Running s exit)
    {sequence : Option (BitVec 32)} {config : IntelPtConfiguration}
    (hdpcs : s.dpcs cpu = .perCoreSetup sequence config :: rest)
    (hstep : s.runDpc cpu input rest (.perCoreSetup sequence config) = some s') :
    InSession s' := by
  obtain ⟨core, -, rfl⟩ := Option.map_eq_some_iff.mp hstep
  cases hrun.corePhase hdpcs with
  | ended _ hpending _ _ => cases hpending
  | tracing setups hsetups hpending _ hsent =>
    cases hsetups with
    | none =>
      cases exit with
      | none => cases hpending
      | some call => cases hpending
    | one config' hhooked =>
      obtain ⟨hhead, htail⟩ := List.cons.inj hpending
      cases hhead
      refine h.leave hrun (fun _ hd => by cases hd) (.tracing [] .none htail ?_ ?_)
      · exact fun other ho => (Option.some.inj ho).symm
      · simp only [Option.map_none, Option.toList_none, List.append_nil]
        exact hsent

theorem inSession_perCoreDisable (h : InSession s) (hrun : Running s exit) {call : Nat}
    (hdpcs : s.dpcs cpu = .perCoreDisable call :: rest)
    (hstep : s.runDpc cpu input rest (.perCoreDisable call) = some s') : InSession s' := by
  obtain ⟨r, hr, rfl⟩ := Option.map_eq_some_iff.mp hstep
  cases hrun.corePhase hdpcs with
  | ended _ hpending _ _ => cases hpending
  | tracing setups hsetups hpending htraced hsent =>
    cases hsetups with
    | one => cases hpending
    | none =>
      cases exit with
      | none => cases hpending
      | some waiting =>
        obtain ⟨-, htail⟩ := List.cons.inj hpending
        obtain ⟨d, hd, hfirst, hlast, hcpu, hsequence⟩ := ptwDpcPerCoreDisable_packet hr
        have hof : ({ packet := d, captured := s.traced cpu } : Sent).Of
            s.data.sequenceIdCounter cpu := ⟨hfirst, hsequence, hcpu, htraced⟩
        rw [hd]
        refine h.leave hrun (fun sent hmem => ?_) (.ended rfl htail rfl ?_)
        · cases hmem
          exact hof
        · exact ⟨_, d, rfl, hlast, hsent⟩

theorem inSession_dpc (h : InSession s) (hok : Orderly s (.dpc cpu input))
    (hstep : s.step (.dpc cpu input) = some s') : InSession s' := by
  simp only [Protocol.step] at hstep
  split at hstep
  · cases hstep
  · next dpc rest hdpcs =>
    obtain hidle | ⟨exit, hrun⟩ := h.phase
    · exact (hidle.not_dpc hdpcs hok).elim
    · cases dpc with
      | iptDpc captured => exact inSession_iptDpc h hrun hdpcs hok hstep
      | perCoreSetup sequence config => exact inSession_perCoreSetup h hrun hdpcs hstep
      | perCoreDisable call => exact inSession_perCoreDisable h hrun hdpcs hstep

/-! The image load. -/

def Protocol.firstPacket (s : Protocol n) (load : ImageLoad n) : CommBufferAddress where
  firstPacket := true
  lastPacket := false
  cpuId := load.cpu
  sequenceId := (s.data.sequenceIdCounter + 1).toNat
  packetId := ((0 : BitVec 32) + 1 - 1).toNat
  payload := .firstPacket load.imageBase (load.imageSize.setWidth 32) load.processorFrequency

def Protocol.load (s : Protocol n) (load : ImageLoad n) : Protocol n :=
  { s with
    gProcessId := load.processId
    data := ⟨s.data.sequenceIdCounter + 1, 0 + 1⟩
    gImageBasePaStart := load.imageBase
    gImageBasePaEnd := load.imageBase + load.imageSize
    queue := s.queue ++ [⟨s.firstPacket load, none⟩]
    threadNotify := s.threadNotify + 1
    opened := (load.processId, s.data.sequenceIdCounter + 1) :: s.opened }

theorem ptwHookImageLoadCr3_eq {load : ImageLoad n} (h : load.found = true) (s : Protocol n) :
    ptwHookImageLoadCr3 load s = s.load load := by
  rw [ptwHookImageLoadCr3, h]
  rfl

theorem stamped_load (s : Protocol n) (load : ImageLoad n) (id : BitVec 32) :
    (s.load load).stamped id = s.stamped id ++
      [s.firstPacket load].filter fun d => d.sequenceId = id.toNat := by
  simp only [Protocol.stamped, Protocol.load, List.map_append, List.filter_append,
    List.map_singleton]

theorem stamped_load_old {load : ImageLoad n} (h : id.toNat ≤ s.data.sequenceIdCounter.toNat)
    (hnext : (s.data.sequenceIdCounter + 1).toNat = s.data.sequenceIdCounter.toNat + 1) :
    (s.load load).stamped id = s.stamped id := by
  have hne : (s.firstPacket load).sequenceId ≠ id.toNat := by
    intro heq
    have heq : (s.data.sequenceIdCounter + 1).toNat = id.toNat := heq
    omega
  rw [stamped_load, List.filter_singleton, decide_eq_false hne, cond_false, List.append_nil]

theorem InSession.stamped_load_new (h : InSession s) (load : ImageLoad n)
    (hnext : (s.data.sequenceIdCounter + 1).toNat = s.data.sequenceIdCounter.toNat + 1) :
    (s.load load).stamped (s.data.sequenceIdCounter + 1) = [s.firstPacket load] := by
  have hnone : s.stamped (s.data.sequenceIdCounter + 1) = [] := by
    refine List.filter_eq_nil_iff.mpr fun d hd heq => ?_
    obtain ⟨sent, hsent, rfl⟩ := List.mem_map.mp hd
    have hle := h.sent sent hsent
    have heq := of_decide_eq_true heq
    omega
  have heq : (s.firstPacket load).sequenceId = (s.data.sequenceIdCounter + 1).toNat := rfl
  rw [stamped_load, hnone, List.filter_singleton, decide_eq_true heq, cond_true, List.nil_append]

theorem SessionProtocol.load (h : InSession s) (load : ImageLoad n)
    (hnext : (s.data.sequenceIdCounter + 1).toNat = s.data.sequenceIdCounter.toNat + 1) :
    SessionProtocol (s.load load) where
  first o ho := by
    obtain rfl | ho := List.mem_cons.mp ho
    · exact ⟨_, [], h.stamped_load_new load hnext, rfl, fun d hd => (List.not_mem_nil hd).elim⟩
    · rw [stamped_load_old (h.opened o ho) hnext]
      exact h.protocol.first o ho
  captured sent hsent id hcaptured := by
    obtain hsent | hsent := List.mem_append.mp hsent
    · exact h.protocol.captured sent hsent id hcaptured
    · rw [List.mem_singleton.mp hsent] at hcaptured
      cases hcaptured
  last id hid cpu := by
    rw [Protocol.sentBy, stamped_load_old (h.exited id hid) hnext]
    exact h.protocol.last id hid cpu

theorem Running.load (h : InSession s) (hidle : Idle s) {load : ImageLoad n}
    (hprocess : load.processId ≠ 0)
    (hnext : (s.data.sequenceIdCounter + 1).toNat = s.data.sequenceIdCounter.toNat + 1) :
    Running (s.load load) none where
  processId := hprocess
  threadNotify := congrArg (· + 1) hidle.threadNotify
  opener := by simp [Protocol.openedBy, Protocol.load]
  others o ho := by
    obtain rfl | ho := List.mem_cons.mp ho
    · exact Or.inr rfl
    · exact Or.inl (hidle.closed o ho)
  current hid := by
    have hle : (s.data.sequenceIdCounter + 1).toNat ≤ _ := h.exited _ hid
    omega
  exits := hidle.exits
  cores cpu := by
    have htraced : ∀ other, s.traced cpu = some other → other = s.data.sequenceIdCounter + 1 := by
      intro other ho
      rw [(hidle.cores cpu).2] at ho
      cases ho
    refine .tracing [] .none (hidle.cores cpu).1 htraced fun d hd => ?_
    have hd : d ∈ (s.load load).stamped (s.data.sequenceIdCounter + 1) :=
      List.mem_of_mem_filter hd
    rw [h.stamped_load_new load hnext] at hd
    rw [List.mem_singleton.mp hd]
    rfl

theorem inSession_imageLoad (h : InSession s) {load : ImageLoad n}
    (hok : Orderly s (.imageLoad load)) : InSession (ptwHookImageLoadCr3 load s) := by
  cases hfound : load.found with
  | false =>
    rw [ptwHookImageLoadCr3, hfound]
    exact h
  | true =>
    obtain ⟨hprocess, hnone, hwrap⟩ := hok hfound
    have hnext : (s.data.sequenceIdCounter + 1).toNat = s.data.sequenceIdCounter.toNat + 1 :=
      toNat_add_one hwrap
    have hle : s.data.sequenceIdCounter.toNat ≤ (s.data.sequenceIdCounter + 1).toNat := by omega
    have hidle : Idle s := h.phase.resolve_right fun hrun => by
      obtain ⟨exit, hrun⟩ := hrun
      exact hrun.processId hnone
    rw [ptwHookImageLoadCr3_eq hfound]
    refine ⟨fun sent hsent => ?_, fun o ho => ?_, fun id hid => Nat.le_trans (h.exited id hid) hle,
      .load h load hnext, Or.inr ⟨none, .load h hidle hprocess hnext⟩⟩
    · obtain hsent | hsent := List.mem_append.mp hsent
      · exact Nat.le_trans (h.sent sent hsent) hle
      · rw [List.mem_singleton.mp hsent]
        exact Nat.le_refl _
    · obtain rfl | ho := List.mem_cons.mp ho
      · exact Nat.le_refl _
      · exact Nat.le_trans (h.opened o ho) hle

/-! The thread creation and the exit. -/

theorem inSession_threadCreation (h : InSession s) {thread : ThreadCreation}
    (hok : Orderly s (.threadCreation thread)) (hnotify : 0 < s.threadNotify) :
    InSession (s.threadCreation thread) := by
  by_cases hhooks : thread.Hooks s.startUp
  · obtain ⟨hparent, hexits⟩ := hok hhooks
    have hhooked : s.gThreadHooked = false := hhooks.2.2
    rw [Protocol.threadCreation, if_pos hhooks]
    obtain hidle | ⟨exit, hrun⟩ := h.phase
    · rw [hidle.threadNotify] at hnotify
      cases hnotify
    · refine ⟨h.sent, h.opened, h.exited,
        ⟨h.protocol.first, h.protocol.captured, h.protocol.last⟩, Or.inr ⟨exit, hrun.processId,
          hrun.threadNotify, hrun.opener, hrun.others, hrun.current, hrun.exits, fun cpu => ?_⟩⟩
      rw [hrun.exits] at hexits
      cases exit with
      | some call => cases hexits
      | none =>
        cases hrun.cores cpu with
        | ended hexit => cases hexit
        | tracing setups hsetups hpending htraced hsent =>
          cases hsetups with
          | one config hon =>
            rw [hhooked] at hon
            cases hon
          | none =>
            let config :=
              threadCreationConfiguration thread.cr3 s.gImageBasePaStart s.gImageBasePaEnd
            refine .tracing _ (.one config rfl) ?_ htraced hsent
            have hpending : (s.dpcs cpu).filter (·.perCore) = [] := hpending
            simp only [Protocol.pending, List.filter_append, hpending, hparent, hrun.opener]
            rfl
  · rw [Protocol.threadCreation, if_neg hhooks]
    exact h

theorem InSession.exits (h : InSession s) {processId : Nat}
    (hother : s.gProcessId = 0 ∨ processId ≠ s.gProcessId) :
    InSession { s with exited := (s.openedBy processId).toList ++ s.exited } := by
  have hclosed : ∀ id, s.openedBy processId = some id → id ∈ s.exited := by
    intro id hid
    have hmem := mem_of_openedBy hid
    obtain hidle | ⟨exit, hrun⟩ := h.phase
    · exact hidle.closed _ hmem
    · refine (hrun.others _ hmem).resolve_right fun heq => ?_
      exact hother.elim hrun.processId fun hne => hne (Prod.mk.inj heq).1
  have hexited : ∀ id, id ∈ (s.openedBy processId).toList ++ s.exited ↔ id ∈ s.exited := by
    intro id
    refine ⟨fun hid => ?_, fun hid => List.mem_append_right _ hid⟩
    obtain hid | hid := List.mem_append.mp hid
    · exact hclosed id (Option.mem_toList.mp hid)
    · exact hid
  refine ⟨h.sent, h.opened, fun id hid => h.exited id ((hexited id).mp hid),
    ⟨h.protocol.first, h.protocol.captured,
      fun id hid cpu => h.protocol.last id ((hexited id).mp hid) cpu⟩, ?_⟩
  obtain hidle | ⟨exit, hrun⟩ := h.phase
  · exact Or.inl ⟨hidle.processId, hidle.hooked, hidle.threadNotify, hidle.exits, hidle.cores,
      fun o ho => (hexited _).mpr (hidle.closed o ho)⟩
  · exact Or.inr ⟨exit, hrun.processId, hrun.threadNotify, hrun.opener,
      fun o ho => (hrun.others o ho).imp_left (hexited _).mpr,
      fun hid => hrun.current ((hexited _).mp hid), hrun.exits, hrun.cores⟩

theorem inSession_processExit (h : InSession s) {processId : Nat} {create : Bool}
    (hok : Orderly s (.processExit processId create)) :
    InSession (s.processExit processId create) := by
  simp only [Protocol.processExit]
  split
  · exact h
  · next hcreate =>
    split
    · next hother => exact h.exits hother
    · next hmine =>
      obtain ⟨hprocess, hmine⟩ := not_or.mp hmine
      have hmine : processId = s.gProcessId := not_not.mp hmine
      have hexits := hok (Bool.eq_false_iff.mpr hcreate) hmine
      obtain hidle | ⟨exit, hrun⟩ := h.phase
      · exact absurd hidle.processId hprocess
      · rw [hrun.exits] at hexits
        cases exit with
        | some call => cases hexits
        | none =>
          refine ⟨h.sent, h.opened, h.exited,
            ⟨h.protocol.first, h.protocol.captured, h.protocol.last⟩, Or.inr ⟨some s.calls,
              hrun.processId, hrun.threadNotify, hrun.opener, hrun.others, hrun.current, ?_,
              fun cpu => ?_⟩⟩
          · simp only [hmine, hrun.opener, hrun.exits]
            rfl
          · cases hrun.cores cpu with
            | ended hexit => cases hexit
            | tracing setups hsetups hpending htraced hsent =>
              refine .tracing setups hsetups ?_ htraced hsent
              have hpending : (s.dpcs cpu).filter (·.perCore) = setups ++ [] := hpending
              simp only [Protocol.pending, List.filter_append, hpending, List.append_nil]
              rfl

/-- Once none of the DPCs of the call is left the core has sent its LAST packet. -/
theorem CorePhase.done {id : BitVec 32} {hooked : Bool} {call : Nat}
    {traced : Option (BitVec 32)} {sent : List CommBufferAddress}
    (h : CorePhase id hooked (some call) (s.pending cpu) traced sent)
    (hdone : (s.dpcs cpu).any (·.disables call) = false) :
    s.pending cpu = [] ∧ traced = none ∧ EndsWithLast sent := by
  cases h with
  | ended _ hpending htraced hsent => exact ⟨hpending, htraced, hsent⟩
  | tracing setups _ hpending _ _ =>
    have hmem : QueuedDpc.perCoreDisable call ∈ s.pending cpu := by
      rw [hpending]
      exact List.mem_append_right _ (List.mem_singleton_self _)
    have hno := List.any_eq_false.mp hdone _ (List.mem_of_mem_filter hmem)
    exact absurd (beq_self_eq_true call) hno

theorem InSession.returns (h : InSession s) {call : Nat} (hrun : Running s (some call))
    (hdone : ∀ cpu, (s.dpcs cpu).any (·.disables call) = false) :
    InSession { s with
      threadNotify := s.threadNotify - 1
      gProcessId := 0
      gThreadHooked := false
      exits := s.exits.filter fun exit => exit.call ≠ call
      exited := s.data.sequenceIdCounter :: s.exited } := by
  have hcores cpu := (hrun.cores cpu).done (hdone cpu)
  refine ⟨h.sent, h.opened, fun id hid => ?_, ⟨h.protocol.first, h.protocol.captured,
    fun id hid cpu => ?_⟩, Or.inl ⟨rfl, rfl, ?_, ?_, fun cpu => ?_, fun o ho => ?_⟩⟩
  · obtain rfl | hid := List.mem_cons.mp hid
    · exact Nat.le_refl _
    · exact h.exited id hid
  · obtain rfl | hid := List.mem_cons.mp hid
    · exact (hcores cpu).2.2
    · exact h.protocol.last id hid cpu
  · simp only [hrun.threadNotify]
  · simp [hrun.exits]
  · exact ⟨(hcores cpu).1, (hcores cpu).2.1⟩
  · obtain hclosed | rfl := hrun.others o ho
    · exact List.mem_cons_of_mem _ hclosed
    · exact List.mem_cons_self

theorem inSession_exitReturns (h : InSession s) {call : Nat}
    (hstep : s.exitReturns call = some s') : InSession s' := by
  simp only [Protocol.exitReturns] at hstep
  split at hstep
  · cases hstep
  · next waiting hwaiting =>
    split at hstep
    · next hdone =>
      cases hstep
      have hmem := List.mem_of_find?_eq_some hwaiting
      have hcall : waiting.call = call := by simpa using List.find?_some hwaiting
      obtain hidle | ⟨exit, hrun⟩ := h.phase
      · rw [hidle.exits] at hmem
        cases hmem
      · rw [hrun.exits] at hmem
        cases exit with
        | none => cases hmem
        | some call' =>
          obtain rfl := List.mem_singleton.mp hmem
          subst hcall
          exact h.returns hrun hdone
    · cases hstep

theorem inSession_step {input : ProtocolInput n} (h : InSession s) (hok : Orderly s input)
    (hstep : s.step input = some s') : InSession s' := by
  cases input with
  | imageLoad load =>
    cases hstep
    exact inSession_imageLoad h hok
  | threadCreation thread =>
    simp only [Protocol.step] at hstep
    split at hstep
    · next hnotify =>
      cases hstep
      exact inSession_threadCreation h hok hnotify
    · cases hstep
  | processExit processId create =>
    cases hstep
    exact inSession_processExit h hok
  | exitReturns call => exact inSession_exitReturns h hstep
  | pmi cpu env =>
    simp only [Protocol.step] at hstep
    split at hstep
    · cases hstep
      exact inSession_pmi h _
    · cases hstep
  | dpc cpu input => exact inSession_dpc h hok hstep

theorem inSession_new (cores : Fin n → Core) : InSession { cores := cores } where
  sent _ hd := (List.not_mem_nil hd).elim
  opened _ ho := (List.not_mem_nil ho).elim
  exited _ hid := (List.not_mem_nil hid).elim
  protocol := ⟨fun _ ho => (List.not_mem_nil ho).elim, fun _ hd => (List.not_mem_nil hd).elim,
    fun _ hid => (List.not_mem_nil hid).elim⟩
  phase := Or.inl ⟨rfl, rfl, rfl, rfl, fun _ => ⟨rfl, rfl⟩, fun _ ho => (List.not_mem_nil ho).elim⟩

theorem sessionProtocol_of_meets (cores : Fin n → Core) (inputs : List (ProtocolInput n))
    (h : Meets Protocol.step Orderly { cores := cores } inputs) :
    Every Protocol.step SessionProtocol { cores := cores } inputs :=
  every_of_meets InSession (fun _ => InSession.protocol) (fun _ _ _ => inSession_step) _ inputs
    (inSession_new cores) h

def initializedCore : Core where
  options := initStores topaCapabilities initAlloc

/-- Two cores trace a process, one of them with a full buffer, and then the next one is loaded. -/
theorem sessionProtocol_two_loads :
    let run (cpu : Fin 2) : ProtocolInput 2 :=
      .dpc cpu { pages := tenPages 1, capabilities := .ok topaCapabilities }
    let inputs := [.imageLoad { processId := 4, cpu := 0 },
      .threadCreation { parentId := 4, processId := 12, create := true }, run 0, run 1,
      .pmi 0 [{ topaPmi := true }], run 0, .processExit 4 false, run 1, run 0, .exitReturns 0,
      .imageLoad { processId := 8, cpu := 1 }]
    Every Protocol.step SessionProtocol { cores := fun _ => initializedCore } inputs ∧
      (inputs.foldlM Protocol.step { cores := fun _ => initializedCore }).map (fun s =>
        s.queue.map fun sent => (sent.packet.cpuId, sent.packet.sequenceId, sent.packet.lastPacket,
          sent.captured)) =
        some [(0, 1, false, none), (0, 1, false, some 1), (1, 1, true, some 1),
          (0, 1, true, some 1), (1, 2, false, none)] :=
  ⟨sessionProtocol_of_meets _ _ (by decide +kernel), by decide +kernel⟩

/-- A second process is loaded before the first one exits, and no packet says that the first one
is over. -/
theorem not_sessionProtocol_second_load :
    ¬ ∀ (n : Nat) (cores : Fin n → Core) (inputs : List (ProtocolInput n)),
      Every Protocol.step SessionProtocol { cores := cores } inputs := by
  intro h
  let inputs : List (ProtocolInput 1) :=
    [.imageLoad { processId := 4, cpu := 0 }, .imageLoad { processId := 8, cpu := 0 },
      .processExit 4 false]
  have hevery := h 1 (fun _ => {}) inputs
  have hrun : (inputs.foldlM Protocol.step { cores := fun _ => {} }).map
      (fun s => (s.exited, (s.sentBy 1 0).map (·.lastPacket))) = some ([1], [false]) := by
    decide +kernel
  obtain ⟨s, hs, hlast⟩ := Option.map_eq_some_iff.mp hrun
  obtain ⟨hexited, hsent⟩ := Prod.mk.inj hlast
  obtain ⟨before, last, hends, hlast, -⟩ := (hevery.last hs).last 1 (by rw [hexited]; decide) 0
  rw [hends, List.map_append, List.map_singleton, hlast] at hsent
  exact absurd (congrArg (true ∈ ·) hsent) (by simp)

end IntelPt.Driver
