import IntelPt.Driver.DriverUtils
import IntelPt.Driver.DriverOperations

/-! The packets of the driver in the pool. Each is a COMM_BUFFER_ADDRESS of its own, and what the
queue of DriverUtils.c holds is where they are; PtwCommandGetBuffer frees them. -/
namespace IntelPt.Driver
open DriverUtils Runs

structure PooledSystem where
  system : System
  gQueueHead : Address
  memory : PoolMemory
  /-- the COMM_BUFFER_ADDRESSes that are allocated -/
  packets : Pvoid → Option CommBufferAddress := fun _ => none
  /-- those that DuEnqueueElement could not take -/
  lost : List Pvoid := []

structure PooledOp where
  op : DriverOp
  dto : Pvoid
  element : Option Allocation

def DriverOp.withElement (element : Bool) : DriverOp → DriverOp
  | .dpc cpu pages packet env => .dpc cpu pages { packet with element := element } env
  | .disable cpu packet env => .disable cpu { packet with element := element } env
  | .imageLoad packet imageBaseAddress imageSize processorFrequency =>
    .imageLoad { packet with element := element } imageBaseAddress imageSize processorFrequency
  | op => op

def PooledOp.driverOp (op : PooledOp) : DriverOp := op.op.withElement op.element.isSome

def PooledSystem.getBuffer (s : PooledSystem) : Option PooledSystem := do
  let (status, data, memory) ← DriverUtils.duDequeueElement (some s.gQueueHead) true s.memory
  if status.NtSuccess then
    let dto ← data
    let packet ← s.packets dto
    return { s with
      system := { s.system with handed := s.system.handed ++ packet.mdl.toList }
      memory := memory
      packets := Function.update s.packets dto none }
  else none

/-- The routine does not look at whether DuEnqueueElement took its packet. -/
def PooledSystem.routine (s : PooledSystem) (op : DriverOp) (dto : Pvoid)
    (element : Option Allocation) : Option PooledSystem := do
  let system ← s.system.step (op.withElement true)
  match system.queue with
  | [] => return { s with system := system }
  | packet :: _ =>
    let (status, memory) ← DriverUtils.duEnqueueElement (some s.gQueueHead) dto element s.memory
    return { s with
      system := { system with queue := [] }
      memory := memory
      packets := Function.update s.packets dto (some packet)
      lost := if status.NtSuccess then s.lost else s.lost ++ [dto] }

def PooledSystem.step (s : PooledSystem) (op : PooledOp) : Option PooledSystem :=
  match op.op with
  | .getBuffer => s.getBuffer
  | routine => s.routine routine op.dto op.element

def PooledSystem.Granted (s : PooledSystem) (op : PooledOp) : Prop :=
  s.packets op.dto = none ∧ DriverUtils.Granted s.memory op.element

instance (s : PooledSystem) (op : PooledOp) : Decidable (s.Granted op) :=
  inferInstanceAs (Decidable (_ ∧ _))

/-- What the pool holds is the queue, and the packets that were lost. -/
structure Pools (p : PooledSystem) (s : System) : Prop where
  system : p.system = { s with queue := [] }
  queue : ∃ head listEntry elements,
    Represents p.memory p.gQueueHead head listEntry elements (fun _ => none) ∧
    elements.map (fun e => p.packets e.2) = s.queue.map some ∧
    (elements.map Prod.snd ++ p.lost).Nodup ∧
    ∀ a, (p.packets a).isSome ↔ a ∈ elements.map Prod.snd ++ p.lost

def PooledSystem.boot (hardware : Nat → Core) (gQueueHead : Address) (memory : PoolMemory) :
    PooledSystem where
  system := System.boot hardware
  gQueueHead := gQueueHead
  memory := memory

/-! The routines without the queue. -/

theorem enqueued_element (input : PacketInput) (element lastPacket : Bool) (size : BitVec 32)
    (mdl : Option Mdl) : enqueued { input with element := element } lastPacket size mdl =
      (enqueued { input with element := true } lastPacket size mdl).filter fun _ => element := by
  cases input.dto with
  | false => simp [enqueued]
  | true => cases element <;> simp [enqueued, Option.filter_some]

theorem iptDpc_element (t : Core → Core) (pages : Option Mdl) (input : PacketInput)
    (element : Bool) (core : Core) :
    iptDpc t pages { input with element := element } core =
      (iptDpc t pages { input with element := true } core).map
        fun r => (r.1.filter fun _ => element, r.2) := by
  simp only [iptDpc, Option.map_map, enqueued_element input element]
  congr 1
  funext options
  simp only [Function.comp_apply]
  split_ifs <;> rfl

theorem ptwDpcPerCoreDisable_element (t : Core → Core) (input : PacketInput) (element : Bool)
    (core : Core) : ptwDpcPerCoreDisable t { input with element := element } core =
      (ptwDpcPerCoreDisable t { input with element := true } core).map
        fun r => (r.1.filter fun _ => element, r.2) := by
  simp only [ptwDpcPerCoreDisable, Option.map_map, enqueued_element input element]
  rfl

theorem ptwHookImageLoad_element (input : PacketInput) (element : Bool)
    (imageBaseAddress : BitVec 64) (imageSize : BitVec 32) (processorFrequency : BitVec 64) :
    ptwHookImageLoad { input with element := element } imageBaseAddress imageSize
        processorFrequency =
      (ptwHookImageLoad { input with element := true } imageBaseAddress imageSize
        processorFrequency).filter fun _ => element := by
  cases input.dto with
  | false => simp [ptwHookImageLoad]
  | true => cases element <;> simp [ptwHookImageLoad, Option.filter_some]

/-- What a routine does, and its packet, depends neither on the queue nor on whether that takes
the packet. -/
theorem step_packet {op : DriverOp} (hop : op ≠ .getBuffer) (s : System) :
    ∃ r : Option (System × Option CommBufferAddress), ∀ queue element,
      { s with queue := queue }.step (op.withElement element) =
        r.map fun r =>
          { r.1 with queue := queue ++ (r.2.filter fun _ => element).toList } := by
  cases op with
  | getBuffer => exact absurd rfl hop
  | init cpu capabilities alloc env =>
    by_cases hfresh : s.Fresh (initEntries capabilities) alloc.pages
    · refine ⟨some (s.put cpu (iptInitPerCore hw capabilities alloc ((s.cores cpu).start env)).2
        none, none), fun queue element => ?_⟩
      exact if_pos hfresh
    · exact ⟨none, fun _ _ => if_neg hfresh⟩
  | setup cpu capabilities config beyond env =>
    refine ⟨(ptwIpiPerCoreSetup irq capabilities config beyond ((s.cores cpu).start env)).map
      fun core => (s.put cpu core none, none), fun queue element => ?_⟩
    simp only [DriverOp.withElement, System.step, Option.map_map]
    rfl
  | pmi cpu dpcObject env =>
    by_cases hcore : (s.cores cpu).options.isSome
    · refine ⟨some (s.put cpu (iptPmiHandler hw dpcObject ((s.cores cpu).start env)) none, none),
        fun queue element => ?_⟩
      exact if_pos hcore
    · exact ⟨none, fun _ _ => if_neg hcore⟩
  | dpc cpu pages packet env =>
    by_cases hfresh : s.Fresh ((s.cores cpu).options.elim 0 (·.topaEntries)) pages
    · refine ⟨(iptDpc irq pages { packet with element := true } ((s.cores cpu).start env)).map
        fun r => (s.put cpu r.2 none, r.1), fun queue element => (if_pos hfresh).trans ?_⟩
      rw [iptDpc_element, Option.map_map, Option.map_map]
      rfl
    · exact ⟨none, fun _ _ => if_neg hfresh⟩
  | disable cpu packet env =>
    refine ⟨(ptwDpcPerCoreDisable irq { packet with element := true }
      ((s.cores cpu).start env)).map fun r => (s.put cpu r.2 none, r.1), fun queue element => ?_⟩
    simp only [DriverOp.withElement, System.step, ptwDpcPerCoreDisable_element _ packet element,
      Option.map_map]
    rfl
  | imageLoad packet imageBaseAddress imageSize processorFrequency =>
    refine ⟨some (s, ptwHookImageLoad { packet with element := true } imageBaseAddress imageSize
      processorFrequency), fun queue element => ?_⟩
    simp only [DriverOp.withElement, System.step, ptwHookImageLoad_element packet element]
    rfl

/-! The two together. -/

section

variable {p : PooledSystem} {s : System}

theorem map_packets_update {packets : Pvoid → Option CommBufferAddress}
    {elements : List (Address × Pvoid)} {dto : Pvoid} (h : dto ∉ elements.map Prod.snd)
    (packet : Option CommBufferAddress) :
    elements.map (fun e => Function.update packets dto packet e.2) =
      elements.map fun e => packets e.2 := by
  refine List.map_congr_left fun e he => Function.update_of_ne (fun heq => ?_) ..
  exact h (heq ▸ List.mem_map_of_mem he)

/-- STATUS_NO_MORE_ENTRIES if the queue is empty, else its first packet, which is freed. -/
theorem Pools.getBuffer (h : Pools p s) : Option.Rel Pools p.getBuffer (s.step .getBuffer) := by
  obtain ⟨head, listEntry, elements, hr, hpackets, hnodup, hallocated⟩ := h.queue
  cases elements with
  | nil =>
    have hqueue : s.queue = [] := List.map_eq_nil_iff.mp hpackets.symm
    have hfailure : ¬ NtStatusCode.NtSuccess statusNoMoreEntries := by decide
    have hget : p.getBuffer = none := by
      simp [PooledSystem.getBuffer, hr.dequeue_nil, hfailure]
    simp only [hget, System.step, hqueue]
    exact .none
  | cons e elements =>
    obtain ⟨m', hdequeue, hr'⟩ := hr.dequeue_cons
    cases hqueue : s.queue with
    | nil =>
      rw [hqueue] at hpackets
      cases hpackets
    | cons dto queue =>
      rw [hqueue, List.map_cons, List.map_cons, List.cons.injEq] at hpackets
      obtain ⟨hpacket, hrest⟩ := hpackets
      rw [List.map_cons, List.cons_append, List.nodup_cons] at hnodup
      have hsuccess : NtStatusCode.NtSuccess statusSuccess := by decide
      have hget : p.getBuffer = some { p with
          system := { p.system with handed := p.system.handed ++ dto.mdl.toList }
          memory := m'
          packets := Function.update p.packets e.2 none } := by
        simp [PooledSystem.getBuffer, hdequeue, hsuccess, hpacket]
      simp only [hget, System.step, hqueue]
      refine .some ⟨by rw [h.system], head, listEntry, elements, hr', ?_, hnodup.2, fun a => ?_⟩
      · rw [← hrest]
        exact map_packets_update (fun hmem => hnodup.1 (List.mem_append_left _ hmem)) none
      · by_cases ha : a = e.2
        · subst ha
          simp only [Function.update_self]
          exact iff_of_false Bool.false_ne_true hnodup.1
        · simp only [Function.update_of_ne ha]
          rw [hallocated a, List.map_cons, List.cons_append, List.mem_cons]
          exact or_iff_right ha

theorem packets_update {packets : Pvoid → Option CommBufferAddress} {used used' : List Pvoid}
    (hnodup : used.Nodup) (hallocated : ∀ a, (packets a).isSome ↔ a ∈ used) {dto : Pvoid}
    (hdto : packets dto = none) (packet : CommBufferAddress) (hadded : used'.Perm (dto :: used)) :
    dto ∉ used ∧ used'.Nodup ∧
      ∀ a, (Function.update packets dto (some packet) a).isSome ↔ a ∈ used' := by
  have hunused : dto ∉ used := by
    rw [← hallocated dto, hdto]
    exact Bool.false_ne_true
  refine ⟨hunused, hadded.nodup_iff.mpr (List.nodup_cons.mpr ⟨hunused, hnodup⟩), fun a => ?_⟩
  rw [hadded.mem_iff, List.mem_cons]
  by_cases ha : a = dto
  · rw [ha, Function.update_self]
    exact iff_of_true rfl (Or.inl rfl)
  · rw [Function.update_of_ne ha, hallocated a]
    exact (or_iff_right ha).symm

theorem Pools.packet (system : System) {dto : Pvoid} {element : Option Allocation}
    (h : Pools p s) (hdto : p.packets dto = none)
    (helement : DriverUtils.Granted p.memory element) (packet : CommBufferAddress) :
    ∃ status m', DriverUtils.duEnqueueElement (some p.gQueueHead) dto element p.memory =
      some (status, m') ∧ Pools { p with
        system := { system with queue := [] }
        memory := m'
        packets := Function.update p.packets dto (some packet)
        lost := if status.NtSuccess then p.lost else p.lost ++ [dto] }
      { system with
        queue := s.queue ++ ((some packet).filter fun _ => element.isSome).toList } := by
  obtain ⟨head, listEntry, elements, hr, hpackets, hnodup, hallocated⟩ := h.queue
  have hothers (hunused : dto ∉ elements.map Prod.snd ++ p.lost) :
      elements.map (fun e => Function.update p.packets dto (some packet) e.2) =
        s.queue.map some := by
    rw [← hpackets]
    exact map_packets_update (fun hmem => hunused (List.mem_append_left _ hmem)) _
  cases element with
  | none =>
    have hfailure : ¬ NtStatusCode.NtSuccess statusInsufficientResources := by decide
    have hadded : (elements.map Prod.snd ++ (p.lost ++ [dto])).Perm
        (dto :: (elements.map Prod.snd ++ p.lost)) := by
      rw [← List.append_assoc]
      exact List.perm_append_singleton dto _
    obtain ⟨hunused, hnodup', hallocated'⟩ := packets_update hnodup hallocated hdto packet hadded
    refine ⟨statusInsufficientResources, p.memory, rfl, rfl, head, listEntry, elements, hr, ?_, ?_⟩
    · rw [hothers hunused]
      exact (congrArg (List.map some) (List.append_nil s.queue)).symm
    · rw [if_neg hfailure]
      exact ⟨hnodup', hallocated'⟩
  | some alloc =>
    obtain ⟨m', henqueue, hr'⟩ := hr.enqueue helement dto
    have hsuccess : NtStatusCode.NtSuccess statusSuccess := by decide
    have hadded : ((elements ++ [(alloc.address, dto)]).map Prod.snd ++ p.lost).Perm
        (dto :: (elements.map Prod.snd ++ p.lost)) := by
      rw [List.map_append, List.append_assoc]
      exact List.perm_middle
    obtain ⟨hunused, hnodup', hallocated'⟩ := packets_update hnodup hallocated hdto packet hadded
    refine ⟨statusSuccess, m', henqueue, rfl, head, listEntry, _, hr', ?_, ?_⟩
    · rw [List.map_append, hothers hunused]
      change s.queue.map some ++ [Function.update p.packets dto (some packet) dto] =
        (s.queue ++ [packet]).map some
      rw [Function.update_self, List.map_append]
      rfl
    · rw [if_pos hsuccess]
      exact ⟨hnodup', hallocated'⟩

theorem Pools.routine {op : DriverOp} {dto : Pvoid} {element : Option Allocation}
    (hop : op ≠ .getBuffer) (h : Pools p s) (hdto : p.packets dto = none)
    (helement : DriverUtils.Granted p.memory element) :
    Option.Rel Pools (p.routine op dto element) (s.step (op.withElement element.isSome)) := by
  obtain ⟨r, hr⟩ := step_packet hop s
  have hsystem := hr [] true
  rw [← h.system] at hsystem
  have hs : s.step (op.withElement element.isSome) = _ := hr s.queue element.isSome
  rw [hs]
  cases r with
  | none =>
    have hroutine : p.routine op dto element = none := by
      simp [PooledSystem.routine, hsystem]
    rw [hroutine]
    exact .none
  | some r =>
    obtain ⟨system, packet⟩ := r
    cases packet with
    | none =>
      have hroutine : p.routine op dto element =
          some { p with system := { system with queue := [] } } := by
        simp [PooledSystem.routine, hsystem]
      rw [hroutine]
      refine .some ⟨rfl, ?_⟩
      simpa using h.queue
    | some packet =>
      obtain ⟨status, m', henqueue, hpools⟩ := h.packet system hdto helement packet
      have hsystem : p.system.step (op.withElement true) =
          some { system with queue := [packet] } := hsystem
      simp only [PooledSystem.routine, hsystem, henqueue, Option.bind_eq_bind, Option.bind_some]
      exact .some hpools

theorem Pools.step {op : PooledOp} (h : Pools p s) (hg : p.Granted op) :
    Option.Rel Pools (p.step op) (s.step op.driverOp) := by
  obtain ⟨op, dto, element⟩ := op
  by_cases hop : op = .getBuffer
  · subst hop
    exact h.getBuffer
  · have hstep : p.step ⟨op, dto, element⟩ = p.routine op dto element := by
      cases op with
      | getBuffer => exact absurd rfl hop
      | _ => rfl
    rw [hstep]
    exact h.routine hop hg.1 hg.2

end

theorem pools_boot (interlocked : Bool) {gQueueHead : Address} {list : Allocation}
    (hlist : list.address ≠ gQueueHead) {m : PoolMemory}
    (hinit : duQueueInit interlocked (some gQueueHead) (some list) {} =
      some (statusSuccess, some gQueueHead, m)) (hardware : Nat → Core) :
    Pools (PooledSystem.boot hardware gQueueHead m) (System.boot hardware) := by
  obtain ⟨m₀, hinit₀, hr⟩ := represents_new interlocked hlist
  cases hinit.symm.trans hinit₀
  exact ⟨rfl, _, _, [], hr, rfl, List.nodup_nil, fun a => by simp [PooledSystem.boot]⟩

/-- The driver with its queue and packets in the pool can do exactly what it can do with a list of
packets, and then the pool holds these packets and those that were lost, each once. -/
theorem pooled_refines (interlocked : Bool) {gQueueHead : Address} {list : Allocation}
    (hlist : list.address ≠ gQueueHead) {m : PoolMemory}
    (hinit : duQueueInit interlocked (some gQueueHead) (some list) {} =
      some (statusSuccess, some gQueueHead, m)) (hardware : Nat → Core) {ops : List PooledOp}
    (hgranted : Meets PooledSystem.step PooledSystem.Granted
      (PooledSystem.boot hardware gQueueHead m) ops) :
    Option.Rel Pools (ops.foldlM PooledSystem.step (PooledSystem.boot hardware gQueueHead m))
      ((ops.map PooledOp.driverOp).foldlM System.step (System.boot hardware)) :=
  rel_of_meets Pools PooledOp.driverOp (fun _ _ _ h hg => h.step hg)
    (pools_boot interlocked hlist hinit hardware) hgranted

/-- Three image loads: the second packet is lost, the third is where the first one was. -/
theorem pooled_refines_lost :
    let load (dto : Pvoid) (element : Option Allocation) : PooledOp :=
      ⟨.imageLoad ⟨true, true, 0, 0, 0⟩ 0x400000 0x1000 1000000, dto, element⟩
    let ops : List PooledOp := firstSession.map (⟨·, 0, none⟩) ++ [load 100 (some ⟨3, 7⟩),
      load 101 none, ⟨.getBuffer, 0, none⟩, load 100 (some ⟨3, 7⟩)]
    ∃ m p s, duQueueInit true (some 1) (some ⟨2, 0⟩) {} = some (statusSuccess, some 1, m) ∧
      ops.foldlM PooledSystem.step (PooledSystem.boot (fun _ => {}) 1 m) = some p ∧
      (ops.map PooledOp.driverOp).foldlM System.step (System.boot fun _ => {}) = some s ∧
      Pools p s ∧ p.lost = [101] ∧ s.queue.length = 1 := by
  intro load ops
  have hpooled : ∃ m, duQueueInit true (some 1) (some ⟨2, 0⟩) {} =
        some (statusSuccess, some 1, m) ∧
      Meets PooledSystem.step PooledSystem.Granted (PooledSystem.boot (fun _ => {}) 1 m) ops ∧
      (ops.foldlM PooledSystem.step (PooledSystem.boot (fun _ => {}) 1 m)).map (·.lost) =
        some [101] := ⟨_, rfl, by decide +kernel, by decide +kernel⟩
  have hlisted : ((ops.map PooledOp.driverOp).foldlM System.step (System.boot fun _ => {})).map
      (·.queue.length) = some 1 := by decide +kernel
  obtain ⟨m, hinit, hgranted, hlost⟩ := hpooled
  have hrel := pooled_refines true (by decide) hinit (fun _ => {}) hgranted
  obtain ⟨p, hp, hlost⟩ := Option.map_eq_some_iff.mp hlost
  obtain ⟨s, hs, hqueue⟩ := Option.map_eq_some_iff.mp hlisted
  rw [hp, hs, Option.rel_some_some] at hrel
  exact ⟨m, p, s, hinit, hp, hs, hrel, hlost, hqueue⟩

end IntelPt.Driver
