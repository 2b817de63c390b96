import IntelPt.Driver.Ownership
import IntelPt.Driver.TraceStatus
import IntelPt.Lib.IssueOrder

/-! The order in which the trace buffers of a core reach user mode: that of their allocation,
whatever the other cores do. -/
namespace IntelPt.Driver
open Runs IssueOrder

def DriverOp.TopaOutput : DriverOp → Prop
  | .init _ capabilities _ _ => capabilities.topaOutputSupport = true
  | _ => True

instance : (op : DriverOp) → Decidable op.TopaOutput
  | .init _ capabilities _ _ => inferInstanceAs (Decidable (capabilities.topaOutputSupport = true))
  | .setup .. | .pmi .. | .dpc .. | .disable .. | .imageLoad .. | .getBuffer => isTrue trivial

def System.sent (s : System) : List Mdl := s.handed ++ s.queue.filterMap (·.mdl)

def allocatedBy (cpu : Nat) : System → List DriverOp → List Mdl
  | _, [] => []
  | s, op :: ops =>
    match s.step op with
    | none => []
    | some s' =>
      (if op.cpu = some cpu then (s'.cores cpu).allocated else []) ++ allocatedBy cpu s' ops

/-! One operation. -/

structure BufferStep (s : System) (op : DriverOp) (cpu : Nat) (core : Core)
    (packet : Option CommBufferAddress) : Prop where
  carries : packet.bind (·.mdl) = none ∨ packet.bind (·.mdl) = (s.cores cpu).topaMdl
  buffer : (core.allocated = [] ∧ core.topaMdl = (s.cores cpu).topaMdl ∧
      (¬ Leaks s op → packet.bind (·.mdl) = none)) ∨
    ∃ mdl, core.allocated = [mdl] ∧ core.topaMdl = some mdl ∧ mdl ∉ s.allocated ∧
      (¬ Leaks s op → packet.bind (·.mdl) = (s.cores cpu).topaMdl)

/-- An operation that leaves the buffers of its core alone and sends none. -/
theorem bufferStep_unmoved {s : System} {op : DriverOp} {cpu : Nat} {core : Core}
    {env : List CoreEvent} (h : core.buffers = ((s.cores cpu).start env).buffers) :
    BufferStep s op cpu core none := by
  simp only [Core.buffers, Prod.mk.injEq] at h
  exact ⟨Or.inl rfl, Or.inl ⟨h.2.2, h.1, fun _ => rfl⟩⟩

theorem bufferStep_init {s s' : System} {cpu : Nat} {capabilities : IntelPtCapabilities}
    {alloc : InitAlloc} {env : List CoreEvent} (hs : capabilities.topaOutputSupport = true)
    (hstep : s.step (.init cpu capabilities alloc env) = some s') :
    ∃ core, s' = s.put cpu core none ∧
      BufferStep s (.init cpu capabilities alloc env) cpu core none := by
  simp only [System.step] at hstep
  split at hstep
  · next hfresh =>
    cases hstep
    refine ⟨_, rfl, ?_⟩
    obtain ⟨-, hbuffers⟩ | ⟨options, hstores, hbuffers⟩ :=
      iptInitPerCore_cases capabilities alloc ((s.cores cpu).start env)
    · exact bufferStep_unmoved hbuffers
    · obtain ⟨mdl, _, _, hpages, hmdl, -⟩ := initStores_topa hs hstores
      simp only [Core.buffers, Prod.mk.injEq] at hbuffers
      obtain ⟨hnew, -, hallocated⟩ := hbuffers
      refine ⟨Or.inl rfl, Or.inr ⟨mdl, ?_, hnew.trans hmdl, (hfresh mdl hpages).1, fun hok => ?_⟩⟩
      · rw [hallocated, storeOptions, if_pos hs, hmdl]
        rfl
      · cases hold : (s.cores cpu).topaMdl with
        | none => rfl
        | some old =>
          have hheld : (s.cores cpu).topaMdl.isSome = true := by rw [hold]; rfl
          exact absurd ⟨options, hstores, Or.inl hheld⟩ hok
  · cases hstep

theorem bufferStep_dpc {s s' : System} {cpu : Nat} {pages : Option Mdl} {input : PacketInput}
    {env : List CoreEvent} (hstep : s.step (.dpc cpu pages input env) = some s') :
    ∃ core packet, s' = s.put cpu core packet ∧
      BufferStep s (.dpc cpu pages input env) cpu core packet := by
  obtain ⟨options, core, packet, ho, hfresh, hdpc, rfl⟩ := dpc_cases hstep
  refine ⟨core, packet, rfl, ?_⟩
  have hold := topaMdl_of_options ho
  obtain ⟨-, rfl, hbuffers, -⟩ | ⟨mdl, rfl, hne, hpacket, hbuffers⟩ :=
    iptDpc_cases (show ((s.cores cpu).start env).options = some options from ho) hdpc
  · exact bufferStep_unmoved hbuffers
  · simp only [Core.buffers, Prod.mk.injEq] at hbuffers
    obtain ⟨hnew, -, hallocated⟩ := hbuffers
    rw [← hold] at hpacket
    refine ⟨?_, Or.inr ⟨mdl, hallocated, hnew, (hfresh mdl rfl).1, fun hok => ?_⟩⟩
    · rw [hpacket]
      split_ifs
      · exact Or.inr rfl
      · exact Or.inl rfl
    · rw [hpacket]
      split_ifs with hboth
      · rfl
      · cases hheld : (s.cores cpu).topaMdl with
        | none => rfl
        | some old =>
          exact absurd ⟨by rw [hheld]; rfl, by rwa [Core.runningStatus, ho], rfl, hboth⟩ hok

theorem bufferStep_disable {s s' : System} {cpu : Nat} {input : PacketInput}
    {env : List CoreEvent} (hstep : s.step (.disable cpu input env) = some s') :
    ∃ core packet, s' = s.put cpu core packet ∧
      BufferStep s (.disable cpu input env) cpu core packet := by
  obtain ⟨core, packet, hbuffers, -, hsent, rfl⟩ := disable_cases hstep
  refine ⟨core, packet, rfl, ?_⟩
  simp only [Core.buffers, Prod.mk.injEq] at hbuffers
  obtain ⟨hnew, -, hallocated⟩ := hbuffers
  refine ⟨?_, Or.inl ⟨hallocated, hnew, fun hok => ?_⟩⟩
  · rw [hsent]
    split_ifs
    · exact Or.inr rfl
    · exact Or.inl rfl
  · rw [hsent]
    split_ifs with hboth
    · by_contra hsome
      exact hok ⟨Option.isSome_iff_ne_none.mpr hsome, hboth⟩
    · rfl

theorem bufferStep_of_step {s s' : System} {op : DriverOp} {cpu : Nat} (hcpu : op.cpu = some cpu)
    (htopa : op.TopaOutput) (hstep : s.step op = some s') :
    ∃ core packet, s' = s.put cpu core packet ∧ BufferStep s op cpu core packet := by
  cases op with
  | init cpu' capabilities alloc env =>
    cases hcpu
    obtain ⟨core, hput, h⟩ := bufferStep_init htopa hstep
    exact ⟨core, none, hput, h⟩
  | setup cpu' capabilities config beyond env =>
    cases hcpu
    simp only [System.step, ptwIpiPerCoreSetup, Option.map_map, Option.map_eq_some_iff] at hstep
    obtain ⟨options, -, rfl⟩ := hstep
    have hst := stable_buffers ((s.cores cpu).start env).buffers
    have hirq : ∀ core : Core, core.buffers = _ → (irq core).buffers = _ := fun _ => hst.atIrq
    have hbuffers := hst.enable hirq (hst.setup hirq capabilities config beyond options rfl)
    exact ⟨_, none, rfl, bufferStep_unmoved hbuffers⟩
  | pmi cpu' dpcObject env =>
    cases hcpu
    simp only [System.step] at hstep
    split at hstep
    · cases hstep
      have hst := stable_buffers ((s.cores cpu).start env).buffers
      have hbuffers := hst.pmiHandler (fun _ => hst.atHw) dpcObject rfl
      exact ⟨_, none, rfl, bufferStep_unmoved hbuffers⟩
    · cases hstep
  | dpc cpu' pages input env =>
    cases hcpu
    exact bufferStep_dpc hstep
  | disable cpu' input env =>
    cases hcpu
    exact bufferStep_disable hstep
  | imageLoad => cases hcpu
  | getBuffer => cases hcpu

theorem step_no_core {s s' : System} {op : DriverOp} (hcpu : op.cpu = none)
    (hstep : s.step op = some s') :
    s'.sent = s.sent ∧ s'.cores = s.cores ∧ s'.allocated = s.allocated := by
  cases op with
  | init => cases hcpu
  | setup => cases hcpu
  | pmi => cases hcpu
  | dpc => cases hcpu
  | disable => cases hcpu
  | imageLoad input imageBaseAddress imageSize processorFrequency =>
    cases hstep
    refine ⟨?_, rfl, rfl⟩
    rw [System.sent, System.sent, ptwHookImageLoad]
    split_ifs <;> simp [CommBufferAddress.mdl]
  | getBuffer =>
    simp only [System.step] at hstep
    split at hstep
    · cases hstep
    · next dto queue hqueue =>
      cases hstep
      refine ⟨?_, rfl, rfl⟩
      simp only [System.sent, hqueue]
      cases hmdl : dto.mdl with
      | none => simp [hmdl]
      | some mdl => simp [hmdl]

theorem sent_put (s : System) (cpu : Nat) (core : Core) (packet : Option CommBufferAddress) :
    (s.put cpu core packet).sent = s.sent ++ (packet.bind (·.mdl)).toList := by
  have hqueued := congrArg Custody.Ledger.queued (ledger_put s cpu core packet)
  rw [System.sent, System.sent, List.append_assoc]
  exact congrArg (s.handed ++ ·) hqueued

/-! Runs. -/

def newBuffers (op : DriverOp) (s' : System) (cpu : Nat) : List Mdl :=
  if op.cpu = some cpu then (s'.cores cpu).allocated else []

def System.topaMdls (s : System) (cpu : Nat) : Option Mdl := (s.cores cpu).topaMdl

/-- The buffers were allocated on the cores in those orders, and nothing overtook another. -/
structure BuffersInOrder (s : System) (issued : Nat → List Mdl) : Prop where
  posts : Issued issued s.topaMdls s.sent
  allocated : ∀ mdl, mdl ∈ s.allocated ↔ ∃ cpu, mdl ∈ issued cpu

theorem topaMdls_put (s : System) (cpu : Nat) (core : Core) (packet : Option CommBufferAddress) :
    (s.put cpu core packet).topaMdls = Function.update s.topaMdls cpu core.topaMdl :=
  congrArg Custody.Ledger.held (ledger_put s cpu core packet)

theorem newBuffers_put {s : System} {op : DriverOp} {cpu : Nat} {core : Core}
    {packet : Option CommBufferAddress} (hcpu : op.cpu = some cpu) (issued : Nat → List Mdl) :
    (fun l => issued l ++ newBuffers op (s.put cpu core packet) l) =
      Function.update issued cpu (issued cpu ++ core.allocated) := by
  funext l
  by_cases hl : l = cpu
  · subst hl
    simp [newBuffers, hcpu, System.put]
  · have hne : op.cpu ≠ some l := fun he => hl (Option.some.inj (he.symm.trans hcpu))
    simp [newBuffers, hne, Function.update_of_ne hl]

theorem newBuffers_no_core {op : DriverOp} (hcpu : op.cpu = none) (s' : System)
    (issued : Nat → List Mdl) : (fun l => issued l ++ newBuffers op s' l) = issued := by
  funext l
  simp [newBuffers, hcpu]

theorem BuffersInOrder.step {s s' : System} {op : DriverOp} {issued : Nat → List Mdl}
    (h : BuffersInOrder s issued) (htopa : op.TopaOutput) (hstep : s.step op = some s') :
    BuffersInOrder s' (fun l => issued l ++ newBuffers op s' l) := by
  cases hcpu : op.cpu with
  | none =>
    obtain ⟨hsent, hcores, hallocated⟩ := step_no_core hcpu hstep
    have hmdls : s'.topaMdls = s.topaMdls := by
      funext l
      rw [System.topaMdls, System.topaMdls, hcores]
    rw [newBuffers_no_core hcpu]
    refine ⟨?_, ?_⟩
    · rw [hmdls, hsent]
      exact h.posts
    · rw [hallocated]
      exact h.allocated
  | some cpu =>
    obtain ⟨core, packet, rfl, hb⟩ := bufferStep_of_step hcpu htopa hstep
    have hposted := h.posts.postOption hb.carries
    rw [newBuffers_put hcpu]
    obtain ⟨hnone, hsame, -⟩ | ⟨mdl, hone, hnew, hfresh, -⟩ := hb.buffer
    · refine ⟨?_, ?_⟩
      · rw [sent_put, topaMdls_put, hnone, hsame, List.append_nil, Function.update_eq_self]
        have hkept : Function.update s.topaMdls cpu (s.cores cpu).topaMdl = s.topaMdls :=
          Function.update_eq_self cpu s.topaMdls
        rw [hkept]
        exact hposted
      · rw [hnone, List.append_nil, Function.update_eq_self]
        change ∀ mdl, mdl ∈ s.allocated ++ core.allocated ↔ _
        rw [hnone, List.append_nil]
        exact h.allocated
    · have hx : ∀ l, mdl ∉ issued l := fun l hl => hfresh ((h.allocated mdl).mpr ⟨l, hl⟩)
      refine ⟨?_, fun other => ?_⟩
      · rw [sent_put, topaMdls_put, hone, hnew]
        exact hposted.issue hx
      · change other ∈ s.allocated ++ core.allocated ↔ _
        simp only [hone, List.mem_append, h.allocated, List.mem_singleton, mem_issue]
        constructor
        · intro hold
          obtain ⟨l, hl⟩ | hl := hold
          · exact ⟨l, Or.inl hl⟩
          · exact ⟨cpu, Or.inr ⟨rfl, hl⟩⟩
        · intro hmem
          obtain ⟨l, hl | ⟨-, hl⟩⟩ := hmem
          · exact Or.inl ⟨l, hl⟩
          · exact Or.inr hl

/-- Without leaks each buffer is sent before the core gets the next one. -/
theorem BuffersInOrder.step_complete {s s' : System} {op : DriverOp} {issued : Nat → List Mdl}
    (h : BuffersInOrder s issued) (hc : Complete issued s.topaMdls s.sent) (htopa : op.TopaOutput)
    (hok : ¬ Leaks s op) (hstep : s.step op = some s') :
    Complete (fun l => issued l ++ newBuffers op s' l) s'.topaMdls s'.sent := by
  cases hcpu : op.cpu with
  | none =>
    obtain ⟨hsent, hcores, -⟩ := step_no_core hcpu hstep
    have hmdls : s'.topaMdls = s.topaMdls := by
      funext l
      rw [System.topaMdls, System.topaMdls, hcores]
    rw [newBuffers_no_core hcpu, hmdls, hsent]
    exact hc
  | some cpu =>
    obtain ⟨core, packet, rfl, hb⟩ := bufferStep_of_step hcpu htopa hstep
    rw [newBuffers_put hcpu, sent_put, topaMdls_put]
    obtain ⟨hnone, hsame, hpacket⟩ | ⟨mdl, hone, hnew, hfresh, hpacket⟩ := hb.buffer
    · have hkept : Function.update s.topaMdls cpu (s.cores cpu).topaMdl = s.topaMdls :=
        Function.update_eq_self cpu s.topaMdls
      rw [hnone, hsame, hpacket hok, hkept, List.append_nil, Function.update_eq_self,
        Option.toList_none, List.append_nil]
      exact hc
    · have hx : ∀ l, mdl ∉ issued l := fun l hl => hfresh ((h.allocated mdl).mpr ⟨l, hl⟩)
      rw [hone, hnew, hpacket hok]
      exact hc.exchange h.posts hx

theorem allocatedBy_cons {s s' : System} {op : DriverOp} (hstep : s.step op = some s')
    (cpu : Nat) (ops : List DriverOp) :
    allocatedBy cpu s (op :: ops) = newBuffers op s' cpu ++ allocatedBy cpu s' ops := by
  rw [allocatedBy, hstep]
  rfl

theorem BuffersInOrder.run (ops : List DriverOp) : ∀ {s s' : System} {issued : Nat → List Mdl},
    BuffersInOrder s issued → (∀ op ∈ ops, op.TopaOutput) → ops.foldlM System.step s = some s' →
      BuffersInOrder s' (fun l => issued l ++ allocatedBy l s ops) ∧
        (Complete issued s.topaMdls s.sent → Meets System.step (fun s op => ¬ Leaks s op) s ops →
          Complete (fun l => issued l ++ allocatedBy l s ops) s'.topaMdls s'.sent) := by
  induction ops with
  | nil =>
    intro s s' issued h _ hrun
    cases hrun
    simp only [allocatedBy, List.append_nil]
    exact ⟨h, fun hc _ => hc⟩
  | cons op ops ih =>
    intro s s' issued h htopa hrun
    rw [List.foldlM_cons, Option.bind_eq_bind, Option.bind_eq_some_iff] at hrun
    obtain ⟨s₁, hstep, hrun⟩ := hrun
    have hop := htopa op List.mem_cons_self
    obtain ⟨hafter, hcomplete⟩ := ih (h.step hop hstep)
      (fun o ho => htopa o (List.mem_cons_of_mem op ho)) hrun
    simp only [allocatedBy_cons hstep, ← List.append_assoc]
    refine ⟨hafter, fun hc hmeets => ?_⟩
    exact hcomplete (h.step_complete hc hop hmeets.1 hstep) (hmeets.2 s₁ hstep)

theorem buffersInOrder_boot (hardware : Nat → Core) :
    BuffersInOrder (System.boot hardware) fun _ => [] where
  posts := by
    refine ⟨fun _ => List.nodup_nil, fun _ _ _ hx => ?_, fun _ => rfl, fun _ hx => ?_, fun _ => ?_⟩
    · cases hx
    · cases hx
    · exact List.Pairwise.nil
  allocated mdl := by simp [System.boot]

/-- The buffers of a core leave it in the order of their allocation, in any run on any number of
cores, and the core has the last one. Without a leak each of them has left exactly once, but for
that one. -/
theorem sent_in_order (hardware : Nat → Core) {ops : List DriverOp} {s : System}
    (hrun : ops.foldlM System.step (System.boot hardware) = some s)
    (htopa : ∀ op ∈ ops, op.TopaOutput) (cpu : Nat) :
    let issued := allocatedBy cpu (System.boot hardware) ops
    issued.Nodup ∧ Sorted s.sent issued ∧ (s.cores cpu).topaMdl = issued.getLast? ∧
      (Meets System.step (fun s op => ¬ Leaks s op) (System.boot hardware) ops →
        postedOf s.sent issued ++ (s.cores cpu).topaMdl.toList = issued) := by
  obtain ⟨horder, hcomplete⟩ := BuffersInOrder.run ops (buffersInOrder_boot hardware) htopa hrun
  simp only [List.nil_append] at horder hcomplete
  refine ⟨horder.posts.nodup cpu, horder.posts.sorted cpu, horder.posts.last cpu, fun h => ?_⟩
  exact hcomplete (fun _ => rfl) h cpu

/-- Two cores whose full buffers get into the queue in turns; both of core 0 have left it. -/
theorem sent_in_order_two_cores :
    let sent : PacketInput := { dto := true, element := true }
    let ops : List DriverOp := firstSession ++
      [.init 1 topaCapabilities { initAlloc with pages := some (tenPages 1) } [],
        .setup 1 (.ok topaCapabilities) {} (fun _ => 0) [], .pmi 0 true [{ topaPmi := true }],
        .pmi 1 true [{ topaPmi := true }], .dpc 0 (some (tenPages 2)) sent [],
        .dpc 1 (some (tenPages 3)) sent [], .getBuffer, .pmi 0 true [{ topaPmi := true }],
        .dpc 0 (some (tenPages 4)) sent []]
    ∃ s, ops.foldlM System.step (System.boot fun _ => {}) = some s ∧
      s.sent = [tenPages 0, tenPages 1, tenPages 2] ∧
      postedOf s.sent [tenPages 0, tenPages 2, tenPages 4] ++ (s.cores 0).topaMdl.toList =
        [tenPages 0, tenPages 2, tenPages 4] := by
  intro sent ops
  have hran : (ops.foldlM System.step (System.boot fun _ => {})).map (·.sent) =
      some [tenPages 0, tenPages 1, tenPages 2] := by decide +kernel
  obtain ⟨s, hrun, hsent⟩ := Option.map_eq_some_iff.mp hran
  have hissued : allocatedBy 0 (System.boot fun _ => {}) ops =
      [tenPages 0, tenPages 2, tenPages 4] := by decide +kernel
  obtain ⟨-, -, -, hcomplete⟩ := sent_in_order (fun _ => {}) hrun (by decide) 0
  rw [hissued] at hcomplete
  exact ⟨s, hrun, hsent, hcomplete (by decide +kernel)⟩

/-! One session. -/

/-- A run of operations that run on no core sends nothing. -/
theorem sent_of_no_core (ops : List DriverOp) : ∀ {s s' : System},
    (∀ op ∈ ops, op.cpu = none) → ops.foldlM System.step s = some s' → s'.sent = s.sent := by
  induction ops with
  | nil =>
    intro s s' _ hrun
    cases hrun
    rfl
  | cons op ops ih =>
    intro s s' hcore hrun
    rw [List.foldlM_cons, Option.bind_eq_bind, Option.bind_eq_some_iff] at hrun
    obtain ⟨s₁, hstep, hrun⟩ := hrun
    have hafter := ih (fun o ho => hcore o (List.mem_cons_of_mem op ho)) hrun
    exact hafter.trans (step_no_core (hcore op List.mem_cons_self) hstep).1

theorem allocatedBy_other (ops : List DriverOp) {cpu : Nat} : ∀ s : System,
    (∀ op ∈ ops, op.cpu ≠ some cpu) → allocatedBy cpu s ops = [] := by
  induction ops with
  | nil => exact fun _ _ => rfl
  | cons op ops ih =>
    intro s hcore
    rw [allocatedBy]
    split
    · rfl
    · next s' hstep =>
      rw [if_neg (hcore op List.mem_cons_self), List.nil_append]
      exact ih s' fun o ho => hcore o (List.mem_cons_of_mem op ho)

/-- A session on one core that leaks no buffer sends them all, in the order of their allocation,
once the disable DPC has sent the last one. -/
theorem sent_of_session (hardware : Nat → Core) {ops rest : List DriverOp} {cpu : Nat}
    {packet : PacketInput} {env : List CoreEvent} {s : System}
    (hrun : (ops ++ .disable cpu packet env :: rest).foldlM System.step (System.boot hardware) =
      some s)
    (htopa : ∀ op ∈ ops, op.TopaOutput)
    (hcore : ∀ op ∈ ops, op.cpu = none ∨ op.cpu = some cpu) (hrest : ∀ op ∈ rest, op.cpu = none)
    (hleak : Meets System.step (fun s op => ¬ Leaks s op) (System.boot hardware) ops)
    (hpacket : packet.dto = true ∧ packet.element = true) :
    s.sent = allocatedBy cpu (System.boot hardware) ops := by
  simp only [List.foldlM_append, List.foldlM_cons, Option.bind_eq_bind,
    Option.bind_eq_some_iff] at hrun
  obtain ⟨s₁, hbefore, s₂, hdisable, hafter⟩ := hrun
  obtain ⟨horder, hcomplete⟩ := BuffersInOrder.run ops (buffersInOrder_boot hardware) htopa hbefore
  simp only [List.nil_append] at horder hcomplete
  have hall : postedOf s₁.sent (allocatedBy cpu (System.boot hardware) ops) = s₁.sent := by
    refine List.filter_eq_self.mpr fun mdl hmdl => decide_eq_true ?_
    obtain ⟨l, hl⟩ := horder.posts.known mdl hmdl
    by_cases hlcpu : l = cpu
    · exact hlcpu ▸ hl
    · have hother : ∀ op ∈ ops, op.cpu ≠ some l := by
        intro op hop hsome
        obtain hnone | hsame := hcore op hop
        · rw [hnone] at hsome
          cases hsome
        · exact hlcpu (Option.some.inj (hsome.symm.trans hsame))
      rw [allocatedBy_other ops (System.boot hardware) hother] at hl
      cases hl
  have hbut := hcomplete (fun _ => rfl) hleak cpu
  rw [hall] at hbut
  obtain ⟨core, dto, -, -, hdto, rfl⟩ := disable_cases hdisable
  rw [if_pos hpacket] at hdto
  rw [sent_of_no_core rest hrest hafter, sent_put, hdto]
  exact hbut

end IntelPt.Driver
