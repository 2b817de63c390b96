import IntelPt.Driver.BufferOrder

/-! What PtwCommandGetBuffer finds in the queue on processors with ToPA output: FIRST packets, and
packets whose buffer has an MDL that can be mapped. -/
namespace IntelPt.Driver
open Runs

def Core.Equipped (core : Core) : Prop := core.options.isSome = true → core.topaMdl.isSome = true

def CommBufferAddress.Mappable (dto : CommBufferAddress) : Prop :=
  match dto.payload with
  | .firstPacket .. => dto.firstPacket = true
  | .genericPacket _ mdl => dto.firstPacket = false ∧ mdl.isSome = true

structure Serviceable (s : System) : Prop where
  cores : ∀ cpu, (s.cores cpu).Equipped
  queue : ∀ dto ∈ s.queue, dto.Mappable

theorem stable_equipped : Stable true Core.Equipped where
  hardware _ _ _ h := h
  wrote core w _ h := by cases w <;> exact h
  runningStatus core status _ h := by
    cases ho : core.options with
    | none => simp [Core.Equipped, Core.setRunningStatus, ho]
    | some options =>
      simp only [Core.Equipped, Core.topaMdl, ho] at h
      simpa [Core.Equipped, Core.topaMdl, Core.setRunningStatus, ho] using h
  logged _ _ _ h := h
  dpcQueue _ _ h := h

theorem equipped_irq {core : Core} (h : core.Equipped) : (irq core).Equipped :=
  stable_equipped.atIrq h

theorem mappable_imageLoad {input : PacketInput} {imageBaseAddress processorFrequency : BitVec 64}
    {imageSize : BitVec 32} : ∀ dto ∈
      ptwHookImageLoad input imageBaseAddress imageSize processorFrequency, dto.Mappable := by
  intro dto hdto
  rw [ptwHookImageLoad] at hdto
  split_ifs at hdto
  · cases hdto
    rfl
  · cases hdto

theorem mappable_enqueued {input : PacketInput} {lastPacket : Bool} {size : BitVec 32}
    {mdl : Option Mdl} (hmdl : mdl.isSome = true) :
    ∀ dto ∈ enqueued input lastPacket size mdl, dto.Mappable := by
  intro dto hdto
  rw [enqueued] at hdto
  split_ifs at hdto
  · cases hdto
    exact ⟨rfl, hmdl⟩
  · cases hdto

theorem Serviceable.put {s : System} (h : Serviceable s) {cpu : Nat} {core : Core}
    {packet : Option CommBufferAddress} (hcore : core.Equipped)
    (hpacket : ∀ dto ∈ packet, dto.Mappable) : Serviceable (s.put cpu core packet) where
  cores l := by
    by_cases hl : l = cpu
    · subst hl
      simp only [System.put, Function.update_self]
      exact hcore
    · simp only [System.put, Function.update_of_ne hl]
      exact h.cores l
  queue dto hdto := by
    obtain hdto | hdto := List.mem_append.mp hdto
    · exact h.queue dto hdto
    · exact hpacket dto (Option.mem_toList.mp hdto)

/-- A core after a routine that sends nothing. -/
theorem Serviceable.silent {s : System} (h : Serviceable s) (cpu : Nat) {core : Core}
    (hcore : core.Equipped) : Serviceable (s.put cpu core none) :=
  h.put hcore fun dto hdto => absurd hdto (Option.not_mem_none dto)

theorem equipped_init {capabilities : IntelPtCapabilities} {alloc : InitAlloc} {core : Core}
    (htopa : capabilities.topaOutputSupport = true) (h : core.Equipped) :
    (iptInitPerCore hw capabilities alloc core).2.Equipped := by
  have hhw : ∀ core : Core, core.Equipped → (hw core).Equipped := fun _ => stable_equipped.atHw
  simp only [iptInitPerCore]
  split
  · exact hhw _ h
  · next pool hpool =>
    split
    · next options hstores =>
      have hmem : options ∈ initStores capabilities alloc := by
        rw [initStores, hpool, Option.bind_some, hstores]
        rfl
      obtain ⟨mdl, _, _, -, hmdl, -⟩ := initStores_topa htopa hmem
      have hstored : (storeOptions capabilities options (hw core)).Equipped := by
        simp [Core.Equipped, storeOptions, Core.topaMdl, hmdl]
      split
      · exact stable_equipped.disable hhw (hhw _ hstored)
      · exact hhw _ hstored
    · exact hhw _ h

theorem equipped_unlink {pages : Option Mdl} {options : IntelPtOutputOptions} {core : Core}
    (h : core.Equipped) : (iptUnlinkFullTopaBuffers irq pages options core).2.2.2.Equipped := by
  refine stable_equipped.unlink (fun _ => equipped_irq) pages options h fun mdl topaTable hp => ?_
  simp [Core.Equipped, storeNewTopa, hp, Core.topaMdl]

theorem serviceable_dpc {s s' : System} {cpu : Nat} {pages : Option Mdl} {input : PacketInput}
    {env : List CoreEvent} (h : Serviceable s)
    (hstep : s.step (.dpc cpu pages input env) = some s') : Serviceable s' := by
  obtain ⟨options, core, packet, ho, -, hdpc, rfl⟩ := dpc_cases hstep
  have hstart : ((s.cores cpu).start env).Equipped := h.cores cpu
  have hmdl : options.topaMdl.isSome = true := by
    rw [← topaMdl_of_options ho]
    exact h.cores cpu (by rw [ho]; rfl)
  have hunlinked : (iptUnlinkFullTopaBuffers irq pages options
      ((s.cores cpu).start env)).2.2.2.Equipped := equipped_unlink hstart
  have hoptions : ((s.cores cpu).start env).options = some options := ho
  simp only [iptDpc, hoptions, Option.map_some, Option.some.injEq] at hdpc
  obtain ⟨hfail, -⟩ | ⟨mdl, -, -, hok, hunlinkedMdl, -⟩ :=
    unlink_cases options ((s.cores cpu).start env) pages
  · rw [if_pos hfail, Prod.mk.injEq] at hdpc
    obtain ⟨rfl, rfl⟩ := hdpc
    exact h.silent cpu hunlinked
  · rw [if_neg (not_not.mpr hok)] at hdpc
    split_ifs at hdpc
    · obtain ⟨rfl, rfl⟩ := Prod.mk.inj hdpc
      exact h.silent cpu hunlinked
    · obtain ⟨rfl, rfl⟩ := Prod.mk.inj hdpc
      rw [hunlinkedMdl]
      refine h.put ?_ (mappable_enqueued hmdl)
      exact stable_equipped.resume (fun _ => equipped_irq)
        (stable_equipped.resetPmi (fun _ => equipped_irq) hunlinked)

theorem serviceable_disable {s s' : System} {cpu : Nat} {input : PacketInput}
    {env : List CoreEvent} (h : Serviceable s)
    (hstep : s.step (.disable cpu input env) = some s') : Serviceable s' := by
  simp only [System.step, ptwDpcPerCoreDisable, Option.map_map, Option.map_eq_some_iff] at hstep
  obtain ⟨options, ho, rfl⟩ := hstep
  have hdisabled : (iptDisableTrace irq ((s.cores cpu).start env)).2.2.Equipped :=
    stable_equipped.disable (fun _ => equipped_irq) (h.cores cpu)
  have hcleared : (irq (irq (iptClearTraceEn irq ((s.cores cpu).start env)))).Equipped :=
    equipped_irq (equipped_irq (stable_equipped.clearTraceEn (fun _ => equipped_irq)
      (h.cores cpu)))
  have hinitialized : (irq (irq (iptClearTraceEn irq
      ((s.cores cpu).start env)))).options.isSome = true := by
    have hirq : ∀ core : Core, core.options.isSome = true → (irq core).options.isSome = true :=
      fun _ => stable_initialized.atIrq
    refine hirq _ (hirq _ (stable_initialized.clearTraceEn hirq ?_))
    exact Option.isSome_iff_exists.mpr ⟨options, ho⟩
  exact h.put hdisabled (mappable_enqueued (hcleared hinitialized))

theorem Serviceable.step {s s' : System} {op : DriverOp} (h : Serviceable s)
    (htopa : op.TopaOutput) (hstep : s.step op = some s') : Serviceable s' := by
  cases op with
  | init cpu capabilities alloc env =>
    simp only [System.step] at hstep
    split_ifs at hstep
    cases hstep
    exact h.silent cpu (equipped_init htopa (h.cores cpu))
  | setup cpu capabilities config beyond env =>
    simp only [System.step, ptwIpiPerCoreSetup, Option.map_map, Option.map_eq_some_iff] at hstep
    obtain ⟨options, -, rfl⟩ := hstep
    exact h.silent cpu (stable_equipped.enable (fun _ => equipped_irq)
      (stable_equipped.setup (fun _ => equipped_irq) capabilities config beyond options
        (h.cores cpu)))
  | pmi cpu dpcObject env =>
    simp only [System.step] at hstep
    split_ifs at hstep
    cases hstep
    exact h.silent cpu (stable_equipped.pmiHandler (fun _ => stable_equipped.atHw) dpcObject
      (h.cores cpu))
  | dpc => exact serviceable_dpc h hstep
  | disable => exact serviceable_disable h hstep
  | imageLoad input imageBaseAddress imageSize processorFrequency =>
    cases hstep
    refine ⟨h.cores, fun dto hdto => ?_⟩
    obtain hdto | hdto := List.mem_append.mp hdto
    · exact h.queue dto hdto
    · exact mappable_imageLoad dto (Option.mem_toList.mp hdto)
  | getBuffer =>
    simp only [System.step] at hstep
    split at hstep
    · cases hstep
    · next dto queue hqueue =>
      cases hstep
      refine ⟨h.cores, fun other hother => h.queue other ?_⟩
      rw [hqueue]
      exact List.mem_cons_of_mem dto hother

theorem serviceable_boot (hardware : Nat → Core) : Serviceable (System.boot hardware) where
  cores _ h := by cases h
  queue := nofun

theorem serviceable_of_run {hardware : Nat → Core} {ops : List DriverOp} {s : System}
    (hrun : ops.foldlM System.step (System.boot hardware) = some s)
    (htopa : ∀ op ∈ ops, op.TopaOutput) : Serviceable s := by
  have hmeets : Meets System.step (fun _ op => op.TopaOutput) (System.boot hardware) ops :=
    meets_of_forall _ fun op hop _ => htopa op hop
  exact (every_of_meets Serviceable (fun _ h => h) (fun _ _ _ h hok hstep => h.step hok hstep) _
    ops (serviceable_boot hardware) hmeets).last hrun

end IntelPt.Driver
