import IntelPt.Driver.DriverOperations
import IntelPt.Driver.CoreInvariants
import IntelPt.Lib.Runs
import IntelPt.Lib.Custody

/-! Ownership of the trace buffers over runs of driver operations on any number of cores. A
buffer that IptAllocateNewTopaBuffer returned is in one place, the TopaMdl of a core, the queue
or user mode, as long as no operation drops one or puts one out while it keeps it. -/
namespace IntelPt.Driver
open Runs Custody

def Core.topaMdl (core : Core) : Option Mdl := core.options.bind (·.topaMdl)

def Core.topaPages (core : Core) : List Pfn := (core.topaMdl.map (·.pfns)).getD []

def Core.outputEntries (core : Core) : List TopaEntry :=
  (core.options.map fun o => o.topaTable.take o.topaEntries).getD []

def Core.TableOwned (core : Core) : Prop :=
  ∀ e ∈ core.outputEntries, e.outputRegionBasePhysicalAddress ∈ core.topaPages

instance (core : Core) : Decidable core.TableOwned :=
  inferInstanceAs (Decidable (∀ e ∈ core.outputEntries, _ ∈ core.topaPages))

def System.ledger (s : System) : Ledger Nat Mdl where
  held cpu := (s.cores cpu).topaMdl
  queued := s.queue.filterMap (·.mdl)
  out := s.handed
  issued := s.allocated

/-- Every buffer is in one place, and a core that traces writes to no buffer but its own. -/
structure Owned (s : System) : Prop where
  onePlace : ∀ mdl ∈ s.allocated, ∃! p, s.ledger.at p = some mdl
  table : ∀ cpu, (s.cores cpu).ctl.traceEn = true → (s.cores cpu).TableOwned ∧
    ∀ e ∈ (s.cores cpu).outputEntries, ∀ mdl ∈ s.ledger.queued ++ s.ledger.out,
      e.outputRegionBasePhysicalAddress ∉ mdl.pfns

/-- The operation drops a buffer, puts one out and keeps it, or leaves a core tracing into a
table that it has not filled. -/
def Leaks (s : System) : DriverOp → Prop
  | .init cpu capabilities alloc _ =>
    ∃ options ∈ initStores capabilities alloc,
      (s.cores cpu).topaMdl.isSome = true ∨
        -- without ToPA output the structure keeps what the pool memory held
        capabilities.topaOutputSupport = false ∧ (options.topaMdl.isSome = true ∨
          (s.cores cpu).ctl.traceEn = true ∧
            ¬ Core.TableOwned { s.cores cpu with options := some options })
  | .setup cpu .. => ¬ (s.cores cpu).TableOwned
  | .dpc cpu pages packet _ =>
    (s.cores cpu).topaMdl.isSome = true ∧ (s.cores cpu).runningStatus ≠ .enabled ∧
      pages.isSome = true ∧ ¬ (packet.dto = true ∧ packet.element = true)
  | .disable cpu packet _ =>
    (s.cores cpu).topaMdl.isSome = true ∧ packet.dto = true ∧ packet.element = true
  | _ => False

instance (s : System) : (op : DriverOp) → Decidable (Leaks s op)
  | .init .. => inferInstanceAs (Decidable (∃ options ∈ initStores _ _, _))
  | .setup .. => inferInstanceAs (Decidable (¬ _))
  | .dpc .. | .disable .. => inferInstanceAs (Decidable (_ ∧ _))
  | .pmi .. | .imageLoad .. | .getBuffer => inferInstanceAs (Decidable False)

/-! What the routines do to the buffers of their core. -/

def Core.buffers (core : Core) : Option Mdl × List TopaEntry × List Mdl :=
  (core.topaMdl, core.outputEntries, core.allocated)

theorem buffers_setRunningStatus (core : Core) (status : IptRunningStatus) :
    (core.setRunningStatus status).buffers = core.buffers := by
  cases h : core.options <;>
    simp [Core.buffers, Core.topaMdl, Core.outputEntries, Core.setRunningStatus, h]

theorem stable_buffers (v : Option Mdl × List TopaEntry × List Mdl) :
    Stable true fun core => core.buffers = v where
  hardware _ _ _ h := h
  wrote core w _ h := by cases w <;> exact h
  runningStatus core status _ h := (buffers_setRunningStatus core status).trans h
  logged _ _ _ h := h
  dpcQueue _ _ h := h

theorem tableOwned_of_buffers {core core' : Core} (hm : core'.topaMdl = core.topaMdl)
    (he : core'.outputEntries = core.outputEntries) (h : core.TableOwned) : core'.TableOwned := by
  rw [Core.TableOwned, Core.topaPages, hm, he]
  exact h

theorem tableOwned_filled {core : Core} {mdl : Mdl} {old : List TopaEntry} {pa : BitVec 64}
    {n : Nat} {topaTable : List TopaEntry} {newMdl : Option Mdl} {status : NtStatus}
    (hfill : iptAllocateNewTopaBuffer n old pa (some mdl) = (status, topaTable, newMdl))
    (hlen : mdl.pfns.length = n) (hm : core.topaMdl = some mdl)
    (he : core.outputEntries = topaTable.take n) : core.TableOwned := by
  simp only [iptAllocateNewTopaBuffer, Prod.mk.injEq] at hfill
  obtain ⟨-, rfl, -⟩ := hfill
  rw [Core.TableOwned, Core.topaPages, hm, he, List.take_append_of_le_length (by simp),
    List.take_of_length_le (by simp)]
  intro e hmem
  obtain ⟨i, hi, rfl⟩ := List.mem_map.mp hmem
  have hlt : i < mdl.pfns.length := hlen ▸ List.mem_range.mp hi
  simp [List.getD_eq_getElem?_getD, List.getElem?_eq_getElem hlt]

theorem enqueued_mdl (input : PacketInput) (lastPacket : Bool) (size : BitVec 32)
    (mdl : Option Mdl) :
    (enqueued input lastPacket size mdl).bind (·.mdl) =
      if input.dto = true ∧ input.element = true then mdl else none := by
  simp only [enqueued, Bool.and_eq_true]
  split_ifs <;> rfl

/-- The outcomes of unlinking: refused, no pages, or the buffer replaced by the new one. -/
theorem unlink_cases (options : IntelPtOutputOptions) (core : Core) (pages : Option Mdl) :
    ((iptUnlinkFullTopaBuffers irq pages options core).1 ≠ .success ∧
      (options.runningStatus = .enabled ∨ pages = none) ∧
      (iptUnlinkFullTopaBuffers irq pages options core).2.2.2.buffers = core.buffers ∧
      ((iptUnlinkFullTopaBuffers irq pages options core).2.2.2.ctl.traceEn = true →
        core.ctl.traceEn = true)) ∨
    ∃ mdl, pages = some mdl ∧ options.runningStatus ≠ .enabled ∧
      (iptUnlinkFullTopaBuffers irq pages options core).1 = .success ∧
      (iptUnlinkFullTopaBuffers irq pages options core).2.1 = options.topaMdl ∧
      (iptUnlinkFullTopaBuffers irq pages options core).2.2.2.buffers =
        (some mdl, (iptAllocateNewTopaBuffer options.topaEntries options.topaTable
          options.topaTablePa pages).2.1.take options.topaEntries, core.allocated ++ [mdl]) := by
  by_cases hs : options.runningStatus = .enabled
  · left
    simp [iptUnlinkFullTopaBuffers, hs]
  · cases pages with
    | none =>
      left
      have hbuffers := (stable_buffers core.buffers).unlink (fun _ => (stable_buffers _).atIrq)
        none options (Eq.refl core.buffers) (by intro _ _ h; cases h)
      have hoff : core.ctl.traceEn = false →
          (iptUnlinkFullTopaBuffers irq none options core).2.2.2.ctl.traceEn = false :=
        fun h => stable_traceOff.unlink (fun _ => stable_traceOff.atIrq) none options h
          (by intro _ _ h; cases h)
      refine ⟨?_, Or.inr rfl, hbuffers, fun hon => ?_⟩
      · simp [iptUnlinkFullTopaBuffers, hs, iptAllocateNewTopaBuffer]
      · by_contra hn
        rw [hoff (Bool.eq_false_iff.mpr hn)] at hon
        cases hon
    | some mdl =>
      right
      refine ⟨mdl, rfl, hs, ?_, ?_, ?_⟩
      · simp [iptUnlinkFullTopaBuffers, hs, iptAllocateNewTopaBuffer]
      · simp [iptUnlinkFullTopaBuffers, hs, iptAllocateNewTopaBuffer]
      · have hst := stable_buffers (some mdl, (iptAllocateNewTopaBuffer options.topaEntries
          options.topaTable options.topaTablePa (some mdl)).2.1.take options.topaEntries,
          core.allocated ++ [mdl])
        have hirq : ∀ core : Core, core.buffers = _ → (irq core).buffers = _ := fun _ => hst.atIrq
        simp only [iptUnlinkFullTopaBuffers, if_neg hs]
        refine hst.write hirq (by intro h; cases h) (hst.write hirq (by intro h; cases h)
          (hirq _ (hirq _ ?_)))
        rfl

/-- The outcomes of an IptDpc: the buffers stay, or the new one takes the place of the old one,
which goes into the queue if the packet gets there. -/
theorem iptDpc_cases {core core' : Core} {options : IntelPtOutputOptions}
    (ho : core.options = some options) {pages : Option Mdl} {input : PacketInput}
    {packet : Option CommBufferAddress} (h : iptDpc irq pages input core = some (packet, core')) :
    ((options.runningStatus = .enabled ∨ pages = none) ∧ packet = none ∧
      core'.buffers = core.buffers ∧ (core'.ctl.traceEn = true → core.ctl.traceEn = true)) ∨
    ∃ mdl, pages = some mdl ∧ options.runningStatus ≠ .enabled ∧
      packet.bind (·.mdl) =
        (if input.dto = true ∧ input.element = true then options.topaMdl else none) ∧
      core'.buffers = (some mdl, (iptAllocateNewTopaBuffer options.topaEntries options.topaTable
        options.topaTablePa pages).2.1.take options.topaEntries, core.allocated ++ [mdl]) := by
  simp only [iptDpc, ho, Option.map_some, Option.some.injEq] at h
  obtain ⟨hfail, hwhy, hbuffers, hon⟩ | ⟨mdl, hpages, hne, hok, hmdl, hbuffers⟩ :=
    unlink_cases options core pages
  · left
    rw [if_pos hfail, Prod.mk.injEq] at h
    obtain ⟨rfl, rfl⟩ := h
    exact ⟨hwhy, rfl, hbuffers, hon⟩
  · right
    refine ⟨mdl, hpages, hne, ?_⟩
    rw [if_neg (not_not.mpr hok)] at h
    cases hdto : input.dto with
    | false =>
      rw [hdto, if_pos (by simp), Prod.mk.injEq] at h
      obtain ⟨rfl, rfl⟩ := h
      exact ⟨by simp, hbuffers⟩
    | true =>
      rw [hdto, if_neg (by simp), Prod.mk.injEq] at h
      obtain ⟨rfl, rfl⟩ := h
      refine ⟨?_, ?_⟩
      · rw [enqueued_mdl, hmdl, hdto]
      · exact (stable_buffers _).resume (fun _ => (stable_buffers _).atIrq)
          ((stable_buffers _).resetPmi (fun _ => (stable_buffers _).atIrq) hbuffers)

theorem iptInitPerCore_cases (capabilities : IntelPtCapabilities) (alloc : InitAlloc)
    (core : Core) :
    (initStores capabilities alloc = none ∧
        (iptInitPerCore hw capabilities alloc core).2.buffers = core.buffers) ∨
      ∃ options ∈ initStores capabilities alloc,
        (iptInitPerCore hw capabilities alloc core).2.buffers =
          (storeOptions capabilities options core).buffers := by
  have hhw : ∀ v (core : Core), core.buffers = v → (hw core).buffers = v :=
    fun v _ => (stable_buffers v).atHw
  have hfirst : (hw core).buffers = core.buffers := hhw _ _ rfl
  simp only [iptInitPerCore]
  split
  · next hpool => exact Or.inl ⟨by rw [initStores, hpool]; rfl, hfirst⟩
  · next pool hpool =>
    split
    · next options hstores =>
      right
      refine ⟨options, ?_, ?_⟩
      · rw [initStores, hpool, Option.bind_some, hstores]
        rfl
      · have hallocated : (hw core).allocated = core.allocated := congrArg (·.2.2) hfirst
        have hstored : (storeOptions capabilities options (hw core)).buffers =
            (storeOptions capabilities options core).buffers := by
          simp only [storeOptions, hallocated]
          rfl
        split
        · exact (stable_buffers _).disable (hhw _) (hhw _ _ hstored)
        · exact hhw _ _ hstored
    · next hfail hresult =>
      refine Or.inl ⟨?_, hfirst⟩
      rw [initStores, hpool, Option.bind_some]
      split
      · next options hstores =>
        exact (hfail (congrArg (·.1) (hresult.symm.trans hstores))).elim
      · rfl

/-- IptInitPerCore does not switch tracing on. -/
theorem traceEn_of_iptInitPerCore {capabilities : IntelPtCapabilities} {alloc : InitAlloc}
    {core : Core} (h : (iptInitPerCore hw capabilities alloc core).2.ctl.traceEn = true) :
    core.ctl.traceEn = true := by
  by_contra hn
  have hhw : ∀ core : Core, core.ctl.traceEn = false → (hw core).ctl.traceEn = false :=
    fun _ => stable_traceOff.atHw
  have hfirst : (hw core).ctl.traceEn = false := hhw core (Bool.eq_false_iff.mpr hn)
  have hoff : (iptInitPerCore hw capabilities alloc core).2.ctl.traceEn = false := by
    simp only [iptInitPerCore]
    split
    · exact hfirst
    · split
      · split
        · exact stable_traceOff.disable hhw (hhw _ hfirst)
        · exact hhw _ hfirst
      · exact hfirst
  rw [hoff] at h
  cases h

/-! The invariant. -/

structure Kept (s : System) : Prop where
  sound : Sound s.ledger
  disjoint : ∀ a ∈ s.allocated, ∀ b ∈ s.allocated, a ≠ b → a.Apart b
  table : ∀ cpu, (s.cores cpu).ctl.traceEn = true → (s.cores cpu).TableOwned

theorem Kept.owned {s : System} (h : Kept s) : Owned s where
  onePlace _ hmdl := h.sound.existsUnique hmdl
  table cpu hon := by
    refine ⟨h.table cpu hon, fun e he other hother hpfn => ?_⟩
    have hpage := h.table cpu hon e he
    rw [Core.topaPages] at hpage
    cases hmdl : (s.cores cpu).topaMdl with
    | none => rw [hmdl] at hpage; cases hpage
    | some mdl =>
      rw [hmdl] at hpage
      have hheld : s.ledger.held cpu = some mdl := hmdl
      have hne : mdl ≠ other := fun hsame => h.sound.not_released cpu mdl hheld (hsame ▸ hother)
      exact h.disjoint mdl (h.sound.held_issued hheld) other (h.sound.released_issued hother) hne
        _ hpage hpfn

theorem ledger_put (s : System) (cpu : Nat) (core : Core) (packet : Option CommBufferAddress) :
    (s.put cpu core packet).ledger = {
      held := Function.update s.ledger.held cpu core.topaMdl
      queued := s.ledger.queued ++ (packet.bind (·.mdl)).toList
      out := s.ledger.out
      issued := s.ledger.issued ++ core.allocated } := by
  simp only [System.ledger, System.put, List.filterMap_append, Ledger.mk.injEq, and_true]
  constructor
  · funext l
    by_cases hl : l = cpu
    · rw [hl, Function.update_self, Function.update_self]
    · rw [Function.update_of_ne hl, Function.update_of_ne hl]
  · cases packet with
    | none => rfl
    | some dto => cases h : dto.mdl <;> simp [h]

theorem table_put {s : System} (h : Kept s) {cpu : Nat} {core : Core}
    {packet : Option CommBufferAddress}
    (ht : core.ctl.traceEn = true → core.TableOwned) (l : Nat)
    (hl : ((s.put cpu core packet).cores l).ctl.traceEn = true) :
    ((s.put cpu core packet).cores l).TableOwned := by
  by_cases hlc : l = cpu
  · subst hlc
    simp only [System.put, Function.update_self] at hl ⊢
    exact ht hl
  · simp only [System.put, Function.update_of_ne hlc] at hl ⊢
    exact h.table l hl

/-- The operation moves no buffer. -/
theorem Kept.still {s : System} (h : Kept s) {cpu : Nat} {core : Core}
    {packet : Option CommBufferAddress} (hmdl : core.topaMdl = (s.cores cpu).topaMdl)
    (hnew : core.allocated = []) (hpacket : packet.bind (·.mdl) = none)
    (ht : core.ctl.traceEn = true → core.TableOwned) : Kept (s.put cpu core packet) where
  sound := by
    have hheld : Function.update s.ledger.held cpu core.topaMdl = s.ledger.held := by
      rw [hmdl]
      exact Function.update_eq_self ..
    rw [ledger_put, hpacket, hnew, hheld, Option.toList_none, List.append_nil, List.append_nil]
    exact h.sound
  disjoint := by
    simp only [System.put, hnew, List.append_nil]
    exact h.disjoint
  table := table_put h ht

theorem Kept.unmoved {s : System} (h : Kept s) {cpu : Nat} {core : Core} {env : List CoreEvent}
    (hbuffers : core.buffers = ((s.cores cpu).start env).buffers)
    (ht : core.ctl.traceEn = true → (s.cores cpu).TableOwned) : Kept (s.put cpu core none) := by
  simp only [Core.buffers, Prod.mk.injEq] at hbuffers
  obtain ⟨hmdl, hentries, hnew⟩ := hbuffers
  exact h.still hmdl hnew rfl fun hon => tableOwned_of_buffers hmdl hentries (ht hon)

theorem disjoint_append {s : System} (h : Kept s) {entries : Nat} {pages : Option Mdl} {mdl : Mdl}
    (hfresh : s.Fresh entries pages) (hp : pages = some mdl) :
    ∀ a ∈ s.allocated ++ [mdl], ∀ b ∈ s.allocated ++ [mdl], a ≠ b → a.Apart b := by
  obtain ⟨-, hpfns, -⟩ := hfresh mdl hp
  intro a ha b hb hne pfn ha' hb'
  obtain ha | ha := List.mem_append.mp ha <;> obtain hb | hb := List.mem_append.mp hb
  · exact h.disjoint a ha b hb hne pfn ha' hb'
  · rw [List.mem_singleton.mp hb] at hb'
    exact hpfns a ha pfn hb' ha'
  · rw [List.mem_singleton.mp ha] at ha'
    exact hpfns b hb pfn ha' hb'
  · exact hne ((List.mem_singleton.mp ha).trans (List.mem_singleton.mp hb).symm)

/-- A core gets a new buffer; the one it had, if any, goes into the queue. -/
theorem Kept.replace {s : System} (h : Kept s) {cpu : Nat} {core : Core}
    {packet : Option CommBufferAddress} {entries : Nat} {pages : Option Mdl} {mdl : Mdl}
    (hfresh : s.Fresh entries pages) (hp : pages = some mdl) (hmdl : core.topaMdl = some mdl)
    (hnew : core.allocated = [mdl]) (hpacket : packet.bind (·.mdl) = (s.cores cpu).topaMdl)
    (ht : core.ctl.traceEn = true → core.TableOwned) : Kept (s.put cpu core packet) where
  sound := by
    have hx : mdl ∉ s.ledger.issued := (hfresh mdl hp).1
    rw [ledger_put, hmdl, hnew, hpacket]
    cases hold : (s.cores cpu).topaMdl with
    | none =>
      rw [Option.toList_none, List.append_nil]
      exact h.sound.acquire hold hx
    | some old => exact h.sound.exchange hold hx
  disjoint := by
    simp only [System.put, hnew]
    exact disjoint_append h hfresh hp
  table := table_put h ht

/-! One step. -/

theorem initStores_topa {capabilities : IntelPtCapabilities} {alloc : InitAlloc}
    {options : IntelPtOutputOptions} (hs : capabilities.topaOutputSupport = true)
    (h : options ∈ initStores capabilities alloc) :
    ∃ mdl old pa, alloc.pages = some mdl ∧ options.topaMdl = some mdl ∧
      options.topaEntries = initEntries capabilities ∧
      iptAllocateNewTopaBuffer (initEntries capabilities) old pa (some mdl) =
        (.success, options.topaTable, some mdl) := by
  obtain ⟨pool, -, h⟩ := Option.bind_eq_some_iff.mp h
  split at h
  · next stored hstored =>
    cases h
    simp only [iptInitOutputStructure, hs, if_true, iptInitTopaOutput] at hstored
    have hcount : IntelPtOutputOptions.topaEntries
        (if capabilities.topaMultipleOutputEntriesSupport = true then
          { pool with outputType := .toPA, topaEntries := defaultNumberOfTopaEntries }
        else { pool with outputType := .toPASingleRegion, topaEntries := 1 }) =
        initEntries capabilities := by
      rw [initEntries]
      split_ifs <;> rfl
    rw [hcount] at hstored
    split at hstored
    · cases hstored
    · split at hstored
      · cases hstored
      · next pa hpa =>
        cases hpages : alloc.pages with
        | none => simp [hpages, iptAllocateNewTopaBuffer] at hstored
        | some mdl =>
          simp only [hpages, iptAllocateNewTopaBuffer, Prod.mk.injEq, true_and] at hstored
          subst hstored
          exact ⟨mdl, _, pa, rfl, rfl, rfl, rfl⟩
  · cases h

theorem kept_init {s s' : System} {cpu : Nat} {capabilities : IntelPtCapabilities}
    {alloc : InitAlloc} {env : List CoreEvent} (h : Kept s)
    (hok : ¬ Leaks s (.init cpu capabilities alloc env))
    (hstep : s.step (.init cpu capabilities alloc env) = some s') : Kept s' := by
  simp only [System.step] at hstep
  split at hstep
  · next hfresh =>
    cases hstep
    have hon :
        (iptInitPerCore hw capabilities alloc ((s.cores cpu).start env)).2.ctl.traceEn = true →
          (s.cores cpu).ctl.traceEn = true := traceEn_of_iptInitPerCore
    obtain ⟨-, hbuffers⟩ | ⟨options, hstores, hbuffers⟩ :=
      iptInitPerCore_cases capabilities alloc ((s.cores cpu).start env)
    · exact h.unmoved hbuffers fun he => h.table cpu (hon he)
    · simp only [Core.buffers, Prod.mk.injEq] at hbuffers
      obtain ⟨hmdl, hentries, hnew⟩ := hbuffers
      have hno : ¬ _ := fun hl => hok ⟨options, hstores, hl⟩
      rw [not_or, not_and] at hno
      obtain ⟨hnone, hrest⟩ := hno
      have hnone : (s.cores cpu).topaMdl = none := by simpa using hnone
      cases hs : capabilities.topaOutputSupport with
      | true =>
        obtain ⟨mdl, old, pa, hpages, hnewMdl, hcount, hfill⟩ := initStores_topa hs hstores
        have hlen := (hfresh mdl hpages).2.2
        refine h.replace hfresh hpages (hmdl.trans hnewMdl) ?_ hnone.symm fun _ => ?_
        · rw [hnew, storeOptions, if_pos hs, hnewMdl]
          rfl
        · refine tableOwned_filled hfill hlen (hmdl.trans hnewMdl) (hentries.trans ?_)
          rw [Core.outputEntries, storeOptions, Option.map_some, hcount]
          rfl
      | false =>
        have hrest := hrest hs
        rw [not_or, not_and, not_not] at hrest
        obtain ⟨hleft, htable⟩ := hrest
        have hleft : options.topaMdl = none := by simpa using hleft
        refine h.still (hmdl.trans (hleft.trans hnone.symm)) ?_ rfl fun he => ?_
        · rw [hnew, storeOptions, hs]
          rfl
        · exact tableOwned_of_buffers hmdl hentries (htable (hon he))
  · cases hstep

theorem kept_setup {s s' : System} {cpu : Nat} {capabilities : Except NtStatus IntelPtCapabilities}
    {config : IntelPtConfiguration} {beyond : Nat → BitVec 32} {env : List CoreEvent} (h : Kept s)
    (hok : ¬ Leaks s (.setup cpu capabilities config beyond env))
    (hstep : s.step (.setup cpu capabilities config beyond env) = some s') : Kept s' := by
  simp only [System.step, ptwIpiPerCoreSetup, Option.map_map, Option.map_eq_some_iff] at hstep
  obtain ⟨options, -, rfl⟩ := hstep
  have hst := stable_buffers ((s.cores cpu).start env).buffers
  have hirq : ∀ core : Core, core.buffers = _ → (irq core).buffers = _ := fun _ => hst.atIrq
  have hbuffers := hst.enable hirq (hst.setup hirq capabilities config beyond options rfl)
  exact h.unmoved hbuffers fun _ => not_not.mp hok

theorem kept_pmi {s s' : System} {cpu : Nat} {dpcObject : Bool} {env : List CoreEvent}
    (h : Kept s) (hstep : s.step (.pmi cpu dpcObject env) = some s') : Kept s' := by
  simp only [System.step] at hstep
  split at hstep
  · cases hstep
    have hst : Stable false fun core => core.buffers = ((s.cores cpu).start env).buffers :=
      (stable_buffers _).weaken
    have hbuffers := hst.pmiHandler (fun _ => hst.atHw) dpcObject rfl
    refine h.unmoved hbuffers fun hon => h.table cpu ?_
    by_contra hn
    have hoff : ((s.cores cpu).start env).ctl.traceEn = false := Bool.eq_false_iff.mpr hn
    rw [stable_traceOff.pmiHandler (fun _ => stable_traceOff.atHw) dpcObject hoff] at hon
    cases hon
  · cases hstep

theorem dpc_cases {s s' : System} {cpu : Nat} {pages : Option Mdl} {packet : PacketInput}
    {env : List CoreEvent} (hstep : s.step (.dpc cpu pages packet env) = some s') :
    ∃ options core dto, (s.cores cpu).options = some options ∧
      s.Fresh options.topaEntries pages ∧
      iptDpc irq pages packet ((s.cores cpu).start env) = some (dto, core) ∧
      s' = s.put cpu core dto := by
  simp only [System.step] at hstep
  split at hstep
  · next hfresh =>
    obtain ⟨⟨dto, core⟩, hdpc, rfl⟩ := Option.map_eq_some_iff.mp hstep
    cases ho : (s.cores cpu).options with
    | none => simp [iptDpc, Core.start, ho] at hdpc
    | some options =>
      rw [ho] at hfresh
      exact ⟨options, core, dto, rfl, hfresh, hdpc, rfl⟩
  · cases hstep

theorem topaMdl_of_options {core : Core} {options : IntelPtOutputOptions}
    (ho : core.options = some options) : core.topaMdl = options.topaMdl := by
  rw [Core.topaMdl, ho]
  rfl

theorem kept_dpc {s s' : System} {cpu : Nat} {pages : Option Mdl} {packet : PacketInput}
    {env : List CoreEvent} (h : Kept s) (hok : ¬ Leaks s (.dpc cpu pages packet env))
    (hstep : s.step (.dpc cpu pages packet env) = some s') : Kept s' := by
  obtain ⟨options, core, dto, ho, hfresh, hdpc, rfl⟩ := dpc_cases hstep
  have hold := topaMdl_of_options ho
  obtain ⟨-, rfl, hbuffers, hon⟩ | ⟨mdl, rfl, hne, hpacket, hbuffers⟩ :=
    iptDpc_cases (show ((s.cores cpu).start env).options = some options from ho) hdpc
  · exact h.unmoved hbuffers fun he => h.table cpu (hon he)
  · simp only [Core.buffers, Prod.mk.injEq] at hbuffers
    obtain ⟨hmdl, hentries, hnew⟩ := hbuffers
    have hsent : dto.bind (·.mdl) = (s.cores cpu).topaMdl := by
      rw [hpacket, hold]
      split_ifs with hboth
      · rfl
      · -- a packet that is lost takes a buffer along, unless there was none
        cases hmdl : options.topaMdl with
        | none => rfl
        | some old =>
          exact absurd ⟨by rw [hold, hmdl]; rfl, by rwa [Core.runningStatus, ho], rfl, hboth⟩ hok
    exact h.replace hfresh rfl hmdl hnew hsent fun _ =>
      tableOwned_filled rfl (hfresh mdl rfl).2.2 hmdl hentries

theorem disable_cases {s s' : System} {cpu : Nat} {packet : PacketInput} {env : List CoreEvent}
    (hstep : s.step (.disable cpu packet env) = some s') :
    ∃ core dto, core.buffers = ((s.cores cpu).start env).buffers ∧ core.ctl.traceEn = false ∧
      dto.bind (·.mdl) =
        (if packet.dto = true ∧ packet.element = true then (s.cores cpu).topaMdl else none) ∧
      s' = s.put cpu core dto := by
  simp only [System.step, ptwDpcPerCoreDisable, Option.map_map, Option.map_eq_some_iff] at hstep
  obtain ⟨options, ho, rfl⟩ := hstep
  have hst := stable_buffers ((s.cores cpu).start env).buffers
  have hirq : ∀ core : Core, core.buffers = _ → (irq core).buffers = _ := fun _ => hst.atIrq
  have hcleared : (irq (irq (iptClearTraceEn irq ((s.cores cpu).start env)))).buffers =
      ((s.cores cpu).start env).buffers := hirq _ (hirq _ (hst.clearTraceEn hirq rfl))
  have hout : (iptDisableTrace irq ((s.cores cpu).start env)).1 = (s.cores cpu).topaMdl :=
    congrArg (·.1) hcleared
  refine ⟨_, _, hst.disable hirq rfl, traceEn_iptDisableTrace _, ?_, rfl⟩
  rw [enqueued_mdl, hout]

theorem kept_disable {s s' : System} {cpu : Nat} {packet : PacketInput} {env : List CoreEvent}
    (h : Kept s) (hok : ¬ Leaks s (.disable cpu packet env))
    (hstep : s.step (.disable cpu packet env) = some s') : Kept s' := by
  obtain ⟨core, dto, hbuffers, hoff, hsent, rfl⟩ := disable_cases hstep
  simp only [Core.buffers, Prod.mk.injEq] at hbuffers
  obtain ⟨hmdl, -, hnew⟩ := hbuffers
  refine h.still hmdl hnew (hsent.trans ?_) fun hon => absurd hon (Bool.eq_false_iff.mp hoff)
  split_ifs with hboth
  · by_contra hsome
    exact hok ⟨Option.isSome_iff_ne_none.mpr hsome, hboth⟩
  · rfl

theorem kept_step {s s' : System} {op : DriverOp} (h : Kept s) (hok : ¬ Leaks s op)
    (hstep : s.step op = some s') : Kept s' := by
  cases op with
  | init => exact kept_init h hok hstep
  | setup => exact kept_setup h hok hstep
  | pmi => exact kept_pmi h hstep
  | dpc => exact kept_dpc h hok hstep
  | disable => exact kept_disable h hok hstep
  | imageLoad packet imageBaseAddress imageSize processorFrequency =>
    cases hstep
    have hqueue : (s.queue ++ (ptwHookImageLoad packet imageBaseAddress imageSize
        processorFrequency).toList).filterMap (·.mdl) = s.queue.filterMap (·.mdl) := by
      rw [ptwHookImageLoad]
      split_ifs <;> simp [CommBufferAddress.mdl]
    refine ⟨?_, h.disjoint, h.table⟩
    simp only [System.ledger, hqueue]
    exact h.sound
  | getBuffer =>
    simp only [System.step] at hstep
    split at hstep
    · cases hstep
    · next dto queue hqueue =>
      cases hstep
      refine ⟨?_, h.disjoint, h.table⟩
      cases hmdl : dto.mdl with
      | none =>
        have hsame : s.ledger.queued = queue.filterMap (·.mdl) := by
          simp [System.ledger, hqueue, hmdl]
        simp only [System.ledger, Option.toList_none, List.append_nil, ← hsame]
        exact h.sound
      | some mdl =>
        have hqueued : s.ledger.queued = mdl :: queue.filterMap (·.mdl) := by
          simp [System.ledger, hqueue, hmdl]
        exact h.sound.deliver hqueued

theorem kept_boot (hardware : Nat → Core) : Kept (System.boot hardware) where
  sound := by
    refine ⟨List.nodup_nil, ?_, ?_, ?_⟩
    · intro cpu mdl hheld
      cases hheld
    · intro cpu l mdl hheld
      cases hheld
    · intro mdl
      simp [System.ledger, System.boot, Core.topaMdl]
  disjoint _ ha := by cases ha
  table _ _ _ he := by cases he

theorem owned_of_meets (hardware : Nat → Core) (ops : List DriverOp)
    (h : Meets System.step (fun s op => ¬ Leaks s op) (System.boot hardware) ops) :
    Every System.step Owned (System.boot hardware) ops :=
  every_of_meets Kept (fun _ => Kept.owned) (fun _ _ _ => kept_step) _ ops (kept_boot hardware) h

/-! The leaks of a core with a buffer break ownership at once. -/

/-- A buffer that its core has given up without a packet is lost. -/
theorem not_owned_of_dropped {s : System} (h : Kept s) {cpu : Nat} {core : Core} {old : Mdl}
    {packet : Option CommBufferAddress} (hold : (s.cores cpu).topaMdl = some old)
    (hnew : core.topaMdl ≠ some old) (hpacket : packet.bind (·.mdl) = none) :
    ¬ Owned (s.put cpu core packet) := by
  intro howned
  have hheld : s.ledger.held cpu = some old := hold
  have hissued : old ∈ s.ledger.issued ++ core.allocated :=
    List.mem_append_left _ (h.sound.held_issued hheld)
  refine not_existsUnique_of_dropped ?_ ?_ (howned.onePlace old hissued)
  · intro l hl
    rw [ledger_put] at hl
    obtain ⟨-, hl⟩ | ⟨hne, hl⟩ := held_update hl
    · exact hnew hl
    · exact hne (h.sound.one_holder l cpu old hl hheld)
  · rw [ledger_put, hpacket, Option.toList_none, List.append_nil]
    exact h.sound.not_released cpu old hheld

theorem ne_of_fresh {s : System} (h : Kept s) {cpu entries : Nat} {old mdl : Mdl}
    (hold : (s.cores cpu).topaMdl = some old) (hfresh : s.Fresh entries (some mdl)) :
    some mdl ≠ some old := by
  intro heq
  have hissued : old ∈ s.ledger.issued := h.sound.held_issued (show s.ledger.held cpu = _ from hold)
  exact (hfresh mdl rfl).1 (Option.some.inj heq ▸ hissued)

theorem not_owned_of_init {s s' : System} {cpu : Nat} {capabilities : IntelPtCapabilities}
    {alloc : InitAlloc} {env : List CoreEvent} (h : Kept s)
    (hs : capabilities.topaOutputSupport = true)
    (hleak : Leaks s (.init cpu capabilities alloc env))
    (hstep : s.step (.init cpu capabilities alloc env) = some s') : ¬ Owned s' := by
  obtain ⟨options, hstores, hleak⟩ := hleak
  have hmdl := hleak.resolve_right fun hno => by
    rw [hs] at hno
    cases hno.1
  obtain ⟨old, hold⟩ := Option.isSome_iff_exists.mp hmdl
  obtain ⟨mdl, _, _, hpages, hnewMdl, -⟩ := initStores_topa hs hstores
  simp only [System.step] at hstep
  split at hstep
  · next hfresh =>
    cases hstep
    obtain ⟨hnone, -⟩ | ⟨stored, hstored, hbuffers⟩ :=
      iptInitPerCore_cases capabilities alloc ((s.cores cpu).start env)
    · rw [hnone] at hstores
      cases hstores
    · cases Option.mem_unique hstores hstored
      rw [hpages] at hfresh
      refine not_owned_of_dropped h hold ?_ rfl
      have hnew : (iptInitPerCore hw capabilities alloc ((s.cores cpu).start env)).2.topaMdl =
          options.topaMdl := congrArg (·.1) hbuffers
      rw [hnew, hnewMdl]
      exact ne_of_fresh h hold hfresh
  · cases hstep

theorem not_owned_of_dpc {s s' : System} {cpu : Nat} {pages : Option Mdl} {packet : PacketInput}
    {env : List CoreEvent} (h : Kept s) (hleak : Leaks s (.dpc cpu pages packet env))
    (hstep : s.step (.dpc cpu pages packet env) = some s') : ¬ Owned s' := by
  obtain ⟨hmdl, hstatus, hpages, hboth⟩ := hleak
  obtain ⟨old, hold⟩ := Option.isSome_iff_exists.mp hmdl
  obtain ⟨options, core, dto, ho, hfresh, hdpc, rfl⟩ := dpc_cases hstep
  rw [Core.runningStatus, ho] at hstatus
  obtain ⟨hwhy, -⟩ | ⟨mdl, rfl, -, hpacket, hbuffers⟩ :=
    iptDpc_cases (show ((s.cores cpu).start env).options = some options from ho) hdpc
  · obtain henabled | hnone := hwhy
    · exact absurd henabled hstatus
    · rw [hnone] at hpages
      cases hpages
  · have hnew : core.topaMdl = some mdl := congrArg (·.1) hbuffers
    exact not_owned_of_dropped h hold (hnew ▸ ne_of_fresh h hold hfresh)
      (hpacket.trans (if_neg hboth))

theorem not_owned_of_disable {s s' : System} {cpu : Nat} {packet : PacketInput}
    {env : List CoreEvent} (h : Kept s) (hleak : Leaks s (.disable cpu packet env))
    (hstep : s.step (.disable cpu packet env) = some s') : ¬ Owned s' := by
  obtain ⟨hmdl, hboth⟩ := hleak
  obtain ⟨old, hold⟩ := Option.isSome_iff_exists.mp hmdl
  obtain ⟨core, dto, hbuffers, -, hsent, rfl⟩ := disable_cases hstep
  have hkeep : core.topaMdl = (s.cores cpu).topaMdl := congrArg (·.1) hbuffers
  rw [if_pos hboth, hold] at hsent
  rw [hold] at hkeep
  intro howned
  have hissued : old ∈ s.ledger.issued ++ core.allocated :=
    List.mem_append_left _ (h.sound.held_issued (show s.ledger.held cpu = some old from hold))
  refine not_existsUnique_of_kept (k := cpu) ?_ ?_ (howned.onePlace old hissued)
  · rw [ledger_put]
    exact (Function.update_self ..).trans hkeep
  · rw [ledger_put, hsent]
    exact List.mem_append_right _ (List.mem_singleton_self old)

/-- One full buffer reaches user mode; the last packet cannot be allocated. -/
theorem owned_one_session :
    let ops := firstSession ++ [.pmi 0 true [{ topaPmi := true }],
      .dpc 0 (some (tenPages 1)) { dto := true, element := true } [], .getBuffer,
      .disable 0 { dto := false, element := true } []]
    Every System.step Owned (System.boot fun _ => {}) ops ∧
      (ops.foldlM System.step (System.boot fun _ => {})).map (·.handed) = some [tenPages 0] :=
  ⟨owned_of_meets _ _ (by decide +kernel), by decide +kernel⟩

/-- The disable DPC enqueues the buffer that TopaMdl keeps; in the next session the IptDpc
enqueues it again. -/
theorem not_owned_second_session :
    ¬ ∀ hardware ops, Every System.step Owned (System.boot hardware) ops := by
  intro h
  let ops := firstSession ++ [.disable 0 { dto := true, element := true } [],
    .setup 0 (.ok topaCapabilities) {} (fun _ => 0) [], .pmi 0 true [{ topaPmi := true }],
    .dpc 0 (some (tenPages 1)) { dto := true, element := true } []]
  have hrun : (ops.foldlM System.step (System.boot fun _ => {})).map
      (fun s => (s.allocated, s.ledger.queued)) =
        some ([tenPages 0, tenPages 1], [tenPages 0, tenPages 0]) := by decide +kernel
  obtain ⟨s, hs, hend⟩ := Option.map_eq_some_iff.mp hrun
  obtain ⟨hallocated, hqueued⟩ := Prod.mk.inj hend
  have howned := (h _ ops).last hs
  obtain ⟨p, -, hunique⟩ := howned.onePlace (tenPages 0) (by rw [hallocated]; simp)
  have hat (n : Nat) (hn : [tenPages 0, tenPages 0][n]? = some (tenPages 0)) :
      s.ledger.at (.queued n) = some (tenPages 0) := by
    change s.ledger.queued[n]? = some (tenPages 0)
    rwa [hqueued]
  have hfirst := hunique (.queued 0) (hat 0 rfl)
  have hsecond := hunique (.queued 1) (hat 1 rfl)
  cases hfirst.trans hsecond.symm

end IntelPt.Driver
