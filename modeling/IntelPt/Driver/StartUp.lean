import IntelPt.Driver.PendingErrors
import IntelPt.Driver.PerCoreExecution
import IntelPt.Driver.Sessions

/-! PtwInit, PtwSetup and PtwHookThreadCreation over the cores they send their routines to. The
status they look at is the one of the sending; what IptInitPerCore, IptSetup and IptEnableTrace
return on a core is printed there and forgotten. -/
namespace IntelPt.Driver

variable {n : Nat}

structure StartUp (n : Nat) where
  cores : Fin n → Core
  gProcessId : Nat := 0
  gThreadHooked : Bool := false

structure PtwInitInput (n : Nat) where
  /-- gIptPerCoreControl can be allocated -/
  control : Bool
  /-- IptInit, with the capabilities it leaves -/
  iptInit : Except FailureStatus IntelPtCapabilities
  execution : PerCoreOutcome n
  alloc : Fin n → InitAlloc
  env : Fin n → List CoreEvent := fun _ => []
  duQueueInit : NtStatusCode

/-- PtwIpiPerCoreInit prints the status of IptInitPerCore. -/
def ptwIpiPerCoreInit (capabilities : IntelPtCapabilities) (alloc : InitAlloc) (core : Core) :
    Core :=
  (iptInitPerCore hw capabilities alloc core).2

/-- gIptPerCoreControl is new memory, so that no entry is set. -/
def ptwInit (input : PtwInitInput n) (cores : Fin n → Core) : NtStatusCode × (Fin n → Core) :=
  if !input.control then (statusInsufficientResources, cores)
  else
    let cores (cpu : Fin n) : Core := { cores cpu with options := none }
    match input.iptInit with
    | .error status => (status, cores)
    | .ok capabilities =>
      let cores (cpu : Fin n) : Core :=
        if input.execution.ran cpu then
          ptwIpiPerCoreInit capabilities (input.alloc cpu) ((cores cpu).start (input.env cpu))
        else cores cpu
      if ¬ input.execution.status.NtSuccess then (input.execution.status, cores)
      else (input.duQueueInit, cores)

structure PtwSetupInput (n : Nat) where
  execution : PerCoreOutcome n
  /-- IptGetCapabilities, and what memory holds behind RangeOptions, on each core -/
  capabilities : Fin n → Except NtStatus IntelPtCapabilities
  beyond : Fin n → Nat → BitVec 32 := fun _ _ => 0
  env : Fin n → List CoreEvent := fun _ => []

def PtwSetupInput.Defined (input : PtwSetupInput n) (cores : Fin n → Core) : Prop :=
  ∀ cpu, input.execution.ran cpu = true → (cores cpu).options.isSome = true

instance (input : PtwSetupInput n) (cores : Fin n → Core) : Decidable (input.Defined cores) :=
  inferInstanceAs (Decidable (∀ _, _))

/-- The status of HalSetSystemInformation is printed. A core without an output structure makes
the routine follow an arbitrary pointer, and the call has no result. -/
def ptwSetup (input : PtwSetupInput n) (config : IntelPtConfiguration) (cores : Fin n → Core) :
    Option (NtStatusCode × (Fin n → Core)) :=
  if input.Defined cores then
    some (input.execution.status, fun cpu =>
      if input.execution.ran cpu then
        (ptwIpiPerCoreSetup irq (input.capabilities cpu) config (input.beyond cpu)
          ((cores cpu).start (input.env cpu))).getD (cores cpu)
      else cores cpu)
  else none

structure ThreadCreation where
  parentId : Nat
  processId : Nat
  create : Bool
  cr3 : BitVec 64 := 0
  gImageBasePaStart : BitVec 64 := 0
  gImageBasePaEnd : BitVec 64 := 0

def ThreadCreation.config (thread : ThreadCreation) : IntelPtConfiguration :=
  threadCreationConfiguration thread.cr3 thread.gImageBasePaStart thread.gImageBasePaEnd

def ThreadCreation.Hooks (thread : ThreadCreation) (s : StartUp n) : Prop :=
  (s.gProcessId = thread.processId ∨ thread.parentId = s.gProcessId) ∧ thread.create = true ∧
    s.gThreadHooked = false

instance (thread : ThreadCreation) (s : StartUp n) : Decidable (thread.Hooks s) :=
  inferInstanceAs (Decidable (_ ∧ _ ∧ _))

/-- gThreadHoodked is set before PtwSetup is called. -/
def ptwHookThreadCreation (input : PtwSetupInput n) (thread : ThreadCreation) (s : StartUp n) :
    Option (StartUp n) :=
  if s.gProcessId ≠ thread.processId ∧ thread.parentId ≠ s.gProcessId then some s
  else if !thread.create then some s
  else if s.gThreadHooked then some s
  else (ptwSetup input thread.config s.cores).map fun r =>
    { s with gThreadHooked := true, cores := r.2 }

inductive StartUpCall (n : Nat) where
  | init (input : PtwInitInput n)
  | setup (config : IntelPtConfiguration) (input : PtwSetupInput n)
  | threadCreation (thread : ThreadCreation) (input : PtwSetupInput n)

/-! What the calls are to report. -/

def PtwSetupInput.Accepted (input : PtwSetupInput n) (config : IntelPtConfiguration)
    (cpu : Fin n) : Prop :=
  (iptValidateConfigurationRequest (input.capabilities cpu) config (input.beyond cpu)).1 = .success

/-- The core that `before` has become has been programmed with the configuration and traces, and
IPT_STATUS_ENABLED has been stored. -/
structure SetUp (config : IntelPtConfiguration) (before after : Core) : Prop where
  programmed : ∀ options ∈ before.options, ∀ w ∈ configureWrites config options,
    ∃ traceEn, LogEntry.write w traceEn ∈ after.log
  traceEn : after.ctl.traceEn = true
  stored : ∃ traceEn, LogEntry.storesEnabled traceEn ∈ after.log

/-- The same call with something else in the pool memory of the output structures. -/
def PtwInitInput.withPool (input : PtwInitInput n) (pool : IntelPtOutputOptions) :
    PtwInitInput n :=
  { input with
    alloc := fun cpu => { input.alloc cpu with pool := (input.alloc cpu).pool.map fun _ => pool } }

/-- The entry of the core is set, and nothing in its structure is what the memory held before. -/
def PtwInitInput.Initialises (input : PtwInitInput n) (cores : Fin n → Core) (cpu : Fin n) :
    Prop :=
  ∃ options, ∀ pool, ((ptwInit (input.withPool pool) cores).2 cpu).options = some options

/-- PtwSetup succeeds only with every core set up, and its routine leaves TraceEn alone on a core
that rejects the configuration. -/
def SetupReported (input : PtwSetupInput n) (config : IntelPtConfiguration)
    (cores : Fin n → Core) : Prop :=
  ∀ r, ptwSetup input config cores = some r →
    (r.1.NtSuccess → ∀ cpu, input.Accepted config cpu ∧ SetUp config (cores cpu) (r.2 cpu)) ∧
    ∀ cpu, input.execution.ran cpu = true → ¬ input.Accepted config cpu →
      ∀ e ∈ (r.2 cpu).log, e.enables = false

def FailuresReported (s : StartUp n) : StartUpCall n → Prop
  | .init input => (ptwInit input s.cores).1.NtSuccess → ∀ cpu, input.Initialises s.cores cpu
  | .setup config input => SetupReported input config s.cores
  | .threadCreation thread input => ∀ s', ptwHookThreadCreation input thread s = some s' →
      (thread.Hooks s → SetupReported input thread.config s.cores) ∧
      (s.gThreadHooked = false → s'.gThreadHooked = true →
        ∃ r, ptwSetup input thread.config s.cores = some r ∧ r.1.NtSuccess)

/-! When they do. -/

/-- IptEnableTrace, called now, sees no error and then TriggerEn, and no PMI pauses the core
between that and the store of IPT_STATUS_ENABLED. -/
def Shown.Enables (s : Shown) : Prop :=
  (s.atIptError hw).error = false ∧ (s.atIptEnabled hw).triggerEn = true ∧
    ¬ (s.atIptEnabled hw).Pauses hw

def PtwSetupInput.Enables (input : PtwSetupInput n) (config : IntelPtConfiguration)
    (cores : Fin n → Core) (cpu : Fin n) : Prop :=
  ∀ options ∈ (cores cpu).options, (((cores cpu).start (input.env cpu)).shown.setup
    (input.capabilities cpu) config (input.beyond cpu) options).Enables

/-- Where the routine runs the configuration is accepted, and where the call is going to succeed
tracing can be enabled. -/
def PtwSetupInput.NoneFails (input : PtwSetupInput n) (config : IntelPtConfiguration)
    (cores : Fin n → Core) : Prop :=
  input.Defined cores →
    (∀ cpu, input.execution.ran cpu = true → input.Accepted config cpu) ∧
    (input.execution.status.NtSuccess → ∀ cpu, input.Enables config cores cpu)

def InitAlloc.Suffices (capabilities : IntelPtCapabilities) (alloc : InitAlloc) : Prop :=
  capabilities.topaOutputSupport = true ∧
    initEntries capabilities ≤ capabilities.topaOutputEntries.toNat ∧
    alloc.pool.isSome = true ∧ alloc.table.isSome = true ∧ alloc.pages.isSome = true

def PtwInitInput.LooksWell (input : PtwInitInput n) (capabilities : IntelPtCapabilities) : Prop :=
  input.control = true ∧ input.iptInit = .ok capabilities ∧
    input.execution.status.NtSuccess ∧ input.duQueueInit.NtSuccess

def NoneFails (s : StartUp n) : StartUpCall n → Prop
  | .init input => ∀ capabilities, input.LooksWell capabilities →
      ∀ cpu, (input.alloc cpu).Suffices capabilities
  | .setup config input => input.NoneFails config s.cores
  | .threadCreation thread input => thread.Hooks s → input.Defined s.cores →
      input.NoneFails thread.config s.cores ∧ input.execution.status.NtSuccess

/-! One core. -/

theorem options_iptDisableTrace (core : Core) : (iptDisableTrace hw core).2.2.options =
    core.options.map fun options => { options with runningStatus := .disabled } := by
  have hkept : (hw (hw (iptClearTraceEn hw core))).options = core.options := by
    rw [options_hw, options_hw, iptClearTraceEn, writeTraceEn, writeMsr, options_wrote,
      options_hw, options_hw]
  exact congrArg (Option.map fun o => { o with runningStatus := .disabled }) hkept

theorem options_iptInitPerCore (capabilities : IntelPtCapabilities) (alloc : InitAlloc)
    {core : Core} (h : core.options = none) :
    (iptInitPerCore hw capabilities alloc core).2.options =
      (initStores capabilities alloc).map fun options =>
        if core.shown.hw.hw.triggerEn then { options with runningStatus := .disabled }
        else options := by
  have hfirst : (hw core).options = none := (options_hw core).trans h
  cases hpool : alloc.pool with
  | none =>
    simp only [iptInitPerCore, initStores, hpool]
    exact hfirst
  | some pool =>
    simp only [iptInitPerCore, initStores, hpool, Option.bind_some]
    cases hresult : iptInitOutputStructure capabilities alloc
      { pool with topaEntries := defaultNumberOfTopaEntries } with
    | mk status options =>
      cases status with
      | success =>
        let asked := hw (storeOptions capabilities options (hw core))
        have hlook : asked.triggerEn = core.shown.hw.hw.triggerEn := by
          rw [shows_hw.triggerEn, ← shows_hw core]
          rfl
        have hasked : asked.options = some options := options_hw _
        simp only [Option.map_some]
        rw [← hlook]
        by_cases hon : asked.triggerEn = true
        · have hyes : (iptEnabled hw (storeOptions capabilities options
              (iptEnabled hw core).2)).1 = true := hon
          rw [if_pos hon, if_pos hyes]
          exact (options_iptDisableTrace _).trans (congrArg (Option.map _) hasked)
        · have hno : ¬ (iptEnabled hw (storeOptions capabilities options
              (iptEnabled hw core).2)).1 = true := hon
          rw [if_neg hon, if_neg hno]
          exact hasked
      | _ => exact hfirst

def topaOptions (capabilities : IntelPtCapabilities) (pa : BitVec 64) (mdl : Mdl) :
    IntelPtOutputOptions where
  runningStatus := .initialized
  outputType := if capabilities.topaMultipleOutputEntriesSupport then .toPA else .toPASingleRegion
  topaEntries := initEntries capabilities
  topaMdl := some mdl
  topaTablePa := pa
  topaTable := (iptAllocateNewTopaBuffer (initEntries capabilities)
    (List.replicate (initEntries capabilities + 1) {}) pa (some mdl)).2.1
  outputMask := 0x7F

/-- With ToPA output the structure that is stored has nothing from the pool memory. -/
theorem initStores_topaOutput {capabilities : IntelPtCapabilities}
    (h : capabilities.topaOutputSupport = true) (alloc : InitAlloc) :
    initStores capabilities alloc = alloc.pool.bind fun _ =>
      if initEntries capabilities ≤ capabilities.topaOutputEntries.toNat then
        alloc.table.bind fun pa => alloc.pages.map fun mdl => topaOptions capabilities pa mdl
      else none := by
  cases hpool : alloc.pool with
  | none => simp only [initStores, hpool, Option.bind_none]
  | some pool =>
    simp only [initStores, hpool, Option.bind_some, iptInitOutputStructure, iptInitTopaOutput, h,
      if_true]
    cases hmultiple : capabilities.topaMultipleOutputEntriesSupport <;>
      simp only [initEntries, hmultiple, topaOptions, if_true, Bool.false_eq_true, if_false] <;>
      split_ifs with hentries hfit hfit
    · omega
    · rfl
    · cases alloc.table with
      | none => rfl
      | some pa => cases alloc.pages <;> rfl
    · omega
    · omega
    · rfl
    · cases alloc.table with
      | none => rfl
      | some pa => cases alloc.pages <;> rfl
    · omega

/-- Without it the structure keeps the OutputType that the memory held. -/
theorem outputType_initStores {capabilities : IntelPtCapabilities}
    (h : capabilities.topaOutputSupport = false) {alloc : InitAlloc} {pool : IntelPtOutputOptions}
    (hpool : alloc.pool = some pool) {options : IntelPtOutputOptions}
    (hstores : initStores capabilities alloc = some options) :
    options.outputType = pool.outputType := by
  simp only [initStores, hpool, Option.bind_some, iptInitOutputStructure, h, Bool.false_eq_true,
    if_false, iptInitSingleRegionOutput] at hstores
  split_ifs at hstores
  cases hstores
  rfl

theorem programmed_writes {w : MsrWrite} (ws : List MsrWrite) (hw : w ∈ ws) (core : Core) :
    ∃ e ∈ (ws.foldl (fun core w => writeMsr irq w core) core).log,
      ∃ traceEn, e = LogEntry.write w traceEn := by
  have hstable := stable_logged fun e => ∃ traceEn, e = LogEntry.write w traceEn
  induction ws generalizing core with
  | nil => cases hw
  | cons v ws ih =>
    obtain rfl | hmem := List.mem_cons.mp hw
    · have hfirst : ∃ e ∈ (writeMsr irq w core).log, ∃ traceEn, e = LogEntry.write w traceEn :=
        ⟨_, List.mem_append_right _ (List.mem_singleton_self _), _, rfl⟩
      have hkeep : ∀ v ∈ ws, ∀ core : Core,
          (∃ e ∈ core.log, ∃ traceEn, e = LogEntry.write w traceEn) →
          ∃ e ∈ (writeMsr irq v core).log, ∃ traceEn, e = LogEntry.write w traceEn :=
        fun _ _ _ hp => hstable.write (fun _ => hstable.atIrq) (fun _ => rfl) hp
      exact foldl_writeMsr (P := fun core => ∃ e ∈ core.log, ∃ traceEn, e = .write w traceEn)
        hkeep hfirst
    · exact ih hmem _

def LogEntry.stores : LogEntry → Bool
  | .storesEnabled _ => true
  | _ => false

def Core.Unstored (core : Core) : Prop := ∀ e ∈ core.log, e.stores = false

theorem Core.Unstored.logged {core : Core} (h : core.Unstored) {e : LogEntry}
    (he : e.stores = false) : (core.logged e).Unstored := by
  intro e' he'
  obtain he' | he' := List.mem_append.mp he'
  · exact h e' he'
  · rw [List.mem_singleton.mp he', he]

theorem Core.Unstored.decided {core : Core} (h : core.Unstored) : (decided core).Unstored :=
  h.logged rfl

theorem Core.Unstored.returned {core : Core} (h : core.Unstored) : (returned core).Unstored :=
  h.logged rfl

theorem Core.Unstored.atHw {core : Core} (h : core.Unstored) : (hw core).Unstored := by
  rw [hw]
  split
  · exact h
  · exact h

theorem Core.Unstored.write {t : Core → Core}
    (ht : ∀ core : Core, core.Unstored → (t core).Unstored) {core : Core} (h : core.Unstored)
    (w : MsrWrite) : (writeMsr t w core).Unstored := by
  intro e he
  obtain he | he := List.mem_append.mp he
  · exact ht core h e he
  · rw [List.mem_singleton.mp he]
    rfl

theorem Core.Unstored.pmiHandler {core : Core} (h : core.Unstored) (dpcObject : Bool) :
    (iptPmiHandler hw dpcObject core).Unstored := by
  have hhw : ∀ core : Core, core.Unstored → (hw core).Unstored := fun _ => Core.Unstored.atHw
  have hreport : (reportPendingError hw (hw core)).Unstored := by
    simp only [reportPendingError]
    split
    · exact hhw _ (hhw _ (hhw _ h))
    · exact hhw _ (hhw _ h)
  have hclear : (clearIfEnabled hw (reportPendingError hw (hw core))).Unstored := by
    have hdecided := (hhw _ hreport).decided
    simp only [clearIfEnabled]
    split
    · exact (hhw _ hdecided).write hhw _
    · exact hdecided
  have hpaused : ((clearIfEnabled hw (reportPendingError hw (hw core))).setRunningStatus
      .paused).Unstored := hclear
  have hpause : (iptPauseTrace hw (hw core)).Unstored := hpaused.returned
  simp only [iptPmiHandler]
  split
  · exact (hhw _ h).write hhw _
  · split
    · exact hpause
    · exact hpause

theorem Core.Unstored.atIrq {core : Core} (h : core.Unstored) : (irq core).Unstored := by
  rw [irq]
  split
  · exact h
  · next e env _ =>
    have he : ({ core with env := env }.hardware e).Unstored := h
    split
    · exact he
    · exact he.pmiHandler _

theorem Core.Unstored.setup {core : Core} (h : core.Unstored)
    (capabilities : Except NtStatus IntelPtCapabilities) (config : IntelPtConfiguration)
    (beyond : Nat → BitVec 32) (options : IntelPtOutputOptions) :
    (iptSetup irq capabilities config beyond options core).2.Unstored := by
  simp only [iptSetup]
  split
  · exact foldl_writeMsr (fun w _ _ h => h.write (fun _ => Core.Unstored.atIrq) w) h
  · exact h

/-- IptEnableTrace stores IPT_STATUS_ENABLED on a core that traces exactly if the hardware lets
it. -/
theorem enables_iptEnableTrace {core : Core} (h : core.Unstored) :
    ((iptEnableTrace irq core).2.ctl.traceEn = true ∧
        ∃ traceEn, LogEntry.storesEnabled traceEn ∈ (iptEnableTrace irq core).2.log) ↔
      core.shown.Enables := by
  have hirq : ∀ core : Core, core.Unstored → (irq core).Unstored := fun _ => Core.Unstored.atIrq
  have hclear : (clearPendingError irq core).Unstored := by
    simp only [clearPendingError]
    split
    · exact (hirq _ (hirq _ h)).write hirq _
    · exact hirq _ h
  let started := writeTraceEn irq true (clearPendingError irq core)
  let first := decided (irq started)
  let second := decided (irq first)
  have hfirst : first.Unstored := (hirq _ ((hirq _ hclear).write hirq _)).decided
  have hsecond : second.Unstored := (hirq _ hfirst).decided
  have hatError : first.shown = core.shown.atIptError Shown.hw := by
    rw [Shown.atIptError, ← shows_irq.started]
    exact shows_irq started
  have hatEnabled : second.shown = core.shown.atIptEnabled Shown.hw := by
    rw [Shown.atIptEnabled, ← hatError]
    exact shows_irq first
  have hnot : ∀ core : Core, core.Unstored → ¬ (core.ctl.traceEn = true ∧
      ∃ traceEn, LogEntry.storesEnabled traceEn ∈ (returned core).log) := by
    intro core hcore h
    obtain ⟨-, traceEn, he⟩ := h
    have := hcore.returned _ he
    cases this
  rw [iptEnableTrace_eq, Shown.Enables, ← hatError, ← hatEnabled]
  split_ifs with hpending htrigger
  · exact iff_of_false (hnot first hfirst) fun h => Bool.false_ne_true (h.1.symm.trans hpending)
  · have hon := keepsTraceEn_hw.irq (traceEn_of_triggerEn (s := second.shown) htrigger)
    rw [← shows_irq] at hon
    constructor
    · intro h
      exact ⟨Bool.eq_false_iff.mpr hpending, htrigger, hon.mp h.1⟩
    · intro h
      exact ⟨hon.mpr h.2.2, _, List.mem_append_left _ (List.mem_append_right _
        (List.mem_singleton_self _))⟩
  · exact iff_of_false (hnot second hsecond) fun h => htrigger h.2.1

/-- The routine that PtwSetup sends, on a core with an output structure. -/
theorem ptwIpiPerCoreSetup_start (capabilities : Except NtStatus IntelPtCapabilities)
    (config : IntelPtConfiguration) (beyond : Nat → BitVec 32) {options : IntelPtOutputOptions}
    {core : Core} (h : core.options = some options) (env : List CoreEvent) :
    ptwIpiPerCoreSetup irq capabilities config beyond (core.start env) = some (iptEnableTrace irq
      (iptSetup irq capabilities config beyond options (core.start env)).2).2 := by
  have hstart : (core.start env).options = some options := h
  rw [ptwIpiPerCoreSetup, hstart, Option.map_some]

theorem programmed_setup {capabilities : Except NtStatus IntelPtCapabilities}
    {config : IntelPtConfiguration} {beyond : Nat → BitVec 32}
    (h : (iptValidateConfigurationRequest capabilities config beyond).1 = .success)
    (options : IntelPtOutputOptions) (core : Core) {w : MsrWrite}
    (hw : w ∈ configureWrites config options) :
    ∃ traceEn, LogEntry.write w traceEn ∈
      (iptEnableTrace irq (iptSetup irq capabilities config beyond options core).2).2.log := by
  have hstable := stable_logged fun e => ∃ traceEn, e = LogEntry.write w traceEn
  have hsetup : ∃ e ∈ (iptSetup irq capabilities config beyond options core).2.log,
      ∃ traceEn, e = LogEntry.write w traceEn := by
    rw [iptSetup, h]
    exact programmed_writes _ hw core
  obtain ⟨e, he, traceEn, rfl⟩ := hstable.enable (fun _ => hstable.atIrq) hsetup
  exact ⟨traceEn, he⟩

/-! The calls. -/

theorem ptwInit_success (input : PtwInitInput n) (cores : Fin n → Core) :
    (ptwInit input cores).1.NtSuccess ↔ ∃ capabilities, input.LooksWell capabilities := by
  simp only [ptwInit, PtwInitInput.LooksWell]
  cases input.control with
  | false =>
    have hfail : ¬ statusInsufficientResources.NtSuccess := by decide
    refine iff_of_false hfail fun h => ?_
    obtain ⟨capabilities, h, -⟩ := h
    cases h
  | true =>
    cases input.iptInit with
    | error status =>
      refine iff_of_false status.property fun h => ?_
      obtain ⟨capabilities, -, h, -⟩ := h
      cases h
    | ok capabilities =>
      by_cases hs : input.execution.status.NtSuccess
      · simp [hs]
      · simp [hs]

theorem ptwInit_cores {input : PtwInitInput n} {capabilities : IntelPtCapabilities}
    (h : input.LooksWell capabilities) (cores : Fin n → Core) (cpu : Fin n) :
    ((ptwInit input cores).2 cpu).options = (initStores capabilities (input.alloc cpu)).map
      fun options =>
        if ((cores cpu).start (input.env cpu)).shown.hw.hw.triggerEn then
          { options with runningStatus := .disabled }
        else options := by
  obtain ⟨hcontrol, hinit, hstatus, -⟩ := h
  have hran := input.execution.complete hstatus cpu
  have hcore : (ptwInit input cores).2 cpu = ptwIpiPerCoreInit capabilities (input.alloc cpu)
      (Core.start { cores cpu with options := none } (input.env cpu)) := by
    simp [ptwInit, hcontrol, hinit, hstatus, hran]
  rw [hcore]
  exact options_iptInitPerCore capabilities (input.alloc cpu) rfl

/-- Whatever the memory held, a structure is stored, with the same OutputType. -/
theorem PtwInitInput.Initialises.stores {input : PtwInitInput n} {cores : Fin n → Core}
    {cpu : Fin n} (hinit : input.Initialises cores cpu) {capabilities : IntelPtCapabilities}
    (h : input.LooksWell capabilities) :
    ∃ outputType, ∀ pool, ∃ options, initStores capabilities
      ((input.withPool pool).alloc cpu) = some options ∧ options.outputType = outputType := by
  obtain ⟨options, hoptions⟩ := hinit
  refine ⟨options.outputType, fun pool => ?_⟩
  obtain ⟨stored, hstored, hkept⟩ := Option.map_eq_some_iff.mp
    ((@ptwInit_cores n (input.withPool pool) capabilities h cores cpu).symm.trans (hoptions pool))
  refine ⟨stored, hstored, ?_⟩
  rw [← hkept]
  split <;> rfl

theorem PtwInitInput.Initialises.suffices {input : PtwInitInput n} {cores : Fin n → Core}
    {cpu : Fin n} (hinit : input.Initialises cores cpu) {capabilities : IntelPtCapabilities}
    (h : input.LooksWell capabilities) : (input.alloc cpu).Suffices capabilities := by
  obtain ⟨outputType, hstores⟩ := hinit.stores h
  -- two memories that differ in OutputType
  obtain ⟨single, hsingle, hsingleType⟩ := hstores { outputType := .singleRegion, topaEntries := 0 }
  obtain ⟨topa, htopa, htopaType⟩ := hstores { outputType := .toPA, topaEntries := 0 }
  cases hpool : (input.alloc cpu).pool with
  | none => simp [initStores, PtwInitInput.withPool, hpool] at hsingle
  | some pool =>
    have hsupport : capabilities.topaOutputSupport = true := by
      by_contra hno
      have hno := Bool.eq_false_iff.mpr hno
      have hmemory (pool : IntelPtOutputOptions) :
          ((input.withPool pool).alloc cpu).pool = some pool := by
        simp only [PtwInitInput.withPool, hpool, Option.map_some]
      have hfirst := outputType_initStores hno (hmemory _) hsingle
      have hsecond := outputType_initStores hno (hmemory _) htopa
      rw [hsingleType] at hfirst
      rw [htopaType, hfirst] at hsecond
      cases hsecond
    rw [initStores_topaOutput hsupport] at hsingle
    simp only [PtwInitInput.withPool, hpool, Option.map_some, Option.bind_some] at hsingle
    split_ifs at hsingle with hentries
    obtain ⟨pa, htable, hpages⟩ := Option.bind_eq_some_iff.mp hsingle
    obtain ⟨mdl, hmdl, -⟩ := Option.map_eq_some_iff.mp hpages
    exact ⟨hsupport, hentries, Option.isSome_of_mem hpool, Option.isSome_of_mem htable,
      Option.isSome_of_mem hmdl⟩

theorem initialises_iff {input : PtwInitInput n} {capabilities : IntelPtCapabilities}
    (h : input.LooksWell capabilities) (cores : Fin n → Core) (cpu : Fin n) :
    input.Initialises cores cpu ↔ (input.alloc cpu).Suffices capabilities := by
  refine ⟨fun hinit => hinit.suffices h, fun hsuffices => ?_⟩
  obtain ⟨hsupport, hentries, hpool, htable, hpages⟩ := hsuffices
  obtain ⟨pool, hpool⟩ := Option.isSome_iff_exists.mp hpool
  obtain ⟨pa, htable⟩ := Option.isSome_iff_exists.mp htable
  obtain ⟨mdl, hpages⟩ := Option.isSome_iff_exists.mp hpages
  let options := topaOptions capabilities pa mdl
  refine ⟨if ((cores cpu).start (input.env cpu)).shown.hw.hw.triggerEn then
    { options with runningStatus := .disabled } else options, fun pool =>
      (@ptwInit_cores n (input.withPool pool) capabilities h cores cpu).trans ?_⟩
  rw [initStores_topaOutput hsupport]
  simp only [PtwInitInput.withPool, hpool, htable, hpages, if_pos hentries, Option.map_some,
    Option.bind_some]
  rfl

theorem failuresReported_init (input : PtwInitInput n) (s : StartUp n) :
    FailuresReported s (.init input) ↔ NoneFails s (.init input) := by
  constructor
  · intro h capabilities hwell cpu
    have hinit := h ((ptwInit_success input s.cores).mpr ⟨capabilities, hwell⟩) cpu
    exact (initialises_iff hwell s.cores cpu).mp hinit
  · intro h hsuccess cpu
    obtain ⟨capabilities, hwell⟩ := (ptwInit_success input s.cores).mp hsuccess
    exact (initialises_iff hwell s.cores cpu).mpr (h capabilities hwell cpu)

theorem ptwSetup_status {input : PtwSetupInput n} {config : IntelPtConfiguration}
    {cores : Fin n → Core} {r : NtStatusCode × (Fin n → Core)}
    (h : ptwSetup input config cores = some r) :
    input.Defined cores ∧ r.1 = input.execution.status := by
  simp only [ptwSetup] at h
  split at h
  · next hdef =>
    cases h
    exact ⟨hdef, rfl⟩
  · cases h

/-- What PtwSetup makes of a core that runs the routine. -/
theorem ptwSetup_core {input : PtwSetupInput n} {config : IntelPtConfiguration}
    {cores : Fin n → Core} {r : NtStatusCode × (Fin n → Core)}
    (h : ptwSetup input config cores = some r) {cpu : Fin n}
    (hran : input.execution.ran cpu = true) : ∃ options, (cores cpu).options = some options ∧
      r.2 cpu = (iptEnableTrace irq (iptSetup irq (input.capabilities cpu) config
        (input.beyond cpu) options ((cores cpu).start (input.env cpu))).2).2 := by
  obtain ⟨hdef, -⟩ := ptwSetup_status h
  obtain ⟨options, ho⟩ := Option.isSome_iff_exists.mp (hdef cpu hran)
  rw [ptwSetup, if_pos hdef] at h
  cases h
  refine ⟨options, ho, ?_⟩
  simp only [hran, if_true, ptwIpiPerCoreSetup_start _ _ _ ho, Option.getD_some]

theorem setUp_of_ptwSetup {input : PtwSetupInput n} {config : IntelPtConfiguration}
    {cores : Fin n → Core} {r : NtStatusCode × (Fin n → Core)}
    (h : ptwSetup input config cores = some r) {cpu : Fin n}
    (hran : input.execution.ran cpu = true) (haccepted : input.Accepted config cpu) :
    SetUp config (cores cpu) (r.2 cpu) ↔ input.Enables config cores cpu := by
  obtain ⟨options, ho, hcore⟩ := ptwSetup_core h hran
  have hunstored : ((cores cpu).start (input.env cpu)).Unstored :=
    fun e he => absurd he List.not_mem_nil
  have hiff := enables_iptEnableTrace
    (hunstored.setup (input.capabilities cpu) config (input.beyond cpu) options)
  rw [← hcore, shown_setup] at hiff
  constructor
  · intro hsetup options' ho'
    cases ho.symm.trans ho'
    exact hiff.mp ⟨hsetup.traceEn, hsetup.stored⟩
  · intro henables
    obtain ⟨htraceEn, hstored⟩ := hiff.mpr (henables options ho)
    refine ⟨fun options' ho' w hw => ?_, htraceEn, hstored⟩
    cases ho.symm.trans ho'
    rw [hcore]
    exact programmed_setup haccepted options _ hw

/-- A rejected configuration is no reason for the routine not to switch tracing on. -/
theorem enables_of_ptwSetup {input : PtwSetupInput n} {config : IntelPtConfiguration}
    {cores : Fin n → Core} {r : NtStatusCode × (Fin n → Core)}
    (h : ptwSetup input config cores = some r) {cpu : Fin n}
    (hran : input.execution.ran cpu = true) : ∃ e ∈ (r.2 cpu).log, e.enables = true := by
  obtain ⟨options, -, hcore⟩ := ptwSetup_core h hran
  rw [hcore]
  exact enabling_iptEnableTrace _

theorem setupReported_iff (input : PtwSetupInput n) (config : IntelPtConfiguration)
    (cores : Fin n → Core) :
    SetupReported input config cores ↔ input.NoneFails config cores := by
  constructor
  · intro h hdef
    have hr : ptwSetup input config cores = some _ := if_pos hdef
    obtain ⟨hsuccess, hrejected⟩ := h _ hr
    have haccepted : ∀ cpu, input.execution.ran cpu = true → input.Accepted config cpu := by
      intro cpu hran
      by_contra hno
      obtain ⟨e, he, hon⟩ := enables_of_ptwSetup hr hran
      rw [hrejected cpu hran hno e he] at hon
      cases hon
    refine ⟨haccepted, fun hs cpu => ?_⟩
    have hran := input.execution.complete hs cpu
    exact (setUp_of_ptwSetup hr hran (haccepted cpu hran)).mp (hsuccess hs cpu).2
  · intro h r hr
    obtain ⟨hdef, hstatus⟩ := ptwSetup_status hr
    obtain ⟨haccepted, henables⟩ := h hdef
    refine ⟨fun hs cpu => ?_, fun cpu hran hno => absurd (haccepted cpu hran) hno⟩
    rw [hstatus] at hs
    have hran := input.execution.complete hs cpu
    exact ⟨haccepted cpu hran,
      (setUp_of_ptwSetup hr hran (haccepted cpu hran)).mpr (henables hs cpu)⟩

theorem ptwHookThreadCreation_eq (input : PtwSetupInput n) (thread : ThreadCreation)
    (s : StartUp n) : ptwHookThreadCreation input thread s =
      if thread.Hooks s then (ptwSetup input thread.config s.cores).map fun r =>
        { s with gThreadHooked := true, cores := r.2 }
      else some s := by
  by_cases hhooks : thread.Hooks s
  · rw [if_pos hhooks, ptwHookThreadCreation]
    obtain ⟨hid, hcreate, hoff⟩ := hhooks
    have hmatch : ¬ (s.gProcessId ≠ thread.processId ∧ thread.parentId ≠ s.gProcessId) :=
      fun hno => hid.elim hno.1 hno.2
    rw [if_neg hmatch, hcreate, hoff]
    rfl
  · rw [if_neg hhooks, ptwHookThreadCreation]
    split
    · rfl
    · next hmatch =>
      split
      · rfl
      · next hcreate =>
        split
        · rfl
        · next hoff =>
          refine absurd ⟨?_, by simpa using hcreate, by simpa using hoff⟩ hhooks
          by_contra hno
          exact hmatch (not_or.mp hno)

theorem failuresReported_threadCreation (thread : ThreadCreation) (input : PtwSetupInput n)
    (s : StartUp n) : FailuresReported s (.threadCreation thread input) ↔
      NoneFails s (.threadCreation thread input) := by
  simp only [FailuresReported, NoneFails]
  rw [ptwHookThreadCreation_eq]
  by_cases hhooks : thread.Hooks s
  · rw [if_pos hhooks]
    constructor
    · intro h _ hdef
      have hr : ptwSetup input thread.config s.cores = some _ := if_pos hdef
      obtain ⟨hreported, hstatus⟩ := h _ (congrArg (Option.map _) hr)
      obtain ⟨r, hr', hs⟩ := hstatus hhooks.2.2 rfl
      cases hr.symm.trans hr'
      exact ⟨(setupReported_iff _ _ _).mp (hreported hhooks), hs⟩
    · intro h s' hs'
      obtain ⟨r, hr, -⟩ := Option.map_eq_some_iff.mp hs'
      obtain ⟨hdef, hstatus⟩ := ptwSetup_status hr
      obtain ⟨hnone, hs⟩ := h hhooks hdef
      exact ⟨fun _ => (setupReported_iff _ _ _).mpr hnone, fun _ _ => ⟨r, hr, hstatus ▸ hs⟩⟩
  · rw [if_neg hhooks]
    refine iff_of_true (fun s' hs' => ?_) fun h => absurd h hhooks
    cases hs'
    refine ⟨fun h => absurd h hhooks, fun hoff hon => ?_⟩
    rw [hoff] at hon
    cases hon

/-- Every call reports the failures on the cores exactly if there are none to report. -/
theorem failuresReported_iff (s : StartUp n) (call : StartUpCall n) :
    FailuresReported s call ↔ NoneFails s call := by
  cases call with
  | init input => exact failuresReported_init input s
  | setup config input => exact setupReported_iff input config s.cores
  | threadCreation thread input => exact failuresReported_threadCreation thread input s

def secondCoreFails : PtwInitInput 2 where
  control := true
  iptInit := .ok topaCapabilities
  execution := ⟨statusSuccess, fun _ => true, fun _ _ => rfl⟩
  alloc := ![initAlloc, { initAlloc with pool := none }]
  duQueueInit := statusSuccess

/-- PtwInit succeeds without the second core. -/
theorem not_failuresReported_second_core :
    ¬ ∀ (n : Nat) (s : StartUp n) (call : StartUpCall n), FailuresReported s call := by
  intro h
  obtain ⟨options, hoptions⟩ :=
    h 2 { cores := fun _ => {} } (.init secondCoreFails) (by decide) 1
  cases hoptions { topaEntries := 0 }

end IntelPt.Driver
