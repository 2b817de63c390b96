import IntelPt.Driver.PendingErrors
import IntelPt.Lib.Runs

/-! RunningStatus, TriggerEn and TraceEn over runs of driver operations. The code decides on the
first two; the third is what the hardware looks at when a register is written. They agree as
long as no Error and no Stopped is pending at a decision. -/
namespace IntelPt.Driver
open Runs

def MsrWrite.reprograms : MsrWrite → Bool
  | .rtitOutputBase _ | .rtitOutputMaskPtrs _ | .rtitCr3Match _ => true
  | .rtitAddrA _ _ | .rtitAddrB _ _ => true
  | .rtitCtl _ | .rtitStatus _ | .perfGlobalOvfCtrl _ => false

def LogEntry.Tracks : LogEntry → Prop
  | .write w traceEn => w.reprograms = true → traceEn = false
  | .returned status traceEn => status = .enabled ↔ traceEn = true
  | .decision _ _ | .storesEnabled _ => True

def StatusTracks (s : System) : Prop := ∀ cpu, ∀ e ∈ (s.cores cpu).log, e.Tracks

def SetupOff (s : System) : DriverOp → Prop
  | .setup cpu capabilities config beyond _ =>
    (s.cores cpu).ctl.traceEn = true →
      (iptValidateConfigurationRequest capabilities config beyond).1 = .success →
        filterWrites config = []
  | _ => True

instance (s : System) : (op : DriverOp) → Decidable (SetupOff s op)
  | .setup .. => inferInstanceAs (Decidable (_ → _ → _ = []))
  | .init .. | .pmi .. | .dpc .. | .disable .. | .imageLoad .. | .getBuffer =>
    inferInstanceAs (Decidable True)

def DriverOp.cpu : DriverOp → Option Nat
  | .init cpu .. | .setup cpu .. | .pmi cpu .. | .dpc cpu .. | .disable cpu .. => some cpu
  | .imageLoad .. | .getBuffer => none

def Undisturbed (s : System) (op : DriverOp) : Prop := SetupOff s op ∧ HardwareClear s op

instance (s : System) (op : DriverOp) : Decidable (Undisturbed s op) :=
  inferInstanceAs (Decidable (_ ∧ _))

/-! What holds of a core whose decisions were right so far. The condition `C` is on TraceEn and
RunningStatus. -/

variable {C D : Bool → IptRunningStatus → Prop} {core : Core} {t : Core → Core}

structure Under (C : Bool → IptRunningStatus → Prop) (core : Core) : Prop where
  tracks : ∀ e ∈ core.log, e.Tracks
  initialized : core.options.isSome = true
  status : C core.ctl.traceEn core.runningStatus

def Tracked (C : Bool → IptRunningStatus → Prop) (core : Core) : Prop :=
  Agreeing core → Under C core

def TraceOff (traceEn : Bool) (_ : IptRunningStatus) : Prop := traceEn = false

def Coupled (traceEn : Bool) (status : IptRunningStatus) : Prop :=
  traceEn = true → status = .enabled

def Matched (traceEn : Bool) (status : IptRunningStatus) : Prop :=
  status = .enabled ↔ traceEn = true

def Started (traceEn : Bool) (status : IptRunningStatus) : Prop :=
  traceEn = false → status ≠ .enabled

theorem Tracked.mono (h : Tracked C core) (hcd : ∀ b s, C b s → D b s) : Tracked D core := by
  intro ha
  obtain ⟨htracks, hinit, hstatus⟩ := h ha
  exact ⟨htracks, hinit, hcd _ _ hstatus⟩

theorem Tracked.of_eq {core' : Core} (h : Tracked C core) (hctl : core'.ctl = core.ctl)
    (ho : core'.options = core.options) (hlog : core'.log = core.log) : Tracked C core' := by
  intro ha
  rw [Agreeing, hlog] at ha
  obtain ⟨htracks, hinit, hstatus⟩ := h ha
  refine ⟨hlog ▸ htracks, ho ▸ hinit, ?_⟩
  rw [hctl, Core.runningStatus, ho]
  exact hstatus

theorem Tracked.logged (h : Tracked C core) {e : LogEntry}
    (he : C core.ctl.traceEn core.runningStatus → e.Tracks) : Tracked C (core.logged e) := by
  intro ha
  obtain ⟨htracks, hinit, hstatus⟩ := h fun e' he' => ha e' (List.mem_append_left _ he')
  refine ⟨fun e' he' => ?_, hinit, hstatus⟩
  obtain he' | he' := List.mem_append.mp he'
  · exact htracks e' he'
  · rw [List.mem_singleton.mp he']
    exact he hstatus

theorem Tracked.returned (h : Tracked Matched core) : Tracked Matched (returned core) :=
  h.logged id

theorem Tracked.decided (h : Tracked C core) : Tracked C (decided core) := h.logged fun _ => trivial

/-- A decision against tracing is right. -/
theorem Tracked.decided_off (h : Tracked C core) (hno : core.triggerEn = false) :
    Tracked (fun b s => C b s ∧ b = false) (Driver.decided core) := by
  intro ha
  obtain ⟨htracks, hinit, hstatus⟩ := h.decided ha
  have hagree : core.ctl.traceEn = true → core.triggerEn = true :=
    ha (.decision core.ctl.traceEn core.triggerEn)
      (List.mem_append_right _ (List.mem_singleton_self _))
  refine ⟨htracks, hinit, hstatus, ?_⟩
  by_contra hon
  rw [hagree (Bool.not_eq_false _ ▸ hon)] at hno
  cases hno

theorem Tracked.setRunningStatus (h : Tracked C core) (status : IptRunningStatus)
    (hcd : ∀ b s, C b s → D b status) : Tracked D (core.setRunningStatus status) := by
  intro ha
  obtain ⟨htracks, hinit, hstatus⟩ := h ha
  refine ⟨htracks, stable_initialized.runningStatus _ _ (fun _ => rfl) hinit, ?_⟩
  rw [runningStatus_set hinit]
  exact hcd _ _ hstatus

theorem Tracked.storeEnabled (h : Tracked C core) : Tracked Matched (storeEnabled core) := by
  intro ha
  have hon : core.ctl.traceEn = true := ha (.storesEnabled core.ctl.traceEn)
    (List.mem_append_right _ (List.mem_singleton_self _))
  have hset : Tracked (fun _ s => s = .enabled) (core.setRunningStatus .enabled) :=
    h.setRunningStatus .enabled fun _ _ _ => rfl
  obtain ⟨htracks, hinit, hstatus⟩ := hset.logged (e := .storesEnabled core.ctl.traceEn)
    (fun _ => trivial) ha
  exact ⟨htracks, hinit, fun _ => hon, fun _ => hstatus⟩

def MsrWrite.traceEnAfter (w : MsrWrite) (traceEn : Bool) : Bool :=
  match w with
  | .rtitCtl value => value.traceEn
  | _ => traceEn

theorem Tracked.wrote (h : Tracked C core) {w : MsrWrite}
    (hw : ∀ b s, C b s → w.reprograms = true → b = false)
    (hcd : ∀ b s, C b s → D (w.traceEnAfter b) s) : Tracked D (wrote w core) := by
  intro ha
  obtain ⟨htracks, hinit, hstatus⟩ := h fun e he => ha e (List.mem_append_left _ he)
  refine ⟨fun e he => ?_, ?_, ?_⟩
  · obtain he | he := List.mem_append.mp he
    · exact htracks e he
    · rw [List.mem_singleton.mp he]
      exact hw _ _ hstatus
  · rw [options_wrote]
    exact hinit
  · have hctl : (Driver.wrote w core).ctl.traceEn = w.traceEnAfter core.ctl.traceEn := by
      cases w <;> rfl
    rw [hctl, Core.runningStatus, options_wrote]
    exact hcd _ _ hstatus

/-! The functions. Between two accesses the environment keeps what a pause keeps. -/

def Keeps (t : Core → Core) : Prop :=
  ∀ (C : Bool → IptRunningStatus → Prop) (core : Core), C false .paused → Tracked C core →
    Tracked C (t core)

theorem keeps_hw : Keeps hw := by
  intro C core _ h
  rw [hw]
  split
  · exact h
  · exact h.of_eq rfl rfl rfl

/-- Clearing TraceEn is always allowed. -/
theorem Tracked.clearTraceEn (h : Tracked C core) (ht : Keeps t) (hp : C false .paused)
    (hcd : ∀ b s, C b s → D false s) : Tracked D (iptClearTraceEn t core) :=
  (ht _ _ hp (ht _ _ hp h)).wrote (fun _ _ _ => nofun) hcd

theorem Tracked.resetPmi (h : Tracked C core) (ht : Keeps t) (hp : C false .paused) :
    Tracked C (iptResetPmi t core) :=
  (ht _ _ hp h).wrote (fun _ _ _ => nofun) fun _ _ hc => hc

theorem Tracked.clearError (h : Tracked C core) (ht : Keeps t) (hp : C false .paused) :
    Tracked C (iptClearError t core) :=
  (ht _ _ hp (ht _ _ hp h)).wrote (fun _ _ _ => nofun) fun _ _ hc => hc

theorem Tracked.pause (h : Tracked C core) (ht : Keeps t) (hp : C false .paused) :
    Tracked (fun b s => b = false ∧ s = .paused) (iptPauseTrace t core) := by
  have hreport : Tracked C (reportPendingError t core) := by
    simp only [reportPendingError]
    split
    · exact ht _ _ hp (ht _ _ hp h)
    · exact ht _ _ hp h
  have hasked := ht _ _ hp hreport
  have hclear : Tracked TraceOff (clearIfEnabled t (reportPendingError t core)) := by
    simp only [clearIfEnabled]
    split
    · exact hasked.decided.clearTraceEn ht hp fun _ _ _ => rfl
    · next hno => exact (hasked.decided_off (Bool.eq_false_iff.mpr hno)).mono fun _ _ hc => hc.2
  have hset : Tracked (fun b s => b = false ∧ s = .paused)
      (Core.setRunningStatus (clearIfEnabled t (reportPendingError t core)) .paused) :=
    hclear.setRunningStatus .paused fun _ _ hoff => ⟨hoff, rfl⟩
  refine hset.logged fun hc => ?_
  obtain ⟨hoff, hpaused⟩ := hc
  simp [LogEntry.Tracks, hoff, hpaused]

theorem Tracked.pmiHandler (h : Tracked C core) (ht : Keeps t) (hp : C false .paused)
    (dpcObject : Bool) : Tracked C (iptPmiHandler t dpcObject core) := by
  have hreason := ht _ _ hp h
  have hpaused : Tracked C (iptPauseTrace t (t core)) :=
    (hreason.pause ht hp).mono fun b s hc => by rwa [hc.1, hc.2]
  simp only [iptPmiHandler]
  split_ifs
  · exact hreason.resetPmi ht hp
  · exact hpaused.of_eq rfl rfl rfl
  · exact hpaused

theorem keeps_irq : Keeps irq := by
  intro C core hp h
  rw [irq]
  split
  · exact h
  · next e env _ =>
    have he : Tracked C (Core.hardware { core with env := env } e) := h.of_eq rfl rfl rfl
    split
    · exact he
    · exact he.pmiHandler keeps_hw hp _

theorem Tracked.clearPendingError (h : Tracked C core) (ht : Keeps t) (hp : C false .paused) :
    Tracked C (clearPendingError t core) := by
  have herror := ht _ _ hp h
  simp only [Driver.clearPendingError]
  split
  · exact herror.clearError ht hp
  · exact herror

theorem triggerEn_of_error (h : core.status.error = true) : core.triggerEn = false := by
  simp [Core.triggerEn, h]

/-- A failed enabling is one that a PMI has undone. -/
theorem Tracked.enable_failed (h : Tracked Started core) (hno : core.triggerEn = false) :
    Tracked Matched (Driver.returned (Driver.decided core)) := by
  refine Tracked.returned ((h.decided_off hno).mono fun b s hc => ?_)
  obtain ⟨hstarted, hoff⟩ := hc
  exact iff_of_false (hstarted hoff) (by simp [hoff])

theorem Tracked.enable (h : Tracked C core) (ht : Keeps t) (hp : C false .paused) :
    Tracked Matched (iptEnableTrace t core).2 := by
  have hsp : Started false .paused := fun _ => nofun
  have hwrite : Tracked Started (writeTraceEn t true (Driver.clearPendingError t core)) := by
    refine (ht _ _ hp (ht _ _ hp (h.clearPendingError ht hp))).wrote (fun _ _ _ => nofun) ?_
    exact fun _ _ _ => nofun
  have herror := ht _ _ hsp hwrite
  simp only [iptEnableTrace]
  split
  · next he => exact herror.enable_failed (triggerEn_of_error he)
  · have henabled := ht _ _ hsp herror.decided
    split
    · exact Tracked.returned (ht _ _ hsp henabled.decided).storeEnabled
    · next hno => exact henabled.enable_failed (Bool.eq_false_iff.mpr hno)

theorem Tracked.disable (h : Tracked C core) (ht : Keeps t) (hp : C false .paused) :
    Tracked Matched (iptDisableTrace t core).2.2 := by
  have hclear : Tracked TraceOff (iptClearTraceEn t core) :=
    h.clearTraceEn ht hp fun _ _ _ => rfl
  have hoff := ht _ _ rfl (ht _ _ rfl hclear)
  refine Tracked.returned (hoff.setRunningStatus _ fun b _ hoff => ?_)
  exact iff_of_false nofun (by simp [show b = false from hoff])

theorem Tracked.resume (h : Tracked TraceOff core) (ht : Keeps t) :
    Tracked Matched (iptResumeTrace t core).2 := by
  have hasked := ht _ _ rfl h
  simp only [iptResumeTrace]
  split
  · next hyes =>
    -- tracing is off, so the answer cannot be yes
    refine Tracked.returned fun ha => ?_
    have hoff : (t core).ctl.traceEn = false := (hasked ha).status
    simp [iptEnabled, Core.triggerEn, hoff] at hyes
  · exact Tracked.returned (hasked.enable ht rfl)

theorem Tracked.write_off (h : Tracked TraceOff core) (ht : Keeps t) {w : MsrWrite}
    (hw : w.enables = false) : Tracked TraceOff (writeMsr t w core) := by
  refine (ht _ _ rfl h).wrote (fun _ _ hoff _ => hoff) fun b _ hoff => ?_
  cases w with
  | rtitCtl => exact hw
  | _ => exact hoff

theorem Tracked.writes_off (h : Tracked TraceOff core) (ht : Keeps t) (ws : List MsrWrite)
    (hws : ∀ w ∈ ws, w.enables = false) :
    Tracked TraceOff (ws.foldl (fun core w => writeMsr t w core) core) :=
  foldl_writeMsr (fun w hw _ h => h.write_off ht (hws w hw)) h

theorem Tracked.configure (h : Tracked C core) (ht : Keeps t) (hp : C false .paused)
    {config : IntelPtConfiguration} (options : IntelPtOutputOptions)
    (hoff : Tracked TraceOff core ∨ filterWrites config = []) :
    Tracked TraceOff (iptConfigureProcessorTrace t config options core) := by
  obtain hoff | hnone := hoff
  · exact hoff.writes_off ht _ fun _ hw => enables_of_mem_configureWrites hw
  · -- the first write clears TraceEn
    have hfirst : Tracked TraceOff (writeMsr t (.rtitCtl (rtitCtlShadow config)) core) :=
      (ht _ _ hp h).wrote (fun _ _ _ => nofun) fun _ _ _ => rfl
    rw [iptConfigureProcessorTrace, configureWrites, hnone]
    exact (hfirst.write_off ht rfl).write_off ht rfl

theorem Tracked.unlink {options : IntelPtOutputOptions} (h : Tracked Coupled core) (ht : Keeps t)
    (ho : core.options = some options) (pages : Option Mdl) :
    Tracked Coupled (iptUnlinkFullTopaBuffers t pages options core).2.2.2 ∧
      ((iptUnlinkFullTopaBuffers t pages options core).1 = .success →
        Tracked TraceOff (iptUnlinkFullTopaBuffers t pages options core).2.2.2) := by
  by_cases hs : options.runningStatus = .enabled
  · simp only [iptUnlinkFullTopaBuffers, if_pos hs]
    refine ⟨h, ?_⟩
    intro hsuccess
    cases hsuccess
  · have hoff : Tracked TraceOff core := by
      intro ha
      obtain ⟨htracks, hinit, hstatus⟩ := h ha
      refine ⟨htracks, hinit, Bool.eq_false_iff.mpr fun hon => hs ?_⟩
      have henabled := hstatus hon
      rwa [Core.runningStatus, ho] at henabled
    have hstore (topaTable : List TopaEntry) (newMdl : Option Mdl) :
        Tracked TraceOff (storeNewTopa options topaTable newMdl core) := by
      intro ha
      cases newMdl with
      | none => exact hoff ha
      | some mdl =>
        obtain ⟨htracks, -, hstatus⟩ := hoff ha
        exact ⟨htracks, rfl, hstatus⟩
    have hunlinked : Tracked TraceOff (iptUnlinkFullTopaBuffers t pages options core).2.2.2 := by
      simp only [iptUnlinkFullTopaBuffers, if_neg hs]
      exact Tracked.write_off (Tracked.write_off (ht _ _ rfl (ht _ _ rfl (hstore _ _))) ht rfl)
        ht rfl
    exact ⟨hunlinked.mono fun b _ hoff hon => (Bool.eq_false_iff.mp hoff hon).elim,
      fun _ => hunlinked⟩

theorem Tracked.dpc {core' : Core} {pages : Option Mdl} {input : PacketInput}
    {packet : Option CommBufferAddress} (h : Tracked Coupled core)
    (hdpc : iptDpc irq pages input core = some (packet, core')) : Tracked Coupled core' := by
  simp only [iptDpc, Option.map_eq_some_iff] at hdpc
  obtain ⟨options, ho, hdpc⟩ := hdpc
  obtain ⟨hcoupled, hoff⟩ := h.unlink keeps_irq ho pages
  split at hdpc
  · cases hdpc
    exact hcoupled
  · next hok =>
    split at hdpc
    · cases hdpc
      exact hcoupled
    · cases hdpc
      have hreset := (hoff (not_not.mp hok)).resetPmi keeps_irq rfl
      exact (hreset.resume keeps_irq).mono fun _ _ hm hon => hm.mpr hon

theorem Tracked.setup {core' : Core} {capabilities : Except NtStatus IntelPtCapabilities}
    {config : IntelPtConfiguration} {beyond : Nat → BitVec 32} (h : Tracked Coupled core)
    (hoff : Tracked TraceOff core ∨
      ((iptValidateConfigurationRequest capabilities config beyond).1 = .success →
        filterWrites config = []))
    (hsetup : ptwIpiPerCoreSetup irq capabilities config beyond core = some core') :
    Tracked Coupled core' := by
  have hp : Coupled false .paused := nofun
  simp only [ptwIpiPerCoreSetup, Option.map_eq_some_iff] at hsetup
  obtain ⟨options, -, rfl⟩ := hsetup
  have hconfigured : Tracked Coupled (iptSetup irq capabilities config beyond options core).2 := by
    simp only [iptSetup]
    split
    · next hvalid =>
      exact (h.configure keeps_irq hp options (hoff.imp_right fun hnone => hnone hvalid)).mono
        fun _ _ hoff hon => (Bool.eq_false_iff.mp hoff hon).elim
    · exact h
  exact (hconfigured.enable keeps_irq hp).mono fun _ _ hm hon => hm.mpr hon

/-! Runs. -/

structure CoreTracks (core : Core) : Prop where
  tracks : ∀ e ∈ core.log, e.Tracks
  coupled : core.options.isSome = true → Coupled core.ctl.traceEn core.runningStatus

theorem Under.coreTracks (h : Under Coupled core) : CoreTracks core := ⟨h.tracks, fun _ => h.status⟩

theorem CoreTracks.start (h : CoreTracks core) (hinit : core.options.isSome = true)
    (env : List CoreEvent) : Tracked Coupled (core.start env) :=
  fun _ => ⟨fun _ he => (List.not_mem_nil he).elim, hinit, h.coupled hinit⟩

theorem CoreTracks.init (h : CoreTracks core) (hlog : core.log = [])
    (capabilities : IntelPtCapabilities) (alloc : InitAlloc) :
    Agreeing (iptInitPerCore hw capabilities alloc core).2 →
      CoreTracks (iptInitPerCore hw capabilities alloc core).2 := by
  have hframe : (hw core).ctl = core.ctl ∧ (hw core).options = core.options ∧
      (hw core).log = core.log := by
    rw [hw]
    split <;> exact ⟨rfl, rfl, rfl⟩
  obtain ⟨hctl, ho, hlog'⟩ := hframe
  have hfirst : CoreTracks (hw core) := by
    refine ⟨hlog' ▸ h.tracks, fun hinit => ?_⟩
    rw [hctl, Core.runningStatus, ho]
    exact h.coupled (ho ▸ hinit)
  simp only [iptInitPerCore]
  split
  · exact fun _ => hfirst
  · split
    · next options _ =>
      have hstored : Tracked (fun _ _ => True) (storeOptions capabilities options (hw core)) :=
        fun _ => ⟨fun e he => (List.not_mem_nil (hlog ▸ hlog' ▸ he)).elim, rfl, trivial⟩
      have hasked := keeps_hw _ _ trivial hstored
      split
      · exact fun ha => (((hasked.decided.disable keeps_hw trivial).mono
          fun _ _ hm hon => hm.mpr hon) ha).coreTracks
      · next hno =>
        exact fun ha => (((hasked.decided_off (Bool.eq_false_iff.mpr hno)).mono
          fun _ _ hc hon => (Bool.eq_false_iff.mp hc.2 hon).elim) ha).coreTracks
    · exact fun _ => hfirst

theorem CoreTracks.setup (h : CoreTracks core) {core' : Core}
    {capabilities : Except NtStatus IntelPtCapabilities} {config : IntelPtConfiguration}
    {beyond : Nat → BitVec 32} {env : List CoreEvent}
    (hoff : core.ctl.traceEn = true →
      (iptValidateConfigurationRequest capabilities config beyond).1 = .success →
        filterWrites config = [])
    (hsetup : ptwIpiPerCoreSetup irq capabilities config beyond (core.start env) = some core') :
    Agreeing core' → CoreTracks core' := by
  obtain ⟨options, ho, -⟩ := Option.map_eq_some_iff.mp hsetup
  have hstart := h.start (Option.isSome_of_mem ho) env
  refine fun ha => (Tracked.setup hstart ?_ hsetup ha).coreTracks
  by_cases hon : core.ctl.traceEn = true
  · exact Or.inr (hoff hon)
  · refine Or.inl fun ha => ?_
    obtain ⟨htracks, hinit, -⟩ := hstart ha
    exact ⟨htracks, hinit, Bool.eq_false_iff.mpr hon⟩

theorem CoreTracks.pmi (h : CoreTracks core) (hinit : core.options.isSome = true)
    (dpcObject : Bool) (env : List CoreEvent) :
    Agreeing (iptPmiHandler hw dpcObject (core.start env)) →
      CoreTracks (iptPmiHandler hw dpcObject (core.start env)) :=
  fun ha => ((h.start hinit env).pmiHandler keeps_hw nofun dpcObject ha).coreTracks

theorem CoreTracks.dpc (h : CoreTracks core) {core' : Core} {pages : Option Mdl}
    {input : PacketInput} {env : List CoreEvent} {packet : Option CommBufferAddress}
    (hdpc : iptDpc irq pages input (core.start env) = some (packet, core')) :
    Agreeing core' → CoreTracks core' := by
  obtain ⟨options, ho, -⟩ := Option.map_eq_some_iff.mp hdpc
  exact fun ha => (Tracked.dpc (h.start (Option.isSome_of_mem ho) env) hdpc ha).coreTracks

theorem CoreTracks.disable (h : CoreTracks core) {core' : Core} {input : PacketInput}
    {env : List CoreEvent} {packet : Option CommBufferAddress}
    (hdisable : ptwDpcPerCoreDisable irq input (core.start env) = some (packet, core')) :
    Agreeing core' → CoreTracks core' := by
  obtain ⟨options, ho, hresult⟩ := Option.map_eq_some_iff.mp hdisable
  cases hresult
  have hmatched := (h.start (Option.isSome_of_mem ho) env).disable keeps_irq nofun
  exact fun ha => ((hmatched.mono fun _ _ hm hon => hm.mpr hon) ha).coreTracks

theorem coreTracks_put {s : System} (h : ∀ cpu, CoreTracks (s.cores cpu)) {k : Nat}
    {packet : Option CommBufferAddress} (hcore : CoreTracks core) (cpu : Nat) :
    CoreTracks ((s.put k core packet).cores cpu) := by
  by_cases hl : cpu = k
  · subst hl
    simp only [System.put, Function.update_self]
    exact hcore
  · simp only [System.put, Function.update_of_ne hl]
    exact h cpu

theorem agreeing_start (core : Core) (env : List CoreEvent) : Agreeing (core.start env) :=
  fun _ he => (List.not_mem_nil he).elim

theorem coreTracks_step {s s' : System} {op : DriverOp} (h : ∀ cpu, CoreTracks (s.cores cpu))
    (hok : Undisturbed s op) (hstep : s.step op = some s') : ∀ cpu, CoreTracks (s'.cores cpu) := by
  obtain ⟨hsetup, hclear⟩ := hok
  cases op with
  | init k capabilities alloc env =>
    simp only [System.step] at hstep
    split at hstep
    · cases hstep
      have hstart : CoreTracks ((s.cores k).start env) :=
        ⟨fun _ he => (List.not_mem_nil he).elim, (h k).coupled⟩
      exact coreTracks_put h (hstart.init rfl _ _ ((agreeing_start _ env).init hclear))
    · cases hstep
  | setup k capabilities config beyond env =>
    obtain ⟨core, hcore, rfl⟩ := Option.map_eq_some_iff.mp hstep
    have hagrees := (agreeing_start _ env).setup hclear.1 hclear.2 hsetup hcore
    exact coreTracks_put h ((h k).setup hsetup hcore hagrees)
  | pmi k dpcObject env =>
    simp only [System.step] at hstep
    split at hstep
    · next hinit =>
      cases hstep
      exact coreTracks_put h ((h k).pmi hinit dpcObject env
        ((agreeing_start _ env).handler hclear dpcObject))
    · cases hstep
  | dpc k pages packet env =>
    simp only [System.step] at hstep
    split at hstep
    · obtain ⟨⟨dto, core⟩, hcore, rfl⟩ := Option.map_eq_some_iff.mp hstep
      obtain ⟨options, ho, -⟩ := Option.map_eq_some_iff.mp hcore
      have hoff : (s.cores k).runningStatus ≠ .enabled → (s.cores k).ctl.traceEn = false :=
        fun hstatus => Bool.eq_false_iff.mpr fun hon =>
          hstatus ((h k).coupled (Option.isSome_of_mem ho) hon)
      have hagrees := (agreeing_start _ env).dpc hoff hclear hcore
      exact coreTracks_put h ((h k).dpc hcore hagrees)
    · cases hstep
  | disable k packet env =>
    obtain ⟨⟨dto, core⟩, hcore, rfl⟩ := Option.map_eq_some_iff.mp hstep
    have hagrees : Agreeing core := by
      obtain ⟨options, -, hresult⟩ := Option.map_eq_some_iff.mp hcore
      cases hresult
      exact (agreeing_start _ env).disable hclear
    exact coreTracks_put h ((h k).disable hcore hagrees)
  | imageLoad =>
    cases hstep
    exact h
  | getBuffer =>
    simp only [System.step] at hstep
    split at hstep
    · cases hstep
    · cases hstep
      exact h

theorem statusTracks_of_meets (hardware : Nat → Core) (ops : List DriverOp)
    (h : Meets System.step Undisturbed (System.boot hardware) ops) :
    Every System.step StatusTracks (System.boot hardware) ops := by
  refine every_of_meets (fun s => ∀ cpu, CoreTracks (s.cores cpu)) ?_ ?_ _ ops ?_ h
  · exact fun s hs cpu => (hs cpu).tracks
  · exact fun s op s' hs hok hstep => coreTracks_step hs hok hstep
  · exact fun cpu => ⟨fun _ he => (List.not_mem_nil he).elim, nofun⟩

/-- A session with one full buffer, and a second setup after its end. -/
theorem statusTracks_two_sessions :
    let ops := firstSession ++ [.pmi 0 true [{ topaPmi := true }],
      .dpc 0 (some (tenPages 1)) { dto := true, element := true } [],
      .disable 0 { dto := true, element := true } [],
      .setup 0 (.ok topaCapabilities) {} (fun _ => 0) []]
    Every System.step StatusTracks (System.boot fun _ => {}) ops ∧
      (ops.foldlM System.step (System.boot fun _ => {})).map
        (fun s => (s.cores 0).ctl.traceEn) = some true :=
  ⟨statusTracks_of_meets _ _ (by decide +kernel), by decide +kernel⟩

/-- With an error pending a PMI does not clear TraceEn; the IptDpc behind it writes the output
registers of a core that traces. -/
theorem not_statusTracks_error_pending :
    ¬ ∀ hardware ops, Every System.step StatusTracks (System.boot hardware) ops := by
  intro h
  let ops := firstSession ++ [.pmi 0 true [{ error := true, topaPmi := true }],
    .dpc 0 (some (tenPages 1)) { dto := true, element := true } []]
  have hrun : (ops.foldlM System.step (System.boot fun _ => {})).map
      (fun s => (s.cores 0).log.head?) =
        some (some (.write (.rtitOutputMaskPtrs 0x7F) true)) := by rfl
  obtain ⟨s, hs, hhead⟩ := Option.map_eq_some_iff.mp hrun
  have htracks := (h _ ops).last hs 0 _ (List.mem_of_mem_head? hhead)
  exact Bool.noConfusion (htracks rfl)

end IntelPt.Driver
