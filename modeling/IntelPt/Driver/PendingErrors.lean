import IntelPt.Driver.CoreInvariants
import IntelPt.Driver.DriverOperations
import IntelPt.Driver.ShownHardware

/-! Where an Error or a Stopped is pending when the code acts on the status register. The
conditions are on what the hardware shows before an operation and on the events during it; under
them TriggerEn tells TraceEn wherever the code asks for it. -/
namespace IntelPt.Driver

namespace Shown

/-- Neither Error nor Stopped is pending while TraceEn is 1. -/
def Clear (s : Shown) : Prop := s.traceEn = true → s.error = false ∧ s.stopped = false

instance (s : Shown) : Decidable s.Clear := inferInstanceAs (Decidable (_ → _))

/-- Nor is it when the PMI handler, entered now, asks IptEnabled. -/
def HandlerClear (s : Shown) : Prop := s.hw.topaPmi = true → (s.hw.asked hw).Clear

instance (s : Shown) : Decidable s.HandlerClear := inferInstanceAs (Decidable (_ → _))

def AccessClear (s : Shown) : Prop := s.interrupted = true → s.hw.HandlerClear

instance (s : Shown) : Decidable s.AccessClear := inferInstanceAs (Decidable (_ → _))

def AccessesClear (s : Shown) : Prop := s.AccessClear ∧ (s.irq hw).AccessClear

instance (s : Shown) : Decidable s.AccessesClear := inferInstanceAs (Decidable (_ ∧ _))

/-- Neither is pending where IptEnableTrace, called now, asks IptError and then IptEnabled; and no
ToPA PMI is delivered between that and the store of IPT_STATUS_ENABLED. -/
def EnableClear (s : Shown) : Prop :=
  s.AccessClear ∧ ((s.irq hw).error = true → (s.irq hw).AccessesClear) ∧
    (s.errorCleared (irq hw)).AccessesClear ∧ (s.started (irq hw)).AccessClear ∧
    (s.atIptError hw).Clear ∧
    ((s.atIptError hw).error = false → (s.atIptError hw).AccessClear ∧
      (s.atIptEnabled hw).Clear ∧ s.StoreKept hw)

instance (s : Shown) : Decidable s.EnableClear := inferInstanceAs (Decidable (_ ∧ _ ∧ _ ∧ _ ∧ _))

def writes (ws : List MsrWrite) (s : Shown) : Shown :=
  ws.foldl (fun s w => (s.irq hw).wrote w) s

def setup (capabilities : Except NtStatus IntelPtCapabilities) (config : IntelPtConfiguration)
    (beyond : Nat → BitVec 32) (options : IntelPtOutputOptions) (s : Shown) : Shown :=
  if (iptValidateConfigurationRequest capabilities config beyond).1 = .success then
    s.writes (configureWrites config options)
  else s

end Shown

/-- At the decisions of the operation neither Error nor Stopped is pending while TraceEn is 1, and
no ToPA PMI comes just before IPT_STATUS_ENABLED is stored. -/
def HardwareClear (s : System) : DriverOp → Prop
  | .init cpu capabilities alloc env => (initStores capabilities alloc).isSome = true →
      ((s.cores cpu).start env).shown.hw.hw.Clear
  | .setup cpu capabilities config beyond env =>
      ((s.cores cpu).start env).shown.AccessClear ∧ ∀ options ∈ (s.cores cpu).options,
        (((s.cores cpu).start env).shown.setup capabilities config beyond options).EnableClear
  | .pmi cpu _ env => ((s.cores cpu).start env).shown.HandlerClear
  | .dpc cpu pages packet env => (s.cores cpu).runningStatus ≠ .enabled → pages.isSome = true →
      packet.dto = true → ((((s.cores cpu).start env).shown.reset .hw).irq .hw).EnableClear
  | .disable cpu _ env => ((s.cores cpu).start env).shown.AccessesClear
  | .imageLoad .. | .getBuffer => True

instance (s : System) : (op : DriverOp) → Decidable (HardwareClear s op)
  | .init .. | .dpc .. => inferInstanceAs (Decidable (_ → _))
  | .setup .. => inferInstanceAs (Decidable (_ ∧ _))
  | .pmi _ _ _ => inferInstanceAs (Decidable (Shown.HandlerClear _))
  | .disable _ _ _ => inferInstanceAs (Decidable (Shown.AccessesClear _))
  | .imageLoad .. | .getBuffer => inferInstanceAs (Decidable True)

/-- A decision is right if TriggerEn tells TraceEn, and IPT_STATUS_ENABLED if TraceEn is 1. -/
def LogEntry.Agrees : LogEntry → Prop
  | .decision traceEn triggerEn => traceEn = true → triggerEn = true
  | .storesEnabled traceEn => traceEn = true
  | .write _ _ | .returned _ _ => True

def Agreeing (core : Core) : Prop := ∀ e ∈ core.log, e.Agrees

variable {core : Core}

theorem Agreeing.logged (h : Agreeing core) {e : LogEntry} (he : e.Agrees) :
    Agreeing (core.logged e) := by
  intro e' he'
  obtain he' | he' := List.mem_append.mp he'
  · exact h e' he'
  · rw [List.mem_singleton.mp he']
    exact he

theorem Agreeing.returned (h : Agreeing core) : Agreeing (returned core) := h.logged trivial

theorem Agreeing.decided (h : Agreeing core) (hclear : core.shown.Clear) :
    Agreeing (decided core) := by
  refine h.logged fun hon => ?_
  obtain ⟨herror, hstopped⟩ := hclear hon
  have hcore : core.triggerEn = core.shown.triggerEn := rfl
  have htrace : core.shown.traceEn = true := hon
  rw [hcore, Shown.triggerEn, htrace, herror, hstopped]
  rfl

theorem Agreeing.wrote (h : Agreeing core) (w : MsrWrite) : Agreeing (wrote w core) :=
  h.logged trivial

theorem Agreeing.atHw (h : Agreeing core) : Agreeing (hw core) := by
  rw [hw]
  split
  · exact h
  · exact h

theorem Agreeing.pause (h : Agreeing core) (hclear : (core.shown.asked Shown.hw).Clear) :
    Agreeing (iptPauseTrace hw core) := by
  have hreport : Agreeing (reportPendingError hw core) := by
    simp only [reportPendingError]
    split
    · exact h.atHw.atHw
    · exact h.atHw
  have hdecided := hreport.atHw.decided (by rwa [shows_hw.reportPendingError])
  have hclears : Agreeing (clearIfEnabled hw (reportPendingError hw core)) := by
    simp only [clearIfEnabled]
    split
    · exact hdecided.atHw.atHw.wrote _
    · exact hdecided
  have hpaused : Agreeing (Core.setRunningStatus
      (clearIfEnabled hw (reportPendingError hw core)) .paused) := hclears
  exact hpaused.returned

theorem Agreeing.handler (h : Agreeing core) (hclear : core.shown.HandlerClear)
    (dpcObject : Bool) : Agreeing (iptPmiHandler hw dpcObject core) := by
  simp only [iptPmiHandler]
  split
  · exact h.atHw.atHw.wrote _
  · next hreason =>
    have hpause : Agreeing (iptPauseTrace hw (hw core)) := by
      refine h.atHw.pause ?_
      rw [shows_hw]
      exact hclear (by rw [← shows_hw.topaPmi]; simpa [iptTopaPmiReason] using hreason)
    split
    · exact hpause
    · exact hpause

theorem Agreeing.atIrq (h : Agreeing core) (hclear : core.shown.AccessClear) :
    Agreeing (irq core) := by
  rw [irq_eq, interrupts]
  split
  · exact h.atHw
  · next e env henv =>
    split
    · exact h.atHw
    · next dpcObject hpmi =>
      have hinterrupted : core.shown.interrupted = true := by
        simp [Shown.interrupted, Core.shown, henv, hpmi]
      refine h.atHw.handler ?_ dpcObject
      rw [shows_hw]
      exact hclear hinterrupted

/-! A core with TraceEn 0. -/

theorem accessClear_of_off {s : Shown} (hoff : s.traceEn = false) : s.AccessClear := by
  intro _ _ hon
  rw [keepsTraceEn_hw.asked, keepsTraceEn_hw, keepsTraceEn_hw, hoff] at hon
  cases hon

structure AgreeingOff (core : Core) : Prop where
  agreeing : Agreeing core
  off : core.shown.traceEn = false

theorem AgreeingOff.atIrq (h : AgreeingOff core) : AgreeingOff (irq core) := by
  refine ⟨h.agreeing.atIrq (accessClear_of_off h.off), ?_⟩
  rw [shows_irq]
  exact keepsTraceEn_hw.irq_off h.off

theorem AgreeingOff.write (h : AgreeingOff core) {w : MsrWrite} (hw : w.enables = false) :
    AgreeingOff (writeMsr irq w core) := by
  refine ⟨h.atIrq.agreeing.wrote w, ?_⟩
  rw [writeMsr, shown_wrote]
  cases w with
  | rtitCtl => exact hw
  | _ => exact h.atIrq.off

/-! The functions. -/

theorem Agreeing.accesses (h : Agreeing core) (hclear : core.shown.AccessesClear) :
    Agreeing (irq (irq core)) := by
  refine (h.atIrq hclear.1).atIrq ?_
  rw [shows_irq]
  exact hclear.2

theorem Agreeing.clearPendingError (h : Agreeing core) (hlook : core.shown.AccessClear)
    (hclearing : (core.shown.irq Shown.hw).error = true →
      (core.shown.irq Shown.hw).AccessesClear) :
    Agreeing (clearPendingError irq core) := by
  have hasked := h.atIrq hlook
  simp only [Driver.clearPendingError]
  split
  · next hpending =>
    have hread := hclearing (shows_irq.error core ▸ hpending)
    rw [← shows_irq] at hread
    exact (hasked.accesses hread).wrote _
  · exact hasked

theorem Agreeing.enable (h : Agreeing core) (hclear : core.shown.EnableClear) :
    Agreeing (iptEnableTrace irq core).2 := by
  obtain ⟨hlook, hclearing, hsetting, hstarted, herror, henabled⟩ := hclear
  let started := writeTraceEn irq true (Driver.clearPendingError irq core)
  let first := Driver.decided (irq started)
  let second := Driver.decided (irq first)
  have hshown := shows_irq.started core
  have hfirst : first.shown = core.shown.atIptError Shown.hw := by
    rw [Shown.atIptError, ← hshown]
    exact shows_irq started
  have hsecond : second.shown = core.shown.atIptEnabled Shown.hw := by
    rw [Shown.atIptEnabled, ← hfirst]
    exact shows_irq first
  have hwrite : Agreeing started := by
    rw [← shows_irq.clearPendingError] at hsetting
    exact ((h.clearPendingError hlook hclearing).accesses hsetting).wrote _
  have hatError : Agreeing first :=
    (hwrite.atIrq (hshown ▸ hstarted)).decided (hfirst ▸ herror)
  rw [iptEnableTrace_eq]
  split_ifs with hpending htrigger
  · exact hatError.returned
  · have hno : (core.shown.atIptError Shown.hw).error = false := by
      rw [← hfirst]
      exact Bool.eq_false_iff.mpr hpending
    obtain ⟨haccess, hat, hstore⟩ := henabled hno
    have hatEnabled : Agreeing second := (hatError.atIrq (hfirst ▸ haccess)).decided (hsecond ▸ hat)
    have htrigger' : second.shown.triggerEn = true := htrigger
    have hnone := hstore (hsecond ▸ htrigger')
    rw [← hsecond] at hnone
    have hlast : Agreeing (irq second) := hatEnabled.atIrq fun hinterrupted htopa =>
      absurd ⟨hinterrupted, htopa⟩ hnone
    have hon : (irq second).ctl.traceEn = true := by
      have hkept := (keepsTraceEn_hw.irq (traceEn_of_triggerEn htrigger')).mpr
        fun hpauses => hnone hpauses.1
      rw [← shows_irq] at hkept
      exact hkept
    have hset : Agreeing ((irq second).setRunningStatus .enabled) := hlast
    exact (hset.logged (e := .storesEnabled (irq second).ctl.traceEn) hon).returned
  · have hno : (core.shown.atIptError Shown.hw).error = false := by
      rw [← hfirst]
      exact Bool.eq_false_iff.mpr hpending
    obtain ⟨haccess, hat, -⟩ := henabled hno
    exact ((hatError.atIrq (hfirst ▸ haccess)).decided (hsecond ▸ hat)).returned

theorem shown_writes (ws : List MsrWrite) : ∀ core : Core,
    (ws.foldl (fun core w => writeMsr irq w core) core).shown = core.shown.writes ws := by
  induction ws with
  | nil => exact fun _ => rfl
  | cons w ws ih =>
    intro core
    have hfirst := shows_irq.write w core
    rw [List.foldl_cons, ih, hfirst]
    rfl

theorem AgreeingOff.writes (h : AgreeingOff core) {ws : List MsrWrite}
    (hws : ∀ w ∈ ws, w.enables = false) :
    AgreeingOff (ws.foldl (fun core w => writeMsr irq w core) core) :=
  foldl_writeMsr (fun w hw _ h => h.write (hws w hw)) h

/-- Without filters to program the first write clears TraceEn. -/
theorem Agreeing.configure (h : Agreeing core) (hclear : core.shown.AccessClear)
    {config : IntelPtConfiguration} (options : IntelPtOutputOptions)
    (hoff : core.ctl.traceEn = false ∨ filterWrites config = []) :
    Agreeing (iptConfigureProcessorTrace irq config options core) := by
  obtain hoff | hnone := hoff
  · have hcore : AgreeingOff core := ⟨h, hoff⟩
    exact (hcore.writes fun _ hw => enables_of_mem_configureWrites hw).agreeing
  · have hfirst : AgreeingOff (writeMsr irq (.rtitCtl (rtitCtlShadow config)) core) :=
      ⟨(h.atIrq hclear).wrote _, rfl⟩
    rw [iptConfigureProcessorTrace, configureWrites, hnone]
    exact ((hfirst.write rfl).write rfl).agreeing

theorem shown_setup (capabilities : Except NtStatus IntelPtCapabilities)
    (config : IntelPtConfiguration) (beyond : Nat → BitVec 32) (options : IntelPtOutputOptions)
    (core : Core) : (iptSetup irq capabilities config beyond options core).2.shown =
      core.shown.setup capabilities config beyond options := by
  simp only [iptSetup, Shown.setup]
  split
  · next hvalid =>
    rw [if_pos hvalid]
    exact shown_writes _ core
  · next hno => rw [if_neg hno]

theorem Agreeing.setup (h : Agreeing core) {capabilities : Except NtStatus IntelPtCapabilities}
    {config : IntelPtConfiguration} {beyond : Nat → BitVec 32} (hclear : core.shown.AccessClear)
    (henable : ∀ options ∈ core.options,
      (core.shown.setup capabilities config beyond options).EnableClear)
    (hoff : core.ctl.traceEn = true →
      (iptValidateConfigurationRequest capabilities config beyond).1 = .success →
        filterWrites config = [])
    {core' : Core}
    (hsetup : ptwIpiPerCoreSetup irq capabilities config beyond core = some core') :
    Agreeing core' := by
  simp only [ptwIpiPerCoreSetup, Option.map_eq_some_iff] at hsetup
  obtain ⟨options, ho, rfl⟩ := hsetup
  refine Agreeing.enable ?_ (shown_setup .. ▸ henable options ho)
  simp only [iptSetup]
  split
  · next hvalid =>
    refine h.configure hclear options ?_
    by_cases hon : core.ctl.traceEn = true
    · exact Or.inr (hoff hon hvalid)
    · exact Or.inl (Bool.eq_false_iff.mpr hon)
  · exact h

theorem AgreeingOff.unlink (h : AgreeingOff core) (pages : Option Mdl)
    {options : IntelPtOutputOptions} (hstatus : options.runningStatus ≠ .enabled) :
    AgreeingOff (iptUnlinkFullTopaBuffers irq pages options core).2.2.2 := by
  have hstore (topaTable : List TopaEntry) (newMdl : Option Mdl) :
      AgreeingOff (storeNewTopa options topaTable newMdl core) := by
    cases newMdl with
    | none => exact h
    | some mdl => exact ⟨h.agreeing, h.off⟩
  simp only [iptUnlinkFullTopaBuffers, if_neg hstatus]
  exact ((hstore _ _).atIrq.atIrq.write rfl).write rfl

theorem success_of_unlink {pages : Option Mdl} {options : IntelPtOutputOptions}
    (h : (iptUnlinkFullTopaBuffers irq pages options core).1 = .success) :
    options.runningStatus ≠ .enabled ∧ pages.isSome = true := by
  simp only [iptUnlinkFullTopaBuffers] at h
  split_ifs at h with hstatus
  refine ⟨hstatus, ?_⟩
  cases pages with
  | none => cases h
  | some mdl => rfl

theorem AgreeingOff.resume (h : AgreeingOff core)
    (hclear : (core.shown.irq Shown.hw).EnableClear) : Agreeing (iptResumeTrace irq core).2 := by
  simp only [iptResumeTrace]
  split
  · exact h.atIrq.agreeing.returned
  · refine Agreeing.returned (h.atIrq.agreeing.enable ?_)
    rw [← shows_irq] at hclear
    exact hclear

theorem Agreeing.dpc (h : Agreeing core) {pages : Option Mdl} {input : PacketInput}
    (hoff : core.runningStatus ≠ .enabled → core.ctl.traceEn = false)
    (hclear : core.runningStatus ≠ .enabled → pages.isSome = true → input.dto = true →
      ((core.shown.reset Shown.hw).irq Shown.hw).EnableClear)
    {core' : Core} {packet : Option CommBufferAddress}
    (hdpc : iptDpc irq pages input core = some (packet, core')) : Agreeing core' := by
  simp only [iptDpc, Option.map_eq_some_iff] at hdpc
  obtain ⟨options, ho, hdpc⟩ := hdpc
  have hcore : core.runningStatus = options.runningStatus := by simp [Core.runningStatus, ho]
  rw [hcore] at hoff hclear
  by_cases hstatus : options.runningStatus = .enabled
  · simp only [iptUnlinkFullTopaBuffers, if_pos hstatus] at hdpc
    cases hdpc
    exact h
  · have hcore : AgreeingOff core := ⟨h, hoff hstatus⟩
    have hunlinked := hcore.unlink pages hstatus
    split_ifs at hdpc with hstop hdto
    · cases hdpc
      exact hunlinked.agreeing
    · cases hdpc
      exact hunlinked.agreeing
    · cases hdpc
      obtain ⟨-, hpages⟩ := success_of_unlink (not_not.mp hstop)
      have hresumed := hclear hstatus hpages (by simpa using hdto)
      have hreset : AgreeingOff (iptResetPmi irq
          (iptUnlinkFullTopaBuffers irq pages options core).2.2.2) := hunlinked.write rfl
      refine hreset.resume ?_
      rw [shows_irq.resetPmi, shows_irq.unlink pages hstatus]
      exact hresumed

theorem Agreeing.disable (h : Agreeing core) (hclear : core.shown.AccessesClear) :
    Agreeing (iptDisableTrace irq core).2.2 := by
  have hcleared : AgreeingOff (iptClearTraceEn irq core) :=
    ⟨(h.accesses hclear).wrote _, rfl⟩
  have hset : Agreeing (Core.setRunningStatus (irq (irq (iptClearTraceEn irq core))) .disabled) :=
    hcleared.atIrq.atIrq.agreeing
  exact hset.returned

theorem Agreeing.init (h : Agreeing core) {capabilities : IntelPtCapabilities} {alloc : InitAlloc}
    (hclear : (initStores capabilities alloc).isSome = true → core.shown.hw.hw.Clear) :
    Agreeing (iptInitPerCore hw capabilities alloc core).2 := by
  simp only [iptInitPerCore]
  split
  · exact h.atHw
  · next pool hpool =>
    split
    · next options hstores =>
      have hstored : Agreeing (storeOptions capabilities options (hw core)) := h.atHw
      have hlook : (hw (storeOptions capabilities options (hw core))).shown =
          core.shown.hw.hw := by
        rw [shows_hw, ← shows_hw core]
        rfl
      have hdecided := hstored.atHw.decided (by
        rw [hlook]
        exact hclear (by rw [initStores, hpool, Option.bind_some, hstores]; rfl))
      split
      · have hset : Agreeing (Core.setRunningStatus (hw (hw (iptClearTraceEn hw
            (Driver.decided (hw (storeOptions capabilities options (hw core))))))) .disabled) :=
          (hdecided.atHw.atHw.wrote _).atHw.atHw
        exact hset.returned
      · exact hdecided
    · exact h.atHw

end IntelPt.Driver
