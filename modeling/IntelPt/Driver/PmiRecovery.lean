import IntelPt.Driver.DriverOperations
import IntelPt.Driver.CoreInvariants
import IntelPt.Driver.ShownHardware
import IntelPt.Lib.Runs

/-! Runs of ToPA PMIs and of the IptDpc each of them queues, on one core whose hardware raises
neither Error nor Stopped. The handler pauses the core and only IptDpc resumes it, so every early
return between the two leaves it paused; and a PMI just before IPT_STATUS_ENABLED is stored
leaves it paused under a status that makes IptDpc return. -/
namespace IntelPt.Driver
open Runs

/-- The event as this hardware raises it; a ToPA PMI comes only while the core traces. -/
def CoreEvent.topa (e : CoreEvent) (traceEn : Bool) : CoreEvent :=
  { e with error := false, stopped := false, topaPmi := traceEn && e.topaPmi }

def topaHw (core : Core) : Core :=
  match core.env with
  | [] => core
  | e :: env => { core with env := env }.hardware (e.topa core.ctl.traceEn)

def topaIrq (core : Core) : Core :=
  match core.env with
  | [] => core
  | e :: env =>
    let core := { core with env := env }.hardware (e.topa core.ctl.traceEn)
    match e.pmi with
    | none => core
    | some dpcObject => iptPmiHandler topaHw dpcObject core

structure PmiRun where
  core : Core
  log : List LogEntry := []

inductive PmiInput where
  | pmi (dpcObject : Bool) (env : List CoreEvent)
  | dispatch (pages : Option Mdl) (packet : PacketInput) (env : List CoreEvent)

def PmiRun.step (s : PmiRun) : PmiInput → Option PmiRun
  | .pmi dpcObject env =>
    let core := iptPmiHandler topaHw dpcObject (s.core.start env)
    some { core := core, log := s.log ++ core.log }
  | .dispatch pages packet env =>
    match s.core.dpcQueue with
    | .iptDpc :: rest =>
      (iptDpc topaIrq pages packet ({ s.core with dpcQueue := rest }.start env)).map fun r =>
        { core := r.2, log := s.log ++ r.2.log }
    | _ => none

def LogEntry.unreset (before : Bool) : LogEntry → Bool
  | .write (.perfGlobalOvfCtrl true) _ => false
  | .returned .paused _ => true
  | _ => before

def unreset (before : Bool) (log : List LogEntry) : Bool := log.foldl LogEntry.unreset before

/-- Once every IptDpc has finished, the core traces and no pause is left without its reset. -/
def Recovered (s : PmiRun) : Prop :=
  s.core.dpcQueue = [] → s.core.ctl.traceEn = true ∧ s.core.runningStatus = .enabled ∧
    unreset false s.log = false

def Shown.topaHw (s : Shown) : Shown :=
  match s.env with
  | [] => s
  | e :: env => { s with topaPmi := s.topaPmi || s.traceEn && e.topaPmi, env := env }

/-- A ToPA PMI gets its KDPC or finds an IptDpc queued; the last IptDpc of a paused core gets its
pages and its packet, and so does every KDPC meanwhile; and no PMI pauses the core just before
IPT_STATUS_ENABLED is stored. -/
def Served (s : PmiRun) : PmiInput → Prop
  | .pmi dpcObject env => dpcObject = true ∨ s.core.dpcQueue ≠ [] ∨
      (topaHw (s.core.start env)).topaPmi = false
  | .dispatch pages packet env => s.core.runningStatus ≠ .enabled →
      (s.core.dpcQueue.tail ≠ [] ∨
        pages.isSome = true ∧ packet.dto = true ∧ ∀ e ∈ env, e.pmi ≠ some false) ∧
      (pages.isSome = true → packet.dto = true →
        (((s.core.start env).shown.reset .topaHw).irq .topaHw).StoreKept .topaHw)

instance (s : PmiRun) : (input : PmiInput) → Decidable (Served s input)
  | .pmi _ _ => inferInstanceAs (Decidable (_ ∨ _))
  | .dispatch _ _ _ => inferInstanceAs (Decidable (_ → _))

theorem unreset_append (before : Bool) (log log' : List LogEntry) :
    unreset before (log ++ log') = unreset (unreset before log) log' :=
  List.foldl_append

/-! The hardware. -/

structure Healthy (core : Core) : Prop where
  error : core.status.error = false
  stopped : core.status.stopped = false
  initialized : core.options.isSome = true

variable {core : Core}

theorem Healthy.triggerEn (h : Healthy core) : core.triggerEn = core.ctl.traceEn := by
  simp [Core.triggerEn, h.error, h.stopped]

theorem Healthy.hardware (h : Healthy core) (e : CoreEvent) (env : List CoreEvent) :
    Healthy ({ core with env := env }.hardware (e.topa core.ctl.traceEn)) where
  error := by simp [Core.hardware, CoreEvent.topa, h.error]
  stopped := by simp [Core.hardware, CoreEvent.topa, h.stopped]
  initialized := h.initialized

theorem Healthy.atHw (h : Healthy core) : Healthy (topaHw core) := by
  rw [topaHw]
  split
  · exact h
  · exact h.hardware _ _

theorem Healthy.logged (h : Healthy core) (e : LogEntry) : Healthy (core.logged e) :=
  ⟨h.error, h.stopped, h.initialized⟩

theorem Healthy.setRunningStatus (h : Healthy core) (status : IptRunningStatus) :
    Healthy (core.setRunningStatus status) :=
  ⟨h.error, h.stopped, stable_initialized.runningStatus _ _ (fun _ => rfl) h.initialized⟩

theorem Healthy.wrote (h : Healthy core) {w : MsrWrite} (hw : ∀ v, w ≠ .rtitStatus v) :
    Healthy (wrote w core) := by
  cases w with
  | rtitStatus v => exact absurd rfl (hw v)
  | _ => exact ⟨h.error, h.stopped, h.initialized⟩

theorem topaHw_frame (core : Core) : (topaHw core).ctl = core.ctl ∧
    (topaHw core).options = core.options ∧ (topaHw core).log = core.log := by
  rw [topaHw]
  split
  · exact ⟨rfl, rfl, rfl⟩
  · exact ⟨rfl, rfl, rfl⟩

structure Follows (core core' : Core) : Prop where
  healthy : Healthy core'
  dpcQueue : core'.dpcQueue = core.dpcQueue
  env : ∀ e ∈ core'.env, e ∈ core.env

variable {core' : Core}

theorem Healthy.follows (h : Healthy core) : Follows core core := ⟨h, rfl, fun _ he => he⟩

theorem Follows.atHw (h : Follows core core') : Follows core (topaHw core') := by
  refine ⟨h.healthy.atHw, ?_, ?_⟩
  · rw [topaHw]
    split
    · exact h.dpcQueue
    · exact h.dpcQueue
  · rw [topaHw]
    split
    · exact h.env
    · next e env henv =>
      exact fun e' he' => h.env e' (by rw [henv]; exact List.mem_cons_of_mem e he')

theorem Follows.logged (h : Follows core core') (e : LogEntry) : Follows core (core'.logged e) :=
  ⟨h.healthy.logged e, h.dpcQueue, h.env⟩

theorem Follows.setRunningStatus (h : Follows core core') (status : IptRunningStatus) :
    Follows core (core'.setRunningStatus status) :=
  ⟨h.healthy.setRunningStatus status, h.dpcQueue, h.env⟩

theorem Follows.wrote (h : Follows core core') {w : MsrWrite} (hw : ∀ v, w ≠ .rtitStatus v) :
    Follows core (wrote w core') := by
  refine ⟨h.healthy.wrote hw, ?_, ?_⟩
  · cases w <;> exact h.dpcQueue
  · cases w <;> exact h.env

theorem Follows.reportPendingError (h : Follows core core') :
    reportPendingError topaHw core' = topaHw core' := by
  have herror := h.atHw.healthy.error
  simp [Driver.reportPendingError, iptError, herror]

theorem Follows.clearIfEnabled (h : Follows core core') :
    Follows core (clearIfEnabled topaHw core') ∧
      (clearIfEnabled topaHw core').ctl.traceEn = false := by
  have hasked := h.atHw
  have hdecided : Follows core (decided (topaHw core')) := hasked.logged _
  have hdef : Driver.clearIfEnabled topaHw core' = if (topaHw core').triggerEn then
      iptClearTraceEn topaHw (decided (topaHw core')) else decided (topaHw core') := rfl
  rw [hdef]
  by_cases hon : (topaHw core').triggerEn = true
  · rw [if_pos hon]
    exact ⟨hdecided.atHw.atHw.wrote (fun _ hw => by cases hw), rfl⟩
  · rw [if_neg hon]
    rw [hasked.healthy.triggerEn] at hon
    exact ⟨hdecided, Bool.eq_false_iff.mpr hon⟩

theorem Follows.pause (h : Follows core core') :
    let paused := iptPauseTrace topaHw core'
    Follows core paused ∧ paused.ctl.traceEn = false ∧ paused.runningStatus = .paused := by
  obtain ⟨hclear, hoff⟩ := h.atHw.clearIfEnabled
  simp only [iptPauseTrace, h.reportPendingError]
  refine ⟨(hclear.setRunningStatus .paused).logged _, hoff, ?_⟩
  exact runningStatus_set hclear.healthy.initialized .paused

/-- The handler: it resets a PMI that is none of its own, and pauses the core on one that is. -/
theorem pmiHandler_cases (h : Healthy core) (dpcObject : Bool) :
    let handled := iptPmiHandler topaHw dpcObject core
    ((topaHw core).topaPmi = false ∧ handled = iptResetPmi topaHw (topaHw core)) ∨
      (topaHw core).topaPmi = true ∧ Healthy handled ∧ handled.ctl.traceEn = false ∧
        handled.runningStatus = .paused ∧ (∀ e ∈ handled.env, e ∈ core.env) ∧
        handled.dpcQueue = core.dpcQueue ++ if dpcObject then [.iptDpc] else [] := by
  obtain ⟨hpaused, hoff, hstatus⟩ := h.follows.atHw.pause
  have hdef : iptPmiHandler topaHw dpcObject core = if !(topaHw core).topaPmi then
      iptResetPmi topaHw (topaHw core)
    else
      let paused := iptPauseTrace topaHw (topaHw core)
      if dpcObject then { paused with dpcQueue := paused.dpcQueue ++ [.iptDpc] } else paused := rfl
  simp only [hdef]
  by_cases hreason : (topaHw core).topaPmi = true
  · refine Or.inr ⟨hreason, ?_⟩
    rw [if_neg (by rw [hreason]; decide)]
    cases dpcObject with
    | false =>
      exact ⟨hpaused.healthy, hoff, hstatus, hpaused.env,
        hpaused.dpcQueue.trans (List.append_nil _).symm⟩
    | true =>
      obtain ⟨hhealthy, hqueue, henv⟩ := hpaused
      exact ⟨⟨hhealthy.error, hhealthy.stopped, hhealthy.initialized⟩, hoff, hstatus, henv,
        congrArg (· ++ [Dpc.iptDpc]) hqueue⟩
  · have hno := Bool.eq_false_iff.mpr hreason
    refine Or.inl ⟨hno, ?_⟩
    rw [if_pos (by rw [hno]; decide)]

structure Passes (core core' : Core) : Prop where
  follows : Follows core core'
  ctl : core'.ctl = core.ctl
  options : core'.options = core.options
  indication : core.ctl.traceEn = false → core.topaPmi = false → core'.topaPmi = false
  reset : ∀ before, unreset before core.log = false → unreset before core'.log = false

structure Pauses (core core' : Core) : Prop where
  healthy : Healthy core'
  off : core'.ctl.traceEn = false
  runningStatus : core'.runningStatus = .paused
  env : ∀ e ∈ core'.env, e ∈ core.env
  indication : core.ctl.traceEn = false → core.topaPmi = true
  dpcQueue : ∃ dpcObject, (∃ e ∈ core.env, e.pmi = some dpcObject) ∧
    core'.dpcQueue = core.dpcQueue ++ if dpcObject then [.iptDpc] else []

theorem topaHw_indication (hoff : core.ctl.traceEn = false) :
    (topaHw core).topaPmi = core.topaPmi := by
  rw [topaHw]
  split
  · rfl
  · simp [Core.hardware, CoreEvent.topa, hoff]

theorem Healthy.passes_hw (h : Healthy core) : Passes core (topaHw core) := by
  obtain ⟨hctl, hoptions, hlog⟩ := topaHw_frame core
  refine ⟨h.follows.atHw, hctl, hoptions, fun hoff hno => ?_, fun before hr => ?_⟩
  · rw [topaHw_indication hoff, hno]
  · rw [hlog, hr]

theorem Passes.resetPmi (h : Passes core core') : Passes core (iptResetPmi topaHw core') := by
  have hw := h.follows.atHw
  obtain ⟨hctl, hoptions, -⟩ := topaHw_frame core'
  refine ⟨hw.wrote (fun _ hw => by cases hw), hctl.trans h.ctl, hoptions.trans h.options,
    fun _ _ => Bool.and_false _, fun before _ => ?_⟩
  exact (unreset_append before _ _).trans rfl

theorem topaIrq_eq (core : Core) : topaIrq core = interrupts topaHw core := by
  rw [topaIrq, interrupts, topaHw]
  cases core.env with
  | nil => rfl
  | cons e env => rfl

theorem shows_topaHw : Shows topaHw Shown.topaHw := by
  intro core
  rw [topaHw, Shown.topaHw]
  cases henv : core.env with
  | nil =>
    have hshown : core.shown.env = [] := henv
    rw [hshown]
  | cons e env =>
    have hshown : core.shown.env = e :: env := henv
    rw [hshown]
    simp [Core.shown, Core.hardware, CoreEvent.topa]

theorem keepsTraceEn_topaHw : KeepsTraceEn Shown.topaHw := by
  intro s
  rw [Shown.topaHw]
  split <;> rfl

theorem shows_topaIrq : Shows topaIrq (Shown.irq Shown.topaHw) := by
  intro core
  rw [topaIrq_eq, shows_topaHw.interrupts]

theorem topaIrq_cases (h : Healthy core) :
    Passes core (topaIrq core) ∨ Pauses core (topaIrq core) := by
  have hfirst := h.passes_hw
  rw [topaIrq_eq, interrupts]
  split
  · exact Or.inl hfirst
  · next e env henv =>
    split
    · exact Or.inl hfirst
    · next dpcObject hpmi =>
      have hsecond := hfirst.follows.healthy.passes_hw
      obtain ⟨hreason, hhandled⟩ | ⟨hreason, hhealthy, hoff, hstatus, henv', hqueue⟩ :=
        pmiHandler_cases hfirst.follows.healthy dpcObject
      · rw [hhandled]
        have hboth : Passes core (topaHw (topaHw core)) := by
          refine ⟨hfirst.follows.atHw, hsecond.ctl.trans hfirst.ctl,
            hsecond.options.trans hfirst.options, fun _ _ => hreason, fun before hr => ?_⟩
          exact hsecond.reset before (hfirst.reset before hr)
        exact Or.inl hboth.resetPmi
      · refine Or.inr ⟨hhealthy, hoff, hstatus, fun e he => hfirst.follows.env e (henv' e he), ?_,
          dpcObject, ⟨e, by rw [henv]; exact List.mem_cons_self, hpmi⟩, ?_⟩
        · intro hcore
          have hoff' : (topaHw core).ctl.traceEn = false := by rw [hfirst.ctl, hcore]
          rw [topaHw_indication hoff', topaHw_indication hcore] at hreason
          exact hreason
        · rw [hqueue, hfirst.follows.dpcQueue]

/-! The phases of IptDpc. -/

def DpcsServed (core : Core) : Prop :=
  core.dpcQueue ≠ [] ∨ ∀ e ∈ core.env, e.pmi ≠ some false

structure Halted (queued : Prop) (core : Core) : Prop where
  healthy : Healthy core
  off : core.ctl.traceEn = false
  notEnabled : core.runningStatus ≠ .enabled
  served : DpcsServed core
  queued : queued → core.dpcQueue ≠ []

structure Cleared (before : Bool) (core : Core) : Prop where
  halted : Halted False core
  indication : core.topaPmi = false
  reset : unreset before core.log = false

structure Restarted (before : Bool) (core : Core) : Prop where
  healthy : Healthy core
  on : core.ctl.traceEn = true
  served : DpcsServed core
  reset : unreset before core.log = false

structure Tracing (before : Bool) (core : Core) : Prop where
  healthy : Healthy core
  on : core.ctl.traceEn = true
  enabled : core.runningStatus = .enabled
  reset : unreset before core.log = false

variable {queued : Prop} {before : Bool}

theorem runningStatus_of_options (h : core'.options = core.options) :
    core'.runningStatus = core.runningStatus := by
  rw [Core.runningStatus, h, Core.runningStatus]

theorem Follows.served (h : Follows core core') (hs : DpcsServed core) : DpcsServed core' := by
  obtain hqueue | henv := hs
  · exact Or.inl (h.dpcQueue ▸ hqueue)
  · exact Or.inr fun e he => henv e (h.env e he)

theorem Pauses.served (h : Pauses core core') (hs : DpcsServed core) : core'.dpcQueue ≠ [] := by
  obtain ⟨dpcObject, ⟨e, he, hpmi⟩, hqueue⟩ := h.dpcQueue
  rw [hqueue]
  obtain hne | henv := hs
  · exact List.append_ne_nil_of_left_ne_nil hne _
  · cases dpcObject with
    | false => exact absurd hpmi (henv e he)
    | true => exact List.append_ne_nil_of_right_ne_nil _ (List.cons_ne_nil _ _)

theorem Pauses.halted (h : Pauses core core') (hs : DpcsServed core) : Halted True core' where
  healthy := h.healthy
  off := h.off
  notEnabled := by
    rw [h.runningStatus]
    decide
  served := Or.inl (h.served hs)
  queued _ := h.served hs

theorem Halted.weaken (h : Halted True core) : Halted queued core :=
  ⟨h.healthy, h.off, h.notEnabled, h.served, fun _ => h.queued trivial⟩

theorem Halted.atIrq (h : Halted queued core) : Halted queued (topaIrq core) := by
  obtain hpass | hpause := topaIrq_cases h.healthy
  · refine ⟨hpass.follows.healthy, ?_, ?_, hpass.follows.served h.served, fun hq => ?_⟩
    · rw [hpass.ctl, h.off]
    · rw [runningStatus_of_options hpass.options]
      exact h.notEnabled
    · rw [hpass.follows.dpcQueue]
      exact h.queued hq
  · exact (hpause.halted h.served).weaken

theorem Halted.wrote (h : Halted queued core) {w : MsrWrite} (hs : ∀ v, w ≠ .rtitStatus v)
    (hc : ∀ v, w ≠ .rtitCtl v) : Halted queued (wrote w core) := by
  have hfollows := h.healthy.follows.wrote hs
  refine ⟨hfollows.healthy, ?_, ?_, hfollows.served h.served, fun hq => ?_⟩
  · cases w with
    | rtitCtl v => exact absurd rfl (hc v)
    | _ => exact h.off
  · rw [runningStatus_of_options (options_wrote w core)]
    exact h.notEnabled
  · rw [hfollows.dpcQueue]
    exact h.queued hq

theorem Halted.resetPmi (h : Halted queued core) : Cleared before (iptResetPmi topaIrq core) where
  halted := by
    have hwrote : Halted queued (Driver.wrote (.perfGlobalOvfCtrl true) (topaIrq core)) :=
      h.atIrq.wrote (fun _ hw => by cases hw) (fun _ hw => by cases hw)
    exact ⟨hwrote.healthy, hwrote.off, hwrote.notEnabled, hwrote.served, fun hf => hf.elim⟩
  indication := Bool.and_false _
  reset := (unreset_append before _ _).trans rfl

theorem Cleared.atIrq (h : Cleared before core) : Cleared before (topaIrq core) := by
  obtain hpass | hpause := topaIrq_cases h.halted.healthy
  · exact ⟨h.halted.atIrq, hpass.indication h.halted.off h.indication, hpass.reset _ h.reset⟩
  · have hset := hpause.indication h.halted.off
    rw [h.indication] at hset
    cases hset

theorem Cleared.traceEn (h : Cleared before core) :
    Restarted before (writeTraceEn topaIrq true core) := by
  have htwice := h.atIrq.atIrq
  have hfollows := htwice.halted.healthy.follows.wrote
    (w := .rtitCtl { (topaIrq core).ctl with traceEn := true }) fun _ hw => by cases hw
  refine ⟨hfollows.healthy, rfl, hfollows.served htwice.halted.served, ?_⟩
  exact (unreset_append before _ _).trans htwice.reset

def Underway (before : Bool) (core : Core) : Prop := Restarted before core ∨ Halted True core

theorem Underway.atIrq (h : Underway before core) : Underway before (topaIrq core) := by
  obtain hon | hoff := h
  · obtain hpass | hpause := topaIrq_cases hon.healthy
    · refine Or.inl ⟨hpass.follows.healthy, ?_, hpass.follows.served hon.served,
        hpass.reset _ hon.reset⟩
      rw [hpass.ctl, hon.on]
    · exact Or.inr (hpause.halted hon.served)
  · exact Or.inr hoff.atIrq

theorem Halted.logged (h : Halted queued core) (e : LogEntry) : Halted queued (core.logged e) :=
  ⟨h.healthy.logged e, h.off, h.notEnabled, h.served, h.queued⟩

theorem Underway.decided (h : Underway before core) : Underway before (decided core) := by
  obtain hon | hoff := h
  · exact Or.inl ⟨hon.healthy.logged _, hon.on, hon.served,
      (unreset_append before _ _).trans hon.reset⟩
  · exact Or.inr (hoff.logged _)

theorem Underway.healthy (h : Underway before core) : Healthy core := by
  obtain hon | hoff := h
  · exact hon.healthy
  · exact hoff.healthy

theorem Cleared.clearPendingError (h : Cleared before core) :
    clearPendingError topaIrq core = topaIrq core := by
  have herror := h.atIrq.halted.healthy.error
  simp [Driver.clearPendingError, iptError, herror]

/-- IptEnableTrace succeeds, or a PMI has paused the core on the way and its DPC is queued. -/
theorem Cleared.enable (h : Cleared before core) (hstore : core.shown.StoreKept .topaHw) :
    Tracing before (iptEnableTrace topaIrq core).2 ∨
      Halted True (iptEnableTrace topaIrq core).2 := by
  let written := writeTraceEn topaIrq true (topaIrq core)
  let checked := decided (topaIrq written)
  let asked := decided (topaIrq checked)
  have hchecked : Underway before checked := (Underway.atIrq (Or.inl h.atIrq.traceEn)).decided
  have hasked : Underway before asked := hchecked.atIrq.decided
  have hdef : iptEnableTrace topaIrq core =
      if (topaIrq written).status.error then (.unsuccessful, returned checked)
      else if (topaIrq checked).triggerEn then
        (.success, returned (storeEnabled (topaIrq asked)))
      else (.unsuccessful, returned asked) := by
    simp only [iptEnableTrace, h.clearPendingError]
    rfl
  have herror : (topaIrq written).status.error = false := hchecked.healthy.error
  have hshown : asked.shown = core.shown.atIptEnabled .topaHw := by
    have hstarted : written.shown = core.shown.started (Shown.irq .topaHw) := by
      rw [← shows_topaIrq.started, h.clearPendingError]
    rw [Shown.atIptEnabled, Shown.atIptError, ← hstarted, ← shows_topaIrq written]
    exact shows_topaIrq checked
  rw [hdef, if_neg (by rw [herror]; decide)]
  by_cases hon : (topaIrq checked).triggerEn = true
  · rw [if_pos hon]
    have htrigger : asked.shown.triggerEn = true := hon
    have hstored : (topaIrq asked).ctl.traceEn = true := by
      have hkept := (keepsTraceEn_topaHw.irq (traceEn_of_triggerEn htrigger)).mpr fun hpauses =>
        hstore (hshown ▸ htrigger) (hshown ▸ hpauses.1)
      rw [← shows_topaIrq] at hkept
      exact hkept
    obtain hlast | hlast := hasked.atIrq
    · refine Or.inl ⟨((hlast.healthy.setRunningStatus .enabled).logged _).logged _, hlast.on,
        runningStatus_set hlast.healthy.initialized .enabled, ?_⟩
      have hstatus := runningStatus_set hlast.healthy.initialized .enabled
      simp only [returned, storeEnabled, Core.logged, unreset_append]
      rw [Core.runningStatus] at hstatus
      simp only [Core.runningStatus, hstatus]
      exact hlast.reset
    · rw [hlast.off] at hstored
      cases hstored
  · rw [if_neg hon]
    obtain hlast | hlast := hasked
    · have htrigger := hchecked.atIrq.healthy.triggerEn
      rw [Bool.eq_false_iff.mpr hon] at htrigger
      have hoff : asked.ctl.traceEn = false := htrigger.symm
      rw [hlast.on] at hoff
      cases hoff
    · exact Or.inr (hlast.logged _)

theorem Tracing.returned (h : Tracing before core) : Tracing before (returned core) := by
  refine ⟨h.healthy.logged _, h.on, h.enabled, ?_⟩
  simp only [Driver.returned, Core.logged, unreset_append, h.enabled, h.reset]
  rfl

theorem Cleared.resume (h : Cleared before core)
    (hstore : (core.shown.irq .topaHw).StoreKept .topaHw) :
    Tracing before (iptResumeTrace topaIrq core).2 ∨
      Halted True (iptResumeTrace topaIrq core).2 := by
  have hasked := h.atIrq
  have hoff : (topaIrq core).triggerEn = false := by
    rw [hasked.halted.healthy.triggerEn, hasked.halted.off]
  have hdef : (iptResumeTrace topaIrq core).2 =
      returned (iptEnableTrace topaIrq (topaIrq core)).2 := by
    simp [iptResumeTrace, iptEnabled, hoff]
  rw [hdef]
  rw [← shows_topaIrq] at hstore
  obtain hon | hpaused := hasked.enable hstore
  · exact Or.inl hon.returned
  · exact Or.inr (hpaused.logged _)

theorem Halted.storeNewTopa (h : Halted queued core) {options : IntelPtOutputOptions}
    (ho : core.options = some options) (topaTable : List TopaEntry) (newMdl : Option Mdl) :
    Halted queued (storeNewTopa options topaTable newMdl core) := by
  cases newMdl with
  | none => exact h
  | some mdl =>
    have hstatus := runningStatus_ne h.notEnabled ho
    exact ⟨⟨h.healthy.error, h.healthy.stopped, rfl⟩, h.off, hstatus, h.served, h.queued⟩

/-- A paused core stays so while its buffers are unlinked, which fails without pages. -/
theorem Halted.unlink (h : Halted queued core) {options : IntelPtOutputOptions}
    (ho : core.options = some options) (pages : Option Mdl) :
    Halted queued (iptUnlinkFullTopaBuffers topaIrq pages options core).2.2.2 ∧
      ((iptUnlinkFullTopaBuffers topaIrq pages options core).1 = .success ↔
        pages.isSome = true) := by
  have hstatus := runningStatus_ne h.notEnabled ho
  refine ⟨?_, unlink_success hstatus topaIrq pages core⟩
  let new := iptAllocateNewTopaBuffer options.topaEntries options.topaTable options.topaTablePa
    pages
  have hread := (h.storeNewTopa ho new.2.1 new.2.2).atIrq.atIrq
  simp only [iptUnlinkFullTopaBuffers, if_neg hstatus]
  exact (hread.atIrq.wrote (fun _ hw => by cases hw) (fun _ hw => by cases hw)).atIrq.wrote
    (fun _ hw => by cases hw) (fun _ hw => by cases hw)

/-- An IptDpc on a paused core, with another one queued or with its pages and its packet. -/
theorem Halted.dpc (h : Halted queued core) {pages : Option Mdl} {input : PacketInput}
    {r : Option CommBufferAddress × Core} (hr : iptDpc topaIrq pages input core = some r)
    (hserved : queued ∨ pages.isSome = true ∧ input.dto = true)
    (hstore : pages.isSome = true → input.dto = true →
      ((core.shown.reset .topaHw).irq .topaHw).StoreKept .topaHw) :
    Tracing before r.2 ∨ Halted True r.2 := by
  obtain ⟨options, ho, hr⟩ := Option.map_eq_some_iff.mp hr
  obtain ⟨hunlinked, hstatus⟩ := h.unlink ho pages
  have hshown := shows_topaIrq.unlink pages (runningStatus_ne h.notEnabled ho) core
  -- an early return: the core is as it was paused, and another IptDpc is queued
  have hearly : queued → Halted True (iptUnlinkFullTopaBuffers topaIrq pages options core).2.2.2 :=
    fun hq => ⟨hunlinked.healthy, hunlinked.off, hunlinked.notEnabled, hunlinked.served,
      fun _ => hunlinked.queued hq⟩
  simp only at hr
  split at hr
  · next hfail =>
    obtain hq | ⟨hpages, -⟩ := hserved
    · cases hr
      exact Or.inr (hearly hq)
    · exact absurd (hstatus.mpr hpages) hfail
  · next hsuccess =>
    split at hr
    · next hno =>
      obtain hq | ⟨-, hdto⟩ := hserved
      · cases hr
        exact Or.inr (hearly hq)
      · rw [hdto] at hno
        cases hno
    · next hdto =>
      cases hr
      have hcleared : Cleared before (iptResetPmi topaIrq
          (iptUnlinkFullTopaBuffers topaIrq pages options core).2.2.2) := hunlinked.resetPmi
      refine hcleared.resume ?_
      rw [shows_topaIrq.resetPmi, hshown]
      exact hstore (hstatus.mp (not_not.mp hsuccess)) (by simpa using hdto)

/-! Runs. -/

structure Recovering (s : PmiRun) : Prop where
  healthy : Healthy s.core
  phase : s.core.ctl.traceEn = true ∧ s.core.runningStatus = .enabled ∧
      unreset false s.log = false ∨
    s.core.ctl.traceEn = false ∧ s.core.runningStatus ≠ .enabled ∧ s.core.dpcQueue ≠ []

variable {s s' : PmiRun}

theorem Recovering.recovered (h : Recovering s) : Recovered s := by
  intro hqueue
  obtain hon | ⟨-, -, hne⟩ := h.phase
  · exact hon
  · exact absurd hqueue hne

theorem Tracing.recovering {log : List LogEntry} (h : Tracing (unreset false log) core) :
    Recovering { core := core, log := log ++ core.log } :=
  ⟨h.healthy, Or.inl ⟨h.on, h.enabled, by rw [unreset_append, h.reset]⟩⟩

theorem Halted.recovering (h : Halted True core) (log : List LogEntry) :
    Recovering { core := core, log := log } :=
  ⟨h.healthy, Or.inr ⟨h.off, h.notEnabled, h.queued trivial⟩⟩

theorem recovering_pmi (h : Recovering s) {dpcObject : Bool} {env : List CoreEvent}
    (hok : Served s (.pmi dpcObject env)) (hstep : s.step (.pmi dpcObject env) = some s') :
    Recovering s' := by
  have hstart : Healthy (s.core.start env) := ⟨h.healthy.error, h.healthy.stopped,
    h.healthy.initialized⟩
  cases hstep
  obtain ⟨-, hhandled⟩ | ⟨hreason, hhealthy, hoff, hstatus, -, hqueue⟩ :=
    pmiHandler_cases hstart dpcObject
  · have hpass : Passes (s.core.start env)
        (iptPmiHandler topaHw dpcObject (s.core.start env)) := by
      rw [hhandled]
      exact hstart.passes_hw.resetPmi
    have hsame := runningStatus_of_options hpass.options
    refine ⟨hpass.follows.healthy, ?_⟩
    obtain ⟨hon, henabled, hreset⟩ | ⟨hno, hne, hq⟩ := h.phase
    · refine Or.inl ⟨by rw [hpass.ctl]; exact hon, hsame.trans henabled, ?_⟩
      rw [unreset_append, hreset]
      exact hpass.reset false rfl
    · exact Or.inr ⟨by rw [hpass.ctl]; exact hno, hsame ▸ hne, by
        rw [hpass.follows.dpcQueue]; exact hq⟩
  · refine ⟨hhealthy, Or.inr ⟨hoff, by rw [hstatus]; decide, ?_⟩⟩
    rw [hqueue]
    obtain hobject | hq | hno := hok
    · rw [hobject]
      exact List.append_ne_nil_of_right_ne_nil _ (List.cons_ne_nil _ _)
    · exact List.append_ne_nil_of_left_ne_nil hq _
    · rw [hno] at hreason
      cases hreason

theorem recovering_dispatch (h : Recovering s) {pages : Option Mdl} {packet : PacketInput}
    {env : List CoreEvent} (hok : Served s (.dispatch pages packet env))
    (hstep : s.step (.dispatch pages packet env) = some s') : Recovering s' := by
  simp only [PmiRun.step] at hstep
  split at hstep
  · next rest hqueue =>
    obtain ⟨r, hr, rfl⟩ := Option.map_eq_some_iff.mp hstep
    have hhealthy : Healthy ({ s.core with dpcQueue := rest }.start env) :=
      ⟨h.healthy.error, h.healthy.stopped, h.healthy.initialized⟩
    obtain ⟨hon, henabled, hreset⟩ | ⟨hoff, hne, -⟩ := h.phase
    · -- a second IptDpc of one pause finds the core tracing and returns
      obtain ⟨options, ho, rfl⟩ := Option.map_eq_some_iff.mp hr
      have hstatus : options.runningStatus = .enabled := by
        have hcore : s.core.options = some options := ho
        rwa [Core.runningStatus, hcore] at henabled
      simp only [iptUnlinkFullTopaBuffers, if_pos hstatus]
      exact ⟨hhealthy, Or.inl ⟨hon, henabled, by rw [unreset_append, hreset]; rfl⟩⟩
    · obtain ⟨hserved, hstore⟩ := hok hne
      rw [hqueue, List.tail_cons] at hserved
      have hhalted : Halted (rest ≠ []) ({ s.core with dpcQueue := rest }.start env) :=
        ⟨hhealthy, hoff, hne, hserved.imp id fun h => h.2.2, id⟩
      have hlast : Tracing (unreset false s.log) r.2 ∨ Halted True r.2 :=
        hhalted.dpc hr (hserved.imp id fun h => ⟨h.1, h.2.1⟩) hstore
      obtain hon | hpaused := hlast
      · exact hon.recovering
      · exact hpaused.recovering _
  · cases hstep

structure TracingCore where
  core : Core
  healthy : Healthy core
  on : core.ctl.traceEn = true
  enabled : core.runningStatus = .enabled

theorem recovered_of_meets (tracing : TracingCore) (inputs : List PmiInput)
    (h : Meets PmiRun.step Served { core := tracing.core } inputs) :
    Every PmiRun.step Recovered { core := tracing.core } inputs := by
  refine every_of_meets Recovering (fun _ hs => hs.recovered) ?_ _ inputs ?_ h
  · intro s input s' hs hok hstep
    cases input with
    | pmi dpcObject env => exact recovering_pmi hs hok hstep
    | dispatch pages packet env => exact recovering_dispatch hs hok hstep
  · exact ⟨tracing.healthy, Or.inl ⟨tracing.on, tracing.enabled, rfl⟩⟩

def enabledCore : TracingCore where
  core := {
    ctl := { traceEn := true }
    options := some { runningStatus := .enabled, topaEntries := 10 } }
  healthy := ⟨rfl, rfl, rfl⟩
  on := rfl
  enabled := rfl

def topaPmiRaised : CoreEvent := { topaPmi := true }

/-- One PMI, and its IptDpc. -/
theorem recovered_one_pmi :
    let inputs : List PmiInput := [.pmi true [topaPmiRaised],
      .dispatch (some (tenPages 0)) { dto := true, element := true } []]
    Every PmiRun.step Recovered { core := enabledCore.core } inputs ∧
      (inputs.foldlM PmiRun.step { core := enabledCore.core }).map
        (·.core.runningStatus) = some .enabled :=
  ⟨recovered_of_meets enabledCore _ (by decide), by decide⟩

/-- There is no memory for the KDPC, and the core stays paused. -/
theorem not_recovered_no_dpc : ¬ ∀ (tracing : TracingCore) (inputs : List PmiInput),
    Every PmiRun.step Recovered { core := tracing.core } inputs := by
  intro h
  have hstep : ∃ s, PmiRun.step { core := enabledCore.core } (.pmi false [topaPmiRaised]) =
      some s ∧ s.core.dpcQueue = [] ∧ s.core.runningStatus = .paused :=
    ⟨_, rfl, by decide, by decide⟩
  obtain ⟨s, hs, hqueue, hpaused⟩ := hstep
  have hlast := (h enabledCore [.pmi false [topaPmiRaised]]).2 s hs
  rw [(hlast hqueue).2.1] at hpaused
  cases hpaused

end IntelPt.Driver
