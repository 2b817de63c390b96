import IntelPt.Driver.WindowsControl

/-! What the code sees of the hardware: TraceEn, what is pending, and what the environment is still
going to do. These alone decide where a PMI pauses the core and whether a look at the status
register tells TraceEn. -/
namespace IntelPt.Driver

structure Shown where
  traceEn : Bool
  error : Bool
  stopped : Bool
  topaPmi : Bool
  env : List CoreEvent

def Core.shown (core : Core) : Shown where
  traceEn := core.ctl.traceEn
  error := core.status.error
  stopped := core.status.stopped
  topaPmi := core.topaPmi
  env := core.env

namespace Shown

def triggerEn (s : Shown) : Bool := s.traceEn && !s.error && !s.stopped

def hw (s : Shown) : Shown :=
  match s.env with
  | [] => s
  | e :: env =>
    { traceEn := s.traceEn
      error := s.error || s.traceEn && e.error
      stopped := s.stopped || s.traceEn && e.stopped
      topaPmi := s.topaPmi || e.topaPmi
      env := env }

/-- Where IptPauseTrace asks IptEnabled: behind IptError, and behind one more look if there is an
error to report. -/
def asked (next : Shown → Shown) (s : Shown) : Shown :=
  let s := next s
  next (if s.error then next s else s)

def pause (next : Shown → Shown) (s : Shown) : Shown :=
  let s := asked next s
  if s.triggerEn then { next (next s) with traceEn := false } else s

def handler (next : Shown → Shown) (s : Shown) : Shown :=
  let s := next s
  if s.topaPmi then pause next s else { next s with topaPmi := false }

def interrupted (s : Shown) : Bool := s.env.head?.any (·.pmi.isSome)

def irq (next : Shown → Shown) (s : Shown) : Shown :=
  if s.interrupted then handler next (next s) else next s

def TopaPmi (next : Shown → Shown) (s : Shown) : Prop :=
  s.interrupted = true ∧ (next (next s)).topaPmi = true

instance (next : Shown → Shown) (s : Shown) : Decidable (s.TopaPmi next) :=
  inferInstanceAs (Decidable (_ ∧ _))

/-- A ToPA PMI is delivered at the next access, and the handler sees the core trace. -/
def Pauses (next : Shown → Shown) (s : Shown) : Prop :=
  s.TopaPmi next ∧ (asked next (next (next s))).triggerEn = true

instance (next : Shown → Shown) (s : Shown) : Decidable (s.Pauses next) :=
  inferInstanceAs (Decidable (_ ∧ _))

def wrote (w : MsrWrite) (s : Shown) : Shown :=
  match w with
  | .rtitCtl value => { s with traceEn := value.traceEn }
  | .rtitStatus value => { s with error := value.error, stopped := value.stopped }
  | .perfGlobalOvfCtrl clear => { s with topaPmi := s.topaPmi && !clear }
  | _ => s

def errorCleared (next : Shown → Shown) (s : Shown) : Shown :=
  let s := next s
  if s.error then
    let read := next s
    { next read with error := false, stopped := read.stopped }
  else s

def started (next : Shown → Shown) (s : Shown) : Shown :=
  { next (next (errorCleared next s)) with traceEn := true }

/-- Where IptEnableTrace, with TraceEn set, asks IptError. -/
def atIptError (next : Shown → Shown) (s : Shown) : Shown := irq next (started (irq next) s)

/-- Where it then asks IptEnabled. -/
def atIptEnabled (next : Shown → Shown) (s : Shown) : Shown := irq next (atIptError next s)

/-- No ToPA PMI is delivered between that, if it tells TriggerEn, and the store of
IPT_STATUS_ENABLED. -/
def StoreKept (next : Shown → Shown) (s : Shown) : Prop :=
  (s.atIptEnabled next).triggerEn = true → ¬ (s.atIptEnabled next).TopaPmi next

instance (next : Shown → Shown) (s : Shown) : Decidable (s.StoreKept next) :=
  inferInstanceAs (Decidable (_ → _))

/-- Behind IptUnlinkFullTopaBuffers and IptResetPmi. -/
def reset (next : Shown → Shown) (s : Shown) : Shown :=
  { irq next ((irq next)^[4] s) with topaPmi := false }

end Shown

def Shows (t : Core → Core) (next : Shown → Shown) : Prop :=
  ∀ core, (t core).shown = next core.shown

def KeepsTraceEn (next : Shown → Shown) : Prop := ∀ s, (next s).traceEn = s.traceEn

theorem shows_hw : Shows hw Shown.hw := by
  intro core
  rw [hw, Shown.hw]
  cases henv : core.env with
  | nil =>
    have hshown : core.shown.env = [] := henv
    rw [hshown]
  | cons e env =>
    have hshown : core.shown.env = e :: env := henv
    rw [hshown]
    rfl

theorem keepsTraceEn_hw : KeepsTraceEn Shown.hw := by
  intro s
  rw [Shown.hw]
  split <;> rfl

variable {t : Core → Core} {next : Shown → Shown}

theorem Shows.error (h : Shows t next) (core : Core) :
    (t core).status.error = (next core.shown).error :=
  congrArg Shown.error (h core)

theorem Shows.triggerEn (h : Shows t next) (core : Core) :
    (t core).triggerEn = (next core.shown).triggerEn :=
  congrArg Shown.triggerEn (h core)

theorem Shows.topaPmi (h : Shows t next) (core : Core) :
    (t core).topaPmi = (next core.shown).topaPmi :=
  congrArg Shown.topaPmi (h core)

theorem shown_wrote (w : MsrWrite) (core : Core) : (wrote w core).shown = core.shown.wrote w := by
  cases w <;> rfl

theorem Shows.write (h : Shows t next) (w : MsrWrite) (core : Core) :
    (writeMsr t w core).shown = (next core.shown).wrote w := by
  rw [writeMsr, shown_wrote, h core]

theorem Shows.writeTraceEn (h : Shows t next) (value : Bool) (core : Core) :
    (Driver.writeTraceEn t value core).shown =
      { next (next core.shown) with traceEn := value } := by
  rw [Driver.writeTraceEn, h.write, h core]
  rfl

theorem Shows.reportPendingError (h : Shows t next) (core : Core) :
    (t (reportPendingError t core)).shown = core.shown.asked next := by
  rw [h, Shown.asked, Driver.reportPendingError]
  simp only [iptError, iptEnabled, h.error]
  split
  · rw [h, h]
  · rw [h]

theorem Shows.pause (h : Shows t next) (core : Core) :
    (iptPauseTrace t core).shown = core.shown.pause next := by
  have hpause : (iptPauseTrace t core).shown =
      (clearIfEnabled t (Driver.reportPendingError t core)).shown := rfl
  have hasked := h.reportPendingError core
  have htrigger : (t (Driver.reportPendingError t core)).triggerEn =
      (core.shown.asked next).triggerEn := congrArg Shown.triggerEn hasked
  rw [hpause, clearIfEnabled, Shown.pause]
  simp only [iptEnabled, htrigger]
  split
  · rw [iptClearTraceEn, h.writeTraceEn]
    exact congrArg (fun s => { next (next s) with traceEn := false }) hasked
  · exact hasked

theorem Shows.resetPmi (h : Shows t next) (core : Core) :
    (iptResetPmi t core).shown = { next core.shown with topaPmi := false } := by
  rw [iptResetPmi, h.write]
  simp only [Shown.wrote, Bool.not_true, Bool.and_false]

theorem Shows.handler (h : Shows t next) (dpcObject : Bool) (core : Core) :
    (iptPmiHandler t dpcObject core).shown = core.shown.handler next := by
  have hdef : (iptPmiHandler t dpcObject core).shown = if (t core).topaPmi then
      (iptPauseTrace t (t core)).shown else (iptResetPmi t (t core)).shown := by
    simp only [iptPmiHandler, iptTopaPmiReason]
    by_cases hreason : (t core).topaPmi = true
    · simp only [hreason, Bool.not_true, Bool.false_eq_true, if_false, if_true]
      cases dpcObject <;> rfl
    · simp only [Bool.eq_false_iff.mpr hreason, Bool.not_false, if_true, Bool.false_eq_true,
        if_false]
  rw [hdef, Shown.handler, h.topaPmi]
  split
  · rw [h.pause, h core]
  · rw [h.resetPmi, h core]

def interrupts (t : Core → Core) (core : Core) : Core :=
  match core.env with
  | [] => t core
  | e :: _ =>
    match e.pmi with
    | none => t core
    | some dpcObject => iptPmiHandler t dpcObject (t core)

theorem irq_eq (core : Core) : irq core = interrupts hw core := by
  rw [irq, interrupts, hw]
  cases core.env with
  | nil => rfl
  | cons e env => rfl

theorem Shows.interrupts (h : Shows t next) (core : Core) :
    (interrupts t core).shown = core.shown.irq next := by
  have hinterrupted : core.shown.interrupted = core.env.head?.any (·.pmi.isSome) := rfl
  rw [Driver.interrupts, Shown.irq, hinterrupted]
  cases core.env with
  | nil => exact h core
  | cons e env =>
    cases hpmi : e.pmi with
    | none =>
      simp only [List.head?_cons, Option.any_some, hpmi, Option.isSome_none, Bool.false_eq_true,
        if_false]
      exact h core
    | some dpcObject =>
      simp only [List.head?_cons, Option.any_some, hpmi, Option.isSome_some, if_true]
      rw [h.handler, h core]

theorem shows_irq : Shows irq (Shown.irq Shown.hw) := by
  intro core
  rw [irq_eq, shows_hw.interrupts]

theorem Shows.clearPendingError (h : Shows t next) (core : Core) :
    (Driver.clearPendingError t core).shown = core.shown.errorCleared next := by
  rw [Driver.clearPendingError, Shown.errorCleared]
  simp only [iptError, h.error]
  split
  · have hread : (t (t core)).status.stopped = (next (next core.shown)).stopped := by
      rw [← h, ← h]
      rfl
    rw [iptClearError, h.write, h (t core), h core, Shown.wrote, hread]
  · exact h core

theorem Shows.started (h : Shows t next) (core : Core) :
    (Driver.writeTraceEn t true (Driver.clearPendingError t core)).shown =
      core.shown.started next := by
  rw [h.writeTraceEn, h.clearPendingError]
  rfl

theorem Shows.unlink (h : Shows t next) (pages : Option Mdl) {options : IntelPtOutputOptions}
    (hstatus : options.runningStatus ≠ .enabled) (core : Core) :
    (iptUnlinkFullTopaBuffers t pages options core).2.2.2.shown = next^[4] core.shown := by
  have hstore (topaTable : List TopaEntry) (newMdl : Option Mdl) :
      (storeNewTopa options topaTable newMdl core).shown = core.shown := by
    cases newMdl with
    | none => rfl
    | some mdl => rfl
  simp only [iptUnlinkFullTopaBuffers, if_neg hstatus]
  rw [h.write, h.write, h, h, hstore]
  rfl

theorem iptEnableTrace_eq (t : Core → Core) (core : Core) :
    let first := decided (t (writeTraceEn t true (clearPendingError t core)))
    let second := decided (t first)
    iptEnableTrace t core =
      if first.status.error then (.unsuccessful, returned first)
      else if second.triggerEn then (.success, returned (storeEnabled (t second)))
      else (.unsuccessful, returned second) := rfl

/-! TraceEn. -/

theorem KeepsTraceEn.asked (h : KeepsTraceEn next) (s : Shown) :
    (s.asked next).traceEn = s.traceEn := by
  rw [Shown.asked, h]
  split
  · rw [h, h]
  · rw [h]

theorem traceEn_of_triggerEn {s : Shown} (h : s.triggerEn = true) : s.traceEn = true := by
  simp only [Shown.triggerEn, Bool.and_eq_true] at h
  exact h.1.1

theorem KeepsTraceEn.irq_off (h : KeepsTraceEn next) {s : Shown} (hoff : s.traceEn = false) :
    (s.irq next).traceEn = false := by
  have hpause : ∀ s : Shown, s.traceEn = false → (s.pause next).traceEn = false := by
    intro s hoff
    rw [Shown.pause]
    split
    · rfl
    · exact (h.asked s).trans hoff
  rw [Shown.irq, Shown.handler]
  split_ifs
  · exact hpause _ (by rw [h, h, hoff])
  · exact (h _).trans (by rw [h, h, hoff])
  · exact (h s).trans hoff

/-- Between two accesses a core goes on tracing unless a PMI pauses it. -/
theorem KeepsTraceEn.irq (h : KeepsTraceEn next) {s : Shown} (hon : s.traceEn = true) :
    (s.irq next).traceEn = true ↔ ¬ s.Pauses next := by
  have hsecond : (next (next s)).traceEn = true := by rw [h, h, hon]
  rw [Shown.irq, Shown.Pauses, Shown.TopaPmi]
  cases s.interrupted with
  | false => simp [h s, hon]
  | true =>
    rw [if_pos rfl, Shown.handler, Shown.pause]
    cases htopa : (next (next s)).topaPmi with
    | false =>
      have hreset : (next (next (next s))).traceEn = true := (h _).trans hsecond
      simp [hreset]
    | true =>
      have hasked : (Shown.asked next (next (next s))).traceEn = true := (h.asked _).trans hsecond
      cases htrigger : (Shown.asked next (next (next s))).triggerEn with
      | false => simp [hasked]
      | true => simp

end IntelPt.Driver
