import IntelPt.Driver.WindowsControl

/-! Predicates of a core that the functions keep. A predicate is checked once against what the
hardware and single writes do; that every function keeps it is then said here. With `on` false
the predicate need not survive switching tracing on. -/
namespace IntelPt.Driver

theorem runningStatus_set {core : Core} (h : core.options.isSome = true)
    (status : IptRunningStatus) : (core.setRunningStatus status).runningStatus = status := by
  obtain ⟨options, ho⟩ := Option.isSome_iff_exists.mp h
  simp [Core.runningStatus, Core.setRunningStatus, ho]

@[simp] theorem options_hw (core : Core) : (hw core).options = core.options := by
  cases he : core.env <;> simp [hw, he, Core.hardware]

theorem options_wrote (w : MsrWrite) (core : Core) : (wrote w core).options = core.options := by
  cases w <;> rfl

def MsrWrite.enables : MsrWrite → Bool
  | .rtitCtl value => value.traceEn
  | _ => false

def LogEntry.isWrite : LogEntry → Bool
  | .write _ _ => true
  | _ => false

structure Stable (on : Bool) (P : Core → Prop) : Prop where
  hardware : ∀ core e env, P core → P ({ core with env := env }.hardware e)
  wrote : ∀ core w, (w.enables = true → on = true) → P core → P (wrote w core)
  runningStatus : ∀ core status, (status = .enabled → on = true) → P core →
    P (core.setRunningStatus status)
  logged : ∀ core (e : LogEntry), e.isWrite = false → P core → P (core.logged e)
  dpcQueue : ∀ core queue, P core → P { core with dpcQueue := queue }

variable {on : Bool} {P Q : Core → Prop} {t : Core → Core}

/-- What survives switching tracing on survives the rest. -/
theorem Stable.weaken (h : Stable true P) : Stable on P where
  hardware := h.hardware
  wrote core w _ := h.wrote core w fun _ => rfl
  runningStatus core status _ := h.runningStatus core status fun _ => rfl
  logged := h.logged
  dpcQueue := h.dpcQueue

theorem Stable.and (h : Stable on P) (k : Stable on Q) :
    Stable on fun core => P core ∧ Q core where
  hardware core e env hp := ⟨h.hardware core e env hp.1, k.hardware core e env hp.2⟩
  wrote core w hw hp := ⟨h.wrote core w hw hp.1, k.wrote core w hw hp.2⟩
  runningStatus core status hs hp :=
    ⟨h.runningStatus core status hs hp.1, k.runningStatus core status hs hp.2⟩
  logged core e he hp := ⟨h.logged core e he hp.1, k.logged core e he hp.2⟩
  dpcQueue core queue hp := ⟨h.dpcQueue core queue hp.1, k.dpcQueue core queue hp.2⟩

theorem Stable.returned (h : Stable on P) {core : Core} (hp : P core) : P (returned core) :=
  h.logged _ _ rfl hp

theorem Stable.decided (h : Stable on P) {core : Core} (hp : P core) : P (decided core) :=
  h.logged _ _ rfl hp

theorem Stable.storeEnabled (h : Stable true P) {core : Core} (hp : P core) :
    P (storeEnabled core) :=
  h.logged _ _ rfl (h.runningStatus _ _ (fun _ => rfl) hp)

theorem Stable.atHw (h : Stable on P) {core : Core} (hp : P core) : P (hw core) := by
  rw [hw]
  split
  · exact hp
  · exact h.hardware _ _ _ hp

theorem Stable.write (h : Stable on P) (ht : ∀ core, P core → P (t core)) {w : MsrWrite}
    (hw : w.enables = true → on = true) {core : Core} (hp : P core) : P (writeMsr t w core) :=
  h.wrote _ _ hw (ht _ hp)

theorem Stable.setTraceEn (h : Stable on P) (ht : ∀ core, P core → P (t core)) {value : Bool}
    (hv : value = true → on = true) {core : Core} (hp : P core) :
    P (writeTraceEn t value core) :=
  h.wrote _ _ hv (ht _ (ht _ hp))

theorem Stable.clearTraceEn (h : Stable on P) (ht : ∀ core, P core → P (t core)) {core : Core}
    (hp : P core) : P (iptClearTraceEn t core) :=
  h.setTraceEn ht (by intro hv; cases hv) hp

theorem Stable.clearError (h : Stable on P) (ht : ∀ core, P core → P (t core)) {core : Core}
    (hp : P core) : P (iptClearError t core) :=
  h.write ht (by intro hw; cases hw) (ht _ hp)

theorem Stable.resetPmi (h : Stable on P) (ht : ∀ core, P core → P (t core)) {core : Core}
    (hp : P core) : P (iptResetPmi t core) :=
  h.write ht (by intro hw; cases hw) hp

theorem Stable.clearPendingError (h : Stable on P) (ht : ∀ core, P core → P (t core))
    {core : Core} (hp : P core) : P (clearPendingError t core) := by
  simp only [Driver.clearPendingError]
  split
  · exact h.clearError ht (ht _ hp)
  · exact ht _ hp

theorem Stable.enable (h : Stable true P) (ht : ∀ core, P core → P (t core))
    {core : Core} (hp : P core) : P (iptEnableTrace t core).2 := by
  have hwrite : P (writeTraceEn t true (Driver.clearPendingError t core)) :=
    h.setTraceEn ht (fun _ => rfl) (h.clearPendingError ht hp)
  have herror := h.decided (ht _ hwrite)
  have henabled := h.decided (ht _ herror)
  simp only [iptEnableTrace]
  split
  · exact h.returned herror
  · split
    · exact h.returned (h.storeEnabled (ht _ henabled))
    · exact h.returned henabled

theorem Stable.disable (h : Stable on P) (ht : ∀ core, P core → P (t core))
    {core : Core} (hp : P core) : P (iptDisableTrace t core).2.2 :=
  h.returned (h.runningStatus _ _ nofun (ht _ (ht _ (h.clearTraceEn ht hp))))

theorem Stable.pause (h : Stable on P) (ht : ∀ core, P core → P (t core))
    {core : Core} (hp : P core) : P (iptPauseTrace t core) := by
  have hreport : P (reportPendingError t core) := by
    simp only [reportPendingError]
    split
    · exact ht _ (ht _ hp)
    · exact ht _ hp
  have hdecided := h.decided (ht _ hreport)
  have hclear : P (clearIfEnabled t (reportPendingError t core)) := by
    simp only [clearIfEnabled]
    split
    · exact h.clearTraceEn ht hdecided
    · exact hdecided
  exact h.returned (h.runningStatus _ _ nofun hclear)

theorem Stable.resume (h : Stable true P) (ht : ∀ core, P core → P (t core))
    {core : Core} (hp : P core) : P (iptResumeTrace t core).2 := by
  simp only [iptResumeTrace]
  split
  · exact h.returned (ht _ hp)
  · exact h.returned (h.enable ht (ht _ hp))

theorem Stable.pmiHandler (h : Stable on P) (ht : ∀ core, P core → P (t core))
    (dpcObject : Bool) {core : Core} (hp : P core) : P (iptPmiHandler t dpcObject core) := by
  have hreason := ht _ hp
  simp only [iptPmiHandler]
  split_ifs
  · exact h.resetPmi ht hreason
  · exact h.dpcQueue _ _ (h.pause ht hreason)
  · exact h.pause ht hreason

theorem Stable.atIrq (h : Stable on P) {core : Core} (hp : P core) : P (irq core) := by
  rw [irq]
  split
  · exact hp
  · next e env _ =>
    have he := h.hardware core e env hp
    split
    · exact he
    · exact h.pmiHandler (fun _ => h.atHw) _ he

theorem Stable.unlink (h : Stable on P) (ht : ∀ core, P core → P (t core))
    (pages : Option Mdl) (options : IntelPtOutputOptions) {core : Core} (hp : P core)
    (hstore : ∀ mdl topaTable, pages = some mdl → P (storeNewTopa options topaTable pages core)) :
    P (iptUnlinkFullTopaBuffers t pages options core).2.2.2 := by
  have hnew (topaTable : List TopaEntry) : P (storeNewTopa options topaTable
      (iptAllocateNewTopaBuffer options.topaEntries options.topaTable options.topaTablePa
        pages).2.2 core) := by
    cases pages with
    | none => exact hp
    | some mdl => exact hstore mdl topaTable rfl
  simp only [iptUnlinkFullTopaBuffers]
  split_ifs
  · exact hp
  · exact h.write ht (by intro hw; cases hw)
      (h.write ht (by intro hw; cases hw) (ht _ (ht _ (hnew _))))

theorem enables_of_mem_configureWrites {config : IntelPtConfiguration}
    {options : IntelPtOutputOptions} {w : MsrWrite} (hw : w ∈ configureWrites config options) :
    w.enables = false := by
  obtain ⟨-, rfl⟩ | ⟨n, hn⟩ | rfl | rfl | rfl := configureWrites_cases hw
  · rfl
  · simp only [addrWrites] at hn
    split at hn
    · simp only [List.mem_cons, List.not_mem_nil, or_false] at hn
      obtain rfl | rfl := hn <;> rfl
    · cases hn
  · rfl
  · rfl
  · rfl

theorem foldl_writeMsr {ws : List MsrWrite}
    (hws : ∀ w ∈ ws, ∀ core, P core → P (writeMsr t w core)) {core : Core} (hp : P core) :
    P (ws.foldl (fun core w => writeMsr t w core) core) := by
  induction ws generalizing core with
  | nil => exact hp
  | cons w ws ih =>
    have hfirst := hws w List.mem_cons_self core hp
    exact ih (fun v hv => hws v (List.mem_cons_of_mem w hv)) hfirst

theorem Stable.configure (h : Stable on P) (ht : ∀ core, P core → P (t core))
    (config : IntelPtConfiguration) (options : IntelPtOutputOptions) {core : Core}
    (hp : P core) : P (iptConfigureProcessorTrace t config options core) := by
  refine foldl_writeMsr (fun w hw core hp => ?_) hp
  have hoff := enables_of_mem_configureWrites hw
  exact h.write ht (by rw [hoff]; nofun) hp

theorem Stable.setup (h : Stable on P) (ht : ∀ core, P core → P (t core))
    (capabilities : Except NtStatus IntelPtCapabilities) (config : IntelPtConfiguration)
    (beyond : Nat → BitVec 32) (options : IntelPtOutputOptions) {core : Core} (hp : P core) :
    P (iptSetup t capabilities config beyond options core).2 := by
  simp only [iptSetup]
  split
  · exact h.configure ht config options hp
  · exact hp

/-- Without IPT_STATUS_ENABLED a buffer is unlinked exactly if there are pages for a new one. -/
theorem unlink_success {options : IntelPtOutputOptions} (h : options.runningStatus ≠ .enabled)
    (t : Core → Core) (pages : Option Mdl) (core : Core) :
    (iptUnlinkFullTopaBuffers t pages options core).1 = .success ↔ pages.isSome = true := by
  simp only [iptUnlinkFullTopaBuffers, if_neg h]
  cases pages with
  | none => exact iff_of_false (fun h => by cases h) (fun h => by cases h)
  | some mdl => exact iff_of_true rfl rfl

theorem runningStatus_ne {core : Core} {options : IntelPtOutputOptions}
    {status : IptRunningStatus} (h : core.runningStatus ≠ status)
    (ho : core.options = some options) : options.runningStatus ≠ status := by
  rw [Core.runningStatus, ho] at h
  exact h

/-! Such predicates. -/

theorem stable_logged (p : LogEntry → Prop) : Stable true fun core => ∃ e ∈ core.log, p e where
  hardware _ _ _ h := h
  wrote core w _ h := by
    obtain ⟨e, he, hp⟩ := h
    exact ⟨e, List.mem_append_left _ he, hp⟩
  runningStatus _ _ _ h := h
  logged core _ _ h := by
    obtain ⟨e, he, hp⟩ := h
    exact ⟨e, List.mem_append_left _ he, hp⟩
  dpcQueue _ _ h := h

theorem stable_traceOff : Stable false fun core => core.ctl.traceEn = false where
  hardware _ _ _ h := h
  wrote core w hw h := by
    cases w with
    | rtitCtl value => exact Bool.eq_false_iff.mpr fun hv => Bool.false_ne_true (hw hv)
    | _ => exact h
  runningStatus _ _ _ h := h
  logged _ _ _ h := h
  dpcQueue _ _ h := h

theorem traceEn_iptDisableTrace (core : Core) :
    (iptDisableTrace irq core).2.2.ctl.traceEn = false :=
  stable_traceOff.returned (stable_traceOff.runningStatus _ _ nofun
    (stable_traceOff.atIrq (stable_traceOff.atIrq rfl)))

theorem stable_initialized : Stable true fun core => core.options.isSome = true where
  hardware _ _ _ h := h
  wrote core w _ h := by cases w <;> exact h
  runningStatus core _ _ h := by
    rw [Core.setRunningStatus, Option.isSome_map]
    exact h
  logged _ _ _ h := h
  dpcQueue _ _ h := h

end IntelPt.Driver
