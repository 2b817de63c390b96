import IntelPt.Driver.CoreInvariants
import IntelPt.Driver.DriverOperations
import IntelPt.Lib.Runs

/-! Tracing sessions of one core: its DPC queue, the setup and disable DPCs, and PMIs at any
point. After the disable DPC the core stays quiet exactly as long as no late DPC gets through. -/
namespace IntelPt.Driver
open Runs

/-- A core with what it logged and enqueued since it is quiet, that is, since a disable DPC that
no setup DPC has followed. -/
structure Session where
  core : Core
  quiet : Bool := false
  log : List LogEntry := []
  sent : List CommBufferAddress := []

structure DpcInput where
  env : List CoreEvent := []
  pages : Option Mdl := none
  packet : PacketInput
  capabilities : Except NtStatus IntelPtCapabilities := .ok {}
  config : IntelPtConfiguration := {}
  beyond : Nat → BitVec 32 := fun _ => 0

inductive SessionInput where
  | insertSetup
  | insertDisable
  | pmi (dpcObject : Bool) (env : List CoreEvent)
  | dispatch (input : DpcInput)

def Session.insert (s : Session) (dpc : Dpc) : Session :=
  { s with core := { s.core with dpcQueue := s.core.dpcQueue ++ [dpc] } }

def Session.record (s : Session) (core : Core) (packet : Option CommBufferAddress) : Session where
  core := core
  quiet := s.quiet
  log := if s.quiet then s.log ++ core.log else []
  sent := if s.quiet then s.sent ++ packet.toList else []

def Session.runDpc (s : Session) (input : DpcInput) (core : Core) : Dpc → Option Session
  | .iptDpc => (iptDpc irq input.pages input.packet core).map fun r => s.record r.2 r.1
  | .perCoreSetup =>
    (ptwIpiPerCoreSetup irq input.capabilities input.config input.beyond core).map fun core =>
      { core := core }
  | .perCoreDisable =>
    (ptwDpcPerCoreDisable irq input.packet core).map fun r =>
      if s.quiet then s.record r.2 r.1 else { core := r.2, quiet := true }

def Session.step (s : Session) : SessionInput → Option Session
  | .insertSetup => some (s.insert .perCoreSetup)
  | .insertDisable => some (s.insert .perCoreDisable)
  | .pmi dpcObject env =>
    if s.core.options.isSome then
      some (s.record (iptPmiHandler hw dpcObject (s.core.start env)) none)
    else none
  | .dispatch input =>
    match s.core.dpcQueue with
    | [] => none
    | dpc :: rest => s.runDpc input ({ s.core with dpcQueue := rest }.start input.env) dpc

def LogEntry.enables : LogEntry → Bool
  | .write w _ => w.enables
  | _ => false

/-- While the core is quiet, TraceEn is and stays 0 and nothing is enqueued. -/
def StaysDisabled (s : Session) : Prop :=
  s.quiet = true →
    s.core.ctl.traceEn = false ∧ (∀ e ∈ s.log, e.enables = false) ∧ s.sent = []

/-- On a quiet core an IptDpc that gets a buffer and a packet, or a second disable DPC that gets
its packet into the queue. -/
def LateDpc (s : Session) : SessionInput → Prop
  | .dispatch input =>
    s.quiet = true ∧
      ((s.core.dpcQueue.head? = some .iptDpc ∧ input.pages.isSome = true ∧
          input.packet.dto = true) ∨
        (s.core.dpcQueue.head? = some .perCoreDisable ∧ input.packet.dto = true ∧
          input.packet.element = true))
  | _ => False

/-! A quiet core. -/

structure Off (core : Core) : Prop where
  traceOff : core.ctl.traceEn = false
  notEnabled : core.runningStatus ≠ .enabled
  silent : ∀ e ∈ core.log, e.enables = false
  initialized : core.options.isSome = true

theorem enables_of_not_isWrite {e : LogEntry} (h : e.isWrite = false) : e.enables = false := by
  cases e with
  | write => cases h
  | _ => rfl

theorem stable_silent : Stable false fun core => ∀ e ∈ core.log, e.enables = false where
  hardware _ _ _ h := h
  wrote core w hw h := by
    intro e he
    obtain he | he := List.mem_append.mp he
    · exact h e he
    · rw [List.mem_singleton.mp he]
      exact Bool.eq_false_iff.mpr fun hv => Bool.false_ne_true (hw hv)
  runningStatus _ _ _ h := h
  logged core e' he' h := by
    intro e he
    obtain he | he := List.mem_append.mp he
    · exact h e he
    · rw [List.mem_singleton.mp he]
      exact enables_of_not_isWrite he'
  dpcQueue _ _ h := h

theorem stable_enabling : Stable true fun core => ∃ e ∈ core.log, e.enables = true :=
  stable_logged fun e => e.enables = true

theorem stable_off : Stable false Off where
  hardware _ _ _ h := ⟨h.traceOff, h.notEnabled, h.silent, h.initialized⟩
  wrote core w hw h := by
    refine ⟨stable_traceOff.wrote core w hw h.traceOff, ?_,
      stable_silent.wrote core w hw h.silent, ?_⟩
    · rw [Core.runningStatus, options_wrote]
      exact h.notEnabled
    · rw [options_wrote]
      exact h.initialized
  runningStatus core status hs h := by
    refine ⟨h.traceOff, ?_, h.silent, stable_initialized.runningStatus _ _ (fun _ => rfl)
      h.initialized⟩
    rw [runningStatus_set h.initialized]
    exact fun he => Bool.false_ne_true (hs he)
  logged core e he h := ⟨h.traceOff, h.notEnabled, stable_silent.logged core e he h.silent,
    h.initialized⟩
  dpcQueue _ _ h := ⟨h.traceOff, h.notEnabled, h.silent, h.initialized⟩

theorem Off.start {core : Core} (h : Off core) (env : List CoreEvent) (queue : List Dpc) :
    Off ({ core with dpcQueue := queue }.start env) :=
  ⟨h.traceOff, h.notEnabled, by simp [Core.start], h.initialized⟩

theorem off_disable {core : Core} (hi : core.options.isSome = true)
    (hs : ∀ e ∈ core.log, e.enables = false) : Off (iptDisableTrace irq core).2.2 := by
  have hst : Stable false fun core =>
      core.options.isSome = true ∧ ∀ e ∈ core.log, e.enables = false :=
    stable_initialized.weaken.and stable_silent
  have hcleared : (iptClearTraceEn irq core).options.isSome = true ∧
      ∀ e ∈ (iptClearTraceEn irq core).log, e.enables = false :=
    hst.clearTraceEn (fun _ => hst.atIrq) ⟨hi, hs⟩
  obtain ⟨hinit, hsilent⟩ := hst.atIrq (hst.atIrq hcleared)
  refine ⟨traceEn_iptDisableTrace core, ?_, stable_silent.returned hsilent,
    stable_initialized.runningStatus _ _ (fun _ => rfl) hinit⟩
  change (Core.setRunningStatus _ _).runningStatus ≠ _
  rw [runningStatus_set hinit]
  decide

theorem off_unlink {core : Core} (h : Off core) {options : IntelPtOutputOptions}
    (ho : core.options = some options) (pages : Option Mdl) :
    Off (iptUnlinkFullTopaBuffers irq pages options core).2.2.2 ∧
      ((iptUnlinkFullTopaBuffers irq pages options core).1 = .success ↔ pages.isSome = true) := by
  have hne := runningStatus_ne h.notEnabled ho
  refine ⟨?_, unlink_success hne irq pages core⟩
  refine stable_off.unlink (fun _ => stable_off.atIrq) pages options h ?_
  intro mdl topaTable hpages
  subst hpages
  exact ⟨h.traceOff, hne, h.silent, rfl⟩

theorem off_iptDpc {core : Core} (h : Off core) {pages : Option Mdl} {input : PacketInput}
    (hlate : ¬ (pages.isSome = true ∧ input.dto = true)) :
    ∃ core', iptDpc irq pages input core = some (none, core') ∧ Off core' := by
  obtain ⟨options, ho⟩ := Option.isSome_iff_exists.mp h.initialized
  obtain ⟨hoff, hstatus⟩ := off_unlink h ho pages
  refine ⟨_, ?_, hoff⟩
  simp only [iptDpc, ho, Option.map_some]
  by_cases hs : (iptUnlinkFullTopaBuffers irq pages options core).1 = .success
  · have hdto : input.dto = false := by
      cases hd : input.dto with
      | false => rfl
      | true => exact absurd ⟨hstatus.mp hs, hd⟩ hlate
    simp [hs, hdto]
  · simp [hs]

/-- Enabling writes RTIT_CTL with TraceEn, whether it succeeds or not. -/
theorem enabling_iptEnableTrace (core : Core) :
    ∃ e ∈ (iptEnableTrace irq core).2.log, e.enables = true := by
  have hwrite : ∃ e ∈ (writeTraceEn irq true (clearPendingError irq core)).log,
      e.enables = true := ⟨_, List.mem_append_right _ (List.mem_singleton_self _), rfl⟩
  have hirq : ∀ core : Core, (∃ e ∈ core.log, e.enables = true) →
      ∃ e ∈ (irq core).log, e.enables = true := fun _ => stable_enabling.atIrq
  have herror := stable_enabling.decided (hirq _ hwrite)
  have henabled := stable_enabling.decided (hirq _ herror)
  simp only [iptEnableTrace]
  split
  · exact stable_enabling.returned herror
  · split
    · exact stable_enabling.returned (stable_enabling.storeEnabled (hirq _ henabled))
    · exact stable_enabling.returned henabled

theorem enabling_iptResumeTrace {core : Core} (h : Off core) :
    ∃ e ∈ (iptResumeTrace irq core).2.log, e.enables = true := by
  have hoff : Off (irq core) := stable_off.atIrq h
  have hnot : (iptEnabled irq core).1 = false := by
    simp [iptEnabled, Core.triggerEn, hoff.traceOff]
  simp only [iptResumeTrace, hnot, Bool.false_eq_true, if_false]
  exact stable_enabling.returned (enabling_iptEnableTrace _)

/-- An IptDpc that gets its buffer and its packet switches tracing on. -/
theorem late_iptDpc {core : Core} (h : Off core) {pages : Option Mdl} {input : PacketInput}
    (hpages : pages.isSome = true) (hdto : input.dto = true) :
    ∃ r, iptDpc irq pages input core = some r ∧ ∃ e ∈ r.2.log, e.enables = true := by
  obtain ⟨options, ho⟩ := Option.isSome_iff_exists.mp h.initialized
  obtain ⟨hoff, hstatus⟩ := off_unlink h ho pages
  have hreset := stable_off.resetPmi (fun _ => stable_off.atIrq) hoff
  let unlinked := iptUnlinkFullTopaBuffers irq pages options core
  refine ⟨(enqueued input false unlinked.2.2.1 unlinked.2.1, _), ?_,
    enabling_iptResumeTrace hreset⟩
  simp only [iptDpc, ho, Option.map_some, hstatus.mpr hpages, hdto]
  rfl

/-! Runs. -/

structure Quiet (s : Session) : Prop where
  off : Off s.core
  silent : ∀ e ∈ s.log, e.enables = false
  sent : s.sent = []

theorem Quiet.staysDisabled {s : Session} (h : Quiet s) : StaysDisabled s :=
  fun _ => ⟨h.off.traceOff, h.silent, h.sent⟩

theorem Quiet.record {s : Session} (h : Quiet s) {core : Core} (hoff : Off core) :
    Quiet (s.record core none) where
  off := hoff
  silent := by
    intro e he
    simp only [Session.record] at he
    split at he
    · exact (List.mem_append.mp he).elim (h.silent e) (hoff.silent e)
    · cases he
  sent := by simp [Session.record, h.sent]

theorem Quiet.insert {s : Session} (h : Quiet s) (dpc : Dpc) : Quiet (s.insert dpc) :=
  ⟨stable_off.dpcQueue _ _ h.off, h.silent, h.sent⟩

theorem enqueued_eq_none {input : PacketInput}
    (h : ¬ (input.dto = true ∧ input.element = true)) (lastPacket : Bool) (size : BitVec 32)
    (mdl : Option Mdl) : enqueued input lastPacket size mdl = none := by
  rw [enqueued, if_neg (by rwa [Bool.and_eq_true])]

theorem quiet_iptDpc {s s' : Session} {input : DpcInput} {rest : List Dpc} (h : Quiet s)
    (hlate : ¬ (input.pages.isSome = true ∧ input.packet.dto = true))
    (hrun : s.runDpc input ({ s.core with dpcQueue := rest }.start input.env) .iptDpc = some s') :
    Quiet s' := by
  simp only [Session.runDpc, Option.map_eq_some_iff] at hrun
  obtain ⟨r, hr, rfl⟩ := hrun
  obtain ⟨core', hdpc, hoff⟩ := off_iptDpc (h.off.start input.env rest) hlate
  rw [hdpc] at hr
  cases hr
  exact h.record hoff

/-- The disable DPC makes a core quiet, unless it is one too many. -/
theorem quiet_perCoreDisable {s s' : Session} {input : DpcInput} {rest : List Dpc}
    (h : s.quiet = true → Quiet s)
    (hlate : s.quiet = true → ¬ (input.packet.dto = true ∧ input.packet.element = true))
    (hrun : s.runDpc input ({ s.core with dpcQueue := rest }.start input.env) .perCoreDisable =
      some s') : Quiet s' := by
  simp only [Session.runDpc, ptwDpcPerCoreDisable, Option.map_map, Option.map_eq_some_iff] at hrun
  obtain ⟨options, ho, rfl⟩ := hrun
  have hoff : Off (iptDisableTrace irq ({ s.core with dpcQueue := rest }.start input.env)).2.2 :=
    off_disable (by rw [ho]; rfl) (by simp [Core.start])
  by_cases hquiet : s.quiet = true
  · simp only [Function.comp_apply, hquiet, if_true, enqueued_eq_none (hlate hquiet)]
    exact (h hquiet).record hoff
  · simp only [Function.comp_apply, hquiet]
    exact ⟨hoff, by simp, rfl⟩

/-- One step keeps a quiet core quiet, or a setup ends the quiet, unless a DPC is late. -/
theorem quiet_step {s s' : Session} {input : SessionInput} (h : s.quiet = true → Quiet s)
    (hok : ¬ LateDpc s input) (hstep : s.step input = some s') (hq : s'.quiet = true) :
    Quiet s' := by
  cases input with
  | insertSetup =>
    cases hstep
    exact (h hq).insert _
  | insertDisable =>
    cases hstep
    exact (h hq).insert _
  | pmi dpcObject env =>
    simp only [Session.step] at hstep
    split at hstep
    · cases hstep
      have hs := h hq
      exact hs.record
        (stable_off.pmiHandler (fun _ => stable_off.atHw) _ (hs.off.start env s.core.dpcQueue))
    · cases hstep
  | dispatch input =>
    simp only [Session.step] at hstep
    cases hqueue : s.core.dpcQueue with
    | nil => rw [hqueue] at hstep; cases hstep
    | cons dpc rest =>
      rw [hqueue] at hstep
      cases dpc with
      | iptDpc =>
        have hquiet : s.quiet = true := by
          simp only [Session.runDpc, Option.map_eq_some_iff] at hstep
          obtain ⟨r, -, rfl⟩ := hstep
          exact hq
        exact quiet_iptDpc (h hquiet)
          (fun hl => hok ⟨hquiet, Or.inl ⟨by rw [hqueue]; rfl, hl.1, hl.2⟩⟩) hstep
      | perCoreSetup =>
        simp only [Session.runDpc, Option.map_eq_some_iff] at hstep
        obtain ⟨core, -, rfl⟩ := hstep
        cases hq
      | perCoreDisable =>
        exact quiet_perCoreDisable h
          (fun hquiet hl => hok ⟨hquiet, Or.inr ⟨by rw [hqueue]; rfl, hl.1, hl.2⟩⟩) hstep

/-- A late DPC runs, and breaks the quiet. -/
theorem not_staysDisabled_of_late {s : Session} {input : SessionInput}
    (h : s.quiet = true → Quiet s) (hlate : LateDpc s input) :
    ∃ s', s.step input = some s' ∧ ¬ StaysDisabled s' := by
  cases input with
  | insertSetup | insertDisable | pmi => exact hlate.elim
  | dispatch input =>
    obtain ⟨hq, hlate⟩ := hlate
    have hs := h hq
    cases hqueue : s.core.dpcQueue with
    | nil => rw [hqueue] at hlate; simp at hlate
    | cons dpc rest =>
      rw [hqueue] at hlate
      have hoff := hs.off.start input.env rest
      obtain ⟨hd, hpages, hdto⟩ | ⟨hd, hdto, helement⟩ := hlate
      · obtain rfl : dpc = .iptDpc := by simpa using hd
        obtain ⟨r, hdpc, e, he, hv⟩ := late_iptDpc hoff hpages hdto
        refine ⟨s.record r.2 r.1, by simp [Session.step, hqueue, Session.runDpc, hdpc], ?_⟩
        intro hstays
        have hno := (hstays hq).2.1 e (by simp [Session.record, hq, he])
        rw [hno] at hv
        cases hv
      · obtain rfl : dpc = .perCoreDisable := by simpa using hd
        obtain ⟨options, ho⟩ := Option.isSome_iff_exists.mp hoff.initialized
        refine ⟨_, by simp only [Session.step, hqueue, Session.runDpc, ptwDpcPerCoreDisable, ho,
          Option.map_some, hq, if_true]; rfl, ?_⟩
        intro hstays
        have hnil := (hstays hq).2.2
        simp [Session.record, hq, hs.sent, enqueued, hdto, helement] at hnil

theorem staysDisabled_iff (core : Core) (inputs : List SessionInput) :
    Every Session.step StaysDisabled { core := core } inputs ↔
      Meets Session.step (fun s input => ¬ LateDpc s input) { core := core } inputs := by
  refine every_iff_meets (fun s => s.quiet = true → Quiet s) ?_ ?_ ?_ _ _ nofun
  · exact fun s h hq => (h hq).staysDisabled hq
  · exact fun s input s' h hok hstep => quiet_step h hok hstep
  · exact fun s input h hlate => not_staysDisabled_of_late h (not_not.mp hlate)

def tracingCore : Core where
  ctl := { traceEn := true }
  options := (initStores topaCapabilities initAlloc).map fun options =>
    { options with runningStatus := .enabled }

/-- A PMI comes after the disable DPC was inserted; its DPC resumes the trace. -/
theorem not_staysDisabled_pmi_behind_disable :
    ¬ ∀ core inputs, Every Session.step StaysDisabled { core := core } inputs := by
  intro h
  let inputs : List SessionInput := [.insertDisable, .pmi true [{ topaPmi := true }],
    .dispatch { packet := { dto := true, element := true } },
    .dispatch { pages := some (tenPages 1), packet := { dto := true, element := true } }]
  have hrun : (inputs.foldlM Session.step { core := tracingCore }).map
      (fun s => (s.quiet, s.core.ctl.traceEn)) = some (true, true) := by decide +kernel
  obtain ⟨s, hs, hq⟩ := Option.map_eq_some_iff.mp hrun
  obtain ⟨hquiet, hon⟩ := Prod.mk.inj hq
  have hoff := ((h tracingCore inputs).last hs hquiet).1
  rw [hon] at hoff
  cases hoff

end IntelPt.Driver
