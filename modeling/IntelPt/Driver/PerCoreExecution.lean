import IntelPt.Driver.ProcessorTraceShared
import IntelPt.Lib.Runs
import Mathlib.Algebra.Group.Nat.Defs
import Mathlib.Data.List.Count

/-! PtwExecuteAndWaitPerCore. Its frame holds the structure that every queued DPC points to, so
it must not return while one of them has still to finish. One step is one iteration of its loop,
one look at the counter, or the beginning or end of a DPC on its core. -/
namespace IntelPt.Driver
open Runs

inductive ExecutionLevel where
  | ipi | dpc
  deriving DecidableEq, Repr

inductive DpcState where
  | queued | running | finished
  deriving DecidableEq, Repr

/-- A KDPC of the call, with the CCHAR that KeSetTargetProcessorDpc got. -/
structure PerCoreDpc where
  target : BitVec 8
  state : DpcState
  deriving DecidableEq, Repr

def PerCoreDpc.Finished (dpc : PerCoreDpc) : Prop := dpc.state = .finished

instance (dpc : PerCoreDpc) : Decidable dpc.Finished := inferInstanceAs (Decidable (_ = _))

inductive CallerPc where
  /-- at the head of the loop -/
  | queueing (i : Nat)
  | ipiCall
  /-- at the loop that reads the counter -/
  | waiting
  | returned (status : NtStatusCode)
  deriving DecidableEq, Repr

structure Execution where
  numberOfCores : Nat
  executionLevel : ExecutionLevel := .dpc
  caller : CallerPc
  dpcs : List PerCoreDpc := []
  dpcCounter : BitVec 16 := 0
  ipiCounter : BitVec 16 := 0
  /-- the cores on which the routine was called -/
  ran : List Nat := []

inductive ExecutionInput where
  /-- the caller goes on; in the loop, whether the KDPC is allocated and inserted -/
  | caller (allocated inserted : Bool)
  /-- the core takes the DPC off its queue -/
  | start (k : Nat)
  | finish (k : Nat)

def ptwExecuteAndWaitPerCore (level : ExecutionLevel) (numberOfCores : Nat) : Execution where
  numberOfCores := numberOfCores
  executionLevel := level
  caller := if level = .dpc then .queueing 0 else .ipiCall

def Execution.ipiGenericCall (s : Execution) : Execution :=
  { s with
    caller := .waiting
    ipiCounter := s.ipiCounter + BitVec.ofNat 16 s.numberOfCores
    ran := if s.executionLevel = .ipi then s.ran ++ List.range s.numberOfCores else s.ran }

/-- The counter is a SHORT and is compared as an int. -/
def Execution.counter (s : Execution) : Int :=
  if s.executionLevel = .dpc then s.dpcCounter.toInt else s.ipiCounter.toInt

def Execution.callerStep (s : Execution) (allocated inserted : Bool) : Option Execution :=
  match s.caller with
  | .queueing i =>
    if i < s.numberOfCores then
      if !allocated then some { s with caller := .returned statusInsufficientResources }
      else if !inserted then some { s with caller := .returned statusAccessDenied }
      else some { s with
        caller := .queueing (i + 1)
        dpcs := s.dpcs ++ [⟨BitVec.ofNat 8 i, .queued⟩] }
    else some { s with caller := .ipiCall }
  | .ipiCall => some s.ipiGenericCall
  | .waiting =>
    if s.counter = s.numberOfCores then some { s with caller := .returned statusSuccess }
    else some s
  | .returned _ => none

def Execution.core (s : Execution) (dpc : PerCoreDpc) : Option Nat :=
  if 0 ≤ dpc.target.toInt ∧ dpc.target.toInt < s.numberOfCores then some dpc.target.toInt.toNat
  else none

/-- IptGenericDpcFunction up to the return of the routine's call, and the rest of it. Once the
caller has returned the structure is gone, and what a DPC does has no result. -/
def Execution.step (s : Execution) : ExecutionInput → Option Execution
  | .caller allocated inserted => s.callerStep allocated inserted
  | .start k =>
    match s.caller, s.dpcs[k]? with
    | .returned _, _ | _, none => none
    | _, some dpc =>
      if dpc.state = .queued then
        (s.core dpc).map fun cpu => { s with
          dpcs := s.dpcs.set k { dpc with state := .running }
          ran := if s.executionLevel = .dpc then s.ran ++ [cpu] else s.ran }
      else none
  | .finish k =>
    match s.caller, s.dpcs[k]? with
    | .returned _, _ | _, none => none
    | _, some dpc =>
      if dpc.state = .running then some { s with
        dpcs := s.dpcs.set k { dpc with state := .finished }
        dpcCounter := s.dpcCounter + 1 }
      else none

/-- What is left to do, the caller waiting once in each place. -/
def CallerPc.work (numberOfCores : Nat) : CallerPc → Nat
  | .queueing i => 3 * (numberOfCores - i) + 3
  | .ipiCall => 2
  | .waiting => 1
  | .returned _ => 0

def Execution.work (s : Execution) : Nat :=
  s.caller.work s.numberOfCores + 2 * s.dpcs.countP (fun dpc => dpc.state = .queued) +
    s.dpcs.countP (fun dpc => dpc.state = .running)

/-- When the call returns no DPC of it is left, and with success the routine has run once on
each core. It does return: every DPC is on a core that can run it, and there is always a step
that leaves less to do. -/
structure AllOrNothing (s : Execution) : Prop where
  finished : ∀ status, s.caller = .returned status → ∀ dpc ∈ s.dpcs, dpc.Finished
  once : ∀ status, s.caller = .returned status → status.NtSuccess →
    ∀ cpu < s.numberOfCores, s.ran.count cpu = 1
  runnable : ∀ dpc ∈ s.dpcs, (s.core dpc).isSome
  progress : (∀ status, s.caller ≠ .returned status) →
    ∃ input s', s.step input = some s' ∧ s'.work < s.work

/-- An allocation or insertion fails only when every DPC queued so far has finished, and no DPC
is queued for a core whose number is no CCHAR. -/
def FailsClean (s : Execution) : ExecutionInput → Prop
  | .caller allocated inserted =>
    match s.caller with
    | .queueing i => i < s.numberOfCores →
      if allocated && inserted then i < 128 else ∀ dpc ∈ s.dpcs, dpc.Finished
    | .ipiCall | .waiting | .returned _ => True
  | .start _ | .finish _ => True

/-! No step leaves more to do, and only a look at the counter that is too early as much. -/

theorem start_work {s s' : Execution} {k : Nat} (h : s.step (.start k) = some s') :
    s'.work < s.work := by
  simp only [Execution.step] at h
  split at h
  · cases h
  · cases h
  · next dpc hk _ =>
    split at h
    · next hqueued =>
      obtain ⟨cpu, -, rfl⟩ := Option.map_eq_some_iff.mp h
      obtain ⟨hlt, hget⟩ := List.getElem?_eq_some_iff.mp hk
      have hpos : 0 < s.dpcs.countP fun dpc => dpc.state = .queued :=
        List.countP_pos_iff.mpr ⟨dpc, List.mem_of_getElem? hk, decide_eq_true hqueued⟩
      simp only [Execution.work, List.countP_set hlt, hget, hqueued]
      simp only [decide_true, if_true, reduceCtorEq, decide_false, Bool.false_eq_true, if_false]
      omega
    · cases h

theorem finish_work {s s' : Execution} {k : Nat} (h : s.step (.finish k) = some s') :
    s'.work < s.work := by
  simp only [Execution.step] at h
  split at h
  · cases h
  · cases h
  · next dpc hk _ =>
    split at h
    · next hrunning =>
      cases h
      obtain ⟨hlt, hget⟩ := List.getElem?_eq_some_iff.mp hk
      have hpos : 0 < s.dpcs.countP fun dpc => dpc.state = .running :=
        List.countP_pos_iff.mpr ⟨dpc, List.mem_of_getElem? hk, decide_eq_true hrunning⟩
      simp only [Execution.work, List.countP_set hlt, hget, hrunning]
      simp only [decide_true, if_true, reduceCtorEq, decide_false, Bool.false_eq_true, if_false]
      omega
    · cases h

theorem callerStep_work {s s' : Execution} {allocated inserted : Bool}
    (h : s.callerStep allocated inserted = some s') :
    s'.work < s.work ∨ s' = s ∧ s.caller = .waiting ∧ s.counter ≠ s.numberOfCores := by
  simp only [Execution.callerStep] at h
  split at h
  · next i hpc =>
    refine Or.inl ?_
    split at h
    · split at h
      · cases h
        simp only [Execution.work, hpc, CallerPc.work]
        omega
      · split at h
        · cases h
          simp only [Execution.work, hpc, CallerPc.work]
          omega
        · cases h
          simp only [Execution.work, hpc, CallerPc.work, List.countP_append, List.countP_singleton]
          simp only [decide_true, if_true, reduceCtorEq, decide_false, Bool.false_eq_true, if_false]
          omega
    · cases h
      simp only [Execution.work, hpc, CallerPc.work]
      omega
  · next hpc =>
    cases h
    refine Or.inl ?_
    simp only [Execution.work, Execution.ipiGenericCall, hpc, CallerPc.work]
    omega
  · next hpc =>
    split at h
    · cases h
      refine Or.inl ?_
      simp only [Execution.work, hpc, CallerPc.work]
      omega
    · next hcount =>
      cases h
      exact Or.inr ⟨rfl, hpc, hcount⟩
  · cases h

/-- Every step but a look at the counter that comes too early leaves less to do. -/
theorem step_work {s s' : Execution} {input : ExecutionInput} (h : s.step input = some s') :
    s'.work < s.work ∨ s' = s ∧ s.caller = .waiting ∧ s.counter ≠ s.numberOfCores := by
  cases input with
  | caller allocated inserted => exact callerStep_work h
  | start k => exact Or.inl (start_work h)
  | finish k => exact Or.inl (finish_work h)

def Execution.Queued (s : Execution) : CallerPc → Prop
  | .queueing i => s.dpcs.length = i
  | .ipiCall | .waiting => s.dpcs.length = s.numberOfCores
  | .returned status => (∀ dpc ∈ s.dpcs, dpc.Finished) ∧
      (status.NtSuccess → s.dpcs.length = s.numberOfCores)

structure Execution.Inv (s : Execution) : Prop where
  level : s.executionLevel = .dpc
  length_le : s.dpcs.length ≤ 128
  length_cores : s.dpcs.length ≤ s.numberOfCores
  targets : ∀ k dpc, s.dpcs[k]? = some dpc → dpc.target = BitVec.ofNat 8 k
  counter : s.dpcCounter = BitVec.ofNat 16 (s.dpcs.countP fun dpc => dpc.Finished)
  ran : ∀ cpu, s.ran.count cpu = if ∃ dpc ∈ s.dpcs[cpu]?, dpc.state ≠ .queued then 1 else 0
  caller : s.Queued s.caller

variable {s s' : Execution}

theorem Execution.Inv.queued (h : s.Inv) {pc : CallerPc} (hpc : s.caller = pc) : s.Queued pc := by
  have hc := h.caller
  rwa [hpc] at hc

theorem Execution.Inv.core (h : s.Inv) {k : Nat} {dpc : PerCoreDpc} (hk : s.dpcs[k]? = some dpc) :
    s.core dpc = some k := by
  obtain ⟨hlt, -⟩ := List.getElem?_eq_some_iff.mp hk
  have hle := h.length_le
  have hcores := h.length_cores
  have hnat : (BitVec.ofNat 8 k).toNat = k := BitVec.toNat_ofNat k 8 ▸ Nat.mod_eq_of_lt (by omega)
  have hint : dpc.target.toInt = k := by
    rw [h.targets k dpc hk, BitVec.toInt_eq_toNat_of_lt (by omega), hnat]
  rw [Execution.core, hint, if_pos ⟨by omega, by omega⟩, Int.toNat_natCast]

theorem Execution.Inv.goOn (h : s.Inv) {k : Nat} {dpc : PerCoreDpc} {state : DpcState}
    {dpcCounter : BitVec 16} {ran : List Nat} (hk : s.dpcs[k]? = some dpc)
    (hcaller : ∀ status, s.caller ≠ .returned status) (hstate : dpc.state ≠ .finished)
    (hcounter : dpcCounter = s.dpcCounter + if state = .finished then 1 else 0)
    (hran : ∀ cpu, ran.count cpu = if ∃ d ∈ (s.dpcs.set k ⟨dpc.target, state⟩)[cpu]?,
      d.state ≠ .queued then 1 else 0) :
    ({ s with
        dpcs := s.dpcs.set k ⟨dpc.target, state⟩
        dpcCounter := dpcCounter
        ran := ran } : Execution).Inv where
  level := h.level
  length_le := by
    rw [List.length_set]
    exact h.length_le
  length_cores := by
    rw [List.length_set]
    exact h.length_cores
  targets m d hm := by
    by_cases hmk : m = k
    · subst hmk
      obtain ⟨hlt, -⟩ := List.getElem?_eq_some_iff.mp hk
      rw [List.getElem?_set_self hlt] at hm
      cases hm
      exact h.targets m dpc hk
    · rw [List.getElem?_set_ne (Ne.symm hmk)] at hm
      exact h.targets m d hm
  counter := by
    obtain ⟨hlt, hget⟩ := List.getElem?_eq_some_iff.mp hk
    have hno : ¬ (s.dpcs[k]).Finished := by rwa [hget]
    rw [hcounter, h.counter, List.countP_set hlt]
    simp only [hno, decide_false, Bool.false_eq_true, if_false, Nat.sub_zero, decide_eq_true_eq]
    by_cases hf : state = .finished
    · have hf' : (⟨dpc.target, state⟩ : PerCoreDpc).Finished := hf
      rw [if_pos hf, if_pos hf', BitVec.ofNat_add]
      rfl
    · have hf' : ¬ (⟨dpc.target, state⟩ : PerCoreDpc).Finished := hf
      rw [if_neg hf, if_neg hf', Nat.add_zero]
      exact BitVec.add_zero _
  ran := hran
  caller := by
    change Execution.Queued _ s.caller
    cases hpc : s.caller with
    | queueing i => exact (List.length_set ..).trans (h.queued hpc)
    | ipiCall | waiting => exact (List.length_set ..).trans (h.queued hpc)
    | returned status => exact absurd hpc (hcaller status)

theorem Execution.Inv.start (h : s.Inv) {k : Nat} (hstep : s.step (.start k) = some s') :
    s'.Inv := by
  simp only [Execution.step] at hstep
  split at hstep
  · cases hstep
  · cases hstep
  · next dpc hk hnot =>
    split at hstep
    · next hqueued =>
      rw [h.core hk, Option.map_some, if_pos h.level] at hstep
      cases hstep
      refine h.goOn hk (fun status hc => hnot status hc) (by rw [hqueued]; decide)
        (BitVec.add_zero _).symm fun cpu => ?_
      obtain ⟨hlt, hget⟩ := List.getElem?_eq_some_iff.mp hk
      rw [List.count_append, h.ran cpu, List.count_singleton]
      by_cases hcpu : cpu = k
      · subst hcpu
        simp [hlt, hget, hqueued]
      · simp [List.getElem?_set_ne (Ne.symm hcpu), Ne.symm hcpu]
    · cases hstep

theorem Execution.Inv.finish (h : s.Inv) {k : Nat} (hstep : s.step (.finish k) = some s') :
    s'.Inv := by
  simp only [Execution.step] at hstep
  split at hstep
  · cases hstep
  · cases hstep
  · next dpc hk hnot =>
    split at hstep
    · next hrunning =>
      cases hstep
      refine h.goOn hk (fun status hc => hnot status hc) (by rw [hrunning]; decide) rfl
        fun cpu => ?_
      obtain ⟨hlt, hget⟩ := List.getElem?_eq_some_iff.mp hk
      rw [h.ran cpu]
      by_cases hcpu : cpu = k
      · subst hcpu
        simp [hlt, hget, hrunning]
      · rw [List.getElem?_set_ne (Ne.symm hcpu)]
    · cases hstep

/-- One more DPC is queued. -/
theorem Execution.Inv.queue (h : s.Inv) {i : Nat} (hpc : s.caller = .queueing i)
    (hi : i < s.numberOfCores) (hlt : i < 128) :
    ({ s with
        caller := .queueing (i + 1)
        dpcs := s.dpcs ++ [⟨BitVec.ofNat 8 i, .queued⟩] } : Execution).Inv := by
  have hlen : s.dpcs.length = i := h.queued hpc
  refine { h with
    length_le := by simp only [List.length_append, List.length_singleton]; omega
    length_cores := by simp only [List.length_append, List.length_singleton]; omega
    targets := fun k dpc hk => ?_
    counter := ?_
    ran := fun cpu => ?_
    caller := ?_ }
  · rw [List.getElem?_append] at hk
    split at hk
    · exact h.targets k dpc hk
    · rw [List.getElem?_singleton] at hk
      split at hk
      · cases hk
        rw [show i = k by omega]
      · cases hk
  · rw [h.counter, List.countP_append]
    rfl
  · rw [h.ran cpu]
    by_cases hcpu : cpu < s.dpcs.length
    · rw [List.getElem?_append_left hcpu]
    · rw [List.getElem?_append_right (Nat.le_of_not_lt hcpu),
        List.getElem?_eq_none (Nat.le_of_not_lt hcpu), if_neg (by simp), if_neg]
      simp [List.getElem?_singleton]
  · change (s.dpcs ++ _).length = i + 1
    rw [List.length_append, hlen]
    rfl

/-- The counter is what the caller waits for once every DPC has finished, and no sooner. -/
theorem Execution.Inv.counter_eq_iff (h : s.Inv) (hlen : s.dpcs.length = s.numberOfCores) :
    s.counter = s.numberOfCores ↔ ∀ dpc ∈ s.dpcs, dpc.Finished := by
  have hle : (s.dpcs.countP fun dpc => dpc.Finished) ≤ s.dpcs.length := List.countP_le_length
  have hlen' := h.length_le
  have hnat : s.dpcCounter.toNat = s.dpcs.countP fun dpc => dpc.Finished := by
    rw [h.counter, BitVec.toNat_ofNat]
    exact Nat.mod_eq_of_lt (by omega)
  have hall := List.countP_eq_length (p := fun dpc : PerCoreDpc => dpc.Finished) (l := s.dpcs)
  simp only [decide_eq_true_eq] at hall
  rw [← hall, Execution.counter, if_pos h.level, BitVec.toInt_eq_toNat_of_lt (by omega), hnat,
    hlen]
  exact Int.ofNat_inj

theorem Execution.Inv.callerStep (h : s.Inv) {allocated inserted : Bool}
    (hok : FailsClean s (.caller allocated inserted))
    (hstep : s.callerStep allocated inserted = some s') : s'.Inv := by
  simp only [Execution.callerStep] at hstep
  split at hstep
  · next i hpc =>
    simp only [FailsClean, hpc] at hok
    split at hstep
    · next hi =>
      match allocated, inserted with
      | false, _ =>
        cases hstep
        exact { h with caller := ⟨hok hi, fun hs => absurd hs (by decide)⟩ }
      | true, false =>
        cases hstep
        exact { h with caller := ⟨hok hi, fun hs => absurd hs (by decide)⟩ }
      | true, true =>
        cases hstep
        exact h.queue hpc hi (hok hi)
    · next hi =>
      cases hstep
      have hlen : s.dpcs.length = i := h.queued hpc
      have hle := h.length_cores
      exact { h with caller := show s.dpcs.length = s.numberOfCores by omega }
  · next hpc =>
    cases hstep
    refine { h with ran := ?_, caller := h.queued hpc }
    simp only [Execution.ipiGenericCall, h.level]
    exact h.ran
  · next hpc =>
    have hlen := h.queued hpc
    split at hstep
    · next hcount =>
      cases hstep
      exact { h with caller := ⟨(h.counter_eq_iff hlen).mp hcount, fun _ => hlen⟩ }
    · cases hstep
      exact h
  · cases hstep

theorem Execution.Inv.step (h : s.Inv) {input : ExecutionInput} (hok : FailsClean s input)
    (hstep : s.step input = some s') : s'.Inv := by
  cases input with
  | caller allocated inserted => exact h.callerStep hok hstep
  | start k => exact h.start hstep
  | finish k => exact h.finish hstep

/-- While the caller waits, what is not finished can go on, and then the counter is reached. -/
theorem Execution.Inv.progress (h : s.Inv) (hpc : ∀ status, s.caller ≠ .returned status) :
    ∃ input s', s.step input = some s' ∧ s'.work < s.work := by
  cases hcaller : s.caller with
  | queueing i =>
    obtain ⟨s', hs⟩ : ∃ s', s.callerStep true true = some s' := by
      simp only [Execution.callerStep, hcaller]
      split
      · exact ⟨_, rfl⟩
      · exact ⟨_, rfl⟩
    obtain hlt | ⟨-, hw, -⟩ := callerStep_work hs
    · exact ⟨.caller true true, s', hs, hlt⟩
    · rw [hcaller] at hw
      cases hw
  | ipiCall =>
    have hs : s.callerStep true true = some s.ipiGenericCall := by
      simp only [Execution.callerStep, hcaller]
    obtain hlt | ⟨-, hw, -⟩ := callerStep_work hs
    · exact ⟨.caller true true, _, hs, hlt⟩
    · rw [hcaller] at hw
      cases hw
  | waiting =>
    by_cases hall : ∀ dpc ∈ s.dpcs, dpc.Finished
    · have hcount := (h.counter_eq_iff (h.queued hcaller)).mpr hall
      have hs : s.callerStep true true = some { s with caller := .returned statusSuccess } := by
        simp only [Execution.callerStep, hcaller, hcount, if_true]
      obtain hlt | ⟨-, -, hne⟩ := callerStep_work hs
      · exact ⟨.caller true true, _, hs, hlt⟩
      · exact absurd hcount hne
    · push Not at hall
      obtain ⟨dpc, hd, hnot⟩ := hall
      obtain ⟨k, hk⟩ := List.mem_iff_getElem?.mp hd
      cases hstate : dpc.state with
      | queued =>
        obtain ⟨s', hs⟩ : ∃ s', s.step (.start k) = some s' := by
          simp [Execution.step, hcaller, hk, hstate, h.core hk]
        exact ⟨.start k, s', hs, start_work hs⟩
      | running =>
        obtain ⟨s', hs⟩ : ∃ s', s.step (.finish k) = some s' := by
          simp [Execution.step, hcaller, hk, hstate]
        exact ⟨.finish k, s', hs, finish_work hs⟩
      | finished => exact absurd hstate hnot
  | returned status => exact absurd hcaller (hpc status)

theorem Execution.Inv.allOrNothing (h : s.Inv) : AllOrNothing s where
  finished status hpc := (h.queued hpc).1
  once status hpc hs cpu hcpu := by
    obtain ⟨hfinished, hall⟩ := h.queued hpc
    have hlen := hall hs
    have hget := List.getElem?_eq_getElem (l := s.dpcs) (i := cpu) (by omega)
    have hfin : (s.dpcs[cpu]).state = .finished := hfinished _ (List.getElem_mem _)
    rw [h.ran cpu, if_pos ⟨_, hget, by rw [hfin]; decide⟩]
  runnable dpc hd := by
    obtain ⟨k, hk⟩ := List.mem_iff_getElem?.mp hd
    rw [h.core hk]
    rfl
  progress := h.progress

/-- A failure in the loop leaves what is not finished behind, and the 129th DPC is on no core. -/
theorem not_allOrNothing_of_not_failsClean (h : s.Inv) {input : ExecutionInput}
    (hok : ¬ FailsClean s input) : ∃ s', s.step input = some s' ∧ ¬ AllOrNothing s' := by
  cases input with
  | start k | finish k => exact absurd trivial hok
  | caller allocated inserted =>
    simp only [FailsClean] at hok
    split at hok
    · next i hpc =>
      obtain ⟨hi, hok⟩ := Classical.not_imp.mp hok
      match allocated, inserted with
      | false, _ =>
        refine ⟨{ s with caller := .returned statusInsufficientResources }, ?_, fun hp => ?_⟩
        · simp [Execution.step, Execution.callerStep, hpc, hi]
        · exact hok (hp.finished _ rfl)
      | true, false =>
        refine ⟨{ s with caller := .returned statusAccessDenied }, ?_, fun hp => ?_⟩
        · simp [Execution.step, Execution.callerStep, hpc, hi]
        · exact hok (hp.finished _ rfl)
      | true, true =>
        have hi' : i = 128 := by
          have hle := h.length_le
          have hlen : s.dpcs.length = i := h.queued hpc
          have : ¬ i < 128 := hok
          omega
        subst hi'
        refine ⟨{ s with
          caller := .queueing 129
          dpcs := s.dpcs ++ [⟨BitVec.ofNat 8 128, .queued⟩] }, ?_, fun hp => ?_⟩
        · simp [Execution.step, Execution.callerStep, hpc, hi]
        · have hrun := hp.runnable ⟨BitVec.ofNat 8 128, .queued⟩ (by simp)
          cases hrun
    · exact absurd trivial hok
    · exact absurd trivial hok
    · exact absurd trivial hok

theorem inv_start (numberOfCores : Nat) :
    (ptwExecuteAndWaitPerCore .dpc numberOfCores).Inv where
  level := rfl
  length_le := Nat.zero_le _
  length_cores := Nat.zero_le _
  targets k dpc hk := by cases hk
  counter := rfl
  ran cpu := rfl
  caller := rfl

/-- A call at DPC level is all or nothing in every schedule exactly if it fails only clean. -/
theorem allOrNothing_iff (numberOfCores : Nat) (schedule : List ExecutionInput) :
    Every Execution.step AllOrNothing (ptwExecuteAndWaitPerCore .dpc numberOfCores) schedule ↔
      Meets Execution.step FailsClean (ptwExecuteAndWaitPerCore .dpc numberOfCores) schedule :=
  every_iff_meets Execution.Inv (fun _ h => h.allOrNothing) (fun _ _ _ h hok hs => h.step hok hs)
    (fun _ _ h hok => not_allOrNothing_of_not_failsClean h hok) _ _ (inv_start numberOfCores)

/-- On two cores the first DPC is still queued when there is no memory for the second. -/
theorem not_allOrNothing_second_allocation : ¬ ∀ (numberOfCores : Nat)
    (schedule : List ExecutionInput), Every Execution.step AllOrNothing
      (ptwExecuteAndWaitPerCore .dpc numberOfCores) schedule := by
  intro h
  let schedule : List ExecutionInput := [.caller true true, .caller false true]
  have hrun : schedule.foldlM Execution.step (ptwExecuteAndWaitPerCore .dpc 2) = some {
      numberOfCores := 2
      caller := .returned statusInsufficientResources
      dpcs := [⟨0, .queued⟩] } := rfl
  have hfin := ((h 2 schedule).last hrun).finished _ rfl ⟨0, .queued⟩ (List.mem_singleton_self _)
  cases hfin

/-- What a finished call leaves: its status, and the cores that have run the routine, which are
all of them behind a success. -/
structure PerCoreOutcome (numberOfCores : Nat) where
  status : NtStatusCode
  ran : Fin numberOfCores → Bool
  complete : status.NtSuccess → ∀ cpu, ran cpu = true

def Execution.outcome (s : Execution) (h : AllOrNothing s) {status : NtStatusCode}
    (hpc : s.caller = .returned status) : PerCoreOutcome s.numberOfCores where
  status := status
  ran cpu := decide (cpu.val ∈ s.ran)
  complete hs cpu := by
    have honce := h.once status hpc hs cpu cpu.isLt
    exact decide_eq_true (List.count_pos_iff.mp (by omega))

end IntelPt.Driver
