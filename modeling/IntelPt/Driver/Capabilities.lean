import IntelPt.Driver.ProcessorTraceShared
import IntelPt.Lib.Pool
import IntelPt.Lib.Runs

/-! The capability record behind gPtCapabilities: IptInit, IptGetCapabilities and IptUninit in
any order, and when the record is the queried one at every call boundary. -/
namespace IntelPt.Driver

def statusNotSupported : NtStatusCode := 0xC00000BB

structure Cpuid where
  /-- leaf 7, EBX, bit 25 -/
  intelPtAvailable : Bool
  /-- leaf 14H, both subleaves -/
  leaf14 : IntelPtCapabilities
  /-- what IA32_RTIT_OUTPUT_MASK_PTRS reads as -/
  outputMaskPtrs : BitVec 64

def iptQueryCapabilities (cpuid : Cpuid) (capabilities : IntelPtCapabilities) :
    NtStatusCode × IntelPtCapabilities :=
  if !cpuid.intelPtAvailable then (statusNotSupported, capabilities)
  else
    let capabilities := { cpuid.leaf14 with
      numberOfAddressRanges :=
        if cpuid.leaf14.maximumValidSubleaf.toNat ≥ 1 then cpuid.leaf14.numberOfAddressRanges
        else capabilities.numberOfAddressRanges
      topaOutputEntries :=
        if cpuid.leaf14.topaMultipleOutputEntriesSupport then cpuid.outputMaskPtrs else 0 }
    (statusSuccess, capabilities)

structure CapabilityRecord where
  content : IntelPtCapabilities
  queried : Bool := false

/-- What is observed. A record is given as it is in the pool at that moment. -/
inductive CapabilityEvent where
  | freed (record : Option CapabilityRecord)
  | read (record : Option CapabilityRecord)
  | initReturned (status : NtStatusCode) (record : Option CapabilityRecord)
  | capabilitiesReturned (status : NtStatusCode) (record : Option CapabilityRecord)

structure CapabilityState where
  gPtCapabilities : Option Nat := none
  pool : Pool CapabilityRecord := {}
  log : List CapabilityEvent := []

namespace CapabilityState

def record (s : CapabilityState) : Option CapabilityRecord := s.gPtCapabilities.bind s.pool.get

def logged (s : CapabilityState) (e : CapabilityEvent) : CapabilityState :=
  { s with log := s.log ++ [e] }

def allocate (s : CapabilityState) (uninitialised : IntelPtCapabilities) : Nat × CapabilityState :=
  let (address, pool) := s.pool.alloc { content := uninitialised }
  (address, { s with gPtCapabilities := some address, pool := pool })

def store (s : CapabilityState) (address : Nat) (record : CapabilityRecord) : CapabilityState :=
  { s with pool := s.pool.modify address fun _ => record }

def free (s : CapabilityState) (address : Nat) : CapabilityState :=
  { s with pool := s.pool.free address, log := s.log ++ [.freed (s.pool.get address)] }

def queryNew (uninitialised : IntelPtCapabilities) (cpuid : Cpuid) (s : CapabilityState) :
    NtStatusCode × CapabilityState :=
  let (address, s) := s.allocate uninitialised
  let (status, capabilities) := iptQueryCapabilities cpuid uninitialised
  let s := s.store address { content := capabilities, queried := decide status.NtSuccess }
  if status.NtSuccess then (status, s)
  else (status, { s.free address with gPtCapabilities := none })

def iptInit (memoryAllocationFunction : Bool) (alloc : Option IntelPtCapabilities)
    (cpuid : Cpuid) (s : CapabilityState) : NtStatusCode × CapabilityState :=
  if !memoryAllocationFunction then (statusInvalidParameter1, s)
  else
    match s.gPtCapabilities, alloc with
    | some _, _ => (statusSuccess, s)
    | none, none => (statusInsufficientResources, s)
    | none, some uninitialised => queryNew uninitialised cpuid s

def copy (s : CapabilityState) (address : Nat) :
    NtStatusCode × Option CapabilityRecord × CapabilityState :=
  (statusSuccess, s.pool.get address, s.logged (.read (s.pool.get address)))

def iptGetCapabilities (alloc : Option IntelPtCapabilities) (s : CapabilityState) :
    NtStatusCode × Option CapabilityRecord × CapabilityState :=
  match s.gPtCapabilities, alloc with
  | some address, _ => s.copy address
  | none, none => (statusInsufficientResources, none, s)
  | none, some uninitialised =>
    -- the new record is never filled
    let (address, s) := s.allocate uninitialised
    s.copy address

/-- The pointer stays. -/
def iptUninit (s : CapabilityState) : CapabilityState :=
  match s.gPtCapabilities with
  | some address => s.free address
  | none => s

end CapabilityState

inductive CapabilityCall where
  | init (memoryAllocationFunction : Bool) (alloc : Option IntelPtCapabilities) (cpuid : Cpuid)
  | getCapabilities (alloc : Option IntelPtCapabilities)
  | uninit

open CapabilityState in
def CapabilityState.step (s : CapabilityState) : CapabilityCall → Option CapabilityState
  | .init memoryAllocationFunction alloc cpuid =>
    let (status, s) := iptInit memoryAllocationFunction alloc cpuid s
    some (s.logged (.initReturned status s.record))
  | .getCapabilities alloc =>
    let (status, copied, s) := iptGetCapabilities alloc s
    some (s.logged (.capabilitiesReturned status copied))
  | .uninit => some (iptUninit s)

/-! The life of the record. -/

def IsQueried (record : Option CapabilityRecord) : Prop :=
  ∃ r, record = some r ∧ r.queried = true ∧ ∃ cpuid uninitialised,
    (iptQueryCapabilities cpuid uninitialised).1.NtSuccess ∧
      (iptQueryCapabilities cpuid uninitialised).2 = r.content

/-- Only what is in use is freed and read, and a success stands for a queried record. -/
def CapabilityEvent.Sound : CapabilityEvent → Prop
  | .freed record | .read record => record.isSome = true
  | .initReturned status record | .capabilitiesReturned status record =>
    status.NtSuccess → IsQueried record

/-- gPtCapabilities is NULL or points to a queried record, and so far all went well. -/
structure CapabilitiesSound (s : CapabilityState) : Prop where
  pointer : s.gPtCapabilities = none ∨ IsQueried s.record
  log : ∀ e ∈ s.log, e.Sound

/-- The record is not requested before it exists, and not freed. -/
def Undamaged (s : CapabilityState) : CapabilityCall → Prop
  | .init _ _ _ => True
  | .getCapabilities alloc => s.gPtCapabilities = none → alloc = none
  | .uninit => s.gPtCapabilities = none

theorem CapabilitiesSound.logged {s : CapabilityState} (h : CapabilitiesSound s)
    {e : CapabilityEvent} (he : e.Sound) : CapabilitiesSound (s.logged e) where
  pointer := h.pointer
  log := List.forall_mem_append.mpr ⟨h.log, List.forall_mem_singleton.mpr he⟩

section

variable {s : CapabilityState}

theorem get_store_allocate (s : CapabilityState) (uninitialised : IntelPtCapabilities)
    (r : CapabilityRecord) :
    ((s.allocate uninitialised).2.store (s.allocate uninitialised).1 r).pool.get
      (s.allocate uninitialised).1 = some r := by
  simp [CapabilityState.allocate, CapabilityState.store]

theorem queryNew_sound (h : CapabilitiesSound s) (uninitialised : IntelPtCapabilities)
    (cpuid : Cpuid) :
    CapabilitiesSound (s.queryNew uninitialised cpuid).2 ∧
      ((s.queryNew uninitialised cpuid).1.NtSuccess →
        IsQueried (s.queryNew uninitialised cpuid).2.record) := by
  let filled : CapabilityRecord :=
    { content := (iptQueryCapabilities cpuid uninitialised).2
      queried := decide (iptQueryCapabilities cpuid uninitialised).1.NtSuccess }
  have hget := get_store_allocate s uninitialised filled
  simp only [CapabilityState.queryNew]
  split
  · rename_i hs
    have hqueried : IsQueried ((s.allocate uninitialised).2.store (s.allocate uninitialised).1
        filled).record := ⟨_, hget, decide_eq_true hs, cpuid, uninitialised, hs, rfl⟩
    exact ⟨⟨Or.inr hqueried, h.log⟩, fun _ => hqueried⟩
  · rename_i hs
    refine ⟨⟨Or.inl rfl, ?_⟩, fun hs' => absurd hs' hs⟩
    refine List.forall_mem_append.mpr ⟨h.log, List.forall_mem_singleton.mpr ?_⟩
    rw [CapabilityEvent.Sound, hget]
    rfl

theorem init_sound (h : CapabilitiesSound s) (memoryAllocationFunction : Bool)
    (alloc : Option IntelPtCapabilities) (cpuid : Cpuid) :
    CapabilitiesSound (s.iptInit memoryAllocationFunction alloc cpuid).2 ∧
      ((s.iptInit memoryAllocationFunction alloc cpuid).1.NtSuccess →
        IsQueried (s.iptInit memoryAllocationFunction alloc cpuid).2.record) := by
  have hinvalid : ¬ statusInvalidParameter1.NtSuccess := by decide
  have hresources : ¬ statusInsufficientResources.NtSuccess := by decide
  cases memoryAllocationFunction with
  | false => exact ⟨h, fun hs => absurd hs hinvalid⟩
  | true =>
    simp only [CapabilityState.iptInit, Bool.not_true, Bool.false_eq_true, if_false]
    cases hp : s.gPtCapabilities with
    | some address => exact ⟨h, fun _ => h.pointer.resolve_left (by simp [hp])⟩
    | none =>
      cases alloc with
      | none => exact ⟨h, fun hs => absurd hs hresources⟩
      | some uninitialised => exact queryNew_sound h uninitialised cpuid

/-- IptGetCapabilities on a sound state is given no new record. -/
theorem getCapabilities_sound (h : CapabilitiesSound s) {alloc : Option IntelPtCapabilities}
    (hok : s.gPtCapabilities = none → alloc = none) :
    CapabilitiesSound (s.iptGetCapabilities alloc).2.2 ∧
      ((s.iptGetCapabilities alloc).1.NtSuccess → IsQueried (s.iptGetCapabilities alloc).2.1) := by
  have hresources : ¬ statusInsufficientResources.NtSuccess := by decide
  cases hp : s.gPtCapabilities with
  | none =>
    simp only [CapabilityState.iptGetCapabilities, hp, hok hp]
    exact ⟨h, fun hs => absurd hs hresources⟩
  | some address =>
    have hqueried : IsQueried (s.pool.get address) := by
      have := h.pointer.resolve_left (by simp [hp])
      rwa [CapabilityState.record, hp] at this
    simp only [CapabilityState.iptGetCapabilities, hp, CapabilityState.copy]
    obtain ⟨r, hr, -⟩ := id hqueried
    exact ⟨h.logged (by rw [CapabilityEvent.Sound, hr]; rfl), fun _ => hqueried⟩

theorem step_sound (h : CapabilitiesSound s) {call : CapabilityCall} (hok : Undamaged s call)
    {s' : CapabilityState} (hstep : s.step call = some s') : CapabilitiesSound s' := by
  cases call with
  | init memoryAllocationFunction alloc cpuid =>
    cases hstep
    obtain ⟨hsound, hsuccess⟩ := init_sound h memoryAllocationFunction alloc cpuid
    exact hsound.logged hsuccess
  | getCapabilities alloc =>
    cases hstep
    obtain ⟨hsound, hsuccess⟩ := getCapabilities_sound h hok
    exact hsound.logged hsuccess
  | uninit =>
    cases hstep
    rw [CapabilityState.iptUninit, show s.gPtCapabilities = none from hok]
    exact h

/-- Requested before it exists, the record is in use and not queried. -/
theorem getCapabilities_new (hp : s.gPtCapabilities = none) (uninitialised : IntelPtCapabilities) :
    (s.iptGetCapabilities (some uninitialised)).2.2.gPtCapabilities ≠ none ∧
      (s.iptGetCapabilities (some uninitialised)).2.2.record =
        some { content := uninitialised } := by
  simp only [CapabilityState.iptGetCapabilities, hp]
  exact ⟨Option.some_ne_none _, Pool.get_alloc _ _⟩

theorem uninit_freed {address : Nat} (hp : s.gPtCapabilities = some address) :
    s.iptUninit.gPtCapabilities ≠ none ∧ s.iptUninit.record = none := by
  simp only [CapabilityState.iptUninit, CapabilityState.record, CapabilityState.free, hp]
  exact ⟨Option.some_ne_none _, Pool.get_free _ _⟩

/-- A step that damages the record leaves the pointer to one that is not queried, or freed. -/
theorem step_damages {call : CapabilityCall} (hbad : ¬ Undamaged s call) :
    ∃ s', s.step call = some s' ∧ ¬ CapabilitiesSound s' := by
  cases call with
  | init _ _ _ => exact absurd trivial hbad
  | getCapabilities alloc =>
    obtain ⟨hp, hsome⟩ := Classical.not_imp.mp hbad
    obtain ⟨uninitialised, rfl⟩ := Option.ne_none_iff_exists'.mp hsome
    obtain ⟨hpointer, hrecord⟩ := getCapabilities_new hp uninitialised
    refine ⟨_, rfl, fun h => ?_⟩
    obtain ⟨r, hr, hqueried, -⟩ := h.pointer.resolve_left hpointer
    cases hrecord.symm.trans hr
    cases hqueried
  | uninit =>
    obtain ⟨address, hp⟩ := Option.ne_none_iff_exists'.mp hbad
    obtain ⟨hpointer, hrecord⟩ := uninit_freed hp
    refine ⟨_, rfl, fun h => ?_⟩
    obtain ⟨r, hr, -⟩ := h.pointer.resolve_left hpointer
    cases hrecord.symm.trans hr

end

/-- A sequence of calls keeps the record sound exactly if no IptGetCapabilities allocates it and
no IptUninit frees it. -/
theorem capabilitiesSound_iff (calls : List CapabilityCall) :
    Runs.Every CapabilityState.step CapabilitiesSound {} calls ↔
      Runs.Meets CapabilityState.step Undamaged {} calls := by
  apply Runs.every_iff_meets CapabilitiesSound
  · exact fun _ h => h
  · exact fun _ _ _ h hok hstep => step_sound h hok hstep
  · exact fun _ _ _ hbad => step_damages hbad
  · exact ⟨Or.inl rfl, fun _ he => absurd he List.not_mem_nil⟩

/-- Without Intel PT the initialisation fails, and a query is answered with what the new record
happens to hold. -/
theorem not_capabilitiesSound_unqueried : ¬ ∀ calls : List CapabilityCall,
    Runs.Every CapabilityState.step CapabilitiesSound {} calls := by
  intro h
  have hevery := h [.init true (some {}) ⟨false, {}, 0⟩, .getCapabilities (some {})]
  have hlast := hevery.last rfl
  obtain ⟨r, hr, hqueried, -⟩ := hlast.pointer.resolve_left (Option.some_ne_none _)
  cases hr
  cases hqueried

end IntelPt.Driver
