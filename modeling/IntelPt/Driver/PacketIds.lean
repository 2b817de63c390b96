import IntelPt.Lib.Custody
import IntelPt.Lib.Runs
import Mathlib.Algebra.Group.Nat.Defs
import Mathlib.Data.Nat.Find

/-! The ids that image-load hooks, IptDpc and PtwDpcPerCoreDisable stamp on their packets, with
every access to one of the two counters a step of its own. An id is in order if the sequence it
is stamped with is the one whose hook has reset the packet counter last. -/
namespace IntelPt.Driver
open Runs Custody

structure DriverData where
  sequenceIdCounter : BitVec 32 := 0
  packetIdCounter : BitVec 32 := 0

def duGetSequenceId (data : DriverData) : BitVec 32 := data.sequenceIdCounter

def duIncreaseSequenceId (data : DriverData) : DriverData :=
  { data with sequenceIdCounter := data.sequenceIdCounter + 1 }

/- `InterlockedIncrement(&PacketIdCounter) - 1` -/
def duGetPacketId (data : DriverData) : BitVec 32 × DriverData :=
  let incremented := data.packetIdCounter + 1
  (incremented - 1, { data with packetIdCounter := incremented })

inductive StampPc where
  | idle
  /-- the hook has increased the sequence id, to `opened`; it resets the packet counter -/
  | hookReset (opened : BitVec 32)
  | hookRead (opened : BitVec 32)
  | hookTake (sequenceId : BitVec 32)
  | dpcTake (sequenceId : BitVec 32)
  /-- PtwDpcPerCoreDisable has taken its packet id, in the sequence `period` -/
  | disableRead (packetId period : BitVec 32)

structure Stamp where
  firstPacket : Bool
  sequenceId : BitVec 32
  packetId : BitVec 32
  deriving DecidableEq

def Stamp.ids (d : Stamp) : BitVec 32 × BitVec 32 := (d.sequenceId, d.packetId)

structure Stamping where
  data : DriverData := {}
  threads : Nat → StampPc := fun _ => .idle
  stamped : List Stamp := []
  /-- the sequence whose hook has reset the packet counter last -/
  period : BitVec 32 := 0
  /-- the packet ids taken so far, each with its period -/
  taken : List (BitVec 32 × BitVec 32) := []

inductive StampInput where
  | imageLoad (thread : Nat)
  | dpc (thread : Nat)
  | disable (thread : Nat)
  /-- the next access of the thread -/
  | run (thread : Nat)

def Stamping.goto (s : Stamping) (thread : Nat) (pc : StampPc) : Stamping :=
  { s with threads := Function.update s.threads thread pc }

def Stamping.take (s : Stamping) : BitVec 32 × Stamping :=
  let (packetId, data) := duGetPacketId s.data
  (packetId, { s with data := data, taken := s.taken ++ [(s.period, packetId)] })

def Stamping.stamp (s : Stamping) (firstPacket : Bool) (sequenceId packetId : BitVec 32) :
    Stamping :=
  { s with stamped := s.stamped ++ [⟨firstPacket, sequenceId, packetId⟩] }

def Stamping.runThread (s : Stamping) (thread : Nat) : StampPc → Option Stamping
  | .idle => none
  | .hookReset opened =>
    some ({ s with
      data := { s.data with packetIdCounter := 0 }
      period := opened }.goto thread (.hookRead opened))
  | .hookRead _ => some (s.goto thread (.hookTake (duGetSequenceId s.data)))
  | .hookTake sequenceId =>
    let (packetId, s) := s.take
    some ((s.stamp true sequenceId packetId).goto thread .idle)
  | .dpcTake sequenceId =>
    let (packetId, s) := s.take
    some ((s.stamp false sequenceId packetId).goto thread .idle)
  | .disableRead packetId _ =>
    some ((s.stamp false (duGetSequenceId s.data) packetId).goto thread .idle)

def Stamping.begin (s : Stamping) (thread : Nat) (begun : Stamping) : Option Stamping :=
  match s.threads thread with
  | .idle => some begun
  | _ => none

def Stamping.step (s : Stamping) : StampInput → Option Stamping
  | .imageLoad thread =>
    let data := duIncreaseSequenceId s.data
    s.begin thread ({ s with data := data }.goto thread (.hookReset data.sequenceIdCounter))
  | .dpc thread => s.begin thread (s.goto thread (.dpcTake (duGetSequenceId s.data)))
  | .disable thread =>
    let (packetId, taken) := s.take
    s.begin thread (taken.goto thread (.disableRead packetId s.period))
  | .run thread => s.runThread thread (s.threads thread)

/-- The pairs are distinct, the FIRST packets have packet id 0, and once all routines are done
the packet ids of each sequence are those below some number. -/
structure PacketIdentity (s : Stamping) : Prop where
  distinct : (s.stamped.map Stamp.ids).Nodup
  first : ∀ d ∈ s.stamped, d.firstPacket = true → d.packetId = 0
  gapless : (∀ thread, s.threads thread = .idle) → ∀ sequenceId, ∃ n, ∀ packetId,
    (sequenceId, packetId) ∈ s.stamped.map Stamp.ids ↔ packetId.toNat < n

/-- The access of a thread at `pc` is in order. A hook finds the sequence id as it has left it,
and takes the first packet id after its own reset; every other stamp is of the current period. -/
def AccessInOrder (s : Stamping) : StampPc → Prop
  | .idle => True
  | .hookReset opened | .hookRead opened => s.data.sequenceIdCounter = opened
  | .hookTake sequenceId => s.period = sequenceId ∧ s.data.packetIdCounter = 0
  | .dpcTake sequenceId =>
    s.period = sequenceId ∧ s.data.packetIdCounter.toNat + 1 < 2 ^ 32
  | .disableRead _ period => s.data.sequenceIdCounter = period

def InOrder (s : Stamping) : StampInput → Prop
  | .imageLoad _ => s.data.sequenceIdCounter.toNat + 1 < 2 ^ 32
  | .dpc _ => True
  | .disable _ => s.data.packetIdCounter.toNat + 1 < 2 ^ 32
  | .run thread => AccessInOrder s (s.threads thread)

instance (s : Stamping) : (pc : StampPc) → Decidable (AccessInOrder s pc)
  | .idle => inferInstanceAs (Decidable True)
  | .hookReset _ | .hookRead _ | .disableRead _ _ => inferInstanceAs (Decidable (_ = _))
  | .hookTake _ | .dpcTake _ => inferInstanceAs (Decidable (_ ∧ _))

instance (s : Stamping) : (input : StampInput) → Decidable (InOrder s input)
  | .imageLoad _ | .disable _ => inferInstanceAs (Decidable (_ < _))
  | .dpc _ => inferInstanceAs (Decidable True)
  | .run thread => inferInstanceAs (Decidable (AccessInOrder s (s.threads thread)))

/-! The packet ids taken in each period. -/

structure Gapless (period next : BitVec 32) (taken : List (BitVec 32 × BitVec 32)) : Prop where
  le : ∀ x ∈ taken, x.1.toNat ≤ period.toNat
  current : ∀ p, (period, p) ∈ taken ↔ p.toNat < next.toNat
  closed : ∀ e p, (e, p) ∈ taken → ∀ q : BitVec 32, q.toNat ≤ p.toNat → (e, q) ∈ taken

variable {period next : BitVec 32} {taken : List (BitVec 32 × BitVec 32)}

theorem Gapless.fresh (h : Gapless period next taken) : (period, next) ∉ taken :=
  fun hm => Nat.lt_irrefl _ ((h.current next).mp hm)

theorem toNat_add_one {x : BitVec 32} (h : x.toNat + 1 < 2 ^ 32) :
    (x + 1).toNat = x.toNat + 1 := by
  rw [BitVec.toNat_add]
  exact Nat.mod_eq_of_lt h

theorem Gapless.take (h : Gapless period next taken) (hwrap : next.toNat + 1 < 2 ^ 32) :
    Gapless period (next + 1) (taken ++ [(period, next)]) where
  le x hx := by
    obtain hx | hx := List.mem_append.mp hx
    · exact h.le x hx
    · exact Nat.le_of_eq (congrArg (·.1.toNat) (List.mem_singleton.mp hx))
  current p := by
    rw [List.mem_append, List.mem_singleton, h.current, Prod.mk.injEq, toNat_add_one hwrap,
      Nat.lt_succ_iff_lt_or_eq]
    simp [BitVec.toNat_inj]
  closed e p hp q hq := by
    obtain hp | hp := List.mem_append.mp hp
    · exact List.mem_append_left _ (h.closed e p hp q hq)
    · obtain ⟨rfl, rfl⟩ := Prod.mk.inj (List.mem_singleton.mp hp)
      obtain hlt | heq := Nat.lt_or_eq_of_le hq
      · exact List.mem_append_left _ ((h.current q).mpr hlt)
      · rw [BitVec.eq_of_toNat_eq heq]
        exact List.mem_append_right _ (List.mem_singleton_self _)

theorem Gapless.reset (h : Gapless period next taken) {opened : BitVec 32}
    (hnew : period.toNat < opened.toNat) : Gapless opened 0 taken where
  le x hx := Nat.le_of_lt (Nat.lt_of_le_of_lt (h.le x hx) hnew)
  current p := by
    refine iff_of_false (fun hm => ?_) (Nat.not_lt_zero _)
    exact Nat.not_lt.mpr (h.le _ hm) hnew
  closed := h.closed

theorem exists_bound_of_closed {S : BitVec 32 → Prop}
    (h : ∀ p, S p → ∀ q : BitVec 32, q.toNat ≤ p.toNat → S q) : ∃ n, ∀ p, S p ↔ p.toNat < n := by
  classical
  have hbound : ∃ n, ∀ p, S p → p.toNat < n := ⟨2 ^ 32, fun p _ => p.isLt⟩
  refine ⟨Nat.find hbound, fun p => ⟨Nat.find_spec hbound p, fun hp => ?_⟩⟩
  have hmin := Nat.find_min hbound hp
  push Not at hmin
  obtain ⟨q, hq, hle⟩ := hmin
  exact h q hq p hle

/-! The hooks that have opened a sequence and not yet reset the packet counter. -/

structure Opened (period current : BitVec 32) (threads : Nat → StampPc) : Prop where
  period_le : period.toNat ≤ current.toNat
  le : ∀ t opened, threads t = .hookReset opened → opened.toNat ≤ current.toNat
  one : ∀ t u opened, threads t = .hookReset opened → threads u = .hookReset opened → t = u
  new : ∀ t, threads t = .hookReset current → period.toNat < current.toNat

variable {current opened : BitVec 32} {threads : Nat → StampPc} {thread : Nat}

theorem hookReset_of_update {pc : StampPc} (hpc : ∀ opened, pc ≠ .hookReset opened) {t : Nat}
    (ht : Function.update threads thread pc t = .hookReset opened) :
    t ≠ thread ∧ threads t = .hookReset opened := by
  by_cases hthread : t = thread
  · rw [hthread, Function.update_self] at ht
    exact absurd ht (hpc opened)
  · rw [Function.update_of_ne hthread] at ht
    exact ⟨hthread, ht⟩

theorem Opened.goto (h : Opened period current threads) {pc : StampPc}
    (hpc : ∀ opened, pc ≠ .hookReset opened) :
    Opened period current (Function.update threads thread pc) where
  period_le := h.period_le
  le t opened ht := h.le t opened (hookReset_of_update hpc ht).2
  one t u opened ht hu :=
    h.one t u opened (hookReset_of_update hpc ht).2 (hookReset_of_update hpc hu).2
  new t ht := h.new t (hookReset_of_update hpc ht).2

theorem Opened.imageLoad (h : Opened period current threads)
    (hwrap : current.toNat + 1 < 2 ^ 32) :
    Opened period (current + 1)
      (Function.update threads thread (.hookReset (current + 1))) := by
  have hnext : (current + 1).toNat = current.toNat + 1 := toNat_add_one hwrap
  have hcases (t : Nat) (opened : BitVec 32)
      (ht : Function.update threads thread (.hookReset (current + 1)) t = .hookReset opened) :
      (t = thread ∧ opened = current + 1) ∨
        opened.toNat ≤ current.toNat ∧ threads t = .hookReset opened := by
    by_cases hthread : t = thread
    · rw [hthread, Function.update_self] at ht
      exact Or.inl ⟨hthread, (StampPc.hookReset.inj ht).symm⟩
    · rw [Function.update_of_ne hthread] at ht
      exact Or.inr ⟨h.le t opened ht, ht⟩
  have hle := h.period_le
  refine ⟨?_, ?_, ?_, ?_⟩
  · omega
  · intro t opened ht
    obtain ⟨-, rfl⟩ | ⟨hold, -⟩ := hcases t opened ht <;> omega
  · intro t u opened ht hu
    obtain ⟨ht, hto⟩ | ⟨hold, ht⟩ := hcases t opened ht <;>
      obtain ⟨hu, huo⟩ | ⟨hold', hu⟩ := hcases u opened hu
    · rw [ht, hu]
    · rw [hto, hnext] at hold'
      omega
    · rw [huo, hnext] at hold
      omega
    · exact h.one t u opened ht hu
  · intro t _
    omega

theorem Opened.reset (h : Opened period current threads)
    (ht : threads thread = .hookReset current) :
    Opened current current (Function.update threads thread (.hookRead current)) := by
  have hold (t : Nat) (other : BitVec 32) (hu : Function.update threads thread
      (.hookRead current) t = .hookReset other) : t ≠ thread ∧ threads t = .hookReset other :=
    hookReset_of_update (by intro _ h; cases h) hu
  refine ⟨Nat.le_refl _, ?_, ?_, ?_⟩
  · exact fun t other hu => h.le t other (hold t other hu).2
  · exact fun t u other hu hv => h.one t u other (hold t other hu).2 (hold u other hv).2
  · intro t hu
    -- another hook cannot have opened the same sequence
    obtain ⟨hne, hu⟩ := hold t current hu
    exact absurd (h.one t thread current hu ht) hne

/-! The invariant. -/

def StampPc.holds : StampPc → Option (BitVec 32 × BitVec 32)
  | .disableRead packetId period => some (period, packetId)
  | _ => none

def Stamping.ledger (s : Stamping) : Ledger Nat (BitVec 32 × BitVec 32) where
  held thread := (s.threads thread).holds
  queued := s.stamped.map Stamp.ids
  out := []
  issued := s.taken

structure Ordered (s : Stamping) : Prop where
  sound : Sound s.ledger
  first : ∀ d ∈ s.stamped, d.firstPacket = true → d.packetId = 0
  gapless : Gapless s.period s.data.packetIdCounter s.taken
  opened : Opened s.period s.data.sequenceIdCounter s.threads

theorem Ordered.packetIdentity {s : Stamping} (h : Ordered s) : PacketIdentity s where
  distinct := (List.nodup_append.mp h.sound.nodup).1
  first := h.first
  gapless hidle sequenceId := by
    have hstamped (packetId : BitVec 32) :
        (sequenceId, packetId) ∈ s.stamped.map Stamp.ids ↔ (sequenceId, packetId) ∈ s.taken := by
      rw [show s.taken = s.ledger.issued from rfl, h.sound.issued]
      constructor
      · exact fun hm => Or.inl (List.mem_append_left _ hm)
      · intro hissued
        obtain hm | ⟨thread, hheld⟩ := hissued
        · exact (List.mem_append.mp hm).resolve_right List.not_mem_nil
        · simp [Stamping.ledger, StampPc.holds, hidle thread] at hheld
    obtain ⟨n, hn⟩ := exists_bound_of_closed (h.gapless.closed sequenceId)
    exact ⟨n, fun packetId => (hstamped packetId).trans (hn packetId)⟩

/-! One step. -/

theorem ledger_goto (s : Stamping) (thread : Nat) (pc : StampPc) :
    (s.goto thread pc).ledger =
      { s.ledger with held := Function.update s.ledger.held thread pc.holds } := by
  simp only [Stamping.ledger, Stamping.goto, Ledger.mk.injEq, and_true]
  funext t
  by_cases hthread : t = thread
  · rw [hthread, Function.update_self, Function.update_self]
  · rw [Function.update_of_ne hthread, Function.update_of_ne hthread]

theorem sound_goto {s : Stamping} {thread : Nat} {pc : StampPc} (h : Sound s.ledger)
    (hold : (s.threads thread).holds = none) (hpc : pc.holds = none) :
    Sound (s.goto thread pc).ledger := by
  have hheld : s.ledger.held thread = none := hold
  rw [ledger_goto, hpc, ← hheld, Function.update_eq_self]
  exact h

theorem take_eq (s : Stamping) : s.take = (s.data.packetIdCounter, { s with
    data := { s.data with packetIdCounter := s.data.packetIdCounter + 1 }
    taken := s.taken ++ [(s.period, s.data.packetIdCounter)] }) := by
  simp only [Stamping.take, duGetPacketId, BitVec.add_sub_cancel]

/-- A packet id is taken and stamped with the period it belongs to. -/
theorem Ordered.stamp {s : Stamping} (h : Ordered s) {thread : Nat} {firstPacket : Bool}
    (hold : (s.threads thread).holds = none)
    (hwrap : s.data.packetIdCounter.toNat + 1 < 2 ^ 32)
    (hfirst : firstPacket = true → s.data.packetIdCounter = 0) :
    Ordered ((s.take.2.stamp firstPacket s.period s.take.1).goto thread .idle) := by
  rw [take_eq]
  refine ⟨?_, ?_, h.gapless.take hwrap, h.opened.goto nofun⟩
  · refine sound_goto ?_ hold rfl
    have hpass := h.sound.pass hold h.gapless.fresh
    simp only [Stamping.ledger, Stamping.stamp, List.map_append, List.map_singleton]
    exact hpass
  · exact List.forall_mem_append.mpr ⟨h.first, List.forall_mem_singleton.mpr hfirst⟩

theorem ordered_runThread {s s' : Stamping} (h : Ordered s) {thread : Nat} {pc : StampPc}
    (hpc : s.threads thread = pc) (hok : AccessInOrder s pc)
    (hstep : s.runThread thread pc = some s') : Ordered s' := by
  have hholds : (s.threads thread).holds = pc.holds := congrArg StampPc.holds hpc
  cases pc with
  | idle => cases hstep
  | hookReset opened =>
    cases hstep
    obtain rfl : s.data.sequenceIdCounter = opened := hok
    exact ⟨sound_goto h.sound hholds rfl, h.first, h.gapless.reset (h.opened.new thread hpc),
      h.opened.reset hpc⟩
  | hookRead opened =>
    cases hstep
    exact ⟨sound_goto h.sound hholds rfl, h.first, h.gapless, h.opened.goto nofun⟩
  | hookTake sequenceId =>
    cases hstep
    obtain ⟨rfl, hzero⟩ := hok
    exact h.stamp hholds (by rw [hzero]; decide) fun _ => hzero
  | dpcTake sequenceId =>
    cases hstep
    obtain ⟨rfl, hwrap⟩ := hok
    exact h.stamp hholds hwrap nofun
  | disableRead packetId period =>
    cases hstep
    obtain rfl : s.data.sequenceIdCounter = period := hok
    refine ⟨?_, ?_, h.gapless, h.opened.goto nofun⟩
    · have hrelease := h.sound.release hholds
      rw [ledger_goto]
      simp only [Stamping.ledger, Stamping.stamp, List.map_append, List.map_singleton]
      exact hrelease
    · exact List.forall_mem_append.mpr ⟨h.first, List.forall_mem_singleton.mpr nofun⟩

theorem begin_eq {s s' begun : Stamping} {thread : Nat} (h : s.begin thread begun = some s') :
    (s.threads thread).holds = none ∧ s' = begun := by
  simp only [Stamping.begin] at h
  split at h
  · next hidle =>
    cases h
    exact ⟨congrArg StampPc.holds hidle, rfl⟩
  · cases h

theorem ordered_step {s s' : Stamping} {input : StampInput} (h : Ordered s)
    (hok : InOrder s input) (hstep : s.step input = some s') : Ordered s' := by
  cases input with
  | imageLoad thread =>
    obtain ⟨hholds, rfl⟩ := begin_eq hstep
    exact ⟨sound_goto h.sound hholds rfl, h.first, h.gapless, h.opened.imageLoad hok⟩
  | dpc thread =>
    obtain ⟨hholds, rfl⟩ := begin_eq hstep
    exact ⟨sound_goto h.sound hholds rfl, h.first, h.gapless, h.opened.goto nofun⟩
  | disable thread =>
    simp only [Stamping.step, take_eq] at hstep
    obtain ⟨hholds, rfl⟩ := begin_eq hstep
    refine ⟨?_, h.first, h.gapless.take hok, h.opened.goto nofun⟩
    rw [ledger_goto]
    exact h.sound.acquire hholds h.gapless.fresh
  | run thread => exact ordered_runThread h rfl hok hstep

theorem ordered_new : Ordered {} where
  sound := by
    refine ⟨List.nodup_nil, nofun, nofun, fun x => ?_⟩
    simp [Stamping.ledger, StampPc.holds]
  first _ hd := (List.not_mem_nil hd).elim
  gapless := ⟨nofun, fun p => by simp, nofun⟩
  opened := ⟨Nat.le_refl _, nofun, nofun, nofun⟩

theorem packetIdentity_of_meets (inputs : List StampInput)
    (h : Meets Stamping.step InOrder {} inputs) :
    Every Stamping.step PacketIdentity {} inputs :=
  every_of_meets Ordered (fun _ => Ordered.packetIdentity) (fun _ _ _ => ordered_step) _ inputs
    ordered_new h

theorem packetIdentity_two_sequences :
    let inputs := [.imageLoad 0, .run 0, .run 0, .run 0, .dpc 1, .run 1, .disable 2, .run 2,
      .imageLoad 0, .run 0, .run 0, .run 0]
    Every Stamping.step PacketIdentity {} inputs ∧
      (inputs.foldlM Stamping.step {}).map (·.stamped) =
        some [⟨true, 1, 0⟩, ⟨false, 1, 1⟩, ⟨false, 1, 2⟩, ⟨true, 2, 0⟩] :=
  ⟨packetIdentity_of_meets _ (by decide +kernel), by decide +kernel⟩

/-- An IptDpc reads the sequence id before an image load, and takes its packet id after it. -/
theorem not_packetIdentity_across_imageLoad :
    ¬ ∀ inputs, Every Stamping.step PacketIdentity {} inputs := by
  intro h
  let inputs : List StampInput := [.imageLoad 0, .run 0, .run 0, .run 0, .dpc 1, .imageLoad 0,
    .run 0, .run 1]
  have hrun : (inputs.foldlM Stamping.step {}).map (·.stamped) =
      some [⟨true, 1, 0⟩, ⟨false, 1, 0⟩] := by decide +kernel
  obtain ⟨s, hs, hstamped⟩ := Option.map_eq_some_iff.mp hrun
  have hdistinct := ((h inputs).last hs).distinct
  rw [hstamped] at hdistinct
  exact absurd hdistinct (by decide)

end IntelPt.Driver
