import IntelPt.UserModeApp.Draining

/-! A traced session from the first buffer of a core to the decoded trace. -/
namespace IntelPt.UserModeApp
open Decoder Runs Transducer
open Driver (System DriverOp Mdl CommBufferAddress PacketInput Core CoreEvent Leaks allocatedBy
  firstSession tenPages)

/-- A time and a branch that is taken, and one that is not, each at the beginning of a buffer. -/
theorem exists_trace_two_branches (n m : Nat) :
    ∃ (trace : List TraceEvent) (first second : List Byte),
      first.length = 9 + n ∧ second.length = 1 + m ∧ PossibleTrace {} trace ∧
      HeadersFit none trace ∧ encodeEvents trace = first ++ second ∧ StampedTrace {} trace ∧
      meaning {} trace =
        [⟨.tsc, some 5, .base⟩, ⟨.tntTaken, some 5, .base⟩, ⟨.tntNotTaken, some 5, .base⟩] := by
  let taken : List TraceEvent := [.time 5, .branches ⟨[true], by decide, by decide⟩]
  let notTaken : TraceEvent := .branches ⟨[false], by decide, by decide⟩
  let last : List TraceEvent := notTaken :: (List.replicate m (.fill 0xFF) ++ [])
  have hfill : (0xFF : Byte) ∈ unusedPacketBytes := by decide
  have hlast : encodeEvents last = 0x04 :: List.replicate m 0xFF := by
    rw [encodeEvents, List.flatMap_cons, ← encodeEvents, encodeEvents_fill, encodeEvents,
      List.flatMap_nil, List.append_nil]
    rfl
  refine ⟨taken ++ (List.replicate n (.fill 0xFF) ++ last),
    encodeEvents taken ++ List.replicate n 0xFF, 0x04 :: List.replicate m 0xFF, ?_, ?_, ?_, ?_, ?_,
    ?_, ?_⟩
  · rw [List.length_append, List.length_replicate]
    rfl
  · rw [List.length_cons, List.length_replicate, Nat.add_comm]
  · exact ⟨trivial, trivial, possibleTrace_fill hfill _
      ⟨trivial, possibleTrace_fill hfill _ trivial⟩⟩
  · exact ⟨by decide, by decide, headersFit_fill _ ⟨by decide, headersFit_fill _ trivial⟩⟩
  · have happend : encodeEvents (taken ++ (List.replicate n (.fill 0xFF) ++ last)) =
        encodeEvents taken ++ encodeEvents (List.replicate n (.fill 0xFF) ++ last) :=
      List.flatMap_append
    rw [happend, encodeEvents_fill, hlast, List.append_assoc]
  · exact ⟨by decide, by decide, stampedTrace_fill _ _ ⟨by decide, stampedTrace_fill _ _ trivial⟩⟩
  · have hnotTaken (k : Knowledge) :
        meaning k last = if k.inGroup then [] else notTaken.tells k.time := by
      rw [meaning, meaning_fill, meaning, List.append_nil]
      rfl
    rw [meaning_append, meaning_fill, hnotTaken]
    rfl

theorem undisturbs_two_buffers :
    let sent : PacketInput := { dto := true, element := true }
    let ops : List DriverOp := firstSession ++ [.imageLoad sent 0x400000 0x1000 1000000,
      .pmi 0 true [{ topaPmi := true }], .dpc 0 (some (tenPages 2)) sent []]
    ∃ events buffers trace s, Undisturbs buffers (Pipeline.boot fun _ => {}) events s ∧
      driverOps events = ops ++ .disable 0 sent [] :: [.getBuffer, .getBuffer, .getBuffer] ∧
      s.driver.queue = [] ∧ s.thread.pending = [] ∧ Announcing s.dequeued ∧
      PossibleTrace {} trace ∧ HeadersFit none trace ∧
      (allocatedBy 0 (System.boot fun _ => {}) ops).flatMap buffers = encodeEvents trace ∧
      StampedTrace {} trace ∧ meaning {} trace =
        [⟨.tsc, some 5, .base⟩, ⟨.tntTaken, some 5, .base⟩, ⟨.tntNotTaken, some 5, .base⟩] := by
  intro sent ops
  obtain ⟨trace, written₁, written₂, hlength₁, hlength₂, hpossible, hfit, hbytes, hstamped,
    hmeaning⟩ := exists_trace_two_branches 40951 40959
  let buffers : Mdl → List Byte := fun mdl => if mdl.id = 0 then written₁ else written₂
  obtain ⟨memory₁, hmemory₁⟩ := exists_memory 0x10000 hlength₁
  obtain ⟨memory₂, hmemory₂⟩ := exists_memory 0x20000 hlength₂
  let first : CommBufferAddress := ⟨true, false, 0, 0, 0, .firstPacket 0x400000 0x1000 1000000⟩
  let data : CommBufferAddress := ⟨false, false, 0, 0, 0, .genericPacket 0 (some (tenPages 0))⟩
  let last : CommBufferAddress := ⟨false, true, 0, 0, 0, .genericPacket 0 (some (tenPages 2))⟩
  have hqueued : ((ops ++ [DriverOp.disable 0 sent []]).foldlM System.step
      (System.boot fun _ => {})).map (·.queue) = some [first, data, last] := by decide +kernel
  obtain ⟨driver, hdriver, hqueue⟩ := Option.map_eq_some_iff.mp hqueued
  have hdriven : ∀ op ∈ ops ++ [DriverOp.disable 0 sent []], op ≠ .getBuffer := by
    intro op hop hget
    subst hget
    simp [ops, firstSession] at hop
  obtain ⟨waits, h₀⟩ :=
    @reaches_of_driver buffers _ (Pipeline.boot fun _ => {}) driver hdriven hdriver
  have hs₀ := piping_of_reaches (piping_boot buffers fun _ => {}) h₀
  obtain ⟨s₁, h₁, hqueue₁, hdequeued₁, hphase₁, hover₁⟩ := reaches_of_publish hs₀ hqueue rfl rfl
    ⟨.waitObject0, 0, 0, 0⟩ rfl rfl memory₁ fun hfirst => by cases hfirst
  have hs₁ := piping_of_reaches hs₀ h₁
  obtain ⟨s₂, h₂, hqueue₂, hdequeued₂, hphase₂, hover₂⟩ := reaches_of_publish hs₁ hqueue₁ hphase₁
    hover₁ ⟨.waitObject0, 0x10000, 0, 0⟩ rfl rfl memory₁ fun _ => hmemory₁
  have hs₂ := piping_of_reaches hs₁ h₂
  obtain ⟨s₃, h₃, hqueue₃, hdequeued₃, hphase₃, -⟩ := reaches_of_publish hs₂ hqueue₂ hphase₂
    hover₂ ⟨.waitObject0, 0x20000, 0, 0⟩ rfl rfl memory₂ fun _ => hmemory₂
  have hallocated : allocatedBy 0 (System.boot fun _ => {}) ops = [tenPages 0, tenPages 2] := by
    decide +kernel
  have htrace : (allocatedBy 0 (System.boot fun _ => {}) ops).flatMap buffers =
      encodeEvents trace := by
    rw [hallocated, hbytes, List.flatMap_cons, List.flatMap_singleton]
    rfl
  have hdequeued : s₃.dequeued = [first, data, last] := by
    rw [hdequeued₃, hdequeued₂, hdequeued₁]
    rfl
  have hannouncing : Announcing s₃.dequeued := by
    rw [hdequeued]
    exact ⟨by simp [first], by simp [first, data, last]⟩
  have hpending : s₃.thread.pending = [] := by rw [ThreadState.pending, hphase₃]
  have hops : driverOps ((ops ++ [DriverOp.disable 0 sent []]).map .driver ++
      (publish ⟨.waitObject0, 0, 0, 0⟩ memory₁ ++ (publish ⟨.waitObject0, 0x10000, 0, 0⟩ memory₁ ++
        publish ⟨.waitObject0, 0x20000, 0, 0⟩ memory₂))) =
      ops ++ .disable 0 sent [] :: [.getBuffer, .getBuffer, .getBuffer] := rfl
  exact ⟨_, buffers, trace, s₃, h₀.append (h₁.append (h₂.append h₃)), hops, hqueue₃, hpending,
    hannouncing, hpossible, hfit, htrace, hstamped, hmeaning⟩

/-- A session on one core, from its first buffer to its LAST packet: whenever the interrupts, the
DPCs and the requests come, read_trace gets what the core wrote into its buffers. -/
theorem readTrace_session {φ : Type*} [DecidableEq φ] (divide : Nat → Nat → φ) (zero : φ)
    (buffers : Mdl → List Byte) (hardware : Nat → Core) {cpu : Nat}
    {events : List PipelineEvent} {s : Pipeline} {ops rest : List DriverOp} {packet : PacketInput}
    {env : List CoreEvent}
    (hrun : events.foldlM Pipeline.step (Pipeline.boot hardware) = some s)
    (hmeets : Meets Pipeline.step (Undisturbed buffers) (Pipeline.boot hardware) events)
    (hops : driverOps events = ops ++ .disable cpu packet env :: rest)
    (htopa : ∀ op ∈ ops, op.TopaOutput)
    (hcore : ∀ op ∈ ops, op.cpu = none ∨ op.cpu = some cpu) (hrest : ∀ op ∈ rest, op.cpu = none)
    (hleak : Meets System.step (fun s op => ¬ Leaks s op) (System.boot hardware) ops)
    (hpacket : packet.dto = true ∧ packet.element = true)
    (hqueue : s.driver.queue = []) (hidle : s.thread.pending = [])
    (hannouncing : Announcing s.dequeued)
    {trace : List TraceEvent} (hpossible : PossibleTrace {} trace) (hfit : HeadersFit none trace)
    (htrace : (allocatedBy cpu (System.boot hardware) ops).flatMap buffers = encodeEvents trace) :
    Traced trace (run (rawLoopBody divide zero) {} (s.thread.enqueued.map (·.message))) := by
  have hdriver := run_driverOps events hrun
  rw [hops] at hdriver
  have hsent := Driver.sent_of_session hardware hdriver htopa hcore hrest hleak hpacket
  refine (piping_of_run hrun hmeets).traced divide zero hqueue hidle hannouncing hpossible hfit ?_
  rw [hsent]
  exact htrace

theorem readTrace_session_two_buffers :
    let sent : PacketInput := { dto := true, element := true }
    let ops : List DriverOp := firstSession ++ [.imageLoad sent 0x400000 0x1000 1000000,
      .pmi 0 true [{ topaPmi := true }], .dpc 0 (some (tenPages 2)) sent []]
    ∃ events s, driverOps events =
        ops ++ .disable 0 sent [] :: [.getBuffer, .getBuffer, .getBuffer] ∧
      events.foldlM Pipeline.step (Pipeline.boot fun _ => {}) = some s ∧
      let r := run (rawLoopBody ((· / ·) : Nat → Nat → Nat) 0) {}
        (s.thread.enqueued.map (·.message))
      r.halt = none ∧ allPackets r.out =
        [⟨.tsc, some 5, .base⟩, ⟨.tntTaken, some 5, .base⟩, ⟨.tntNotTaken, some 5, .base⟩] := by
  intro sent ops
  obtain ⟨events, buffers, trace, s, ⟨hrun, hmeets⟩, hops, hqueue, hpending, hannouncing,
    hpossible, hfit, htrace, hstamped, hmeaning⟩ := undisturbs_two_buffers
  have htraced := readTrace_session ((· / ·) : Nat → Nat → Nat) 0 buffers (fun _ => {}) hrun hmeets
    hops (by decide) (by decide) (by decide) (by decide +kernel) ⟨rfl, rfl⟩ hqueue hpending
    hannouncing hpossible hfit htrace
  have hgoes := htraced.goes.mpr hstamped
  exact ⟨events, s, hops, hrun, hgoes, (htraced.decodes hgoes).trans hmeaning⟩

end IntelPt.UserModeApp
