import IntelPt.Driver.WindowsControl
import IntelPt.Lib.Runs

/-! gQueueHead and gPagesAvailableEvent under any number of producers and of PtwCommandGetBuffer
requests. One step is one atomic action. A consumer dequeues before it resets the event, so a
producer that comes between the two is lost; so is an image load, which sets no event. -/
namespace IntelPt.Driver
open Runs

inductive Pc where
  /-- IptDpc or PtwDpcPerCoreDisable has enqueued its element and calls KeSetEvent -/
  | setEvent
  /-- PtwCommandGetBuffer calls DuDequeueElement -/
  | dequeue
  /-- it got STATUS_NO_MORE_ENTRIES and calls KeResetEvent -/
  | resetEvent
  /-- it calls KeWaitForSingleObject -/
  | beginWait
  | blocked
  /-- its wait is satisfied -/
  | woken
  | done
  deriving DecidableEq, Repr

structure BufferQueue where
  gQueueHead : List CommBufferAddress := []
  gPagesAvailableEvent : Bool := false
  threads : List Pc := []
  delivered : List CommBufferAddress := []

inductive QueueInput where
  /-- an image-load hook enqueues its element, and that is all -/
  | imageLoad (dto : CommBufferAddress)
  /-- IptDpc or PtwDpcPerCoreDisable enqueues its element -/
  | enqueue (dto : CommBufferAddress)
  /-- a request arrives -/
  | getBuffer
  /-- the thread takes its next step -/
  | run (n : Nat)
  /-- the wait, which is alertable, ends with a success status -/
  | alert (n : Nat)

def BufferQueue.goto (s : BufferQueue) (n : Nat) (pc : Pc) : BufferQueue :=
  { s with threads := s.threads.set n pc }

/-- KeSetEvent on a notification event satisfies every wait. -/
def keSetEvent (s : BufferQueue) : BufferQueue :=
  { s with
    gPagesAvailableEvent := true
    threads := s.threads.map fun pc => if pc = .blocked then .woken else pc }

def keResetEvent (s : BufferQueue) : BufferQueue := { s with gPagesAvailableEvent := false }

def BufferQueue.runThread (s : BufferQueue) (n : Nat) : Pc → Option BufferQueue
  | .setEvent => some ((keSetEvent s).goto n .done)
  | .dequeue =>
    match s.gQueueHead with
    | [] => some (s.goto n .resetEvent)
    | dto :: rest =>
      some ({ s with gQueueHead := rest, delivered := s.delivered ++ [dto] }.goto n .done)
  | .resetEvent => some ((keResetEvent s).goto n .beginWait)
  | .beginWait => some (s.goto n (if s.gPagesAvailableEvent then .dequeue else .blocked))
  | .woken => some (s.goto n .dequeue)
  | .blocked | .done => none

def BufferQueue.step (s : BufferQueue) : QueueInput → Option BufferQueue
  | .imageLoad dto => some { s with gQueueHead := s.gQueueHead ++ [dto] }
  | .enqueue dto =>
    some { s with gQueueHead := s.gQueueHead ++ [dto], threads := s.threads ++ [.setEvent] }
  | .getBuffer => some { s with threads := s.threads ++ [.dequeue] }
  | .run n => s.threads[n]?.bind (s.runThread n)
  | .alert n => if s.threads[n]? = some .blocked then some (s.goto n .dequeue) else none

/-- Once every producer has run to completion, no consumer is blocked before a queue that is not
empty. -/
def NoLostWakeUp (s : BufferQueue) : Prop :=
  Pc.setEvent ∉ s.threads → s.gQueueHead ≠ [] → s.gPagesAvailableEvent = false →
    Pc.blocked ∉ s.threads

/-- The event is reset only on an empty queue or with a producer still to set it; an image load
comes only if the event is set, or will be, or nobody waits. -/
def RaceFree (s : BufferQueue) : QueueInput → Prop
  | .run n => s.threads[n]? = some .resetEvent → s.gQueueHead = [] ∨ Pc.setEvent ∈ s.threads
  | .imageLoad _ =>
    s.gPagesAvailableEvent = true ∨ Pc.setEvent ∈ s.threads ∨
      Pc.beginWait ∉ s.threads ∧ Pc.blocked ∉ s.threads
  | .enqueue _ | .getBuffer | .alert _ => True

instance (s : BufferQueue) : (input : QueueInput) → Decidable (RaceFree s input)
  | .run _ => inferInstanceAs (Decidable (_ → _))
  | .imageLoad _ => inferInstanceAs (Decidable (_ ∨ _))
  | .enqueue _ | .getBuffer | .alert _ => inferInstanceAs (Decidable True)

def Attended (s : BufferQueue) : Prop :=
  Pc.setEvent ∉ s.threads → s.gQueueHead ≠ [] → s.gPagesAvailableEvent = false →
    Pc.beginWait ∉ s.threads ∧ Pc.blocked ∉ s.threads

theorem mem_set_of_ne {xs : List Pc} {n : Nat} {x y z : Pc} (hx : x ∈ xs) (hy : xs[n]? = some y)
    (hne : x ≠ y) : x ∈ xs.set n z := by
  obtain ⟨m, hm⟩ := List.mem_iff_getElem?.mp hx
  have hmn : n ≠ m := by
    intro h
    rw [← h, hy] at hm
    exact hne (Option.some.inj hm).symm
  exact List.mem_iff_getElem?.mpr ⟨m, (List.getElem?_set_ne hmn).trans hm⟩

theorem Attended.goto {s : BufferQueue} (h : Attended s) {n : Nat} {pc pc' : Pc}
    (hn : s.threads[n]? = some pc) (hpc : Pc.setEvent ≠ pc) (hwait : Pc.beginWait ≠ pc')
    (hblocked : Pc.blocked ≠ pc') : Attended (s.goto n pc') := by
  intro hset hqueue hevent
  have hno : Pc.setEvent ∉ s.threads := fun hm => hset (mem_set_of_ne hm hn hpc)
  obtain ⟨hw, hb⟩ := h hno hqueue hevent
  constructor
  · intro hm
    exact (List.mem_or_eq_of_mem_set hm).elim hw hwait
  · intro hm
    exact (List.mem_or_eq_of_mem_set hm).elim hb hblocked

theorem Attended.runThread {s s' : BufferQueue} (h : Attended s) {n : Nat} {pc : Pc}
    (hn : s.threads[n]? = some pc)
    (hok : pc = .resetEvent → s.gQueueHead = [] ∨ Pc.setEvent ∈ s.threads)
    (hstep : s.runThread n pc = some s') : Attended s' := by
  cases pc with
  | setEvent =>
    cases hstep
    intro _ _ hevent
    cases hevent
  | dequeue =>
    simp only [BufferQueue.runThread] at hstep
    split at hstep
    · next hqueue =>
      cases hstep
      intro _ hne
      exact absurd hqueue hne
    · next dto rest hqueue =>
      cases hstep
      have hrest : Attended { s with gQueueHead := rest, delivered := s.delivered ++ [dto] } :=
        fun hset _ hevent => h hset (by rw [hqueue]; exact List.cons_ne_nil dto rest) hevent
      exact hrest.goto hn nofun nofun nofun
  | resetEvent =>
    cases hstep
    intro hset hqueue
    obtain hempty | hpending := hok rfl
    · exact absurd hempty hqueue
    · exact absurd (mem_set_of_ne hpending hn nofun) hset
  | beginWait =>
    cases hstep
    intro hset hqueue hevent
    have hno : Pc.setEvent ∉ s.threads := fun hm => hset (mem_set_of_ne hm hn nofun)
    exact absurd (List.mem_of_getElem? hn) (h hno hqueue hevent).1
  | woken =>
    cases hstep
    exact h.goto hn nofun nofun nofun
  | blocked | done => cases hstep

theorem attended_step {s s' : BufferQueue} {input : QueueInput} (h : Attended s)
    (hok : RaceFree s input) (hstep : s.step input = some s') : Attended s' := by
  cases input with
  | imageLoad dto =>
    cases hstep
    intro hset _ hevent
    obtain hon | hpending | hnobody := hok
    · rw [hevent] at hon
      cases hon
    · exact absurd hpending hset
    · exact hnobody
  | enqueue dto =>
    cases hstep
    intro hset
    exact absurd (List.mem_append_right _ (List.mem_singleton_self _)) hset
  | getBuffer =>
    cases hstep
    intro hset hqueue hevent
    simp only [List.mem_append, List.mem_singleton, reduceCtorEq, or_false] at hset ⊢
    exact h hset hqueue hevent
  | run n =>
    obtain ⟨pc, hn, hrun⟩ := Option.bind_eq_some_iff.mp hstep
    exact h.runThread hn (fun hpc => hok (hpc ▸ hn)) hrun
  | alert n =>
    simp only [BufferQueue.step] at hstep
    split at hstep
    · next hn =>
      cases hstep
      exact h.goto hn nofun nofun nofun
    · cases hstep

theorem noLostWakeUp_of_meets (inputs : List QueueInput)
    (h : Meets BufferQueue.step RaceFree {} inputs) :
    Every BufferQueue.step NoLostWakeUp {} inputs := by
  refine every_of_meets Attended ?_ ?_ _ inputs ?_ h
  · exact fun s hs hset hqueue hevent => (hs hset hqueue hevent).2
  · exact fun s input s' hs hok hstep => attended_step hs hok hstep
  · exact fun _ hqueue => absurd rfl hqueue

def genericPacket : CommBufferAddress where
  firstPacket := false
  lastPacket := false
  cpuId := 0
  sequenceId := 1
  packetId := 1
  payload := .genericPacket 4096 none

theorem noLostWakeUp_woken :
    let inputs := [.getBuffer, .run 0, .run 0, .run 0, .enqueue genericPacket, .run 1, .run 0,
      .run 0]
    Every BufferQueue.step NoLostWakeUp {} inputs ∧
      (inputs.foldlM BufferQueue.step {}).map (·.delivered) = some [genericPacket] :=
  ⟨noLostWakeUp_of_meets _ (by decide), by decide⟩

/-- The consumer finds the queue empty; a producer enqueues and sets the event; the consumer
resets the event and waits. -/
theorem not_noLostWakeUp_reset_behind_set :
    ¬ ∀ inputs, Every BufferQueue.step NoLostWakeUp {} inputs := by
  intro h
  let inputs : List QueueInput := [.getBuffer, .run 0, .enqueue genericPacket, .run 1, .run 0,
    .run 0]
  have hrun : inputs.foldlM BufferQueue.step {} = some {
      gQueueHead := [genericPacket]
      threads := [.blocked, .done] } := rfl
  exact (h inputs).last hrun (by decide) (by decide) rfl (by decide)

end IntelPt.Driver
