import IntelPt.Driver.DriverOperations
import IntelPt.Driver.WakeUp

/-! The requests for buffers while the driver has them, and the event they wait for. Each is in the
loop of PtwCommandGetBuffer; a DPC that has put a packet into the queue calls KeSetEvent behind it,
an image load does not. -/
namespace IntelPt.Driver

structure Waits where
  gPagesAvailableEvent : Bool := false
  threads : List Pc := []

def Waits.bufferQueue (w : Waits) (queue : List CommBufferAddress) : BufferQueue where
  gQueueHead := queue
  gPagesAvailableEvent := w.gPagesAvailableEvent
  threads := w.threads

def BufferQueue.waits (s : BufferQueue) : Waits where
  gPagesAvailableEvent := s.gPagesAvailableEvent
  threads := s.threads

/-- The next step of a thread, unless it is to take a packet. -/
def Waits.run (w : Waits) (queue : List CommBufferAddress) (n : Nat) : Option Waits :=
  if w.threads[n]? = some .dequeue ∧ queue ≠ [] then none
  else ((w.bufferQueue queue).step (.run n)).map BufferQueue.waits

def Waits.alert (w : Waits) (n : Nat) : Option Waits :=
  ((w.bufferQueue []).step (.alert n)).map BufferQueue.waits

def Waits.arrive (w : Waits) : Waits := { w with threads := w.threads ++ [.dequeue] }

def Waits.finish (w : Waits) (n : Nat) : Waits := { w with threads := w.threads.set n .done }

def DriverOp.signals : DriverOp → Bool
  | .dpc .. | .disable .. => true
  | .init .. | .setup .. | .pmi .. | .imageLoad .. | .getBuffer => false

def Waits.behind (w : Waits) (op : DriverOp) (before after : List CommBufferAddress) : Waits :=
  if op.signals && before.length < after.length then { w with threads := w.threads ++ [.setEvent] }
  else w

def Pc.Requests (pc : Pc) : Prop := pc ≠ .setEvent ∧ pc ≠ .done

instance (pc : Pc) : Decidable pc.Requests := inferInstanceAs (Decidable (_ ∧ _))

/-- The request waits, or is about to, and nothing is going to wake it. -/
def Waits.Sleeps (w : Waits) (n : Nat) : Prop :=
  Pc.setEvent ∉ w.threads ∧ (w.threads[n]? = some .resetEvent ∨ w.threads[n]? = some .blocked ∨
    w.threads[n]? = some .beginWait ∧ w.gPagesAvailableEvent = false)

instance (w : Waits) (n : Nat) : Decidable (w.Sleeps n) :=
  inferInstanceAs (Decidable (_ ∧ (_ ∨ _ ∨ _ ∧ _)))

variable {w w' : Waits} {queue : List CommBufferAddress} {n : Nat}

theorem run_of_step {pc : Pc} (hn : w.threads[n]? = some pc) (hpc : pc ≠ .dequeue ∨ queue = []) :
    w.run queue n = ((w.bufferQueue queue).runThread n pc).map BufferQueue.waits := by
  have hno : ¬ (w.threads[n]? = some .dequeue ∧ queue ≠ []) := by
    rw [hn, Option.some.injEq]
    exact fun h => hpc.elim (fun hpc => hpc h.1) fun hempty => h.2 hempty
  have hget : (w.bufferQueue queue).threads[n]? = some pc := hn
  rw [Waits.run, if_neg hno, BufferQueue.step, hget, Option.bind_some]

theorem run_cases (h : w.run queue n = some w') : ∃ pc, w.threads[n]? = some pc ∧
    (pc = .setEvent ∧ w'.gPagesAvailableEvent = true ∧
        w'.threads = (w.threads.map fun pc => if pc = .blocked then .woken else pc).set n .done ∨
      pc = .dequeue ∧ queue = [] ∧ w' = { w with threads := w.threads.set n .resetEvent } ∨
      pc = .resetEvent ∧ w' = ⟨false, w.threads.set n .beginWait⟩ ∨
      pc = .beginWait ∧ w' = { w with
        threads := w.threads.set n (if w.gPagesAvailableEvent then .dequeue else .blocked) } ∨
      pc = .woken ∧ w' = { w with threads := w.threads.set n .dequeue }) := by
  cases hn : w.threads[n]? with
  | none =>
    have hget : (w.bufferQueue queue).threads[n]? = none := hn
    simp [Waits.run, hn, BufferQueue.step, hget] at h
  | some pc =>
    refine ⟨pc, rfl, ?_⟩
    by_cases hpc : pc = .dequeue ∧ queue ≠ []
    · obtain ⟨rfl, hne⟩ := hpc
      rw [Waits.run, if_pos ⟨hn, hne⟩] at h
      cases h
    · have hok : pc ≠ .dequeue ∨ queue = [] := by
        by_contra hno
        exact hpc ⟨by_contra fun hne => hno (Or.inl hne), fun hempty => hno (Or.inr hempty)⟩
      rw [run_of_step hn hok] at h
      obtain ⟨q, hq, rfl⟩ := Option.map_eq_some_iff.mp h
      cases pc with
      | setEvent =>
        cases hq
        exact Or.inl ⟨rfl, rfl, rfl⟩
      | dequeue =>
        obtain rfl := hok.resolve_left fun hne => hne rfl
        cases hq
        exact Or.inr (Or.inl ⟨rfl, rfl, rfl⟩)
      | resetEvent =>
        cases hq
        exact Or.inr (Or.inr (Or.inl ⟨rfl, rfl⟩))
      | beginWait =>
        cases hq
        exact Or.inr (Or.inr (Or.inr (Or.inl ⟨rfl, rfl⟩)))
      | woken =>
        cases hq
        exact Or.inr (Or.inr (Or.inr (Or.inr ⟨rfl, rfl⟩)))
      | blocked | done => cases hq

theorem requests_of_run {m : Nat} {pc : Pc} (hm : w.threads[m]? = some pc) (hpc : pc.Requests)
    (h : w.run queue n = some w') : ∃ pc', w'.threads[m]? = some pc' ∧ pc'.Requests := by
  have hset (xs : List Pc) (pc' : Pc) (hxs : ∃ pc, xs[m]? = some pc ∧ pc.Requests)
      (hpc' : n = m → pc'.Requests) : ∃ pc, (xs.set n pc')[m]? = some pc ∧ pc.Requests := by
    obtain ⟨pc, hget, hpc⟩ := hxs
    by_cases hnm : n = m
    · subst hnm
      obtain ⟨hlt, -⟩ := List.getElem?_eq_some_iff.mp hget
      exact ⟨pc', List.getElem?_set_self hlt, hpc' rfl⟩
    · exact ⟨pc, (List.getElem?_set_ne hnm).trans hget, hpc⟩
  have hkept : ∃ pc, w.threads[m]? = some pc ∧ pc.Requests := ⟨pc, hm, hpc⟩
  obtain ⟨pc₀, hn, ⟨rfl, -, hthreads⟩ | ⟨-, -, rfl⟩ | ⟨-, rfl⟩ | ⟨-, rfl⟩ | ⟨-, rfl⟩⟩ := run_cases h
  · rw [hthreads]
    refine hset _ _ ?_ ?_
    · refine ⟨if pc = .blocked then .woken else pc, ?_, ?_⟩
      · rw [List.getElem?_map, hm]
        rfl
      · split
        · decide
        · exact hpc
    · rintro rfl
      exact absurd (Option.some.inj (hm.symm.trans hn)) hpc.1
  · exact hset _ _ hkept fun _ => by decide
  · exact hset _ _ hkept fun _ => by decide
  · refine hset _ _ hkept fun _ => ?_
    split <;> decide
  · exact hset _ _ hkept fun _ => by decide

theorem requests_of_alert {m : Nat} {pc : Pc} (hm : w.threads[m]? = some pc) (hpc : pc.Requests)
    (h : w.alert n = some w') : ∃ pc', w'.threads[m]? = some pc' ∧ pc'.Requests := by
  obtain ⟨q, hq, rfl⟩ := Option.map_eq_some_iff.mp h
  simp only [BufferQueue.step] at hq
  split_ifs at hq
  cases hq
  by_cases hnm : n = m
  · subst hnm
    exact ⟨.dequeue, List.getElem?_set_self (List.getElem?_eq_some_iff.mp hm).1, by decide⟩
  · exact ⟨pc, (List.getElem?_set_ne hnm).trans hm, hpc⟩

/-- The routines of the driver leave the threads there are alone. -/
theorem getElem?_behind {op : DriverOp} {before after : List CommBufferAddress} {m : Nat} {pc : Pc}
    (hm : w.threads[m]? = some pc) : (w.behind op before after).threads[m]? = some pc := by
  simp only [Waits.behind]
  split_ifs
  · exact (List.getElem?_append_left (List.getElem?_eq_some_iff.mp hm).1).trans hm
  · exact hm

/-- Nobody wakes it while the queue is not empty and nobody is about to set the event. -/
theorem Waits.Sleeps.run {m : Nat} (hs : w.Sleeps m) (hqueue : queue ≠ [])
    (h : w.run queue n = some w') : w'.Sleeps m := by
  obtain ⟨hnobody, hasleep⟩ := hs
  obtain ⟨pc, hn, ⟨rfl, -, -⟩ | ⟨-, hempty, -⟩ | ⟨rfl, rfl⟩ | ⟨rfl, rfl⟩ | ⟨rfl, rfl⟩⟩ :=
    run_cases h
  · exact absurd (List.mem_of_getElem? hn) hnobody
  · exact absurd hempty hqueue
  all_goals
    have hlt := (List.getElem?_eq_some_iff.mp hn).1
    refine ⟨fun hm => ?_, ?_⟩
  · exact (List.mem_or_eq_of_mem_set hm).elim hnobody nofun
  · by_cases hnm : n = m
    · subst hnm
      exact Or.inr (Or.inr ⟨List.getElem?_set_self hlt, rfl⟩)
    · rw [List.getElem?_set_ne hnm]
      exact hasleep.imp_right fun h => h.imp_right fun h => ⟨h.1, rfl⟩
  · refine (List.mem_or_eq_of_mem_set hm).elim hnobody fun heq => ?_
    split at heq <;> cases heq
  · by_cases hnm : n = m
    · subst hnm
      have hoff : w.gPagesAvailableEvent = false := by simpa [hn] using hasleep
      refine Or.inr (Or.inl ?_)
      rw [List.getElem?_set_self hlt, hoff]
      rfl
    · rw [List.getElem?_set_ne hnm]
      exact hasleep
  · exact (List.mem_or_eq_of_mem_set hm).elim hnobody nofun
  · by_cases hnm : n = m
    · subst hnm
      simp [hn] at hasleep
    · rw [List.getElem?_set_ne hnm]
      exact hasleep

/-! A request that does not sleep gets to the queue. -/

def Waits.runs (queue : List CommBufferAddress) (w : Waits) (ns : List Nat) : Option Waits :=
  ns.foldlM (fun w n => w.run queue n) w

theorem run_signal {k : Nat} (hk : w.threads[k]? = some .setEvent) :
    w.run queue k = some ⟨true,
      (w.threads.map fun pc => if pc = .blocked then .woken else pc).set k .done⟩ := by
  rw [run_of_step hk (Or.inl nofun)]
  rfl

/-- A thread that sets the event wakes a request that is blocked, and leaves one that is about to
wait with the event set. -/
theorem getElem?_signal {k m : Nat} {pc : Pc} (hk : w.threads[k]? = some .setEvent)
    (hm : w.threads[m]? = some pc) (hpc : pc ≠ .setEvent) :
    ((w.threads.map fun pc => if pc = .blocked then .woken else pc).set k .done)[m]? =
      some (if pc = .blocked then .woken else pc) := by
  have hkm : k ≠ m := by
    rintro rfl
    exact hpc (Option.some.inj (hm.symm.trans hk))
  rw [List.getElem?_set_ne hkm, List.getElem?_map, hm]
  rfl

theorem runs_of_set (queue : List CommBufferAddress) {m : Nat} {pc : Pc}
    (hm : w.threads[m]? = some pc)
    (hpc : pc = .woken ∨ pc = .beginWait ∧ w.gPagesAvailableEvent = true) :
    ∃ w', w.runs queue [m] = some w' ∧ w'.threads[m]? = some .dequeue := by
  have hlt := (List.getElem?_eq_some_iff.mp hm).1
  obtain rfl | ⟨rfl, hset⟩ := hpc
  · refine ⟨{ w with threads := w.threads.set m .dequeue }, ?_, List.getElem?_set_self hlt⟩
    simp only [Waits.runs, List.foldlM_cons, List.foldlM_nil, run_of_step hm (Or.inl nofun)]
    rfl
  · refine ⟨{ w with threads := w.threads.set m .dequeue }, ?_, List.getElem?_set_self hlt⟩
    have hevent : (w.bufferQueue queue).gPagesAvailableEvent = true := hset
    simp only [Waits.runs, List.foldlM_cons, List.foldlM_nil, run_of_step hm (Or.inl nofun),
      BufferQueue.runThread, hevent, if_true]
    rfl

/-- A request gets to the queue if a thread sets the event. -/
theorem runs_of_signal (queue : List CommBufferAddress) {k m : Nat} {pc : Pc}
    (hk : w.threads[k]? = some .setEvent) (hm : w.threads[m]? = some pc)
    (hpc : pc = .blocked ∨ pc = .beginWait) :
    ∃ w', w.runs queue [k, m] = some w' ∧ w'.threads[m]? = some .dequeue := by
  have hne : pc ≠ .setEvent := by
    obtain rfl | rfl := hpc <;> decide
  have hafter := getElem?_signal hk hm hne
  let woken : Waits := ⟨true,
    (w.threads.map fun pc => if pc = .blocked then .woken else pc).set k .done⟩
  have hset : ∃ w', woken.runs queue [m] = some w' ∧ w'.threads[m]? = some .dequeue := by
    refine runs_of_set queue hafter ?_
    obtain rfl | rfl := hpc
    · exact Or.inl rfl
    · exact Or.inr ⟨rfl, rfl⟩
  obtain ⟨w', hruns, hdequeue⟩ := hset
  refine ⟨w', ?_, hdequeue⟩
  rw [Waits.runs, List.foldlM_cons, run_signal hk]
  exact hruns

theorem runs_of_not_sleeps (queue : List CommBufferAddress) {m : Nat} {pc : Pc}
    (hm : w.threads[m]? = some pc) (hpc : pc.Requests) (hawake : ¬ w.Sleeps m) :
    ∃ ns w', w.runs queue ns = some w' ∧ w'.threads[m]? = some .dequeue := by
  have hlt := (List.getElem?_eq_some_iff.mp hm).1
  -- the places from which it is only woken by a thread that sets the event
  have hsignal (h : w.threads[m]? = some .resetEvent ∨ w.threads[m]? = some .blocked ∨
      w.threads[m]? = some .beginWait ∧ w.gPagesAvailableEvent = false) :
      ∃ k : Nat, w.threads[k]? = some Pc.setEvent := by
    by_contra hno
    exact hawake ⟨fun hmem => hno (List.mem_iff_getElem?.mp hmem), h⟩
  cases pc with
  | setEvent => exact absurd rfl hpc.1
  | done => exact absurd rfl hpc.2
  | dequeue => exact ⟨[], w, rfl, hm⟩
  | woken =>
    obtain ⟨w', hruns, hdequeue⟩ := runs_of_set queue hm (Or.inl rfl)
    exact ⟨_, w', hruns, hdequeue⟩
  | blocked =>
    obtain ⟨k, hk⟩ := hsignal (Or.inr (Or.inl hm))
    obtain ⟨w', hruns, hdequeue⟩ := runs_of_signal queue hk hm (Or.inl rfl)
    exact ⟨_, w', hruns, hdequeue⟩
  | beginWait =>
    cases hevent : w.gPagesAvailableEvent with
    | true =>
      obtain ⟨w', hruns, hdequeue⟩ := runs_of_set queue hm (Or.inr ⟨rfl, hevent⟩)
      exact ⟨_, w', hruns, hdequeue⟩
    | false =>
      obtain ⟨k, hk⟩ := hsignal (Or.inr (Or.inr ⟨hm, hevent⟩))
      obtain ⟨w', hruns, hdequeue⟩ := runs_of_signal queue hk hm (Or.inr rfl)
      exact ⟨_, w', hruns, hdequeue⟩
  | resetEvent =>
    obtain ⟨k, hk⟩ := hsignal (Or.inl hm)
    have hkm : m ≠ k := by
      rintro rfl
      cases hm.symm.trans hk
    let reset : Waits := ⟨false, w.threads.set m .beginWait⟩
    have hk' : reset.threads[k]? = some .setEvent := (List.getElem?_set_ne hkm).trans hk
    have hm' : reset.threads[m]? = some .beginWait := List.getElem?_set_self hlt
    obtain ⟨w', hruns, hdequeue⟩ := runs_of_signal queue hk' hm' (Or.inr rfl)
    refine ⟨m :: [k, m], w', ?_, hdequeue⟩
    have hfirst : w.run queue m = some reset := by
      rw [run_of_step hm (Or.inl nofun)]
      rfl
    rw [Waits.runs, List.foldlM_cons, hfirst]
    exact hruns

end IntelPt.Driver
