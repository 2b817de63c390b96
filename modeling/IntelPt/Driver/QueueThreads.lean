import Mathlib.Data.List.Induction
import IntelPt.Driver.DriverUtils

/-! An interlocked queue under any number of threads. The list is accessed under its lock, in one
step; an element is allocated before that, read and freed after it, with other threads in
between. -/
namespace IntelPt.DriverUtils
open Driver LinkedList Runs
variable {τ : Type}

inductive ThreadCall where
  | enqueue (data : Pvoid) (alloc : Option Allocation)
  | dequeue
  deriving DecidableEq, Repr

inductive Activity where
  | idle
  /-- DuEnqueueElement has its element and goes to insert it -/
  | allocated (alloc : Allocation) (data : Pvoid)
  /-- DuDequeueElement has the element and goes to read its Data -/
  | removed (element : Address)
  /-- and to free it -/
  | read (element : Address) (data : Pvoid)
  deriving DecidableEq, Repr

/-- `called`, `order` and `returned` are the calls in the order they were made, in the order of
their accesses to the list, and the answers in the order of the returns. -/
structure QueueThreads (τ : Type) where
  queueHead : Address
  memory : PoolMemory
  activity : τ → Activity := fun _ => .idle
  called : List (τ × QueueCall) := []
  order : List (τ × QueueCall) := []
  returned : List (τ × (NtStatusCode × Option Pvoid)) := []

/-! What a thread sees of a history. -/

def ofThread [DecidableEq τ] {β : Type} (t : τ) (xs : List (τ × β)) : List β :=
  (xs.filter (·.1 = t)).map Prod.snd

/-- The calls one after the other, on a first-in first-out queue. -/
def sequential (order : List (τ × QueueCall)) : Fifo :=
  (order.map Prod.snd).foldl Fifo.step {}

def sequentialAnswers (order : List (τ × QueueCall)) :
    List (τ × (NtStatusCode × Option Pvoid)) :=
  (order.map Prod.fst).zip (sequential order).answers

def Fifo.answer (q : Fifo) (call : QueueCall) : NtStatusCode × Option Pvoid :=
  match call, q.contents with
  | .enqueue _ alloc, _ =>
    (if alloc.isSome then statusSuccess else statusInsufficientResources, none)
  | .enqueueElements elements, _ =>
    (if elements.all (·.2.isSome) then statusSuccess else statusInsufficientResources, none)
  | .dequeue, [] => (statusNoMoreEntries, some 0)
  | .dequeue, data :: _ => (statusSuccess, some data)

theorem ofThread_append_one [DecidableEq τ] {β : Type} (t t' : τ) (xs : List (τ × β)) (b : β) :
    ofThread t (xs ++ [(t', b)]) = ofThread t xs ++ if t' = t then [b] else [] := by
  by_cases h : t' = t <;> simp [ofThread, h]

theorem Fifo.step_answers (q : Fifo) (call : QueueCall) :
    (q.step call).answers = q.answers ++ [q.answer call] := by
  cases call with
  | enqueue data alloc => rfl
  | enqueueElements elements => rfl
  | dequeue => cases h : q.contents <;> simp [Fifo.step, Fifo.answer, h]

theorem sequential_append_one (order : List (τ × QueueCall)) (t : τ) (call : QueueCall) :
    sequential (order ++ [(t, call)]) = (sequential order).step call := by
  simp [sequential, List.foldl_append]

theorem length_sequential_answers (order : List (τ × QueueCall)) :
    (sequential order).answers.length = order.length := by
  induction order using List.reverseRec with
  | nil => rfl
  | append_singleton order e ih =>
    obtain ⟨t, call⟩ := e
    rw [sequential_append_one, Fifo.step_answers, List.length_append, List.length_append, ih]
    rfl

theorem sequentialAnswers_append_one (order : List (τ × QueueCall)) (t : τ) (call : QueueCall) :
    sequentialAnswers (order ++ [(t, call)]) =
      sequentialAnswers order ++ [(t, (sequential order).answer call)] := by
  have hlength : (order.map Prod.fst).length = (sequential order).answers.length := by
    rw [length_sequential_answers, List.length_map]
  rw [sequentialAnswers, sequential_append_one, Fifo.step_answers, List.map_append,
    List.zip_append hlength]
  rfl

theorem length_ofThread_sequentialAnswers [DecidableEq τ] (t : τ) (order : List (τ × QueueCall)) :
    (ofThread t (sequentialAnswers order)).length = (ofThread t order).length := by
  induction order using List.reverseRec with
  | nil => rfl
  | append_singleton order e ih =>
    obtain ⟨t', call⟩ := e
    rw [sequentialAnswers_append_one, ofThread_append_one, ofThread_append_one,
      List.length_append, List.length_append, ih]
    split <;> rfl

/-! Which thread holds which element. -/

abbrev HeldBy (τ : Type) := Address → Option (τ × Pvoid)

def Activity.element : Activity → Option Address
  | .idle => none
  | .allocated alloc _ => some alloc.address
  | .removed element | .read element _ => some element

def Activity.known : Activity → Option (Address × Pvoid)
  | .allocated alloc data => some (alloc.address, data)
  | .read element data => some (element, data)
  | .idle | .removed _ => none

def Activity.pending : Activity → List QueueCall
  | .allocated alloc data => [.enqueue data (some alloc)]
  | .idle | .removed _ | .read _ _ => []

def Activity.owed (held : HeldBy τ) : Activity → List (NtStatusCode × Option Pvoid)
  | .removed element | .read element _ =>
    ((held element).map fun e => (statusSuccess, some e.2)).toList
  | .idle | .allocated _ _ => []

structure Owners (activity : τ → Activity) (held : HeldBy τ) : Prop where
  owner : ∀ t a, (activity t).element = some a ↔ ∃ d, held a = some (t, d)
  known : ∀ t a d, (activity t).known = some (a, d) → held a = some (t, d)

theorem Activity.element_of_known {activity : Activity} {a : Address} {d : Pvoid}
    (h : activity.known = some (a, d)) : activity.element = some a := by
  cases activity <;> simp_all [Activity.known, Activity.element]

theorem Activity.owed_update {activity : Activity} {held : HeldBy τ} {a : Address}
    (h : activity.element ≠ some a) (x : Option (τ × Pvoid)) :
    activity.owed (Function.update held a x) = activity.owed held := by
  cases activity with
  | idle => rfl
  | allocated alloc data => rfl
  | removed element =>
    have hne : element ≠ a := fun heq => h (heq ▸ rfl)
    rw [Activity.owed, Function.update_of_ne hne]
    rfl
  | read element data =>
    have hne : element ≠ a := fun heq => h (heq ▸ rfl)
    rw [Activity.owed, Function.update_of_ne hne]
    rfl

theorem Owners.other {activity : τ → Activity} (h : Owners activity held) {t t' : τ}
    (ht : t' ≠ t) {a : Address} (hheld : held a = none ∨ ∃ d, held a = some (t, d)) :
    (activity t').element ≠ some a := by
  intro ha
  obtain ⟨d', hd'⟩ := (h.owner t' a).mp ha
  obtain hnone | ⟨d, hd⟩ := hheld
  · rw [hnone] at hd'
    cases hd'
  · rw [hd] at hd'
    exact ht (Prod.mk.inj (Option.some.inj hd')).1.symm

section

variable [DecidableEq τ]

def QueueThreads.goto (s : QueueThreads τ) (t : τ) (activity : Activity) : QueueThreads τ :=
  { s with activity := Function.update s.activity t activity }

def QueueThreads.answer (s : QueueThreads τ) (t : τ) (answer : NtStatusCode × Option Pvoid) :
    QueueThreads τ :=
  { s.goto t .idle with returned := s.returned ++ [(t, answer)] }

def QueueThreads.call (s : QueueThreads τ) (t : τ) (call : QueueCall) : QueueThreads τ :=
  { s with called := s.called ++ [(t, call)] }

def QueueThreads.effect (s : QueueThreads τ) (t : τ) (call : QueueCall) : QueueThreads τ :=
  { s with order := s.order ++ [(t, call)] }

/-- The thread goes on with what it does; only if it is idle, it makes the call. -/
def QueueThreads.step (s : QueueThreads τ) (event : τ × ThreadCall) : Option (QueueThreads τ) :=
  let t := event.1
  match s.activity t with
  | .idle =>
    match event.2 with
    | .enqueue data none =>
      let s := (s.call t (.enqueue data none)).effect t (.enqueue data none)
      some (s.answer t (statusInsufficientResources, none))
    | .enqueue data (some alloc) =>
      let s := s.call t (.enqueue data (some alloc))
      let s := { s with memory := s.memory.allocateElement alloc data }
      some (s.goto t (.allocated alloc data))
    | .dequeue => do
      let head ← s.memory.heads s.queueHead
      let listEntry ← head.listEntry
      let (element, links) ← exInterlockedRemoveHeadList s.memory.links listEntry
      let s := (s.call t .dequeue).effect t .dequeue
      let s := { s with memory := { s.memory with links := links } }
      match element with
      | none => return s.answer t (statusNoMoreEntries, some 0)
      | some element =>
        if element = listEntry then return s.answer t (statusNoMoreEntries, some 0)
        else return s.goto t (.removed element)
  | .allocated alloc data => do
    let head ← s.memory.heads s.queueHead
    let listEntry ← head.listEntry
    let links ← insertTailList s.memory.links listEntry alloc.address
    let s := s.effect t (.enqueue data (some alloc))
    let s := { s with memory := { s.memory with links := links } }
    return s.answer t (statusSuccess, none)
  | .removed element => do
    let data ← s.memory.data element
    return s.goto t (.read element data)
  | .read element data => do
    let m ← s.memory.free element
    return { s with memory := m }.answer t (statusSuccess, some data)

def QueueThreads.Granted (s : QueueThreads τ) (event : τ × ThreadCall) : Prop :=
  match s.activity event.1, event.2 with
  | .idle, .enqueue _ alloc => DriverUtils.Granted s.memory alloc
  | _, _ => True

instance (s : QueueThreads τ) (event : τ × ThreadCall) : Decidable (s.Granted event) := by
  unfold QueueThreads.Granted
  split <;> infer_instance

structure Consistent (s : QueueThreads τ) (listEntry : Address)
    (elements : List (Address × Pvoid)) (held : HeldBy τ) : Prop where
  represents : Represents s.memory s.queueHead ⟨some listEntry, true⟩ listEntry elements
    (Option.map Prod.snd ∘ held)
  owners : Owners s.activity held
  contents : elements.map Prod.snd = (sequential s.order).contents
  calls : ∀ t, ofThread t s.called = ofThread t s.order ++ (s.activity t).pending
  answers : ∀ t, ofThread t (sequentialAnswers s.order) =
    ofThread t s.returned ++ (s.activity t).owed held

variable {s : QueueThreads τ} {listEntry : Address} {elements : List (Address × Pvoid)}
  {held : HeldBy τ}

theorem Owners.gain {activity : τ → Activity} (h : Owners activity held) {t : τ} {a : Address}
    {d : Pvoid} {next : Activity} (hidle : (activity t).element = none) (hfree : held a = none)
    (hnext : next.element = some a) (hknown : ∀ b d', next.known = some (b, d') → d' = d) :
    Owners (Function.update activity t next) (Function.update held a (some (t, d))) := by
  refine ⟨fun t' b => ?_, fun t' b d' hb => ?_⟩
  · by_cases ht : t' = t
    · subst ht
      rw [Function.update_self, hnext]
      by_cases hba : b = a
      · subst hba
        rw [Function.update_self]
        exact iff_of_true rfl ⟨d, rfl⟩
      · rw [Function.update_of_ne hba, ← h.owner, hidle]
        exact iff_of_false (fun heq => hba (Option.some.inj heq).symm) nofun
    · rw [Function.update_of_ne ht, h.owner]
      by_cases hba : b = a
      · subst hba
        rw [Function.update_self, hfree]
        refine iff_of_false (fun ⟨d', hd⟩ => (by cases hd)) fun ⟨d', hd⟩ => ?_
        exact ht (Prod.mk.inj (Option.some.inj hd)).1.symm
      · rw [Function.update_of_ne hba]
  · by_cases ht : t' = t
    · subst ht
      rw [Function.update_self] at hb
      have hba : b = a := Option.some.inj ((Activity.element_of_known hb).symm.trans hnext)
      rw [hba, Function.update_self, hknown b d' hb]
    · rw [Function.update_of_ne ht] at hb
      have hheld := h.known t' b d' hb
      have hba : b ≠ a := by
        intro heq
        rw [heq, hfree] at hheld
        cases hheld
      rw [Function.update_of_ne hba, hheld]

theorem Owners.lose {activity : τ → Activity} (h : Owners activity held) {t : τ} {a : Address}
    (ha : (activity t).element = some a) :
    Owners (Function.update activity t .idle) (Function.update held a none) := by
  obtain ⟨d, hd⟩ := (h.owner t a).mp ha
  refine ⟨fun t' b => ?_, fun t' b d' hb => ?_⟩
  · by_cases ht : t' = t
    · subst ht
      rw [Function.update_self]
      refine iff_of_false nofun fun ⟨d', hd'⟩ => ?_
      by_cases hba : b = a
      · rw [hba, Function.update_self] at hd'
        cases hd'
      · rw [Function.update_of_ne hba] at hd'
        have hb := (h.owner t' b).mpr ⟨d', hd'⟩
        exact hba (Option.some.inj (hb.symm.trans ha))
    · rw [Function.update_of_ne ht, h.owner]
      by_cases hba : b = a
      · subst hba
        rw [Function.update_self, hd]
        refine iff_of_false (fun ⟨d', hd'⟩ => ?_) fun ⟨d', hd'⟩ => (by cases hd')
        exact ht (Prod.mk.inj (Option.some.inj hd')).1.symm
      · rw [Function.update_of_ne hba]
  · by_cases ht : t' = t
    · rw [ht, Function.update_self] at hb
      cases hb
    · rw [Function.update_of_ne ht] at hb
      have hheld := h.known t' b d' hb
      have hba : b ≠ a := by
        intro heq
        rw [heq, hd] at hheld
        exact ht (Prod.mk.inj (Option.some.inj hheld)).1.symm
      rw [Function.update_of_ne hba, hheld]

theorem Owners.keep {activity : τ → Activity} (h : Owners activity held) {t : τ} {a : Address}
    {d : Pvoid} (hheld : held a = some (t, d)) {next : Activity} (hnext : next.element = some a)
    (hknown : ∀ b d', next.known = some (b, d') → d' = d) :
    Owners (Function.update activity t next) held := by
  have ha := (h.owner t a).mpr ⟨d, hheld⟩
  refine ⟨fun t' b => ?_, fun t' b d' hb => ?_⟩
  · by_cases ht : t' = t
    · subst ht
      rw [Function.update_self, hnext, ← ha, h.owner]
    · rw [Function.update_of_ne ht, h.owner]
  · by_cases ht : t' = t
    · subst ht
      rw [Function.update_self] at hb
      have hba : b = a := Option.some.inj ((Activity.element_of_known hb).symm.trans hnext)
      rw [hba, hknown b d' hb, hheld]
    · rw [Function.update_of_ne ht] at hb
      exact h.known t' b d' hb

/-! The steps keep the invariant. -/

/-- A call that takes effect and returns at once. -/
theorem Consistent.refuse (h : Consistent s listEntry elements held) {t : τ}
    (ht : s.activity t = .idle) (call : QueueCall)
    (hcontents : ((sequential s.order).step call).contents = (sequential s.order).contents) :
    Consistent (((s.call t call).effect t call).answer t ((sequential s.order).answer call))
      listEntry elements held := by
  have hactivity : Function.update s.activity t .idle = s.activity := by
    rw [← ht, Function.update_eq_self]
  refine ⟨h.represents, ?_, ?_, fun t' => ?_, fun t' => ?_⟩
  · have howners : Owners (Function.update s.activity t .idle) held := by
      rw [hactivity]
      exact h.owners
    exact howners
  · exact h.contents.trans ((sequential_append_one s.order t call).symm ▸ hcontents.symm)
  · have hcalls := h.calls t'
    simp only [QueueThreads.answer, QueueThreads.goto, QueueThreads.effect, QueueThreads.call,
      hactivity, ofThread_append_one]
    by_cases htt : t = t'
    · subst htt
      rw [ht] at hcalls ⊢
      simp [hcalls, Activity.pending]
    · simp [htt, hcalls]
  · have hanswers := h.answers t'
    simp only [QueueThreads.answer, QueueThreads.goto, QueueThreads.effect, QueueThreads.call,
      hactivity, sequentialAnswers_append_one, ofThread_append_one]
    by_cases htt : t = t'
    · subst htt
      rw [ht] at hanswers ⊢
      simp [hanswers, Activity.owed]
    · simp [htt, hanswers]

theorem Consistent.allocate (h : Consistent s listEntry elements held) {t : τ}
    (ht : s.activity t = .idle) {alloc : Allocation} (hfree : ¬ s.memory.Allocated alloc.address)
    (data : Pvoid) :
    Consistent ({ s.call t (.enqueue data (some alloc)) with
      memory := s.memory.allocateElement alloc data }.goto t (.allocated alloc data))
      listEntry elements (Function.update held alloc.address (some (t, data))) := by
  have hnone : held alloc.address = none := by
    by_contra hne
    obtain ⟨e, he⟩ := Option.ne_none_iff_exists'.mp hne
    refine hfree ((h.represents.allocated _).mpr (Or.inr (Or.inr ?_)))
    rw [Function.comp_apply, he]
    rfl
  refine ⟨?_, ?_, h.contents, fun t' => ?_, fun t' => ?_⟩
  · rw [Function.comp_update]
    exact h.represents.allocate hfree data
  · exact h.owners.gain (by rw [ht]; rfl) hnone rfl
      fun b d' hb => (Prod.mk.inj (Option.some.inj hb)).2.symm
  · have hcalls := h.calls t'
    simp only [QueueThreads.goto, QueueThreads.call, ofThread_append_one]
    by_cases htt : t = t'
    · subst htt
      rw [ht] at hcalls
      simp [hcalls, Activity.pending]
    · simp [htt, Ne.symm htt, hcalls]
  · have hanswers := h.answers t'
    simp only [QueueThreads.goto, QueueThreads.call]
    by_cases htt : t = t'
    · subst htt
      rw [ht] at hanswers
      simp [hanswers, Activity.owed]
    · rw [Function.update_of_ne (Ne.symm htt),
        Activity.owed_update (h.owners.other (Ne.symm htt) (Or.inl hnone)), hanswers]

theorem Consistent.remove {e : Address × Pvoid}
    (h : Consistent s listEntry (e :: elements) held) {t : τ} (ht : s.activity t = .idle)
    {links : Links Address}
    (hrepresents : Represents { s.memory with links := links } s.queueHead
      ⟨some listEntry, true⟩ listEntry elements
      (Function.update (Option.map Prod.snd ∘ held) e.1 (some e.2))) :
    Consistent ({ (s.call t .dequeue).effect t .dequeue with
      memory := { s.memory with links := links } }.goto t (.removed e.1))
      listEntry elements (Function.update held e.1 (some (t, e.2))) := by
  have hnone : held e.1 = none := by
    by_contra hne
    obtain ⟨x, hx⟩ := Option.ne_none_iff_exists'.mp hne
    refine (h.represents.outside e.1 x.2 ?_).2 (List.mem_cons_of_mem _ List.mem_cons_self)
    rw [Function.comp_apply, hx]
    rfl
  have hcontents : (sequential s.order).contents = e.2 :: elements.map Prod.snd :=
    h.contents.symm
  refine ⟨?_, ?_, ?_, fun t' => ?_, fun t' => ?_⟩
  · rw [Function.comp_update]
    exact hrepresents
  · exact h.owners.gain (by rw [ht]; rfl) hnone rfl nofun
  · simp only [QueueThreads.goto, QueueThreads.effect, QueueThreads.call, sequential_append_one]
    rw [Fifo.step, hcontents]
  · have hcalls := h.calls t'
    simp only [QueueThreads.goto, QueueThreads.effect, QueueThreads.call, ofThread_append_one]
    by_cases htt : t = t'
    · subst htt
      rw [ht] at hcalls
      simp [hcalls, Activity.pending]
    · simp [htt, Ne.symm htt, hcalls]
  · have hanswers := h.answers t'
    simp only [QueueThreads.goto, QueueThreads.effect, QueueThreads.call,
      sequentialAnswers_append_one, ofThread_append_one]
    by_cases htt : t = t'
    · subst htt
      rw [ht] at hanswers
      simp [hanswers, Activity.owed, Fifo.answer, hcontents]
    · rw [Function.update_of_ne (Ne.symm htt), if_neg htt, List.append_nil,
        Activity.owed_update (h.owners.other (Ne.symm htt) (Or.inl hnone)), hanswers]

theorem Consistent.insert (h : Consistent s listEntry elements held) {t : τ} {alloc : Allocation}
    {data : Pvoid} (ht : s.activity t = .allocated alloc data) {links : Links Address}
    (hrepresents : Represents { s.memory with links := links } s.queueHead
      ⟨some listEntry, true⟩ listEntry (elements ++ [(alloc.address, data)])
      (Function.update (Option.map Prod.snd ∘ held) alloc.address none)) :
    Consistent ({ s.effect t (.enqueue data (some alloc)) with
      memory := { s.memory with links := links } }.answer t (statusSuccess, none))
      listEntry (elements ++ [(alloc.address, data)])
      (Function.update held alloc.address none) := by
  have hheld : held alloc.address = some (t, data) := h.owners.known t _ data (by rw [ht]; rfl)
  refine ⟨?_, ?_, ?_, fun t' => ?_, fun t' => ?_⟩
  · rw [Function.comp_update]
    exact hrepresents
  · exact h.owners.lose (by rw [ht]; rfl)
  · simp only [QueueThreads.answer, QueueThreads.goto, QueueThreads.effect,
      sequential_append_one]
    simp [Fifo.step, Fifo.push, ← h.contents]
  · have hcalls := h.calls t'
    simp only [QueueThreads.answer, QueueThreads.goto, QueueThreads.effect, ofThread_append_one]
    by_cases htt : t = t'
    · subst htt
      rw [ht] at hcalls
      simp [hcalls, Activity.pending]
    · simp [htt, Ne.symm htt, hcalls]
  · have hanswers := h.answers t'
    simp only [QueueThreads.answer, QueueThreads.goto, QueueThreads.effect,
      sequentialAnswers_append_one, ofThread_append_one]
    by_cases htt : t = t'
    · subst htt
      rw [ht] at hanswers
      simp [hanswers, Activity.owed, Fifo.answer]
    · rw [Function.update_of_ne (Ne.symm htt), if_neg htt, if_neg htt, List.append_nil,
        List.append_nil, Activity.owed_update
          (h.owners.other (Ne.symm htt) (Or.inr ⟨data, hheld⟩)), hanswers]

theorem Consistent.readData (h : Consistent s listEntry elements held) {t : τ}
    {element : Address} (ht : s.activity t = .removed element) :
    ∃ data, held element = some (t, data) ∧ s.memory.data element = some data ∧
      Consistent (s.goto t (.read element data)) listEntry elements held := by
  obtain ⟨data, hheld⟩ := (h.owners.owner t element).mp (by rw [ht]; rfl)
  have hdata : s.memory.data element = some data := by
    refine (h.represents.ofHeld element data ?_).2
    rw [Function.comp_apply, hheld]
    rfl
  refine ⟨data, hheld, hdata, h.represents, ?_, h.contents, fun t' => ?_, fun t' => ?_⟩
  · exact h.owners.keep hheld rfl fun b d' hb => (Prod.mk.inj (Option.some.inj hb)).2.symm
  · have hcalls := h.calls t'
    simp only [QueueThreads.goto]
    by_cases htt : t = t'
    · subst htt
      rw [ht] at hcalls
      simp [hcalls, Activity.pending]
    · simp [Ne.symm htt, hcalls]
  · have hanswers := h.answers t'
    simp only [QueueThreads.goto]
    by_cases htt : t = t'
    · subst htt
      rw [ht] at hanswers
      simp [hanswers, Activity.owed]
    · simp [Ne.symm htt, hanswers]

theorem Consistent.free (h : Consistent s listEntry elements held) {t : τ} {element : Address}
    {data : Pvoid} (ht : s.activity t = .read element data) :
    s.memory.free element = some (s.memory.erase element) ∧
      Consistent ({ s with memory := s.memory.erase element }.answer t
        (statusSuccess, some data)) listEntry elements (Function.update held element none) := by
  have hheld : held element = some (t, data) := h.owners.known t _ data (by rw [ht]; rfl)
  have hdata : (Option.map Prod.snd ∘ held) element = some data := by
    rw [Function.comp_apply, hheld]
    rfl
  obtain ⟨hfree, hrepresents⟩ := h.represents.free hdata
  refine ⟨hfree, ?_, ?_, h.contents, fun t' => ?_, fun t' => ?_⟩
  · rw [Function.comp_update]
    exact hrepresents
  · exact h.owners.lose (by rw [ht]; rfl)
  · have hcalls := h.calls t'
    simp only [QueueThreads.answer, QueueThreads.goto]
    by_cases htt : t = t'
    · subst htt
      rw [ht] at hcalls
      simp [hcalls, Activity.pending]
    · simp [Ne.symm htt, hcalls]
  · have hanswers := h.answers t'
    simp only [QueueThreads.answer, QueueThreads.goto, ofThread_append_one]
    by_cases htt : t = t'
    · subst htt
      rw [ht] at hanswers
      simp [hanswers, Activity.owed, hheld]
    · rw [Function.update_of_ne (Ne.symm htt), if_neg htt, List.append_nil,
        Activity.owed_update (h.owners.other (Ne.symm htt) (Or.inr ⟨data, hheld⟩)), hanswers]

theorem Consistent.step (h : Consistent s listEntry elements held) {event : τ × ThreadCall}
    (hg : s.Granted event) :
    ∃ s' elements' held', s.step event = some s' ∧ s'.queueHead = s.queueHead ∧
      Consistent s' listEntry elements' held' := by
  obtain ⟨t, call⟩ := event
  have hhead := h.represents.head
  cases ht : s.activity t with
  | idle =>
    cases call with
    | enqueue data alloc =>
      cases alloc with
      | none =>
        refine ⟨_, _, _, ?_, ?_, h.refuse ht (.enqueue data none) ?_⟩
        · simp [QueueThreads.step, ht, Fifo.answer]
        · rfl
        · simp [Fifo.step, Fifo.push]
      | some alloc =>
        have hfree : ¬ s.memory.Allocated alloc.address := by
          simpa [QueueThreads.Granted, ht, DriverUtils.Granted] using hg
        refine ⟨_, _, _, ?_, ?_, h.allocate ht hfree data⟩
        · simp only [QueueThreads.step, ht]
          rfl
        · rfl
    | dequeue =>
      cases elements with
      | nil =>
        obtain ⟨element, hremove, rfl | ⟨hlocked, -⟩⟩ := removeElement_nil h.represents
        · have hcontents : (sequential s.order).contents = [] := h.contents.symm
          refine ⟨_, _, _, ?_, ?_, h.refuse ht .dequeue ?_⟩
          · have hremove' : exInterlockedRemoveHeadList s.memory.links listEntry =
                some (none, s.memory.links) := hremove
            simp [QueueThreads.step, ht, hhead, hremove', Fifo.answer, hcontents,
              QueueThreads.call, QueueThreads.effect]
          · rfl
          · simp [Fifo.step, hcontents]
        · cases hlocked
      | cons e elements =>
        obtain ⟨links, hremove, hne, hrepresents⟩ := h.represents.remove
        have hremove' : exInterlockedRemoveHeadList s.memory.links listEntry =
          some (some e.1, links) := hremove
        refine ⟨_, _, _, ?_, ?_, h.remove ht hrepresents⟩
        · simp [QueueThreads.step, ht, hhead, hremove', hne, QueueThreads.call,
            QueueThreads.effect]
        · rfl
  | allocated alloc data =>
    have hheld : (Option.map Prod.snd ∘ held) alloc.address = some data := by
      rw [Function.comp_apply, h.owners.known t _ data (by rw [ht]; rfl)]
      rfl
    obtain ⟨links, hinsert, hrepresents⟩ := h.represents.insert hheld
    refine ⟨_, _, _, ?_, ?_, h.insert ht hrepresents⟩
    · simp [QueueThreads.step, ht, hhead, hinsert, QueueThreads.effect]
    · rfl
  | removed element =>
    obtain ⟨data, -, hdata, h'⟩ := h.readData ht
    refine ⟨_, _, _, ?_, ?_, h'⟩
    · simp [QueueThreads.step, ht, hdata]
    · rfl
  | read element data =>
    obtain ⟨hfree, h'⟩ := h.free ht
    refine ⟨_, _, _, ?_, ?_, h'⟩
    · simp [QueueThreads.step, ht, hfree]
    · rfl

theorem Consistent.run (events : List (τ × ThreadCall)) : ∀ {s : QueueThreads τ}
    {elements : List (Address × Pvoid)} {held : HeldBy τ},
    Consistent s listEntry elements held →
      Meets QueueThreads.step QueueThreads.Granted s events →
      ∃ s' elements' held', events.foldlM QueueThreads.step s = some s' ∧
        s'.queueHead = s.queueHead ∧ Consistent s' listEntry elements' held' := by
  induction events with
  | nil => exact fun h _ => ⟨_, _, _, rfl, rfl, h⟩
  | cons event events ih =>
    intro s elements held h hm
    obtain ⟨s₁, elements₁, held₁, hstep, hq₁, h₁⟩ := h.step hm.1
    obtain ⟨s', elements', held', hrun, hq', h'⟩ := ih h₁ (hm.2 s₁ hstep)
    refine ⟨s', elements', held', ?_, hq'.trans hq₁, h'⟩
    rw [List.foldlM_cons, hstep]
    exact hrun

theorem order_of_step {s' : QueueThreads τ} {event : τ × ThreadCall}
    (hstep : s.step event = some s') : s.order <+: s'.order := by
  obtain ⟨t, call⟩ := event
  cases ht : s.activity t with
  | idle =>
    simp only [QueueThreads.step, ht] at hstep
    cases call with
    | enqueue data alloc =>
      cases alloc with
      | none =>
        cases hstep
        exact List.prefix_append _ _
      | some alloc =>
        cases hstep
        exact List.prefix_rfl
    | dequeue =>
      simp only [Option.bind_eq_bind, Option.bind_eq_some_iff] at hstep
      obtain ⟨_, -, _, -, ⟨element, _⟩, -, hstep⟩ := hstep
      cases element with
      | none =>
        cases hstep
        exact List.prefix_append _ _
      | some element =>
        simp only at hstep
        split_ifs at hstep
        · cases hstep
          exact List.prefix_append _ _
        · cases hstep
          exact List.prefix_append _ _
  | allocated alloc data =>
    simp only [QueueThreads.step, ht, Option.bind_eq_bind, Option.bind_eq_some_iff] at hstep
    obtain ⟨_, -, _, -, _, -, hstep⟩ := hstep
    cases hstep
    exact List.prefix_append _ _
  | removed element =>
    simp only [QueueThreads.step, ht, Option.bind_eq_bind, Option.bind_eq_some_iff] at hstep
    obtain ⟨_, -, hstep⟩ := hstep
    cases hstep
    exact List.prefix_rfl
  | read element data =>
    simp only [QueueThreads.step, ht, Option.bind_eq_bind, Option.bind_eq_some_iff] at hstep
    obtain ⟨_, -, hstep⟩ := hstep
    cases hstep
    exact List.prefix_rfl

theorem order_of_run {events : List (τ × ThreadCall)} : ∀ {s s' : QueueThreads τ},
    events.foldlM QueueThreads.step s = some s' → s.order <+: s'.order := by
  induction events with
  | nil =>
    intro s s' hrun
    cases hrun
    exact List.prefix_rfl
  | cons event events ih =>
    intro s s' hrun
    rw [List.foldlM_cons, Option.bind_eq_bind, Option.bind_eq_some_iff] at hrun
    obtain ⟨s₁, hstep, hrun⟩ := hrun
    exact (order_of_step hstep).trans (ih hrun)

/-! Without other threads in between, the steps of a call are the call. -/

theorem step_alone_enqueue {t : τ} (ht : s.activity t = .idle) {data : Pvoid}
    {alloc : Option Allocation} {status : NtStatusCode} {m : PoolMemory}
    (h : duEnqueueElement (some s.queueHead) data alloc s.memory = some (status, m)) :
    ∃ n s', (List.replicate n (t, ThreadCall.enqueue data alloc)).foldlM QueueThreads.step s =
        some s' ∧
      s'.memory = m ∧ s'.activity = s.activity ∧
      s'.returned = s.returned ++ [(t, status, none)] := by
  have hactivity : Function.update s.activity t .idle = s.activity := by
    rw [← ht, Function.update_eq_self]
  cases alloc with
  | none =>
    cases h
    refine ⟨1, ((s.call t (.enqueue data none)).effect t (.enqueue data none)).answer t
      (statusInsufficientResources, none), ?_, rfl, hactivity, rfl⟩
    simp [QueueThreads.step, ht]
  | some alloc =>
    simp only [duEnqueueElement, Option.bind_eq_bind, Option.bind_eq_some_iff] at h
    obtain ⟨head, hhead, listEntry, hlist, links, hinsert, h⟩ := h
    cases h
    refine ⟨2, ({ (s.call t (.enqueue data (some alloc))).effect t
      (.enqueue data (some alloc)) with
        memory := { s.memory.allocateElement alloc data with links := links } }.answer t
          (statusSuccess, none)), ?_, rfl, hactivity, rfl⟩
    simp [List.replicate, QueueThreads.step, ht, QueueThreads.goto, QueueThreads.call,
      QueueThreads.effect, QueueThreads.answer, hhead, hlist, hinsert]

theorem step_alone_dequeue {t : τ} (ht : s.activity t = .idle) {head : QueueHeadStructure}
    (hhead : s.memory.heads s.queueHead = some head) (hlocked : head.interlocked = true)
    {status : NtStatusCode} {data : Option Pvoid} {m : PoolMemory}
    (h : duDequeueElement (some s.queueHead) true s.memory = some (status, data, m)) :
    ∃ n s', (List.replicate n (t, ThreadCall.dequeue)).foldlM QueueThreads.step s = some s' ∧
      s'.memory = m ∧ s'.activity = s.activity ∧
      s'.returned = s.returned ++ [(t, status, data)] := by
  have hactivity : Function.update s.activity t .idle = s.activity := by
    rw [← ht, Function.update_eq_self]
  simp only [duDequeueElement, Bool.not_true, Bool.false_eq_true, if_false, hhead,
    Option.bind_eq_bind, Option.bind_some, Option.bind_eq_some_iff, removeElement, hlocked,
    if_true] at h
  obtain ⟨listEntry, hlist, ⟨element, links⟩, hremove, h⟩ := h
  cases element with
  | none =>
    cases h
    refine ⟨1, ({ (s.call t .dequeue).effect t .dequeue with
      memory := { s.memory with links := links } }.answer t (statusNoMoreEntries, some 0)), ?_,
      rfl, hactivity, rfl⟩
    simp [QueueThreads.step, ht, hhead, hlist, hremove, QueueThreads.call, QueueThreads.effect]
  | some element =>
    dsimp only at h
    split at h
    · next heq =>
      cases h
      refine ⟨1, ({ (s.call t .dequeue).effect t .dequeue with
        memory := { s.memory with links := links } }.answer t (statusNoMoreEntries, some 0)), ?_,
        rfl, hactivity, rfl⟩
      simp [QueueThreads.step, ht, hhead, hlist, hremove, heq, QueueThreads.call,
        QueueThreads.effect]
    · next hne =>
      simp only [Option.bind_eq_some_iff] at h
      obtain ⟨data, hdata, m', hfree, h⟩ := h
      cases h
      refine ⟨3, ({ (s.call t .dequeue).effect t .dequeue with memory := m }.answer t
        (statusSuccess, some data)), ?_, rfl, hactivity, rfl⟩
      simp [List.replicate, QueueThreads.step, ht, hhead, hlist, hremove, hne, hdata, hfree,
        QueueThreads.goto, QueueThreads.call, QueueThreads.effect, QueueThreads.answer]

/-- In every run the calls of all threads are, in the order of their accesses to the list, calls
of one first-in first-out queue with its answers: nothing is lost, handed out twice or read after
it was freed. At every moment the calls that have returned come before those not yet made. -/
theorem queue_linearizable {queueHead : Address} {list : Allocation}
    (hlist : list.address ≠ queueHead) {m : PoolMemory}
    (hinit : duQueueInit true (some queueHead) (some list) {} =
      some (statusSuccess, some queueHead, m)) {events : List (τ × ThreadCall)}
    (hgranted : Meets QueueThreads.step QueueThreads.Granted
      { queueHead := queueHead, memory := m } events) :
    ∃ s : QueueThreads τ, events.foldlM QueueThreads.step
        { queueHead := queueHead, memory := m } = some s ∧
      (∀ t, ofThread t s.order <+: ofThread t s.called ∧
        ofThread t s.returned <+: ofThread t (sequentialAnswers s.order)) ∧
      (∀ t, s.activity t = .idle → ofThread t s.order = ofThread t s.called ∧
        ofThread t s.returned = ofThread t (sequentialAnswers s.order)) ∧
      (∀ earlier later s₁, events = earlier ++ later → earlier.foldlM QueueThreads.step
          { queueHead := queueHead, memory := m } = some s₁ →
        s₁.order <+: s.order ∧ ∀ t, ofThread t s₁.order <+: ofThread t s₁.called ∧
          (ofThread t s₁.returned).length ≤ (ofThread t s₁.order).length) ∧
      ((∀ t, s.activity t = .idle) → ∃ elements,
        Represents s.memory queueHead ⟨some list.address, true⟩ list.address elements
          (fun _ => none) ∧
        elements.map Prod.snd = (sequential s.order).contents) := by
  obtain ⟨m₀, hinit₀, hnew⟩ := represents_new true hlist
  cases hinit.symm.trans hinit₀
  have hstart : Consistent (τ := τ) { queueHead := queueHead, memory := m } list.address []
      (fun _ => none) :=
    ⟨hnew, ⟨fun t a => iff_of_false nofun fun ⟨d, hd⟩ => (by cases hd), nofun⟩, rfl,
      fun t => rfl, fun t => rfl⟩
  obtain ⟨s, elements, held, hrun, hq, h⟩ := hstart.run events hgranted
  refine ⟨s, hrun, fun t => ⟨?_, ?_⟩, fun t ht => ⟨?_, ?_⟩, ?_, fun hidle => ⟨elements, ?_, ?_⟩⟩
  · exact ⟨_, (h.calls t).symm⟩
  · exact ⟨_, (h.answers t).symm⟩
  · rw [h.calls t, ht, Activity.pending, List.append_nil]
  · rw [h.answers t, ht, Activity.owed, List.append_nil]
  · rintro earlier later s₁ rfl hearlier
    obtain ⟨s₁', _, _, hrun₁, -, h₁⟩ := hstart.run earlier hgranted.of_append
    obtain rfl := Option.some.inj (hearlier.symm.trans hrun₁)
    rw [List.foldlM_append, hearlier] at hrun
    refine ⟨order_of_run hrun, fun t => ⟨⟨_, (h₁.calls t).symm⟩, ?_⟩⟩
    rw [← length_ofThread_sequentialAnswers, h₁.answers t, List.length_append]
    exact Nat.le_add_right _ _
  · have hnone : (Option.map Prod.snd ∘ held) = fun _ => none := by
      funext a
      cases ha : held a with
      | none => rw [Function.comp_apply, ha, Option.map_none]
      | some e =>
        have helement := (h.owners.owner e.1 a).mpr ⟨e.2, ha⟩
        rw [hidle e.1] at helement
        cases helement
    have hq' : s.queueHead = queueHead := hq
    rw [← hnone, ← hq']
    exact h.represents
  · exact h.contents

end

/-- Two producers whose elements are inserted in the other order, and a consumer that frees its
element after another one was inserted at a new address. -/
theorem queue_linearizable_interleaved : ∃ m, ∃ s : QueueThreads (Fin 3),
    duQueueInit true (some 1) (some ⟨2, 0⟩) {} = some (statusSuccess, some 1, m) ∧
    [((0 : Fin 3), ThreadCall.enqueue 10 (some ⟨3, 0⟩)), (1, .enqueue 11 (some ⟨4, 0⟩)),
      (1, .dequeue), (2, .dequeue), (0, .dequeue), (2, .dequeue), (1, .enqueue 12 none),
      (2, .dequeue)].foldlM QueueThreads.step { queueHead := 1, memory := m } = some s ∧
    ofThread 2 s.returned = [(statusSuccess, some 11)] := by
  have hinit : duQueueInit true (some 1) (some ⟨2, 0⟩) {} = some (statusSuccess, some 1, _) := rfl
  let events : List (Fin 3 × ThreadCall) := [(0, .enqueue 10 (some ⟨3, 0⟩)),
    (1, .enqueue 11 (some ⟨4, 0⟩)), (1, .dequeue), (2, .dequeue), (0, .dequeue), (2, .dequeue),
    (1, .enqueue 12 none), (2, .dequeue)]
  obtain ⟨s, hrun, -⟩ :=
    @queue_linearizable (Fin 3) _ 1 ⟨2, 0⟩ (by decide) _ hinit events (by decide)
  refine ⟨_, s, hinit, hrun, ?_⟩
  cases hrun
  rfl

end IntelPt.DriverUtils
