import IntelPt.Driver.ProcessorTraceShared
import IntelPt.Lib.LinkedList
import IntelPt.Lib.Runs

/-! The queues of DriverUtils.c down to the pool. A queue is three kinds of allocations: the head
structure, a LIST_ENTRY as list head, and a work element for each piece of data; an address may be
handed out again once it was freed. An access to memory that is not allocated has no result. -/
namespace IntelPt.DriverUtils
open Driver LinkedList Runs

abbrev Address := Nat
abbrev Pvoid := BitVec 64

structure QueueHeadStructure where
  listEntry : Option Address
  interlocked : Bool
  deriving DecidableEq, Repr

structure PoolMemory where
  links : Links Address := {}
  data : Address → Option Pvoid := fun _ => none
  heads : Address → Option QueueHeadStructure := fun _ => none

def PoolMemory.Allocated (m : PoolMemory) (a : Address) : Prop :=
  (m.links.flink a).isSome ∨ (m.links.blink a).isSome ∨ (m.data a).isSome ∨ (m.heads a).isSome

instance (m : PoolMemory) (a : Address) : Decidable (m.Allocated a) :=
  inferInstanceAs (Decidable (_ ∨ _))

structure Allocation where
  address : Address
  garbage : Address
  deriving DecidableEq, Repr

def PoolMemory.allocateListEntry (m : PoolMemory) (alloc : Allocation) : PoolMemory :=
  { m with links := {
      flink := Function.update m.links.flink alloc.address (some alloc.garbage)
      blink := Function.update m.links.blink alloc.address (some alloc.garbage) } }

def PoolMemory.allocateElement (m : PoolMemory) (alloc : Allocation) (data : Pvoid) :
    PoolMemory :=
  { m.allocateListEntry alloc with data := Function.update m.data alloc.address (some data) }

def PoolMemory.setHead (m : PoolMemory) (a : Address) (head : QueueHeadStructure) : PoolMemory :=
  { m with heads := Function.update m.heads a (some head) }

def PoolMemory.erase (m : PoolMemory) (a : Address) : PoolMemory where
  links := {
    flink := Function.update m.links.flink a none
    blink := Function.update m.links.blink a none }
  data := Function.update m.data a none
  heads := Function.update m.heads a none

/- ExFreePoolWithTag. -/
def PoolMemory.free (m : PoolMemory) (a : Address) : Option PoolMemory :=
  if m.Allocated a then some (m.erase a) else none

def duQueueUninit (queueHead : Option Address) (m : PoolMemory) : Option PoolMemory :=
  match queueHead with
  | none => some m
  | some queueHead => do
    let head ← m.heads queueHead
    let m ← match head.listEntry with
      | none => some m
      | some listEntry => m.free listEntry
    m.free queueHead

/-- The status, what `*QueueHead` is set to, and the memory; `head` and `list` say what the two
allocations give. -/
def duQueueInit (interlocked : Bool) (head : Option Address) (list : Option Allocation)
    (m : PoolMemory) : Option (NtStatusCode × Option Address × PoolMemory) :=
  match head with
  | none => do
    let m ← duQueueUninit none m
    return (statusInsufficientResources, none, m)
  | some queueHead =>
    match list with
    | none => do
      let m ← duQueueUninit (some queueHead) (m.setHead queueHead ⟨none, interlocked⟩)
      return (statusInsufficientResources, none, m)
    | some list => do
      let m := (m.setHead queueHead ⟨some list.address, interlocked⟩).allocateListEntry list
      let links ← initializeListHead m.links list.address
      return (statusSuccess, some queueHead, { m with links := links })

def duEnqueueElement (queueHead : Option Address) (data : Pvoid) (alloc : Option Allocation)
    (m : PoolMemory) : Option (NtStatusCode × PoolMemory) :=
  match queueHead with
  | none => some (statusInvalidParameter1, m)
  | some queueHead =>
    match alloc with
    | none => some (statusInsufficientResources, m)
    | some alloc => do
      let m := m.allocateElement alloc data
      let head ← m.heads queueHead
      -- both branches insert at the tail, the second one under the lock
      let listEntry ← head.listEntry
      let links ← insertTailList m.links listEntry alloc.address
      return (statusSuccess, { m with links := links })

/- ExInterlockedRemoveHeadList; `none` is NULL, for an empty list. -/
def exInterlockedRemoveHeadList (links : Links Address) (head : Address) :
    Option (Option Address × Links Address) := do
  let first ← links.flink head
  if first = head then return (none, links)
  else
    let (entry, links) ← removeHeadList links head
    return (some entry, links)

def removeElement (interlocked : Bool) (links : Links Address) (listEntry : Address) :
    Option (Option Address × Links Address) :=
  if interlocked then exInterlockedRemoveHeadList links listEntry
  else do
    let (entry, links) ← removeHeadList links listEntry
    return (some entry, links)

/-- The status, what `*Data` is set to if it is, and the memory. -/
def duDequeueElement (queueHead : Option Address) (dataPointer : Bool) (m : PoolMemory) :
    Option (NtStatusCode × Option Pvoid × PoolMemory) :=
  match queueHead with
  | none => some (statusInvalidParameter1, none, m)
  | some queueHead =>
    if !dataPointer then some (statusInvalidParameter2, none, m)
    else do
      let head ← m.heads queueHead
      let listEntry ← head.listEntry
      let (element, links) ← removeElement head.interlocked m.links listEntry
      let m := { m with links := links }
      match element with
      | none => return (statusNoMoreEntries, some 0, m)
      | some element =>
        if element = listEntry then return (statusNoMoreEntries, some 0, m)
        else
          let data ← m.data element
          let m ← m.free element
          return (statusSuccess, some data, m)

/-- Each element with what its allocation gives; the loop ends at the first failure. -/
def duEnqueueElements (queueHead : Option Address) :
    List (Pvoid × Option Allocation) → PoolMemory → Option (NtStatusCode × PoolMemory)
  | [], m => some (statusSuccess, m)
  | (data, alloc) :: elements, m => do
    let (status, m) ← duEnqueueElement queueHead data alloc m
    if status.NtSuccess then duEnqueueElements queueHead elements m else return (status, m)

/-! The queue in memory. -/

abbrev Held := Address → Option Pvoid

/-- The memory is that of one queue, which holds the elements in this order, of the elements
held outside of it, and of nothing else. -/
structure Represents (m : PoolMemory) (queueHead : Address) (head : QueueHeadStructure)
    (listEntry : Address) (elements : List (Address × Pvoid)) (held : Held) : Prop where
  list : head.listEntry = some listEntry
  head : m.heads queueHead = some head
  listed : Listed m.links listEntry (elements.map Prod.fst)
  data : ∀ e ∈ elements, m.data e.1 = some e.2
  ofHeld : ∀ a d, held a = some d → m.links.Has a ∧ m.data a = some d
  only : ∀ a, m.Allocated a →
    a = queueHead ∨ a ∈ listEntry :: elements.map Prod.fst ∨ (held a).isSome
  apart : queueHead ∉ listEntry :: elements.map Prod.fst
  outside : ∀ a d, held a = some d → a ≠ queueHead ∧ a ∉ listEntry :: elements.map Prod.fst

section

variable {m : PoolMemory} {queueHead listEntry : Address} {head : QueueHeadStructure}
  {elements : List (Address × Pvoid)} {held : Held}

theorem Represents.allocated (h : Represents m queueHead head listEntry elements held) :
    ∀ a, m.Allocated a ↔
      a = queueHead ∨ a ∈ listEntry :: elements.map Prod.fst ∨ (held a).isSome := by
  refine fun a => ⟨h.only a, fun ha => ?_⟩
  obtain rfl | ha | ha := ha
  · exact Or.inr (Or.inr (Or.inr (by rw [h.head]; rfl)))
  · exact Or.inl (h.listed.has a ha).1
  · obtain ⟨d, hd⟩ := Option.isSome_iff_exists.mp ha
    exact Or.inl (h.ofHeld a d hd).1.1

theorem has_allocateListEntry (m : PoolMemory) (alloc : Allocation) :
    (m.allocateListEntry alloc).links.Has alloc.address := by
  simp [PoolMemory.allocateListEntry, Links.Has]

theorem not_allocated_erase (m : PoolMemory) (a : Address) : ¬ (m.erase a).Allocated a := by
  simp [PoolMemory.Allocated, PoolMemory.erase]

theorem allocated_erase {a b : Address} (h : b ≠ a) :
    (m.erase a).Allocated b ↔ m.Allocated b := by
  simp [PoolMemory.Allocated, PoolMemory.erase, h]

theorem allocated_allocateElement {alloc : Allocation} {data : Pvoid} {b : Address}
    (h : (m.allocateElement alloc data).Allocated b) : b = alloc.address ∨ m.Allocated b := by
  by_cases hb : b = alloc.address
  · exact Or.inl hb
  · refine Or.inr ?_
    simpa [PoolMemory.Allocated, PoolMemory.allocateElement, PoolMemory.allocateListEntry, hb]
      using h

theorem allocated_links {links : Links Address} (h : SameDomain m.links links) (b : Address) :
    ({ m with links := links } : PoolMemory).Allocated b ↔ m.Allocated b := by
  simp only [PoolMemory.Allocated, (h b).1, (h b).2]

/-! What is done to a queue: an element is allocated, inserted, taken out, freed. -/

/-- A new element is held by who allocated it. -/
theorem Represents.allocate (h : Represents m queueHead head listEntry elements held)
    {alloc : Allocation} (hfree : ¬ m.Allocated alloc.address) (data : Pvoid) :
    Represents (m.allocateElement alloc data) queueHead head listEntry elements
      (Function.update held alloc.address (some data)) := by
  have hnew : ∀ a, m.Allocated a → a ≠ alloc.address := fun a ha heq => hfree (heq ▸ ha)
  have hlisted : ∀ x ∈ listEntry :: elements.map Prod.fst, x ≠ alloc.address :=
    fun x hx => hnew x ((h.allocated x).mpr (Or.inr (Or.inl hx)))
  refine ⟨h.list, h.head, ⟨h.listed.path.congr (fun x hx => ?_) fun x hx => ?_, h.listed.nodup⟩,
    fun e he => ?_, fun a d hd => ?_, fun a ha => ?_, h.apart, fun a d hd => ?_⟩
  · exact Function.update_of_ne (hlisted x hx) _ _
  · refine Function.update_of_ne (hlisted x ?_) _ _
    rw [List.mem_append, List.mem_singleton] at hx
    exact List.mem_cons.mpr hx.symm
  · have hne := hlisted e.1 (List.mem_cons_of_mem _ (List.mem_map_of_mem he))
    exact (Function.update_of_ne hne _ _).trans (h.data e he)
  · by_cases ha : a = alloc.address
    · subst ha
      rw [Function.update_self] at hd
      exact ⟨has_allocateListEntry m alloc, (Function.update_self alloc.address _ _).trans hd⟩
    · rw [Function.update_of_ne ha] at hd
      obtain ⟨hhas, hdata⟩ := h.ofHeld a d hd
      refine ⟨?_, (Function.update_of_ne ha _ _).trans hdata⟩
      simpa [PoolMemory.allocateElement, PoolMemory.allocateListEntry, Links.Has, ha] using hhas
  · by_cases hal : a = alloc.address
    · subst hal
      exact Or.inr (Or.inr (by rw [Function.update_self]; rfl))
    · rw [Function.update_of_ne hal]
      exact h.only a ((allocated_allocateElement ha).resolve_left hal)
  · by_cases ha : a = alloc.address
    · subst ha
      exact ⟨fun heq => hfree ((h.allocated _).mpr (Or.inl heq)),
        fun hm => hfree ((h.allocated _).mpr (Or.inr (Or.inl hm)))⟩
    · rw [Function.update_of_ne ha] at hd
      exact h.outside a d hd

/-- A held element becomes the last one. -/
theorem Represents.insert (h : Represents m queueHead head listEntry elements held)
    {a : Address} {d : Pvoid} (ha : held a = some d) :
    ∃ links, insertTailList m.links listEntry a = some links ∧
      Represents { m with links := links } queueHead head listEntry (elements ++ [(a, d)])
        (Function.update held a none) := by
  obtain ⟨hq, hn⟩ := h.outside a d ha
  obtain ⟨hhas, hdata⟩ := h.ofHeld a d ha
  obtain ⟨links, hinsert, hlisted, hdomain⟩ := h.listed.insertTail hhas hn
  have hmap : (elements ++ [(a, d)]).map Prod.fst = elements.map Prod.fst ++ [a] :=
    List.map_append
  have hmem : ∀ b, b ∈ listEntry :: (elements ++ [(a, d)]).map Prod.fst ↔
      b ∈ listEntry :: elements.map Prod.fst ∨ b = a := by
    intro b
    rw [hmap, ← List.cons_append, List.mem_append, List.mem_singleton]
  refine ⟨links, hinsert, h.list, h.head, hmap ▸ hlisted, fun e he => ?_, fun b d' hb => ?_,
    fun b hb => ?_, fun hm => ?_, fun b d' hb => ?_⟩
  · obtain he | he := List.mem_append.mp he
    · exact h.data e he
    · rw [List.mem_singleton.mp he]
      exact hdata
  · by_cases hba : b = a
    · rw [hba, Function.update_self] at hb
      cases hb
    · rw [Function.update_of_ne hba] at hb
      obtain ⟨hhas', hdata'⟩ := h.ofHeld b d' hb
      exact ⟨hdomain.has.mpr hhas', hdata'⟩
  · rw [hmem]
    by_cases hba : b = a
    · exact Or.inr (Or.inl (Or.inr hba))
    · rw [Function.update_of_ne hba]
      exact (h.only b ((allocated_links hdomain b).mp hb)).imp_right (Or.imp_left Or.inl)
  · exact ((hmem _).mp hm).elim h.apart hq.symm
  · by_cases hba : b = a
    · rw [hba, Function.update_self] at hb
      cases hb
    · rw [Function.update_of_ne hba] at hb
      obtain ⟨hbq, hbn⟩ := h.outside b d' hb
      exact ⟨hbq, fun hm => ((hmem b).mp hm).elim hbn hba⟩

theorem removeElement_nil (h : Represents m queueHead head listEntry [] held) :
    ∃ element, removeElement head.interlocked m.links listEntry = some (element, m.links) ∧
      (element = none ∨ head.interlocked = false ∧ element = some listEntry) := by
  have hremove := h.listed.removeHead_nil
  cases hi : head.interlocked with
  | true =>
    refine ⟨none, ?_, Or.inl rfl⟩
    have hflink : m.links.flink listEntry = some listEntry := h.listed.path.1
    simp [removeElement, exInterlockedRemoveHeadList, hflink]
  | false =>
    refine ⟨some listEntry, ?_, Or.inr ⟨rfl, rfl⟩⟩
    simp [removeElement, hremove]

/-- The first element is held by who took it out. -/
theorem Represents.remove {e : Address × Pvoid}
    (h : Represents m queueHead head listEntry (e :: elements) held) :
    ∃ links, removeElement head.interlocked m.links listEntry = some (some e.1, links) ∧
      e.1 ≠ listEntry ∧
      Represents { m with links := links } queueHead head listEntry elements
        (Function.update held e.1 (some e.2)) := by
  obtain ⟨links, hremove, hlisted, hdomain⟩ := h.listed.removeHead
  obtain ⟨hhead, hnodup⟩ := List.nodup_cons.mp h.listed.nodup
  have hfirst : e.1 ∉ elements.map Prod.fst := (List.nodup_cons.mp hnodup).1
  have hlist : e.1 ≠ listEntry := fun heq => hhead (heq ▸ List.mem_cons_self)
  have hflink : m.links.flink listEntry = some e.1 := h.listed.path.1.1
  have hmem : ∀ b, b ∈ listEntry :: (e :: elements).map Prod.fst ↔
      b = e.1 ∨ b ∈ listEntry :: elements.map Prod.fst := by
    intro b
    rw [List.map_cons, List.mem_cons, List.mem_cons, List.mem_cons]
    exact or_left_comm
  refine ⟨links, ?_, hlist, h.list, h.head, hlisted,
    fun e' he' => h.data e' (List.mem_cons_of_mem e he'), fun b d hb => ?_, fun b hb => ?_,
    fun hm => h.apart ((hmem _).mpr (Or.inr hm)), fun b d hb => ?_⟩
  · cases hi : head.interlocked with
    | true => simp [removeElement, exInterlockedRemoveHeadList, hflink, hlist, hremove]
    | false => simp [removeElement, hremove]
  · by_cases hbe : b = e.1
    · rw [hbe, Function.update_self] at hb
      rw [hbe]
      have hhas := h.listed.has e.1 (List.mem_cons_of_mem _ List.mem_cons_self)
      exact ⟨hdomain.has.mpr hhas, (h.data e List.mem_cons_self).trans hb⟩
    · rw [Function.update_of_ne hbe] at hb
      obtain ⟨hhas, hdata⟩ := h.ofHeld b d hb
      exact ⟨hdomain.has.mpr hhas, hdata⟩
  · by_cases hbe : b = e.1
    · rw [hbe]
      exact Or.inr (Or.inr (by rw [Function.update_self]; rfl))
    · rw [Function.update_of_ne hbe]
      obtain hb | hb | hb := h.only b ((allocated_links hdomain b).mp hb)
      · exact Or.inl hb
      · exact Or.inr (Or.inl (((hmem b).mp hb).resolve_left hbe))
      · exact Or.inr (Or.inr hb)
  · by_cases hbe : b = e.1
    · rw [hbe]
      refine ⟨fun heq => h.apart (heq ▸ (hmem e.1).mpr (Or.inl rfl)), fun hm => ?_⟩
      exact (List.mem_cons.mp hm).elim hlist hfirst
    · rw [Function.update_of_ne hbe] at hb
      obtain ⟨hbq, hbn⟩ := h.outside b d hb
      exact ⟨hbq, fun hm => hbn ((hmem b).mpr (Or.inr hm))⟩

theorem Represents.free (h : Represents m queueHead head listEntry elements held)
    {a : Address} {d : Pvoid} (ha : held a = some d) :
    m.free a = some (m.erase a) ∧ Represents (m.erase a) queueHead head listEntry elements
      (Function.update held a none) := by
  obtain ⟨hq, hn⟩ := h.outside a d ha
  have hne : ∀ x ∈ listEntry :: elements.map Prod.fst, x ≠ a := fun x hx heq => hn (heq ▸ hx)
  have hheld : m.Allocated a := (h.allocated a).mpr (Or.inr (Or.inr (by rw [ha]; rfl)))
  refine ⟨if_pos hheld, h.list, (Function.update_of_ne hq.symm _ _).trans h.head,
    ⟨h.listed.path.congr (fun x hx => ?_) fun x hx => ?_, h.listed.nodup⟩, fun e he => ?_,
    fun b d' hb => ?_, fun b hb => ?_, h.apart, fun b d' hb => ?_⟩
  · exact Function.update_of_ne (hne x hx) _ _
  · refine Function.update_of_ne (hne x ?_) _ _
    rw [List.mem_append, List.mem_singleton] at hx
    exact List.mem_cons.mpr hx.symm
  · have hea := hne e.1 (List.mem_cons_of_mem _ (List.mem_map_of_mem he))
    exact (Function.update_of_ne hea _ _).trans (h.data e he)
  · by_cases hba : b = a
    · rw [hba, Function.update_self] at hb
      cases hb
    · rw [Function.update_of_ne hba] at hb
      obtain ⟨hhas, hdata⟩ := h.ofHeld b d' hb
      refine ⟨?_, (Function.update_of_ne hba _ _).trans hdata⟩
      simpa [PoolMemory.erase, Links.Has, hba] using hhas
  · have hba : b ≠ a := fun heq => not_allocated_erase m a (heq ▸ hb)
    rw [Function.update_of_ne hba]
    exact h.only b ((allocated_erase hba).mp hb)
  · by_cases hba : b = a
    · rw [hba, Function.update_self] at hb
      cases hb
    · rw [Function.update_of_ne hba] at hb
      exact h.outside b d' hb

/-! The calls, on a queue nobody else uses at the time. -/

theorem Represents.enqueue (h : Represents m queueHead head listEntry elements held)
    {alloc : Allocation} (hfree : ¬ m.Allocated alloc.address) (data : Pvoid) :
    ∃ m', duEnqueueElement (some queueHead) data (some alloc) m = some (statusSuccess, m') ∧
      Represents m' queueHead head listEntry (elements ++ [(alloc.address, data)]) held := by
  have hnone : held alloc.address = none := by
    by_contra hne
    obtain ⟨d, hd⟩ := Option.ne_none_iff_exists'.mp hne
    exact hfree ((h.allocated _).mpr (Or.inr (Or.inr (by rw [hd]; rfl))))
  have h₁ := h.allocate hfree data
  obtain ⟨links, hinsert, h₂⟩ := h₁.insert (Function.update_self alloc.address _ _)
  rw [Function.update_idem, ← hnone, Function.update_eq_self] at h₂
  refine ⟨_, ?_, h₂⟩
  simp [duEnqueueElement, h₁.head, h.list, hinsert]

theorem Represents.dequeue_nil (h : Represents m queueHead head listEntry [] held) :
    duDequeueElement (some queueHead) true m = some (statusNoMoreEntries, some 0, m) := by
  obtain ⟨element, hremove, rfl | ⟨-, rfl⟩⟩ := removeElement_nil h
  · simp [duDequeueElement, h.head, h.list, hremove]
  · simp [duDequeueElement, h.head, h.list, hremove]

theorem Represents.dequeue_cons {e : Address × Pvoid}
    (h : Represents m queueHead head listEntry (e :: elements) held) :
    ∃ m', duDequeueElement (some queueHead) true m = some (statusSuccess, some e.2, m') ∧
      Represents m' queueHead head listEntry elements held := by
  have hnone : held e.1 = none := by
    by_contra hne
    obtain ⟨d, hd⟩ := Option.ne_none_iff_exists'.mp hne
    exact (h.outside e.1 d hd).2 (List.mem_cons_of_mem _ List.mem_cons_self)
  obtain ⟨links, hremove, hne, h₁⟩ := h.remove
  have hdata : m.data e.1 = some e.2 := h.data e List.mem_cons_self
  obtain ⟨hfree, h₂⟩ := h₁.free (Function.update_self e.1 _ _)
  rw [Function.update_idem, ← hnone, Function.update_eq_self] at h₂
  refine ⟨_, ?_, h₂⟩
  simp [duDequeueElement, h.head, h.list, hremove, hne, hdata, hfree]

end

/-! A queue in use, and what it is for. -/

inductive QueueCall where
  | enqueue (data : Pvoid) (alloc : Option Allocation)
  | enqueueElements (elements : List (Pvoid × Option Allocation))
  | dequeue
  deriving DecidableEq, Repr

structure QueueUse where
  queueHead : Address
  memory : PoolMemory
  answers : List (NtStatusCode × Option Pvoid) := []

def QueueUse.step (s : QueueUse) : QueueCall → Option QueueUse
  | .enqueue data alloc => do
    let (status, m) ← duEnqueueElement (some s.queueHead) data alloc s.memory
    return { s with memory := m, answers := s.answers ++ [(status, none)] }
  | .enqueueElements elements => do
    let (status, m) ← duEnqueueElements (some s.queueHead) elements s.memory
    return { s with memory := m, answers := s.answers ++ [(status, none)] }
  | .dequeue => do
    let (status, data, m) ← duDequeueElement (some s.queueHead) true s.memory
    return { s with memory := m, answers := s.answers ++ [(status, data)] }

structure Fifo where
  contents : List Pvoid := []
  answers : List (NtStatusCode × Option Pvoid) := []

def Fifo.push (q : Fifo) (data : List Pvoid) (complete : Bool) : Fifo where
  contents := q.contents ++ data
  answers :=
    q.answers ++ [(if complete then statusSuccess else statusInsufficientResources, none)]

def Fifo.step (q : Fifo) : QueueCall → Fifo
  | .enqueue data alloc => q.push (if alloc.isSome then [data] else []) alloc.isSome
  | .enqueueElements elements =>
    q.push ((elements.takeWhile (·.2.isSome)).map Prod.fst) (elements.all (·.2.isSome))
  | .dequeue =>
    match q.contents with
    | [] => { q with answers := q.answers ++ [(statusNoMoreEntries, some 0)] }
    | data :: contents =>
      { contents := contents, answers := q.answers ++ [(statusSuccess, some data)] }

def Granted (m : PoolMemory) : Option Allocation → Prop
  | none => True
  | some alloc => ¬ m.Allocated alloc.address

instance (m : PoolMemory) : (alloc : Option Allocation) → Decidable (Granted m alloc)
  | none => isTrue trivial
  | some _ => inferInstanceAs (Decidable (¬ _))

def ElementsGranted (queueHead : Address) : List (Pvoid × Option Allocation) → PoolMemory → Prop
  | [], _ => True
  | (data, alloc) :: elements, m => Granted m alloc ∧
    ∀ m' ∈ (duEnqueueElement (some queueHead) data alloc m).map Prod.snd,
      ElementsGranted queueHead elements m'

instance ElementsGranted.decidable (queueHead : Address) :
    ∀ elements m, Decidable (ElementsGranted queueHead elements m)
  | [], _ => isTrue trivial
  | (data, alloc) :: elements, m =>
    match h : (duEnqueueElement (some queueHead) data alloc m).map Prod.snd with
    | none =>
      decidable_of_iff (DriverUtils.Granted m alloc)
        ⟨fun hg => ⟨hg, fun m' hm => by rw [h] at hm; cases hm⟩, fun hg => hg.1⟩
    | some m₁ =>
      have := ElementsGranted.decidable queueHead elements m₁
      decidable_of_iff (DriverUtils.Granted m alloc ∧ ElementsGranted queueHead elements m₁)
        ⟨fun hg => ⟨hg.1, fun m' hm => by rw [h] at hm; cases hm; exact hg.2⟩,
          fun hg => ⟨hg.1, hg.2 m₁ h⟩⟩

def QueueCall.Granted (s : QueueUse) : QueueCall → Prop
  | .enqueue _ alloc => DriverUtils.Granted s.memory alloc
  | .enqueueElements elements => ElementsGranted s.queueHead elements s.memory
  | .dequeue => True

instance (s : QueueUse) : (call : QueueCall) → Decidable (call.Granted s)
  | .enqueue _ alloc => inferInstanceAs (Decidable (DriverUtils.Granted s.memory alloc))
  | .enqueueElements elements =>
    inferInstanceAs (Decidable (ElementsGranted s.queueHead elements s.memory))
  | .dequeue => isTrue trivial

section

variable {m : PoolMemory} {queueHead listEntry : Address} {head : QueueHeadStructure}
  {elements : List (Address × Pvoid)} {held : Held}

/-- The loop enqueues what comes before the first failed allocation. -/
theorem Represents.enqueueElements (els : List (Pvoid × Option Allocation)) :
    ∀ {m : PoolMemory} {elements : List (Address × Pvoid)},
      Represents m queueHead head listEntry elements held → ElementsGranted queueHead els m →
        ∃ m' added, duEnqueueElements (some queueHead) els m =
            some (if els.all (·.2.isSome) then statusSuccess else statusInsufficientResources,
              m') ∧
          Represents m' queueHead head listEntry (elements ++ added) held ∧
          added.map Prod.snd = (els.takeWhile (·.2.isSome)).map Prod.fst := by
  induction els with
  | nil =>
    intro m elements h _
    exact ⟨m, [], rfl, (List.append_nil elements).symm ▸ h, rfl⟩
  | cons el els ih =>
    obtain ⟨data, alloc⟩ := el
    intro m elements h hg
    cases alloc with
    | none =>
      refine ⟨m, [], ?_, (List.append_nil elements).symm ▸ h, rfl⟩
      have hfailure : ¬ NtStatusCode.NtSuccess statusInsufficientResources := by decide
      simp [duEnqueueElements, duEnqueueElement, hfailure]
    | some alloc =>
      obtain ⟨m₁, henqueue, h₁⟩ := h.enqueue hg.1 data
      obtain ⟨m', added, hrest, h', hadded⟩ := ih h₁ (hg.2 m₁ (henqueue ▸ rfl))
      refine ⟨m', (alloc.address, data) :: added, ?_, ?_, ?_⟩
      · rw [duEnqueueElements, henqueue]
        exact hrest
      · rw [List.append_assoc] at h'
        exact h'
      · simp [hadded]

structure Implements (s : QueueUse) (head : QueueHeadStructure) (listEntry : Address) (q : Fifo) :
    Prop where
  answers : s.answers = q.answers
  represents : ∃ elements,
    Represents s.memory s.queueHead head listEntry elements (fun _ => none) ∧
    elements.map Prod.snd = q.contents

theorem Implements.step {s : QueueUse} {q : Fifo} (h : Implements s head listEntry q)
    {call : QueueCall} (hg : call.Granted s) :
    ∃ s', s.step call = some s' ∧ Implements s' head listEntry (q.step call) ∧
      s'.queueHead = s.queueHead := by
  obtain ⟨elements, hr, hcontents⟩ := h.represents
  cases call with
  | enqueue data alloc =>
    cases alloc with
    | none =>
      refine ⟨_, rfl, ⟨?_, elements, hr, ?_⟩, rfl⟩
      · simp [Fifo.step, Fifo.push, h.answers]
      · simp [Fifo.step, Fifo.push, hcontents]
    | some alloc =>
      obtain ⟨m', henqueue, hr'⟩ := hr.enqueue hg data
      refine ⟨{ s with memory := m', answers := s.answers ++ [(statusSuccess, none)] }, ?_,
        ⟨?_, _, hr', ?_⟩, rfl⟩
      · simp [QueueUse.step, henqueue]
      · simp [Fifo.step, Fifo.push, h.answers]
      · simp [Fifo.step, Fifo.push, hcontents]
  | enqueueElements els =>
    obtain ⟨m', added, henqueue, hr', hadded⟩ := hr.enqueueElements els hg
    refine ⟨{ s with
      memory := m'
      answers := s.answers ++ [(if els.all (·.2.isSome) then statusSuccess
        else statusInsufficientResources, none)] }, ?_, ⟨?_, _, hr', ?_⟩, rfl⟩
    · rw [QueueUse.step, henqueue]
      rfl
    · simp [Fifo.step, Fifo.push, h.answers]
    · simp [Fifo.step, Fifo.push, hcontents, hadded]
  | dequeue =>
    cases elements with
    | nil =>
      have hnil : q.contents = [] := hcontents.symm
      refine ⟨{ s with answers := s.answers ++ [(statusNoMoreEntries, some 0)] }, ?_,
        ⟨?_, [], hr, ?_⟩, rfl⟩
      · rw [QueueUse.step, hr.dequeue_nil]
        rfl
      · simp [Fifo.step, hnil, h.answers]
      · simp [Fifo.step, hnil]
    | cons e elements =>
      obtain ⟨m', hdequeue, hr'⟩ := hr.dequeue_cons
      have hcons : q.contents = e.2 :: elements.map Prod.snd := hcontents.symm
      refine ⟨{ s with memory := m', answers := s.answers ++ [(statusSuccess, some e.2)] }, ?_,
        ⟨?_, elements, hr', ?_⟩, rfl⟩
      · rw [QueueUse.step, hdequeue]
        rfl
      · simp [Fifo.step, hcons, h.answers]
      · simp [Fifo.step, hcons]

theorem Implements.run (calls : List QueueCall) : ∀ {s : QueueUse} {q : Fifo},
    Implements s head listEntry q → Meets QueueUse.step (fun s call => call.Granted s) s calls →
      ∃ s', calls.foldlM QueueUse.step s = some s' ∧
        Implements s' head listEntry (calls.foldl Fifo.step q) ∧ s'.queueHead = s.queueHead := by
  induction calls with
  | nil => exact fun h _ => ⟨_, rfl, h, rfl⟩
  | cons call calls ih =>
    intro s q h hm
    obtain ⟨s₁, hstep, h₁, hq₁⟩ := h.step hm.1
    obtain ⟨s', hrun, h', hq'⟩ := ih h₁ (hm.2 s₁ hstep)
    refine ⟨s', ?_, h', hq'.trans hq₁⟩
    rw [List.foldlM_cons, hstep]
    exact hrun

/-- The two allocations are freed; the elements that are left are not. -/
theorem Represents.uninit
    (h : Represents m queueHead head listEntry elements (fun _ => none)) :
    ∃ m', duQueueUninit (some queueHead) m = some m' ∧
      ∀ a, m'.Allocated a ↔ a ∈ elements.map Prod.fst := by
  have hq : queueHead ≠ listEntry := fun heq => h.apart (heq ▸ List.mem_cons_self)
  have hlist : m.Allocated listEntry := (h.allocated _).mpr (Or.inr (Or.inl List.mem_cons_self))
  have hhead : (m.erase listEntry).Allocated queueHead :=
    (allocated_erase hq).mpr ((h.allocated _).mpr (Or.inl rfl))
  refine ⟨(m.erase listEntry).erase queueHead, ?_, fun a => ?_⟩
  · simp [duQueueUninit, h.head, h.list, PoolMemory.free, hlist, hhead]
  · by_cases haq : a = queueHead
    · subst haq
      exact iff_of_false (not_allocated_erase _ _) fun hm => h.apart (List.mem_cons_of_mem _ hm)
    · rw [allocated_erase haq]
      by_cases hal : a = listEntry
      · subst hal
        exact iff_of_false (not_allocated_erase _ _) (List.nodup_cons.mp h.listed.nodup).1
      · rw [allocated_erase hal, h.allocated, List.mem_cons]
        refine ⟨fun hm => ?_, fun hm => Or.inr (Or.inl (Or.inr hm))⟩
        exact ((hm.resolve_left haq).resolve_right (by simp)).resolve_left hal

theorem represents_new (interlocked : Bool) {list : Allocation} (h : list.address ≠ queueHead) :
    ∃ m, duQueueInit interlocked (some queueHead) (some list) {} =
        some (statusSuccess, some queueHead, m) ∧
      Represents m queueHead ⟨some list.address, interlocked⟩ list.address []
        (fun _ => none) := by
  obtain ⟨links, hinit, hlisted, hdomain⟩ :=
    listed_initialize (has_allocateListEntry (PoolMemory.setHead {} queueHead
      ⟨some list.address, interlocked⟩) list)
  refine ⟨_, by simp only [duQueueInit, hinit]; rfl, rfl, Function.update_self queueHead _ _,
    hlisted, fun e he => absurd he List.not_mem_nil, (by intro _ _ hd; cases hd), fun a ha => ?_,
    ?_, (by intro _ _ hd; cases hd)⟩
  · rw [allocated_links hdomain] at ha
    by_cases haq : a = queueHead
    · exact Or.inl haq
    · refine Or.inr (Or.inl (List.mem_singleton.mpr ?_))
      by_contra hal
      simp [PoolMemory.Allocated, PoolMemory.allocateListEntry, PoolMemory.setHead, haq, hal] at ha
  · exact fun hm => h (List.mem_singleton.mp hm).symm

end

/-- A failed initialisation leaves nothing behind. -/
theorem duQueueInit_failed (interlocked : Bool) {queueHead : Address} {m : PoolMemory}
    (h : ¬ m.Allocated queueHead) :
    duQueueInit interlocked (some queueHead) none m =
      some (statusInsufficientResources, none, m) := by
  have hnone : ∀ {β : Type} {f : Address → Option β}, f queueHead = none →
      Function.update f queueHead none = f := fun hf => hf ▸ Function.update_eq_self queueHead _
  have herase : (m.setHead queueHead ⟨none, interlocked⟩).erase queueHead = m := by
    simp only [PoolMemory.Allocated, not_or, Bool.not_eq_true, Option.isSome_eq_false_iff,
      Option.isNone_iff_eq_none] at h
    obtain ⟨hflink, hblink, hdata, hhead⟩ := h
    rw [PoolMemory.erase, PoolMemory.setHead, hnone hflink, hnone hblink, hnone hdata,
      Function.update_idem, hnone hhead]
  have hhead : (m.setHead queueHead ⟨none, interlocked⟩).heads queueHead =
      some ⟨none, interlocked⟩ := Function.update_self queueHead _ _
  have hallocated : (m.setHead queueHead ⟨none, interlocked⟩).Allocated queueHead :=
    Or.inr (Or.inr (Or.inr (by rw [hhead]; rfl)))
  simp [duQueueInit, duQueueUninit, PoolMemory.free, hhead, hallocated, herase]

/-- Whatever the calls and the allocations that fail, every access is to memory in use, every
answer is the one of a first-in first-out queue, and what DuQueueUninit leaves allocated are as
many work elements as that queue still holds. -/
theorem queue_refines_fifo (interlocked : Bool) {queueHead : Address} {list : Allocation}
    (hlist : list.address ≠ queueHead) {m : PoolMemory}
    (hinit : duQueueInit interlocked (some queueHead) (some list) {} =
      some (statusSuccess, some queueHead, m)) {calls : List QueueCall}
    (hcalls : Meets QueueUse.step (fun s call => call.Granted s) ⟨queueHead, m, []⟩ calls) :
    ∃ s, calls.foldlM QueueUse.step ⟨queueHead, m, []⟩ = some s ∧
      s.answers = (calls.foldl Fifo.step {}).answers ∧
      ∃ m', ∃ leaked : List Address, duQueueUninit (some queueHead) s.memory = some m' ∧
        leaked.Nodup ∧ leaked.length = (calls.foldl Fifo.step {}).contents.length ∧
        ∀ a, m'.Allocated a ↔ a ∈ leaked := by
  obtain ⟨m₀, hinit₀, hr⟩ := represents_new interlocked hlist
  cases hinit.symm.trans hinit₀
  have hnew : Implements ⟨queueHead, m, []⟩ ⟨some list.address, interlocked⟩ list.address {} :=
    ⟨rfl, [], hr, rfl⟩
  obtain ⟨s, hrun, himpl, hq⟩ := Implements.run calls hnew hcalls
  obtain ⟨elements, hr', hcontents⟩ := himpl.represents
  obtain ⟨m', huninit, hleft⟩ := hr'.uninit
  refine ⟨s, hrun, himpl.answers, m', elements.map Prod.fst, ?_, ?_, ?_, hleft⟩
  · rw [← huninit, hq]
  · exact (List.nodup_cons.mp hr'.listed.nodup).2
  · rw [← hcontents, List.length_map, List.length_map]

/-- With an allocation that fails in the middle of DuEnqueueElements, an address that is given
out a second time, and one element that is left. -/
theorem queue_refines_fifo_reused : ∃ m s, duQueueInit true (some 1) (some ⟨2, 0⟩) {} =
      some (statusSuccess, some 1, m) ∧
    [QueueCall.dequeue, .enqueue 10 (some ⟨3, 7⟩), .dequeue,
      .enqueueElements [(11, some ⟨3, 7⟩), (12, none), (13, some ⟨4, 7⟩)],
      .enqueue 14 (some ⟨4, 3⟩), .dequeue].foldlM QueueUse.step ⟨1, m, []⟩ = some s ∧
    s.answers = [(statusNoMoreEntries, some 0), (statusSuccess, none), (statusSuccess, some 10),
      (statusInsufficientResources, none), (statusSuccess, none), (statusSuccess, some 11)] := by
  have hinit : duQueueInit true (some 1) (some ⟨2, 0⟩) {} = some (statusSuccess, some 1, _) := rfl
  let calls : List QueueCall := [.dequeue, .enqueue 10 (some ⟨3, 7⟩), .dequeue,
    .enqueueElements [(11, some ⟨3, 7⟩), (12, none), (13, some ⟨4, 7⟩)],
    .enqueue 14 (some ⟨4, 3⟩), .dequeue]
  obtain ⟨s, hrun, hanswers, -⟩ :=
    @queue_refines_fifo true 1 ⟨2, 0⟩ (by decide) _ hinit calls (by decide)
  exact ⟨_, s, hinit, hrun, hanswers⟩

end IntelPt.DriverUtils
