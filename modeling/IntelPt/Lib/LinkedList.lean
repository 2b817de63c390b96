import Mathlib.Data.List.Basic
import Mathlib.Data.List.Nodup
import Mathlib.Logic.Function.Basic
import Mathlib.Tactic.Common

/-! Circular doubly linked lists with a list head. The two links are kept apart, each as a map
from addresses of any type; an access where there is no link has no result. Nothing here is about
queues. -/
namespace IntelPt.LinkedList
variable {α : Type*}

structure Links (α : Type*) where
  flink : α → Option α := fun _ => none
  blink : α → Option α := fun _ => none

def Links.Has (links : Links α) (a : α) : Prop :=
  (links.flink a).isSome = true ∧ (links.blink a).isSome = true

def SameDomain (links links' : Links α) : Prop :=
  ∀ a, (links'.flink a).isSome = (links.flink a).isSome ∧
    (links'.blink a).isSome = (links.blink a).isSome

theorem SameDomain.has {links links' : Links α} (h : SameDomain links links') {a : α} :
    links'.Has a ↔ links.Has a := by
  rw [Links.Has, Links.Has, (h a).1, (h a).2]

/-- The entries between `a` and `b`, every two neighbours linked both ways. -/
def Path (links : Links α) : α → List α → α → Prop
  | a, [], b => links.flink a = some b ∧ links.blink b = some a
  | a, c :: cs, b => (links.flink a = some c ∧ links.blink c = some a) ∧ Path links c cs b

structure Listed (links : Links α) (head : α) (entries : List α) : Prop where
  path : Path links head entries head
  nodup : (head :: entries).Nodup

section

variable [DecidableEq α]

def Links.setFlink (links : Links α) (a x : α) : Option (Links α) :=
  if (links.flink a).isSome then
    some { links with flink := Function.update links.flink a (some x) }
  else none

def Links.setBlink (links : Links α) (a x : α) : Option (Links α) :=
  if (links.blink a).isSome then
    some { links with blink := Function.update links.blink a (some x) }
  else none

def initializeListHead (links : Links α) (head : α) : Option (Links α) := do
  let links ← links.setFlink head head
  links.setBlink head head

def insertTailList (links : Links α) (head entry : α) : Option (Links α) := do
  let blink ← links.blink head
  let links ← links.setFlink entry head
  let links ← links.setBlink entry blink
  let links ← links.setFlink blink entry
  links.setBlink head entry

def removeHeadList (links : Links α) (head : α) : Option (α × Links α) := do
  let entry ← links.flink head
  let next ← links.flink entry
  let links ← links.setFlink head next
  let links ← links.setBlink next head
  return (entry, links)

end

/-! Paths. -/

theorem Path.congr {links links' : Links α} {cs : List α} : ∀ {a b : α}, Path links a cs b →
    (∀ x ∈ a :: cs, links'.flink x = links.flink x) →
      (∀ x ∈ cs ++ [b], links'.blink x = links.blink x) → Path links' a cs b := by
  induction cs with
  | nil =>
    intro a b h hf hb
    exact ⟨(hf a List.mem_cons_self).trans h.1, (hb b List.mem_cons_self).trans h.2⟩
  | cons c cs ih =>
    intro a b h hf hb
    have hc := hb c List.mem_cons_self
    refine ⟨⟨(hf a List.mem_cons_self).trans h.1.1, hc.trans h.1.2⟩, ?_⟩
    exact ih h.2 (fun x hx => hf x (List.mem_cons_of_mem a hx))
      (fun x hx => hb x (List.mem_cons_of_mem c hx))

theorem Path.blink_end {links : Links α} {cs : List α} : ∀ {a b : α}, Path links a cs b →
    links.blink b = some (cs.getLastD a) := by
  induction cs with
  | nil => exact fun h => h.2
  | cons c cs ih =>
    intro a b h
    rw [List.getLastD_cons]
    exact ih h.2

theorem Path.flink_mem {links : Links α} {cs : List α} : ∀ {a b : α}, Path links a cs b →
    ∀ x ∈ a :: cs, (links.flink x).isSome = true := by
  induction cs with
  | nil =>
    intro a b h x hx
    rw [List.mem_singleton.mp hx, h.1]
    rfl
  | cons c cs ih =>
    intro a b h x hx
    obtain rfl | hx := List.mem_cons.mp hx
    · rw [h.1.1]
      rfl
    · exact ih h.2 x hx

theorem Path.blink_mem {links : Links α} {cs : List α} : ∀ {a b : α}, Path links a cs b →
    ∀ x ∈ cs ++ [b], (links.blink x).isSome = true := by
  induction cs with
  | nil =>
    intro a b h x hx
    rw [List.mem_singleton.mp hx, h.2]
    rfl
  | cons c cs ih =>
    intro a b h x hx
    obtain rfl | hx := List.mem_cons.mp hx
    · rw [h.1.2]
      rfl
    · exact ih h.2 x hx

theorem getLastD_mem (cs : List α) (a : α) : cs.getLastD a ∈ a :: cs := by
  induction cs generalizing a with
  | nil => exact List.mem_cons_self
  | cons c cs ih =>
    rw [List.getLastD_cons]
    exact List.mem_cons_of_mem a (ih c)

/-- A new entry before `b`, where only the last link of the path was changed. -/
theorem Path.append_one {links links' : Links α} {e : α} {cs : List α} : ∀ {a b : α},
    Path links a cs b → (a :: cs).Nodup →
      (∀ x ∈ a :: cs, x ≠ cs.getLastD a → links'.flink x = links.flink x) →
      (∀ x ∈ cs, links'.blink x = links.blink x) →
      links'.flink (cs.getLastD a) = some e → links'.blink e = some (cs.getLastD a) →
      links'.flink e = some b → links'.blink b = some e → Path links' a (cs ++ [e]) b := by
  induction cs with
  | nil => exact fun _ _ _ _ hl hl' he he' => ⟨⟨hl, hl'⟩, he, he'⟩
  | cons c cs ih =>
    intro a b h hn hf hb hl hl' he he'
    rw [List.getLastD_cons] at hf hl hl'
    have hne : a ≠ cs.getLastD c := by
      intro heq
      exact (List.nodup_cons.mp hn).1 (heq ▸ getLastD_mem cs c)
    refine ⟨⟨(hf a List.mem_cons_self hne).trans h.1.1, ?_⟩, ?_⟩
    · exact (hb c List.mem_cons_self).trans h.1.2
    · exact ih h.2 (List.nodup_cons.mp hn).2 (fun x hx => hf x (List.mem_cons_of_mem a hx))
        (fun x hx => hb x (List.mem_cons_of_mem c hx)) hl hl' he he'

/-! The operations on a list. -/

theorem Listed.has {links : Links α} {head : α} {entries : List α}
    (h : Listed links head entries) : ∀ x ∈ head :: entries, links.Has x := by
  intro x hx
  refine ⟨h.path.flink_mem x hx, h.path.blink_mem x ?_⟩
  rw [List.mem_append, List.mem_singleton]
  exact (List.mem_cons.mp hx).symm

variable [DecidableEq α]

theorem isSome_update {f : α → Option α} {a x : α} (h : (f a).isSome = true) (b : α) :
    (Function.update f a (some x) b).isSome = (f b).isSome := by
  by_cases hb : b = a
  · subst hb
    rw [Function.update_self, h]
    rfl
  · rw [Function.update_of_ne hb]

theorem listed_initialize {links : Links α} {head : α} (h : links.Has head) :
    ∃ links', initializeListHead links head = some links' ∧ Listed links' head [] ∧
      SameDomain links links' := by
  have hinit : initializeListHead links head = some {
      flink := Function.update links.flink head (some head)
      blink := Function.update links.blink head (some head) } := by
    simp [initializeListHead, Links.setFlink, Links.setBlink, h.1, h.2]
  refine ⟨_, hinit, ⟨⟨?_, ?_⟩, List.nodup_singleton head⟩, fun a => ?_⟩
  · exact Function.update_self head _ _
  · exact Function.update_self head _ _
  · exact ⟨isSome_update h.1 a, isSome_update h.2 a⟩

/-- An entry that is not in the list becomes its last one. -/
theorem Listed.insertTail {links : Links α} {head entry : α} {entries : List α}
    (h : Listed links head entries) (he : links.Has entry) (hn : entry ∉ head :: entries) :
    ∃ links', insertTailList links head entry = some links' ∧
      Listed links' head (entries ++ [entry]) ∧ SameDomain links links' := by
  have hblink := h.path.blink_end
  have hlast := getLastD_mem entries head
  generalize hl : entries.getLastD head = last at hblink hlast
  have hhead := h.has head List.mem_cons_self
  have hlasts := h.has last hlast
  have hne : entry ≠ last := fun heq => hn (heq ▸ hlast)
  have hne' : entry ≠ head := fun heq => hn (heq ▸ List.mem_cons_self)
  have hins : insertTailList links head entry = some {
      flink := Function.update (Function.update links.flink entry (some head)) last (some entry)
      blink := Function.update (Function.update links.blink entry (some last)) head
        (some entry) } := by
    simp [insertTailList, Links.setFlink, Links.setBlink, hblink, he.1, he.2,
      isSome_update he.1, isSome_update he.2, hlasts.1]
  refine ⟨_, hins, ⟨?_, ?_⟩, fun a => ?_⟩
  · have hnodup := List.nodup_cons.mp h.nodup
    refine h.path.append_one h.nodup ?_ ?_ ?_ ?_ ?_ ?_
    · intro x hx hxl
      rw [hl] at hxl
      have hxe : x ≠ entry := fun heq => hn (heq ▸ hx)
      dsimp only
      rw [Function.update_of_ne hxl, Function.update_of_ne hxe]
    · intro x hx
      have hxh : x ≠ head := fun heq => hnodup.1 (heq ▸ hx)
      have hxe : x ≠ entry := fun heq => hn (heq ▸ List.mem_cons_of_mem head hx)
      dsimp only
      rw [Function.update_of_ne hxh, Function.update_of_ne hxe]
    · dsimp only
      rw [hl, Function.update_self]
    · dsimp only
      rw [hl, Function.update_of_ne hne', Function.update_self]
    · dsimp only
      rw [Function.update_of_ne hne, Function.update_self]
    · exact Function.update_self head _ _
  · rw [← List.cons_append, List.nodup_append]
    refine ⟨h.nodup, List.nodup_singleton entry, fun a ha b hb => ?_⟩
    rw [List.mem_singleton.mp hb]
    exact fun heq => hn (heq ▸ ha)
  · have hf : (Function.update links.flink entry (some head) last).isSome = true := by
      rw [isSome_update he.1]
      exact hlasts.1
    have hb : (Function.update links.blink entry (some last) head).isSome = true := by
      rw [isSome_update he.2]
      exact hhead.2
    exact ⟨(isSome_update hf a).trans (isSome_update he.1 a),
      (isSome_update hb a).trans (isSome_update he.2 a)⟩

theorem Listed.removeHead {links : Links α} {head entry : α} {entries : List α}
    (h : Listed links head (entry :: entries)) :
    ∃ links', removeHeadList links head = some (entry, links') ∧ Listed links' head entries ∧
      SameDomain links links' := by
  obtain ⟨⟨hflink, -⟩, hrest⟩ := h.path
  have hhead := h.has head List.mem_cons_self
  obtain ⟨hnotin, hentries⟩ := List.nodup_cons.mp h.nodup
  have hnodup : (head :: entries).Nodup :=
    List.nodup_cons.mpr ⟨fun hm => hnotin (List.mem_cons_of_mem entry hm),
      (List.nodup_cons.mp hentries).2⟩
  have hremove : ∀ next, links.flink entry = some next → (links.blink next).isSome = true →
      removeHeadList links head = some (entry, {
        flink := Function.update links.flink head (some next)
        blink := Function.update links.blink next (some head) }) := by
    intro next hnext hb
    simp [removeHeadList, Links.setFlink, Links.setBlink, hflink, hnext, hb]
  cases entries with
  | nil =>
    obtain ⟨hnext, -⟩ := hrest
    refine ⟨_, hremove head hnext hhead.2, ⟨⟨?_, ?_⟩, hnodup⟩, fun a => ?_⟩
    · exact Function.update_self head _ _
    · exact Function.update_self head _ _
    · exact ⟨isSome_update hhead.1 a, isSome_update hhead.2 a⟩
  | cons next entries =>
    obtain ⟨⟨hnext, hback⟩, hrest⟩ := hrest
    have hb : (links.blink next).isSome = true := by
      rw [hback]
      rfl
    refine ⟨_, hremove next hnext hb, ⟨⟨⟨?_, ?_⟩, hrest.congr ?_ ?_⟩, hnodup⟩, fun a => ?_⟩
    · exact Function.update_self head _ _
    · exact Function.update_self next _ _
    · intro x hx
      have hne : x ≠ head := fun heq => (List.nodup_cons.mp hnodup).1 (heq ▸ hx)
      exact Function.update_of_ne hne _ _
    · intro x hx
      have hne : x ≠ next := by
        obtain hx | hx := List.mem_append.mp hx
        · exact fun heq => (List.nodup_cons.mp (List.nodup_cons.mp hnodup).2).1 (heq ▸ hx)
        · rw [List.mem_singleton.mp hx]
          exact fun heq => (List.nodup_cons.mp hnodup).1 (heq ▸ List.mem_cons_self)
      exact Function.update_of_ne hne _ _
    · exact ⟨isSome_update hhead.1 a, isSome_update hb a⟩

theorem Listed.removeHead_nil {links : Links α} {head : α} (h : Listed links head []) :
    removeHeadList links head = some (head, links) := by
  obtain ⟨hflink, hblink⟩ := h.path
  have hhead := h.has head List.mem_cons_self
  have hf : Function.update links.flink head (some head) = links.flink := by
    rw [← hflink, Function.update_eq_self]
  have hb : Function.update links.blink head (some head) = links.blink := by
    rw [← hblink, Function.update_eq_self]
  simp [removeHeadList, Links.setFlink, Links.setBlink, hflink, hblink, hf, hb]

end IntelPt.LinkedList
