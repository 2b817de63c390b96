import Mathlib.Data.List.Nodup
import Mathlib.Logic.Function.Basic
import Mathlib.Tactic.Common

/-! Custody of issued items: each is with one holder, at one position of a queue, or handed
out. Nothing here is about buffers. -/
namespace IntelPt.Custody
variable {κ ι : Type*}

structure Ledger (κ ι : Type*) where
  held : κ → Option ι
  queued : List ι
  out : List ι
  issued : List ι

inductive Place (κ : Type*) where
  | holder (k : κ)
  | queued (n : Nat)
  | out (n : Nat)

def Ledger.at (c : Ledger κ ι) : Place κ → Option ι
  | .holder k => c.held k
  | .queued n => c.queued[n]?
  | .out n => c.out[n]?

/-- Every issued item is in exactly one place, and nothing else is in any. -/
structure Sound (c : Ledger κ ι) : Prop where
  nodup : (c.queued ++ c.out).Nodup
  not_released : ∀ k x, c.held k = some x → x ∉ c.queued ++ c.out
  one_holder : ∀ k l x, c.held k = some x → c.held l = some x → k = l
  issued : ∀ x, x ∈ c.issued ↔ x ∈ c.queued ++ c.out ∨ ∃ k, c.held k = some x

variable {c : Ledger κ ι} {k : κ} {x old : ι}

theorem Sound.held_issued (h : Sound c) (hk : c.held k = some x) : x ∈ c.issued :=
  (h.issued x).mpr (Or.inr ⟨k, hk⟩)

theorem Sound.released_issued (h : Sound c) (hr : x ∈ c.queued ++ c.out) : x ∈ c.issued :=
  (h.issued x).mpr (Or.inl hr)

theorem index_unique {xs : List ι} (h : xs.Nodup) {m n : Nat} {x : ι} (hm : xs[m]? = some x)
    (hn : xs[n]? = some x) : m = n := by
  obtain ⟨hlt, -⟩ := List.getElem?_eq_some_iff.mp hm
  exact (List.getElem?_inj hlt h).mp (hm.trans hn.symm)

theorem Sound.existsUnique (h : Sound c) (hx : x ∈ c.issued) : ∃! p, c.at p = some x := by
  obtain ⟨hq, ho, hd⟩ := List.nodup_append.mp h.nodup
  have hqueued : ∀ n, c.queued[n]? = some x → x ∈ c.queued := fun _ => List.mem_of_getElem?
  have hout : ∀ n, c.out[n]? = some x → x ∈ c.out := fun _ => List.mem_of_getElem?
  obtain hr | ⟨k, hk⟩ := (h.issued x).mp hx
  · obtain hm | hm := List.mem_append.mp hr
    · obtain ⟨n, hn⟩ := List.mem_iff_getElem?.mp hm
      refine ⟨.queued n, hn, fun p hp => ?_⟩
      cases p with
      | holder l => exact absurd hr (h.not_released l x hp)
      | queued m => rw [index_unique hq hp hn]
      | out m => exact absurd rfl (hd x hm x (hout m hp))
    · obtain ⟨n, hn⟩ := List.mem_iff_getElem?.mp hm
      refine ⟨.out n, hn, fun p hp => ?_⟩
      cases p with
      | holder l => exact absurd hr (h.not_released l x hp)
      | queued m => exact absurd rfl (hd x (hqueued m hp) x hm)
      | out m => rw [index_unique ho hp hn]
  · have hno := h.not_released k x hk
    refine ⟨.holder k, hk, fun p hp => ?_⟩
    cases p with
    | holder l => rw [h.one_holder l k x hp hk]
    | queued m => exact absurd (List.mem_append_left _ (hqueued m hp)) hno
    | out m => exact absurd (List.mem_append_right _ (hout m hp)) hno

/-- An item that a holder keeps and has put into the queue is in two places. -/
theorem not_existsUnique_of_kept (hk : c.held k = some x) (hq : x ∈ c.queued) :
    ¬ ∃! p, c.at p = some x := by
  intro h
  obtain ⟨p, -, hp⟩ := h
  obtain ⟨n, hn⟩ := List.mem_iff_getElem?.mp hq
  cases (hp (.holder k) hk).trans (hp (.queued n) hn).symm

/-- An item that nobody holds and that is neither queued nor out is in no place. -/
theorem not_existsUnique_of_dropped (hk : ∀ k, c.held k ≠ some x) (hr : x ∉ c.queued ++ c.out) :
    ¬ ∃! p, c.at p = some x := by
  intro h
  obtain ⟨p, hp, -⟩ := h
  cases p with
  | holder k => exact hk k hp
  | queued n => exact hr (List.mem_append_left _ (List.mem_of_getElem? hp))
  | out n => exact hr (List.mem_append_right _ (List.mem_of_getElem? hp))

/-- The first queued item is handed out. -/
theorem Sound.deliver (h : Sound c) {queue : List ι} (hq : c.queued = x :: queue) :
    Sound { c with queued := queue, out := c.out ++ [x] } := by
  have hperm : (queue ++ (c.out ++ [x])).Perm (c.queued ++ c.out) := by
    rw [hq, ← List.append_assoc, List.cons_append]
    exact List.perm_append_singleton x (queue ++ c.out)
  refine ⟨hperm.nodup_iff.mpr h.nodup, fun l y hl hr => ?_, h.one_holder, fun y => ?_⟩
  · exact h.not_released l y hl (hperm.mem_iff.mp hr)
  · rw [h.issued]
    exact or_congr hperm.mem_iff.symm Iff.rfl

section
variable [DecidableEq κ]

theorem held_update {y : Option ι} {l : κ} {z : ι}
    (hl : Function.update c.held k y l = some z) :
    (l = k ∧ y = some z) ∨ (l ≠ k ∧ c.held l = some z) := by
  by_cases hlk : l = k
  · subst hlk
    rw [Function.update_self] at hl
    exact Or.inl ⟨rfl, hl⟩
  · rw [Function.update_of_ne hlk] at hl
    exact Or.inr ⟨hlk, hl⟩

theorem Sound.acquire (h : Sound c) (hk : c.held k = none) (hx : x ∉ c.issued) :
    Sound { c with held := Function.update c.held k (some x), issued := c.issued ++ [x] } where
  nodup := h.nodup
  not_released l y hl := by
    obtain ⟨-, hy⟩ | ⟨-, hl⟩ := held_update hl
    · cases hy
      exact fun hr => hx (h.released_issued hr)
    · exact h.not_released l y hl
  one_holder l m y hl hm := by
    obtain ⟨hlk, hy⟩ | ⟨-, hold⟩ := held_update hl <;>
      obtain ⟨hmk, hz⟩ | ⟨-, hold'⟩ := held_update hm
    · rw [hlk, hmk]
    · cases hy
      exact absurd (h.held_issued hold') hx
    · cases hz
      exact absurd (h.held_issued hold) hx
    · exact h.one_holder l m y hold hold'
  issued y := by
    rw [List.mem_append, List.mem_singleton, h.issued, or_assoc]
    refine or_congr Iff.rfl ⟨fun hold => ?_, fun hnew => ?_⟩
    · obtain ⟨l, hl⟩ | rfl := hold
      · have hlk : l ≠ k := fun he => by rw [he, hk] at hl; cases hl
        exact ⟨l, (Function.update_of_ne hlk _ _).trans hl⟩
      · exact ⟨k, Function.update_self ..⟩
    · obtain ⟨l, hl⟩ := hnew
      obtain ⟨-, hy⟩ | ⟨-, hl⟩ := held_update hl
      · cases hy
        exact Or.inr rfl
      · exact Or.inl ⟨l, hl⟩

theorem Sound.release (h : Sound c) (hk : c.held k = some old) :
    Sound { c with held := Function.update c.held k none, queued := c.queued ++ [old] } where
  nodup := by
    change ((c.queued ++ [old]) ++ c.out).Nodup
    rw [List.append_assoc, List.singleton_append, List.nodup_middle]
    exact List.nodup_cons.mpr ⟨h.not_released k old hk, h.nodup⟩
  not_released l y hl := by
    obtain ⟨-, hy⟩ | ⟨hlk, hold⟩ := held_update hl
    · cases hy
    · intro hr
      simp only [List.mem_append, List.mem_singleton] at hr
      obtain (hq | rfl) | ho := hr
      · exact h.not_released l y hold (List.mem_append_left _ hq)
      · exact hlk (h.one_holder l k y hold hk)
      · exact h.not_released l y hold (List.mem_append_right _ ho)
  one_holder l m y hl hm := by
    obtain ⟨-, hy⟩ | ⟨-, hl⟩ := held_update hl
    · cases hy
    · obtain ⟨-, hz⟩ | ⟨-, hm⟩ := held_update hm
      · cases hz
      · exact h.one_holder l m y hl hm
  issued y := by
    rw [h.issued]
    simp only [List.mem_append, List.mem_singleton]
    constructor
    · intro hold
      obtain (hq | ho) | ⟨l, hl⟩ := hold
      · exact Or.inl (Or.inl (Or.inl hq))
      · exact Or.inl (Or.inr ho)
      · by_cases hlk : l = k
        · subst hlk
          rw [hk] at hl
          cases hl
          exact Or.inl (Or.inl (Or.inr rfl))
        · exact Or.inr ⟨l, (Function.update_of_ne hlk _ _).trans hl⟩
    · intro hnew
      obtain ((hq | rfl) | ho) | ⟨l, hl⟩ := hnew
      · exact Or.inl (Or.inl hq)
      · exact Or.inr ⟨k, hk⟩
      · exact Or.inl (Or.inr ho)
      · obtain ⟨-, hy⟩ | ⟨-, hl⟩ := held_update hl
        · cases hy
        · exact Or.inr ⟨l, hl⟩

theorem Sound.pass (h : Sound c) (hk : c.held k = none) (hx : x ∉ c.issued) :
    Sound { c with queued := c.queued ++ [x], issued := c.issued ++ [x] } := by
  have hnext := (h.acquire hk hx).release (Function.update_self ..)
  have hsame : Function.update (Function.update c.held k (some x)) k none = c.held := by
    rw [Function.update_idem, ← hk, Function.update_eq_self]
  simp only [hsame] at hnext
  exact hnext

/-- A holder puts its item at the end of the queue for a new one. -/
theorem Sound.exchange (h : Sound c) (hk : c.held k = some old) (hx : x ∉ c.issued) :
    Sound { c with
      held := Function.update c.held k (some x)
      queued := c.queued ++ [old]
      issued := c.issued ++ [x] } := by
  have hnext := (h.release hk).acquire (k := k) (x := x) (Function.update_self ..) hx
  rwa [Function.update_idem] at hnext

end

end IntelPt.Custody
