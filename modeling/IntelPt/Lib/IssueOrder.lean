import Mathlib.Data.List.Nodup
import Mathlib.Logic.Function.Basic
import Mathlib.Tactic.Common

/-! Items that several holders are issued one after the other and post to one list. Each holder
keeps the last item it was issued, and posts no other. Nothing here is about buffers. -/
namespace IntelPt.IssueOrder
variable {κ ι : Type*} [DecidableEq ι]

def postedOf (posted issued : List ι) : List ι := posted.filter (· ∈ issued)

def Sorted (posted issued : List ι) : Prop :=
  (postedOf posted issued).Pairwise fun x y => issued.idxOf x ≤ issued.idxOf y

/-- No item is issued twice, to whomever, and each holder keeps its last one. -/
structure Issued (issued : κ → List ι) (held : κ → Option ι) (posted : List ι) : Prop where
  nodup : ∀ k, (issued k).Nodup
  apart : ∀ k l x, x ∈ issued k → x ∈ issued l → k = l
  last : ∀ k, held k = (issued k).getLast?
  known : ∀ x ∈ posted, ∃ k, x ∈ issued k
  sorted : ∀ k, Sorted posted (issued k)

/-- Besides, each item is posted before the next one is issued. -/
def Complete (issued : κ → List ι) (held : κ → Option ι) (posted : List ι) : Prop :=
  ∀ k, postedOf posted (issued k) ++ (held k).toList = issued k

variable {issued : κ → List ι} {held : κ → Option ι} {posted : List ι} {k : κ} {x old : ι}

theorem idxOf_le_last {xs : List ι} (h : xs.Nodup) (hx : xs.getLast? = some x) {y : ι}
    (hy : y ∈ xs) : xs.idxOf y ≤ xs.idxOf x := by
  obtain ⟨ys, rfl⟩ := List.getLast?_eq_some_iff.mp hx
  have hnew : x ∉ ys := fun hmem => (List.nodup_append.mp h).2.2 x hmem x (by simp) rfl
  have hlast : (ys ++ [x]).idxOf x = ys.length := by
    rw [List.idxOf_append_of_notMem hnew, List.idxOf_cons_self, Nat.add_zero]
  have hlt := List.idxOf_lt_length_iff.mpr hy
  rw [List.length_append, List.length_singleton] at hlt
  omega

theorem postedOf_append (posted new issued : List ι) :
    postedOf (posted ++ new) issued = postedOf posted issued ++ postedOf new issued :=
  List.filter_append ..

theorem postedOf_singleton {xs : List ι} (hx : x ∈ xs) : postedOf [x] xs = [x] := by
  simp [postedOf, hx]

theorem postedOf_other {xs : List ι} (hx : x ∉ xs) : postedOf [x] xs = [] := by
  simp [postedOf, hx]

theorem postedOf_issue {xs : List ι} (hx : x ∉ posted) :
    postedOf posted (xs ++ [x]) = postedOf posted xs := by
  refine List.filter_congr fun y hy => ?_
  have hne : y ≠ x := fun he => hx (he ▸ hy)
  simp [hne]

/-- A holder posts what it keeps, once more or for the first time. -/
theorem Issued.post (h : Issued issued held posted) (hk : held k = some x) :
    Issued issued held (posted ++ [x]) := by
  have hlast : (issued k).getLast? = some x := (h.last k).symm.trans hk
  have hmem : x ∈ issued k := List.mem_of_getLast? hlast
  refine ⟨h.nodup, h.apart, h.last, fun y hy => ?_, fun l => ?_⟩
  · obtain hy | hy := List.mem_append.mp hy
    · exact h.known y hy
    · exact ⟨k, List.mem_singleton.mp hy ▸ hmem⟩
  · rw [Sorted, postedOf_append]
    by_cases hl : l = k
    · subst hl
      rw [postedOf_singleton hmem]
      refine List.pairwise_append.mpr ⟨h.sorted l, List.pairwise_singleton .., fun y hy z hz => ?_⟩
      rw [List.mem_singleton.mp hz]
      exact idxOf_le_last (h.nodup l) hlast (of_decide_eq_true (List.mem_filter.mp hy).2)
    · have hno : x ∉ issued l := fun hx => hl (h.apart l k x hx hmem)
      rw [postedOf_other hno, List.append_nil]
      exact h.sorted l

theorem Issued.postOption (h : Issued issued held posted) {y : Option ι}
    (hy : y = none ∨ y = held k) : Issued issued held (posted ++ y.toList) := by
  cases y with
  | none =>
    rw [Option.toList_none, List.append_nil]
    exact h
  | some x => exact h.post (hy.resolve_left (Option.some_ne_none x)).symm

variable [DecidableEq κ]

omit [DecidableEq ι] in
theorem mem_issue {l : κ} {y : ι} :
    y ∈ Function.update issued k (issued k ++ [x]) l ↔ y ∈ issued l ∨ l = k ∧ y = x := by
  by_cases hl : l = k
  · subst hl
    simp
  · simp [hl]

theorem Issued.issue (h : Issued issued held posted) (hx : ∀ l, x ∉ issued l) :
    Issued (Function.update issued k (issued k ++ [x])) (Function.update held k (some x))
      posted := by
  have hposted : x ∉ posted := fun hmem => (h.known x hmem).elim hx
  refine ⟨fun l => ?_, fun l m y hl hm => ?_, fun l => ?_, fun y hy => ?_, fun l => ?_⟩
  · by_cases hl : l = k
    · subst hl
      rw [Function.update_self]
      exact List.nodup_append.mpr ⟨h.nodup l, List.nodup_singleton x, fun y hy z hz he =>
        hx l (by rw [← List.mem_singleton.mp hz, ← he]; exact hy)⟩
    · rw [Function.update_of_ne hl]
      exact h.nodup l
  · obtain hl | ⟨hlk, hy⟩ := mem_issue.mp hl <;> obtain hm | ⟨hmk, hy'⟩ := mem_issue.mp hm
    · exact h.apart l m y hl hm
    · exact absurd (hy' ▸ hl) (hx l)
    · exact absurd (hy ▸ hm) (hx m)
    · exact hlk.trans hmk.symm
  · by_cases hl : l = k
    · subst hl
      simp
    · rw [Function.update_of_ne hl, Function.update_of_ne hl]
      exact h.last l
  · obtain ⟨l, hl⟩ := h.known y hy
    exact ⟨l, mem_issue.mpr (Or.inl hl)⟩
  · by_cases hl : l = k
    · subst hl
      rw [Function.update_self, Sorted, postedOf_issue hposted]
      refine (h.sorted l).imp_of_mem fun {y z} hy hz hle => ?_
      have hy' : y ∈ issued l := of_decide_eq_true (List.mem_filter.mp hy).2
      have hz' : z ∈ issued l := of_decide_eq_true (List.mem_filter.mp hz).2
      rwa [List.idxOf_append_of_mem hy', List.idxOf_append_of_mem hz']
    · rw [Function.update_of_ne hl]
      exact h.sorted l

theorem Complete.exchange (hc : Complete issued held posted) (h : Issued issued held posted)
    (hx : ∀ l, x ∉ issued l) :
    Complete (Function.update issued k (issued k ++ [x])) (Function.update held k (some x))
      (posted ++ (held k).toList) := by
  have hkept : ∀ y ∈ (held k).toList, y ∈ issued k := by
    intro y hy
    rw [h.last k, Option.mem_toList] at hy
    exact List.mem_of_getLast? hy
  have hposted : x ∉ posted ++ (held k).toList := by
    intro hmem
    obtain hmem | hmem := List.mem_append.mp hmem
    · exact (h.known x hmem).elim hx
    · exact hx k (hkept x hmem)
  intro l
  by_cases hl : l = k
  · subst hl
    have hold : postedOf (held l).toList (issued l) = (held l).toList :=
      List.filter_eq_self.mpr fun y hy => decide_eq_true (hkept y hy)
    rw [Function.update_self, Function.update_self, postedOf_issue hposted, postedOf_append, hold,
      hc l]
    rfl
  · have hold : postedOf (held k).toList (issued l) = [] :=
      List.filter_eq_nil_iff.mpr fun y hy hmem =>
        hl (h.apart l k y (of_decide_eq_true hmem) (hkept y hy))
    rw [Function.update_of_ne hl, Function.update_of_ne hl, postedOf_append, hold, List.append_nil]
    exact hc l

end IntelPt.IssueOrder
