import Mathlib.Data.List.AList
import Mathlib.Tactic.Common

/-! Counters by key, and tables of counters by a second key. A key that is missing counts zero;
bumping it adds it. Keys are arbitrary. -/
namespace IntelPt.Tally
variable {α κ : Type*} [DecidableEq α] [DecidableEq κ]

abbrev Counter (α : Type*) := AList fun _ : α => Nat

def count (c : Counter α) (a : α) : Nat := (c.lookup a).getD 0

def bump (c : Counter α) (a : α) : Counter α := c.insert a (count c a + 1)

@[simp] theorem count_empty (a : α) : count ∅ a = 0 := rfl

@[simp] theorem count_bump (c : Counter α) (a b : α) :
    count (bump c a) b = count c b + if a = b then 1 else 0 := by
  by_cases h : a = b
  · subst h
    simp [count, bump]
  · simp [count, bump, h, AList.lookup_insert_ne (Ne.symm h)]

abbrev Table (κ α : Type*) := AList fun _ : κ => Counter α

def row (t : Table κ α) (k : κ) : Counter α := (t.lookup k).getD ∅

def bumpAt (t : Table κ α) (k : κ) (a : α) : Table κ α := t.insert k (bump (row t k) a)

def countAt (t : Table κ α) (k : κ) (a : α) : Nat := count (row t k) a

@[simp] theorem countAt_empty (k : κ) (a : α) : countAt ∅ k a = 0 := rfl

@[simp] theorem countAt_bumpAt (t : Table κ α) (k l : κ) (a b : α) :
    countAt (bumpAt t k a) l b = countAt t l b + if k = l ∧ a = b then 1 else 0 := by
  by_cases h : k = l
  · subst h
    have hrow : row (bumpAt t k a) k = bump (row t k) a := by simp [row, bumpAt]
    simp [countAt, hrow]
  · have hrow : row (bumpAt t k a) l = row t l := by
      simp [row, bumpAt, AList.lookup_insert_ne (Ne.symm h)]
    simp [countAt, hrow, h]

def totalOf (a : α) : List (Sigma fun _ : κ => Counter α) → Nat
  | [] => 0
  | e :: es => count e.2 a + totalOf a es

def total (t : Table κ α) (a : α) : Nat := totalOf a t.entries

omit [DecidableEq κ] in
@[simp] theorem total_empty (a : α) : total (∅ : Table κ α) a = 0 := rfl

theorem totalOf_kerase (a : α) (k : κ) (es : List (Sigma fun _ : κ => Counter α)) :
    totalOf a es = count ((es.dlookup k).getD ∅) a + totalOf a (es.kerase k) := by
  induction es with
  | nil => rfl
  | cons e es ih =>
    by_cases h : k = e.1
    · have hlookup : List.dlookup k (e :: es) = some e.2 := by
        subst h
        exact List.dlookup_cons_eq es e.1 e.2
      rw [hlookup, List.kerase_cons_eq h]
      rfl
    · rw [List.dlookup_cons_ne es e h, List.kerase_cons_ne h, totalOf, totalOf, ih]
      omega

@[simp] theorem total_bumpAt (t : Table κ α) (k : κ) (a b : α) :
    total (bumpAt t k a) b = total t b + if a = b then 1 else 0 := by
  have hsplit := totalOf_kerase b k t.entries
  have hentries : total (bumpAt t k a) b =
      count (bump (row t k) a) b + totalOf b (t.entries.kerase k) := by
    rw [total, bumpAt, AList.entries_insert]
    rfl
  have hrow : row t k = (t.entries.dlookup k).getD ∅ := rfl
  rw [hentries, count_bump, hrow, total, hsplit]
  omega

end IntelPt.Tally
