import Mathlib.Data.List.Basic
import Mathlib.Tactic.Common

/-! Words matched symbol by symbol against a header, a list of patterns. `accepts p a` says
that pattern `p` takes symbol `a`; patterns and symbols are arbitrary. -/
namespace IntelPt.HeaderCode
variable {π α : Type*} (accepts : α → π → Bool)

def spells : List π → List α → Bool
  | [], [] => true
  | p :: ps, a :: w => accepts a p && spells ps w
  | _, _ => false

def starts : List π → List α → Bool
  | [], _ => true
  | _ :: _, [] => false
  | p :: ps, a :: w => accepts a p && starts ps w

def alive : List π → List α → Bool
  | [], _ => false
  | _ :: _, [] => true
  | p :: ps, a :: w => accepts a p && alive ps w

variable {accepts}

theorem spells_length {ps : List π} {w : List α} (h : spells accepts ps w = true) :
    w.length = ps.length := by
  induction ps generalizing w with
  | nil => cases w <;> simp_all [spells]
  | cons p ps ih => cases w <;> simp_all [spells]

theorem alive_length {ps : List π} {w : List α} (h : alive accepts ps w = true) :
    w.length < ps.length := by
  induction ps generalizing w with
  | nil => simp [alive] at h
  | cons p ps ih => cases w <;> simp_all [alive]

theorem starts_append {ps : List π} {u : List α} (h : spells accepts ps u = true) (v : List α) :
    starts accepts ps (u ++ v) = true := by
  induction ps generalizing u with
  | nil => cases u <;> simp_all [spells, starts]
  | cons p ps ih => cases u <;> simp_all [spells, starts]

theorem starts_append_right {ps : List π} {w : List α} (h : starts accepts ps w = true)
    (v : List α) : starts accepts ps (w ++ v) = true := by
  induction ps generalizing w with
  | nil => simp [starts]
  | cons p ps ih => cases w <;> simp_all [starts]

theorem starts_take {ps : List π} {w : List α} (h : starts accepts ps w = true) :
    spells accepts ps (w.take ps.length) = true := by
  induction ps generalizing w with
  | nil => simp [spells]
  | cons p ps ih => cases w <;> simp_all [spells, starts]

theorem alive_append_one {ps : List π} {w : List α} {a : α} :
    alive accepts ps (w ++ [a]) = true ↔
      alive accepts ps w = true ∧ w.length + 1 < ps.length ∧
        ∃ p, ps[w.length]? = some p ∧ accepts a p = true := by
  induction w generalizing ps with
  | nil =>
    cases ps with
    | nil => simp [alive]
    | cons p ps => cases ps <;> simp [alive]
  | cons b w ih =>
    cases ps with
    | nil => simp [alive]
    | cons p ps => simp [alive, ih, and_assoc]

theorem spells_append_one {ps : List π} {w : List α} {a : α} :
    spells accepts ps (w ++ [a]) = true ↔
      alive accepts ps w = true ∧ w.length + 1 = ps.length ∧
        ∃ p, ps[w.length]? = some p ∧ accepts a p = true := by
  induction w generalizing ps with
  | nil =>
    cases ps with
    | nil => simp [alive, spells]
    | cons p ps => cases ps <;> simp [alive, spells]
  | cons b w ih =>
    cases ps with
    | nil => simp [alive, spells]
    | cons p ps => simp [alive, spells, ih, and_assoc]

theorem starts_append_one {ps : List π} {w : List α} {a : α} :
    starts accepts ps (w ++ [a]) = (starts accepts ps w || spells accepts ps (w ++ [a])) := by
  induction w generalizing ps with
  | nil =>
    cases ps with
    | nil => simp [starts]
    | cons p ps => cases ps <;> simp [starts, spells]
  | cons b w ih =>
    cases ps with
    | nil => simp [starts]
    | cons p ps => simp [starts, spells, ih, Bool.and_or_distrib_left]

/-- Some position tells the two headers apart: no symbol is taken by both patterns there. -/
def Apart (accepts : α → π → Bool) : List π → List π → Prop
  | p :: ps, q :: qs => (∀ a, (accepts a p && accepts a q) = false) ∨ Apart accepts ps qs
  | _, _ => False

theorem Apart.symm {ps qs : List π} (h : Apart accepts ps qs) : Apart accepts qs ps := by
  induction ps generalizing qs with
  | nil => cases h
  | cons p ps ih =>
    cases qs with
    | nil => cases h
    | cons q qs => exact h.imp (fun h a => by rw [Bool.and_comm]; exact h a) ih

/-- Headers that are apart have no common word, not even up to what follows it. -/
theorem Apart.not_starts {ps qs : List π} (h : Apart accepts ps qs) {w : List α}
    (hp : starts accepts ps w = true) : starts accepts qs w = false := by
  induction ps generalizing qs w with
  | nil => cases h
  | cons p ps ih =>
    cases qs with
    | nil => cases h
    | cons q qs =>
      cases w with
      | nil => rfl
      | cons a w =>
        simp only [starts, Bool.and_eq_true] at hp
        obtain ha | ht := h
        · have := ha a
          simp_all [starts]
        · simp [starts, ih ht hp.2]

/-- Nor does one of them begin a word the other is a prefix of. -/
theorem Apart.not_alive {ps qs : List π} (h : Apart accepts ps qs) {w : List α}
    (hp : starts accepts ps w = true) : alive accepts qs w = false := by
  induction ps generalizing qs w with
  | nil => cases h
  | cons p ps ih =>
    cases qs with
    | nil => cases h
    | cons q qs =>
      cases w with
      | nil => simp [starts] at hp
      | cons a w =>
        simp only [starts, Bool.and_eq_true] at hp
        obtain ha | ht := h
        · have := ha a
          simp_all [alive]
        · simp [alive, ih ht hp.2]

end IntelPt.HeaderCode
