import Mathlib.Data.List.Basic
import Mathlib.Tactic.Common

/-! Halting transducers: a machine that reads symbols one at a time, emits a list of
outputs at each step and may stop for a reason. Nothing here is about packets. -/
namespace IntelPt.Transducer
variable {σ ι ω η : Type*}

/-- What a step leaves behind: the state, its outputs, the reason it stopped if it did. -/
structure Result (σ ω η : Type*) where
  st : σ
  out : List ω := []
  halt : Option η := none

def run (step : σ → ι → Result σ ω η) : σ → List ι → Result σ ω η
  | s, [] => { st := s }
  | s, i :: is =>
    let r := step s i
    match r.halt with
    | some _ => r
    | none =>
      let t := run step r.st is
      { st := t.st, out := r.out ++ t.out, halt := t.halt }

variable {step : σ → ι → Result σ ω η}

@[simp] theorem run_nil (s : σ) : run step s [] = { st := s } := rfl

theorem run_cons_halt {s : σ} {i : ι} {e : η} (h : (step s i).halt = some e) (is : List ι) :
    run step s (i :: is) = step s i := by
  simp [run, h]

theorem run_cons {s : σ} {i : ι} (h : (step s i).halt = none) (is : List ι) :
    run step s (i :: is) =
      { st := (run step (step s i).st is).st,
        out := (step s i).out ++ (run step (step s i).st is).out,
        halt := (run step (step s i).st is).halt } := by
  simp [run, h]

theorem run_singleton (s : σ) (i : ι) : run step s [i] = step s i := by
  cases h : (step s i).halt with
  | some e => exact run_cons_halt h []
  | none => rw [run_cons h, run_nil, List.append_nil, ← h]

theorem run_append {s : σ} {is : List ι} (h : (run step s is).halt = none) (js : List ι) :
    run step s (is ++ js) =
      { st := (run step (run step s is).st js).st,
        out := (run step s is).out ++ (run step (run step s is).st js).out,
        halt := (run step (run step s is).st js).halt } := by
  induction is generalizing s with
  | nil => simp
  | cons i is ih =>
    cases hi : (step s i).halt with
    | some e => rw [run_cons_halt hi, hi] at h; cases h
    | none =>
      rw [run_cons hi] at h
      rw [List.cons_append, run_cons hi, run_cons hi, ih h]
      simp [List.append_assoc]

theorem run_append_halt {s : σ} {is : List ι} {e : η} (h : (run step s is).halt = some e)
    (js : List ι) : run step s (is ++ js) = run step s is := by
  induction is generalizing s with
  | nil => simp at h
  | cons i is ih =>
    cases hi : (step s i).halt with
    | some e' => rw [List.cons_append, run_cons_halt hi, run_cons_halt hi]
    | none =>
      rw [run_cons hi] at h
      rw [List.cons_append, run_cons hi, run_cons hi, ih h]

theorem run_forall₂ {κ : Type*} {R : κ → ι → Prop} {step' : σ → κ → Result σ ω η}
    (hstep : ∀ s k i, R k i → step' s k = step s i) {ks : List κ} {is : List ι}
    (h : List.Forall₂ R ks is) (s : σ) : run step' s ks = run step s is := by
  induction h generalizing s with
  | nil => rfl
  | @cons k i ks is hone _ ih =>
    have hsame := hstep s k i hone
    cases hh : (step s i).halt with
    | some e => rw [run_cons_halt (hsame ▸ hh), run_cons_halt hh, hsame]
    | none => rw [run_cons (hsame ▸ hh), run_cons hh, hsame, ih]

theorem run_out_prefix (s : σ) (is js : List ι) :
    (run step s is).out <+: (run step s (is ++ js)).out := by
  cases h : (run step s is).halt with
  | some e => exact ⟨[], by rw [run_append_halt h, List.append_nil]⟩
  | none => exact ⟨_, (congrArg Result.out (run_append h js)).symm⟩

/-- What every step that goes on keeps, a run that goes on keeps. -/
theorem run_invariant (Inv : σ → Prop)
    (h : ∀ s i, Inv s → (step s i).halt = none → Inv (step s i).st) {s : σ} {is : List ι}
    (hs : Inv s) (hrun : (run step s is).halt = none) : Inv (run step s is).st := by
  induction is generalizing s with
  | nil => exact hs
  | cons i is ih =>
    cases hi : (step s i).halt with
    | some e =>
      rw [run_cons_halt hi, hi] at hrun
      cases hrun
    | none =>
      rw [run_cons hi] at hrun ⊢
      exact ih (h s i hs hi) hrun

theorem run_out_invariant (Inv : σ → Prop) {P : ω → Prop}
    (h : ∀ s i, Inv s → (step s i).halt = none → Inv (step s i).st)
    (hout : ∀ s i, Inv s → ∀ o ∈ (step s i).out, P o) {s : σ} (hs : Inv s) (is : List ι) :
    ∀ o ∈ (run step s is).out, P o := by
  induction is generalizing s with
  | nil =>
    intro o ho
    cases ho
  | cons i is ih =>
    cases hi : (step s i).halt with
    | some e =>
      rw [run_cons_halt hi]
      exact hout s i hs
    | none =>
      rw [run_cons hi]
      intro o ho
      obtain ho | ho := List.mem_append.mp ho
      · exact hout s i hs o ho
      · exact ih (h s i hs hi) o ho

/-- What every symbol has that a step gets past, every symbol has that a run gets past. -/
theorem run_forall {P : ι → Prop} (h : ∀ s i, (step s i).halt = none → P i) {s : σ} {is : List ι}
    (hrun : (run step s is).halt = none) : ∀ i ∈ is, P i := by
  induction is generalizing s with
  | nil =>
    intro i hi
    cases hi
  | cons i is ih =>
    cases hi : (step s i).halt with
    | some e =>
      rw [run_cons_halt hi, hi] at hrun
      cases hrun
    | none =>
      rw [run_cons hi] at hrun
      exact List.forall_mem_cons.mpr ⟨h s i hi, ih hrun⟩

theorem run_out_forall {P : ω → Prop} {is : List ι}
    (h : ∀ s, ∀ i ∈ is, ∀ o ∈ (step s i).out, P o) (s : σ) : ∀ o ∈ (run step s is).out, P o := by
  induction is generalizing s with
  | nil => simp
  | cons i is ih =>
    have hi := h s i (by simp)
    cases hh : (step s i).halt with
    | some e => rw [run_cons_halt hh]; exact hi
    | none =>
      have ht := ih (fun s j hj => h s j (List.mem_cons_of_mem i hj)) (step s i).st
      rw [run_cons hh]
      intro o ho
      exact (List.mem_append.mp ho).elim (hi o) (ht o)

def Result.map {τ : Type*} (f : σ → τ) (r : Result σ ω η) : Result τ ω η where
  st := f r.st
  out := r.out
  halt := r.halt

/-- A step that a projection of the state decides is run by the projected step. -/
theorem run_map {τ : Type*} {f : σ → τ} {step' : τ → ι → Result τ ω η} {is : List ι}
    (h : ∀ s, ∀ i ∈ is, (step s i).map f = step' (f s) i) (s : σ) :
    (run step s is).map f = run step' (f s) is := by
  induction is generalizing s with
  | nil => rfl
  | cons i is ih =>
    have hi := h s i (by simp)
    have hhalt : (step' (f s) i).halt = (step s i).halt := by rw [← hi]; rfl
    cases hh : (step s i).halt with
    | some e => rw [run_cons_halt hh, run_cons_halt (hhalt.trans hh), hi]
    | none =>
      have ht := ih (fun s j hj => h s j (List.mem_cons_of_mem i hj)) (step s i).st
      have hst : (step' (f s) i).st = f (step s i).st := by rw [← hi]; rfl
      have hout : (step' (f s) i).out = (step s i).out := by rw [← hi]; rfl
      rw [run_cons hh, run_cons (hhalt.trans hh), hst, hout, ← ht]
      rfl

/-- Two results with the same outputs and the same reason to stop, in states `R` relates. -/
structure Result.Similar {τ : Type*} (R : σ → τ → Prop) (r : Result σ ω η) (r' : Result τ ω η) :
    Prop where
  st : R r.st r'.st
  out : r'.out = r.out
  halt : r'.halt = r.halt

/-- Machines whose steps are similar in the states the first one can be in run similarly. -/
theorem run_similar {τ : Type*} (Inv : σ → Prop) {R : σ → τ → Prop} {step' : τ → ι → Result τ ω η}
    (hinv : ∀ s i, Inv s → (step s i).halt = none → Inv (step s i).st)
    (h : ∀ s t i, Inv s → R s t → (step s i).Similar R (step' t i)) {s : σ} {t : τ}
    (hs : Inv s) (hR : R s t) (is : List ι) : (run step s is).Similar R (run step' t is) := by
  induction is generalizing s t with
  | nil => exact ⟨hR, rfl, rfl⟩
  | cons i is ih =>
    have hi := h s t i hs hR
    cases hh : (step s i).halt with
    | some e =>
      rw [run_cons_halt hh, run_cons_halt (hi.halt.trans hh)]
      exact hi
    | none =>
      have ht := ih (hinv s i hs hh) hi.st
      rw [run_cons hh, run_cons (hi.halt.trans hh)]
      exact ⟨ht.st, by rw [hi.out, ht.out], ht.halt⟩

/-- Every step of the run, up to and including the one it stops at, meets `ok`. -/
def Meets (step : σ → ι → Result σ ω η) (ok : σ → ι → Prop) : σ → List ι → Prop
  | _, [] => True
  | s, i :: is => ok s i ∧ ((step s i).halt = none → Meets step ok (step s i).st is)

/-- If a step that meets `ok` keeps the invariant and emits good outputs only, and a step
that does not meet it emits a bad one, then good outputs are the same as steps that meet `ok`. -/
theorem good_iff_meets (Inv : σ → Prop) {Good : ω → Prop} {ok : σ → ι → Prop}
    (hok : ∀ s i, Inv s → ok s i →
      (∀ o ∈ (step s i).out, Good o) ∧ ((step s i).halt = none → Inv (step s i).st))
    (hbad : ∀ s i, Inv s → ¬ ok s i → ∃ o ∈ (step s i).out, ¬ Good o)
    (s : σ) (is : List ι) (hs : Inv s) :
    (∀ o ∈ (run step s is).out, Good o) ↔ Meets step ok s is := by
  induction is generalizing s with
  | nil => simp [Meets]
  | cons i is ih =>
    have hfst : ∀ o ∈ (step s i).out, o ∈ (run step s (i :: is)).out := by
      intro o ho
      cases hi : (step s i).halt with
      | some e => rwa [run_cons_halt hi]
      | none => rw [run_cons hi]; exact List.mem_append_left _ ho
    by_cases hc : ok s i
    · obtain ⟨hg, hinv⟩ := hok s i hs hc
      cases hi : (step s i).halt with
      | some e => simp [run_cons_halt hi, Meets, hc, hi]; exact hg
      | none =>
        have ht := ih _ (hinv hi)
        simp only [run_cons hi, Meets, hc, hi, true_and, forall_const, List.mem_append]
        rw [← ht]
        exact ⟨fun h o ho => h o (Or.inr ho), fun h o ho => ho.elim (hg o) (h o)⟩
    · obtain ⟨o, ho, hno⟩ := hbad s i hs hc
      exact ⟨fun h => absurd (h o (hfst o ho)) hno, fun h => absurd h.1 hc⟩

/-- The same for the reason a run stops. -/
theorem halt_iff_meets (Inv : σ → Prop) {Good : η → Prop} {ok : σ → ι → Prop}
    (hok : ∀ s i, Inv s → ok s i →
      (∀ e, (step s i).halt = some e → Good e) ∧ ((step s i).halt = none → Inv (step s i).st))
    (hbad : ∀ s i, Inv s → ¬ ok s i → ∃ e, (step s i).halt = some e ∧ ¬ Good e)
    (s : σ) (is : List ι) (hs : Inv s) :
    (∀ e, (run step s is).halt = some e → Good e) ↔ Meets step ok s is := by
  induction is generalizing s with
  | nil => simp [Meets]
  | cons i is ih =>
    by_cases hc : ok s i
    · obtain ⟨hg, hinv⟩ := hok s i hs hc
      cases hi : (step s i).halt with
      | some e => simpa [run_cons_halt hi, Meets, hc, hi] using hg e hi
      | none =>
        have ht := ih _ (hinv hi)
        simpa [run_cons hi, Meets, hc, hi] using ht
    · obtain ⟨e, he, hno⟩ := hbad s i hs hc
      refine iff_of_false (fun h => hno (h e ?_)) fun h => hc h.1
      rw [run_cons_halt he, he]

end IntelPt.Transducer
