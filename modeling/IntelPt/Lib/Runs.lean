import Mathlib.Tactic.Common

/-! Runs of a machine whose step may be impossible. A run is a list of inputs; it ends where an
input cannot be taken. Nothing here is about drivers. -/
namespace IntelPt.Runs
variable {σ ι : Type*}

def Every (step : σ → ι → Option σ) (P : σ → Prop) : σ → List ι → Prop
  | s, [] => P s
  | s, i :: is => P s ∧ ∀ s', step s i = some s' → Every step P s' is

/-- Every input is taken in a state that meets `ok`. -/
def Meets (step : σ → ι → Option σ) (ok : σ → ι → Prop) : σ → List ι → Prop
  | _, [] => True
  | s, i :: is => ok s i ∧ ∀ s', step s i = some s' → Meets step ok s' is

instance Meets.decidable (step : σ → ι → Option σ) (ok : σ → ι → Prop)
    [∀ s i, Decidable (ok s i)] : ∀ s is, Decidable (Meets step ok s is)
  | _, [] => isTrue trivial
  | s, i :: is =>
    match h : step s i with
    | none =>
      decidable_of_iff (ok s i)
        ⟨fun hi => ⟨hi, fun s' hs => by rw [h] at hs; cases hs⟩, fun hm => hm.1⟩
    | some s' =>
      have := Meets.decidable step ok s' is
      decidable_of_iff (ok s i ∧ Meets step ok s' is)
        ⟨fun hm => ⟨hm.1, fun t ht => by rw [h] at ht; cases ht; exact hm.2⟩,
          fun hm => ⟨hm.1, hm.2 s' h⟩⟩

variable {step : σ → ι → Option σ}

theorem Every.head {P : σ → Prop} {s : σ} {is : List ι} (h : Every step P s is) : P s := by
  cases is with
  | nil => exact h
  | cons i is => exact h.1

theorem Every.last {P : σ → Prop} {s s' : σ} {is : List ι} (h : Every step P s is)
    (hrun : is.foldlM step s = some s') : P s' := by
  induction is generalizing s with
  | nil =>
    cases hrun
    exact h
  | cons i is ih =>
    rw [List.foldlM_cons, Option.bind_eq_bind, Option.bind_eq_some_iff] at hrun
    obtain ⟨s₁, hstep, hrun⟩ := hrun
    exact ih (h.2 s₁ hstep) hrun

/-- Steps that meet `ok` and keep the invariant keep what the invariant implies. -/
theorem every_of_meets (Inv : σ → Prop) {P : σ → Prop} {ok : σ → ι → Prop}
    (hgood : ∀ s, Inv s → P s)
    (hok : ∀ s i s', Inv s → ok s i → step s i = some s' → Inv s')
    (s : σ) (is : List ι) (hs : Inv s) (h : Meets step ok s is) : Every step P s is := by
  induction is generalizing s with
  | nil => exact hgood s hs
  | cons i is ih =>
    refine ⟨hgood s hs, fun s' hstep => ?_⟩
    exact ih s' (hok s i s' hs h.1 hstep) (h.2 s' hstep)

theorem every_of_invariant (Inv : σ → Prop) {P : σ → Prop} (hgood : ∀ s, Inv s → P s)
    (hstep : ∀ s i s', Inv s → step s i = some s' → Inv s') (s : σ) (is : List ι) (hs : Inv s) :
    Every step P s is := by
  induction is generalizing s with
  | nil => exact hgood s hs
  | cons i is ih => exact ⟨hgood s hs, fun s' h => ih s' (hstep s i s' hs h)⟩

/-- If also every step that does not meet `ok` ends where `P` fails, the two are the same. -/
theorem every_iff_meets (Inv : σ → Prop) {P : σ → Prop} {ok : σ → ι → Prop}
    (hgood : ∀ s, Inv s → P s)
    (hok : ∀ s i s', Inv s → ok s i → step s i = some s' → Inv s')
    (hbad : ∀ s i, Inv s → ¬ ok s i → ∃ s', step s i = some s' ∧ ¬ P s')
    (s : σ) (is : List ι) (hs : Inv s) : Every step P s is ↔ Meets step ok s is := by
  refine ⟨fun h => ?_, every_of_meets Inv hgood hok s is hs⟩
  induction is generalizing s with
  | nil => trivial
  | cons i is ih =>
    have hi : ok s i := by
      by_contra hn
      obtain ⟨s', hstep, hp⟩ := hbad s i hs hn
      exact hp (h.2 s' hstep).head
    exact ⟨hi, fun s' hstep => ih s' (hok s i s' hs hi hstep) (h.2 s' hstep)⟩

/-! Longer runs. -/

theorem meets_of_forall {ok : σ → ι → Prop} : ∀ {is : List ι} (s : σ),
    (∀ i ∈ is, ∀ s, ok s i) → Meets step ok s is
  | [], _, _ => trivial
  | i :: _, s, h => ⟨h i List.mem_cons_self s, fun s' _ =>
      meets_of_forall s' fun j hj => h j (List.mem_cons_of_mem i hj)⟩

theorem Meets.append {ok : σ → ι → Prop} {is js : List ι} {s s' : σ} (h : Meets step ok s is)
    (hrun : is.foldlM step s = some s') (hafter : Meets step ok s' js) :
    Meets step ok s (is ++ js) := by
  induction is generalizing s with
  | nil =>
    cases hrun
    exact hafter
  | cons i is ih =>
    rw [List.foldlM_cons, Option.bind_eq_bind, Option.bind_eq_some_iff] at hrun
    obtain ⟨s₁, hstep, hrun⟩ := hrun
    refine ⟨h.1, fun t ht => ?_⟩
    obtain rfl := Option.some.inj (hstep.symm.trans ht)
    exact ih (h.2 s₁ hstep) hrun

theorem Meets.of_append {ok : σ → ι → Prop} {is js : List ι} :
    ∀ {s : σ}, Meets step ok s (is ++ js) → Meets step ok s is := by
  induction is with
  | nil => exact fun _ => trivial
  | cons i is ih => exact fun h => ⟨h.1, fun s' hstep => ih (h.2 s' hstep)⟩

/-- The run ends there, and its inputs meet `ok`. -/
def Reaches (step : σ → ι → Option σ) (ok : σ → ι → Prop) (s : σ) (is : List ι) (s' : σ) : Prop :=
  is.foldlM step s = some s' ∧ Meets step ok s is

section

variable {ok : σ → ι → Prop}

theorem reaches_nil (s : σ) : Reaches step ok s [] s := ⟨rfl, trivial⟩

theorem Reaches.cons {s s₁ s' : σ} {i : ι} {is : List ι} (hok : ok s i)
    (hstep : step s i = some s₁) (h : Reaches step ok s₁ is s') :
    Reaches step ok s (i :: is) s' := by
  refine ⟨?_, hok, fun t ht => ?_⟩
  · rw [List.foldlM_cons, hstep]
    exact h.1
  · obtain rfl := Option.some.inj (hstep.symm.trans ht)
    exact h.2

theorem Reaches.append {s s₁ s' : σ} {is js : List ι} (h : Reaches step ok s is s₁)
    (h' : Reaches step ok s₁ js s') : Reaches step ok s (is ++ js) s' := by
  refine ⟨?_, h.2.append h.1 h'.2⟩
  rw [List.foldlM_append, h.1]
  exact h'.1

theorem Reaches.weaken {ok' : σ → ι → Prop} (hok : ∀ s i, ok s i → ok' s i) {is : List ι} :
    ∀ {s s' : σ}, Reaches step ok s is s' → Reaches step ok' s is s' := by
  induction is with
  | nil => exact fun h => ⟨h.1, trivial⟩
  | cons i is ih =>
    rintro s s' ⟨hrun, hmeets⟩
    rw [List.foldlM_cons, Option.bind_eq_bind, Option.bind_eq_some_iff] at hrun
    obtain ⟨s₁, hstep, hrun⟩ := hrun
    exact (ih ⟨hrun, hmeets.2 s₁ hstep⟩).cons (hok s i hmeets.1) hstep

theorem Reaches.keeps (Inv : σ → Prop)
    (hinv : ∀ s i s', Inv s → ok s i → step s i = some s' → Inv s') {s s' : σ} {is : List ι}
    (hs : Inv s) (h : Reaches step ok s is s') : Inv s' :=
  (every_of_meets Inv (fun _ h => h) hinv s is hs h.2).last h.1

/-- What no step brings about held all along if it holds at the end. -/
theorem Reaches.back (P : σ → Prop) (hback : ∀ s i s', step s i = some s' → P s' → P s)
    {s s' : σ} {is : List ι} (h : Reaches step ok s is s') (hlast : P s') :
    P s ∧ Reaches step (fun s i => ok s i ∧ ∀ s', step s i = some s' → P s') s is s' := by
  induction is generalizing s with
  | nil =>
    cases h.1
    exact ⟨hlast, reaches_nil _⟩
  | cons i is ih =>
    obtain ⟨hrun, hok, hafter⟩ := h
    rw [List.foldlM_cons, Option.bind_eq_bind, Option.bind_eq_some_iff] at hrun
    obtain ⟨s₁, hstep, hrun⟩ := hrun
    obtain ⟨hfirst, hlater⟩ := ih ⟨hrun, hafter s₁ hstep⟩
    refine ⟨hback s i s₁ hstep hfirst, hlater.cons ⟨hok, fun t ht => ?_⟩ hstep⟩
    obtain rfl := Option.some.inj (hstep.symm.trans ht)
    exact hfirst

/-- If every step of the one machine can be matched by a run of the other, so can every run, with
the same visible inputs. -/
theorem Reaches.simulated {τ κ μ : Type*} {step' : τ → κ → Option τ} {ok' : τ → κ → Prop}
    (R : σ → τ → Prop) (visible : ι → Option μ) (visible' : κ → Option μ)
    (hmatch : ∀ s i s' t, R s t → ok s i → step s i = some s' → ∃ js t',
      Reaches step' ok' t js t' ∧ js.filterMap visible' = [i].filterMap visible ∧ R s' t')
    {is : List ι} : ∀ {s s' : σ} {t : τ}, Reaches step ok s is s' → R s t → ∃ js t',
      Reaches step' ok' t js t' ∧ js.filterMap visible' = is.filterMap visible ∧ R s' t' := by
  induction is with
  | nil =>
    intro s s' t h hR
    cases h.1
    exact ⟨[], t, reaches_nil t, rfl, hR⟩
  | cons i is ih =>
    intro s s' t h hR
    obtain ⟨hrun, hok, hafter⟩ := h
    rw [List.foldlM_cons, Option.bind_eq_bind, Option.bind_eq_some_iff] at hrun
    obtain ⟨s₁, hstep, hrun⟩ := hrun
    obtain ⟨js, t₁, hjs, hvisible, hR₁⟩ := hmatch s i s₁ t hR hok hstep
    obtain ⟨ks, t', hks, hlater, hR'⟩ := ih ⟨hrun, hafter s₁ hstep⟩ hR₁
    refine ⟨js ++ ks, t', hjs.append hks, ?_, hR'⟩
    rw [List.filterMap_append, hvisible, hlater, ← List.filterMap_append, List.singleton_append]

/-- Two machines that take each input alike, one by a translation of it, take every run alike. -/
theorem rel_of_meets {τ κ : Type*} {step' : τ → κ → Option τ} (R : σ → τ → Prop) (f : ι → κ)
    (hstep : ∀ s t i, R s t → ok s i → Option.Rel R (step s i) (step' t (f i))) {is : List ι} :
    ∀ {s : σ} {t : τ}, R s t → Meets step ok s is →
      Option.Rel R (is.foldlM step s) ((is.map f).foldlM step' t) := by
  induction is with
  | nil => exact fun hR _ => .some hR
  | cons i is ih =>
    intro s t hR hmeets
    have hfirst := hstep s t i hR hmeets.1
    rw [List.map_cons, List.foldlM_cons, List.foldlM_cons]
    cases hs : step s i with
    | none =>
      rw [hs] at hfirst
      generalize step' t (f i) = r at hfirst
      cases hfirst
      exact .none
    | some s₁ =>
      rw [hs] at hfirst
      generalize step' t (f i) = r at hfirst
      cases hfirst with
      | some hR₁ => exact ih hR₁ (hmeets.2 s₁ hs)

end

/-! A part of the machine. -/

/-- A run is one of a part of the machine that takes some of its inputs. -/
theorem run_filterMap {τ κ : Type*} {step' : τ → κ → Option τ} (project : σ → τ)
    (f : ι → Option κ) (hsome : ∀ s i s' k, step s i = some s' → f i = some k →
      step' (project s) k = some (project s'))
    (hnone : ∀ s i s', step s i = some s' → f i = none → project s' = project s) :
    ∀ {is : List ι} {s s' : σ}, is.foldlM step s = some s' →
      (is.filterMap f).foldlM step' (project s) = some (project s') := by
  intro is
  induction is with
  | nil =>
    intro s s' hrun
    cases hrun
    rfl
  | cons i is ih =>
    intro s s' hrun
    rw [List.foldlM_cons, Option.bind_eq_bind, Option.bind_eq_some_iff] at hrun
    obtain ⟨s₁, hstep, hrun⟩ := hrun
    have hafter := ih hrun
    cases hf : f i with
    | none =>
      rw [List.filterMap_cons_none hf, ← hnone s i s₁ hstep hf]
      exact hafter
    | some k =>
      rw [List.filterMap_cons_some hf, List.foldlM_cons, hsome s i s₁ k hstep hf]
      exact hafter

end IntelPt.Runs
