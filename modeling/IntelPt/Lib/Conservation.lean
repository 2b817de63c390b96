import IntelPt.Lib.Transducer

/-! Transducers that collect what they read and put it out again: what they have put out and
what they still hold, against what they read. Nothing here is about packets. -/
namespace IntelPt.Transducer
variable {σ ι ω η : Type*} {step : σ → ι → Result σ ω η}

def Result.contents (data : ω → List ι) (held : σ → List ι) (r : Result σ ω η) : List ι :=
  r.out.flatMap data ++ held r.st

def readAll (step : σ → ι → Result σ ω η) (reads : σ → ι → List ι) : σ → List ι → List ι
  | _, [] => []
  | s, i :: is => reads s i ++ readAll step reads (step s i).st is

variable {data : ω → List ι} {held : σ → List ι} {reads : σ → ι → List ι}

theorem contents_cons {s : σ} {i : ι} (h : (step s i).halt = none) (is : List ι) :
    (run step s (i :: is)).contents data held =
      (step s i).out.flatMap data ++ (run step (step s i).st is).contents data held := by
  simp only [run_cons h, Result.contents, List.flatMap_append, List.append_assoc]

theorem halt_cons {s : σ} {i : ι} {is : List ι} (h : (run step s (i :: is)).halt = none) :
    (step s i).halt = none ∧ (run step (step s i).st is).halt = none := by
  cases hi : (step s i).halt with
  | some e =>
    rw [run_cons_halt hi, hi] at h
    cases h
  | none =>
    rw [run_cons hi] at h
    exact ⟨rfl, h⟩

/-- A step that puts nothing out that it was not given, in the order it was given in. -/
structure Conserves (data : ω → List ι) (held : σ → List ι) (reads : σ → ι → List ι)
    (ok : σ → ι → Prop) (s : σ) (i : ι) (r : Result σ ω η) : Prop where
  sublist : (r.contents data held).Sublist (held s ++ reads s i)
  eq_iff : r.contents data held = held s ++ reads s i ↔ ok s i

variable {ok : σ → ι → Prop}

section
variable (Inv : σ → Prop) (hinv : ∀ s i, Inv s → (step s i).halt = none → Inv (step s i).st)
  (h : ∀ s i, Inv s → (step s i).halt = none → Conserves data held reads ok s i (step s i))
include hinv h

theorem contents_sublist (is : List ι) : ∀ {s}, Inv s → (run step s is).halt = none →
    ((run step s is).contents data held).Sublist (held s ++ readAll step reads s is) := by
  induction is with
  | nil =>
    intro s _ _
    rw [run_nil, readAll, List.append_nil]
    exact List.Sublist.refl _
  | cons i is ih =>
    intro s hs hrun
    obtain ⟨hi, hrest⟩ := halt_cons hrun
    have hlater := ih (hinv s i hs hi) hrest
    have hnow := (h s i hs hi).sublist
    rw [contents_cons hi, readAll, ← List.append_assoc]
    refine (hlater.append_left _).trans ?_
    rw [← List.append_assoc]
    exact hnow.append_right _

/-- A run that stops has put out nothing else either. -/
theorem out_sublist (hreads : ∀ s i, (reads s i).Sublist [i])
    (hout : ∀ s i, Inv s → ((step s i).out.flatMap data).Sublist (held s ++ [i]))
    (is : List ι) : ∀ {s}, Inv s →
      ((run step s is).out.flatMap data).Sublist (held s ++ is) := by
  induction is with
  | nil => exact fun _ => List.nil_sublist _
  | cons i is ih =>
    intro s hs
    rw [List.append_cons]
    cases hi : (step s i).halt with
    | some e =>
      rw [run_cons_halt hi]
      exact (hout s i hs).trans (List.sublist_append_left _ is)
    | none =>
      have hnow := (h s i hs hi).sublist.trans ((hreads s i).append_left (held s))
      have hlater := ih (hinv s i hs hi)
      simp only [run_cons hi, List.flatMap_append]
      refine (hlater.append_left _).trans ?_
      rw [← List.append_assoc]
      exact hnow.append_right is

/-- Nothing is lost exactly if no step loses anything: what one has lost never comes back. -/
theorem contents_eq_iff_meets (is : List ι) : ∀ {s}, Inv s → (run step s is).halt = none →
    ((run step s is).contents data held = held s ++ readAll step reads s is ↔
      Meets step ok s is) := by
  induction is with
  | nil =>
    intro s _ _
    exact iff_of_true (by rw [run_nil, readAll, List.append_nil]; rfl) trivial
  | cons i is ih =>
    intro s hs hrun
    obtain ⟨hi, hrest⟩ := halt_cons hrun
    have hs' := hinv s i hs hi
    have hstep := h s i hs hi
    rw [contents_cons hi, readAll, ← List.append_assoc]
    by_cases hok : ok s i
    · have hnow := hstep.eq_iff.mpr hok
      have hsplit : (step s i).contents data held ++ readAll step reads (step s i).st is =
          (step s i).out.flatMap data ++
            (held (step s i).st ++ readAll step reads (step s i).st is) := List.append_assoc ..
      rw [← hnow, hsplit, List.append_cancel_left_eq, ih hs' hrest]
      exact ⟨fun hm => ⟨hok, fun _ => hm⟩, fun hm => hm.2 hi⟩
    · refine iff_of_false (fun heq => hok ?_) fun hm => hok hm.1
      have hlater := (contents_sublist Inv hinv h is hs' hrest).length_le
      have hlength := congrArg List.length heq
      refine hstep.eq_iff.mp (hstep.sublist.eq_of_length_le ?_)
      rw [Result.contents, List.length_append]
      simp only [List.length_append] at hlater hlength ⊢
      omega

end

end IntelPt.Transducer
