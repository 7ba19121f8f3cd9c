import Mathlib.Data.List.Basic

/-! Runs of a transition function over a list of inputs, and the invariant rules
for them.  Nondeterminism is in the inputs. -/
namespace WindbgMcp.Library

variable {σ ι : Type} (step : σ → ι → σ)

def run (state : σ) (inputs : List ι) : σ := inputs.foldl step state

def visits : σ → List ι → List (σ × ι)
  | _, [] => []
  | state, input :: inputs => (state, input) :: visits (step state input) inputs

@[simp] theorem run_nil (state : σ) : run step state [] = state := rfl

@[simp] theorem run_cons (state : σ) (input : ι) (inputs : List ι) :
    run step state (input :: inputs) = run step (step state input) inputs := rfl

variable {step}

/-- What holds at the start and is kept by every step that meets `allowed` holds
after every run whose steps all do. -/
theorem run_invariant (invariant : σ → Prop) (allowed : σ → ι → Prop)
    (hstep : ∀ state input, invariant state → allowed state input →
      invariant (step state input))
    {state : σ} {inputs : List ι} (hstart : invariant state)
    (hallowed : ∀ visit ∈ visits step state inputs, allowed visit.1 visit.2) :
    invariant (run step state inputs) := by
  induction inputs generalizing state with
  | nil => exact hstart
  | cons input inputs ih =>
    apply ih
    · exact hstep state input hstart (hallowed _ List.mem_cons_self)
    · intro visit hvisit
      exact hallowed visit (List.mem_cons_of_mem _ hvisit)

theorem visits_invariant (invariant : σ → Prop) (allowed : σ → ι → Prop)
    (hstep : ∀ state input, invariant state → allowed state input →
      invariant (step state input))
    {state : σ} {inputs : List ι} (hstart : invariant state)
    (hallowed : ∀ visit ∈ visits step state inputs, allowed visit.1 visit.2) :
    ∀ visit ∈ visits step state inputs, invariant visit.1 := by
  induction inputs generalizing state with
  | nil => nofun
  | cons input inputs ih =>
    intro visit hvisit
    rcases List.mem_cons.mp hvisit with rfl | hlater
    · exact hstart
    · apply ih (hstep state input hstart (hallowed _ List.mem_cons_self))
      · intro later hmem
        exact hallowed later (List.mem_cons_of_mem _ hmem)
      · exact hlater

theorem visits_append (state : σ) (front back : List ι) :
    visits step state (front ++ back) =
      visits step state front ++ visits step (run step state front) back := by
  induction front generalizing state with
  | nil => rfl
  | cons input front ih => simp [visits, ih]

theorem run_append (state : σ) (front back : List ι) :
    run step state (front ++ back) = run step (run step state front) back :=
  List.foldl_append

theorem run_concat (state : σ) (front : List ι) (input : ι) :
    run step state (front ++ [input]) = step (run step state front) input := by
  rw [run_append]
  rfl

theorem mem_visits {state : σ} {inputs : List ι} {visit : σ × ι}
    (h : visit ∈ visits step state inputs) :
    ∃ front, front ++ [visit.2] <+: inputs ∧ visit.1 = run step state front := by
  induction inputs generalizing state with
  | nil => cases h
  | cons input inputs ih =>
    rcases List.mem_cons.mp h with rfl | hlater
    · exact ⟨[], by simp, rfl⟩
    · obtain ⟨front, hfront, hstate⟩ := ih hlater
      refine ⟨input :: front, ?_, hstate⟩
      rw [List.cons_append]
      exact List.cons_prefix_cons.mpr ⟨rfl, hfront⟩

/-- Where an input keeps the invariant just when it meets `keeps`, the invariant holds all
along a run just when every input of it does. -/
theorem forall_prefix_iff (invariant : σ → Prop) (allowed keeps : σ → ι → Prop)
    (hstep : ∀ state input, invariant state → allowed state input →
      (invariant (step state input) ↔ keeps state input))
    {state : σ} {inputs : List ι} (hstart : invariant state)
    (hallowed : ∀ visit ∈ visits step state inputs, allowed visit.1 visit.2) :
    (∀ front, front <+: inputs → invariant (run step state front)) ↔
      ∀ visit ∈ visits step state inputs, keeps visit.1 visit.2 := by
  constructor
  · intro hall visit hvisit
    obtain ⟨front, hfront, hstate⟩ := mem_visits hvisit
    rw [hstate]
    have hbefore := hall front ((List.prefix_append front [visit.2]).trans hfront)
    have hafter := hall (front ++ [visit.2]) hfront
    rw [run_concat] at hafter
    exact (hstep _ _ hbefore (hstate ▸ hallowed visit hvisit)).mp hafter
  · rintro hkeeps front ⟨back, rfl⟩
    rw [visits_append] at hkeeps hallowed
    apply run_invariant invariant (fun state input => allowed state input ∧ keeps state input)
      _ hstart
    · intro visit hvisit
      exact ⟨hallowed visit (List.mem_append_left _ hvisit),
        hkeeps visit (List.mem_append_left _ hvisit)⟩
    · intro before input hbefore hboth
      exact (hstep before input hbefore hboth.1).mpr hboth.2

end WindbgMcp.Library
