import Mathlib.Data.List.Induction
import WindbgMcp.Library.Run

/-! A one-shot in the state of a transition function: it is armed, an input it
serves spends it, and only some inputs arm it again.  Along a run it serves at most
once between two inputs that arm it, and serves again after each of them. -/
namespace WindbgMcp.Library.OneShot

variable {σ ι : Type}

structure Lawful (step : σ → ι → σ) (armed : σ → Bool) (serves : σ → ι → Bool)
    (rearms : ι → Bool) : Prop where
  armed_of_serves : ∀ {state input}, serves state input = true → armed state = true
  spent : ∀ {state input}, serves state input = true → armed (step state input) = false
  stays : ∀ {state input}, armed state = false → rearms input = false →
    armed (step state input) = false

def served (step : σ → ι → σ) (serves : σ → ι → Bool) (state : σ) (inputs : List ι) : Nat :=
  (visits step state inputs).countP fun visit => serves visit.1 visit.2

section
variable {step : σ → ι → σ} {armed : σ → Bool} {serves : σ → ι → Bool} {rearms : ι → Bool}
  {state : σ} {input : ι} {inputs front back : List ι}

@[simp] theorem served_nil : served step serves state [] = 0 := rfl

theorem served_cons : served step serves state (input :: inputs) =
    served step serves (step state input) inputs + if serves state input then 1 else 0 := by
  unfold served
  rw [visits, List.countP_cons]

theorem served_append : served step serves state (front ++ back) =
    served step serves state front + served step serves (run step state front) back := by
  unfold served
  rw [visits_append, List.countP_append]

theorem exists_serving (h : 0 < served step serves state inputs) :
    ∃ visit ∈ visits step state inputs, serves visit.1 visit.2 = true := by
  unfold served at h
  exact List.countP_pos_iff.mp h

section
variable (hlaw : Lawful step armed serves rearms)
include hlaw

theorem Lawful.rearmed_of_served (hspent : armed state = false)
    (hserved : 0 < served step serves state inputs) :
    ∃ before input after, inputs = before ++ input :: after ∧ rearms input = true ∧
      0 < served step serves (run step state (before ++ [input])) after := by
  induction inputs generalizing state with
  | nil => simp at hserved
  | cons input inputs ih =>
    have hhere : serves state input = false := by
      apply Bool.eq_false_iff.mpr
      intro hserves
      rw [hlaw.armed_of_serves hserves] at hspent
      cases hspent
    rw [served_cons, hhere] at hserved
    cases hrearms : rearms input with
    | true => exact ⟨[], input, inputs, rfl, hrearms, hserved⟩
    | false =>
      obtain ⟨before, arming, after, heq, harming, hafter⟩ :=
        ih (hlaw.stays hspent hrearms) hserved
      refine ⟨input :: before, arming, after, ?_, harming, hafter⟩
      rw [heq, List.cons_append]

theorem Lawful.rearmed_between (hserved : 2 ≤ served step serves state inputs) :
    ∃ before input after, inputs = before ++ input :: after ∧ rearms input = true ∧
      0 < served step serves state before ∧
      0 < served step serves (run step state (before ++ [input])) after := by
  induction inputs generalizing state with
  | nil => simp at hserved
  | cons input inputs ih =>
    rw [served_cons] at hserved
    cases hhere : serves state input with
    | true =>
      rw [hhere] at hserved
      have hlater : 0 < served step serves (step state input) inputs := by
        simp only [if_true] at hserved
        omega
      obtain ⟨before, arming, after, heq, harming, hafter⟩ :=
        hlaw.rearmed_of_served (hlaw.spent hhere) hlater
      refine ⟨input :: before, arming, after, ?_, harming, ?_, hafter⟩
      · rw [heq, List.cons_append]
      · rw [served_cons, hhere]
        exact Nat.succ_pos _
    | false =>
      rw [hhere] at hserved
      obtain ⟨before, arming, after, heq, harming, hbefore, hafter⟩ := ih hserved
      refine ⟨input :: before, arming, after, ?_, harming, ?_, hafter⟩
      · rw [heq, List.cons_append]
      · rw [served_cons, hhere]
        exact hbefore

end

structure Spends (step : σ → ι → σ) (armed : σ → Bool) (serves : σ → ι → Bool) : Prop where
  keeps : ∀ {state input}, armed state = true → serves state input = false →
    armed (step state input) = true

section
variable (hspends : Spends step armed serves)
include hspends

theorem Spends.served_of_asked {asks : ι → Bool}
    (hanswers : ∀ {state input}, armed state = true → asks input = true →
      serves state input = true)
    (harmed : armed state = true) (hasked : ∃ input ∈ inputs, asks input = true) :
    0 < served step serves state inputs := by
  induction inputs generalizing state with
  | nil =>
    obtain ⟨input, hmem, _⟩ := hasked
    cases hmem
  | cons input inputs ih =>
    rw [served_cons]
    cases hhere : serves state input with
    | true => exact Nat.succ_pos _
    | false =>
      obtain ⟨asking, hmem, hasks⟩ := hasked
      cases hmem with
      | head =>
        rw [hanswers harmed hasks] at hhere
        cases hhere
      | tail _ hmem => exact ih (hspends.keeps harmed hhere) ⟨asking, hmem, hasks⟩

theorem Spends.served_since (hrearmed : ∀ {state input}, rearms input = true →
      armed (step state input) = true)
    (harmed : armed state = true) (hspent : armed (run step state inputs) = false) :
    ∃ front back, inputs = front ++ back ∧ (∀ input ∈ back, rearms input = false) ∧
      0 < served step serves (run step state front) back := by
  induction inputs using List.reverseRecOn with
  | nil =>
    rw [run_nil, harmed] at hspent
    cases hspent
  | append_singleton inputs input ih =>
    rw [run_concat] at hspent
    have hquiet : rearms input = false := by
      apply Bool.eq_false_iff.mpr
      intro harms
      rw [hrearmed harms] at hspent
      cases hspent
    cases hserves : serves (run step state inputs) input with
    | true =>
      refine ⟨inputs, [input], rfl, by simpa using hquiet, ?_⟩
      rw [served_cons, hserves]
      exact Nat.succ_pos _
    | false =>
      have hbefore : armed (run step state inputs) = false := by
        apply Bool.eq_false_iff.mpr
        intro hstill
        rw [hspends.keeps hstill hserves] at hspent
        cases hspent
      obtain ⟨front, back, heq, hback, hserved⟩ := ih hbefore
      refine ⟨front, back ++ [input], ?_, ?_, ?_⟩
      · rw [heq, List.append_assoc]
      · intro later hmem
        cases List.mem_append.mp hmem with
        | inl hmem => exact hback later hmem
        | inr hmem =>
          rw [List.mem_singleton.mp hmem]
          exact hquiet
      · rw [served_append]
        exact Nat.add_pos_left hserved _

end

end

end WindbgMcp.Library.OneShot
