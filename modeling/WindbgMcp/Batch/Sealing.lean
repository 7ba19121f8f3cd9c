import WindbgMcp.Batch.Certification

/-! The seals of a batch: one behind every reading that lost the target, and the
rollback's own where the main block kept it. -/
namespace WindbgMcp.Batch

open Library Program

def isSealing (event : Happening) : Bool :=
  match event.query.request with
  | .sealing _ => true
  | _ => false

def sealings (trace : Trace) : Nat := trace.countP isSealing

@[simp] theorem sealings_nil : sealings [] = 0 := rfl

@[simp] theorem sealings_append (front back : Trace) :
    sealings (front ++ back) = sealings front + sealings back := List.countP_append

def Query.Neutral (query : Query) : Prop :=
  (∀ why, query.request ≠ .sealing why) ∧ query.request ≠ .replaced

theorem Query.Neutral.sealing {event : Happening} (h : event.query.Neutral) :
    isSealing event = false := by
  unfold isSealing
  split
  · rename_i why hrequest
    exact absurd hrequest (h.1 why)
  · rfl

theorem neutral_trace {trace : Trace} (h : ∀ event ∈ trace, event.query.Neutral) :
    sealings trace = 0 ∧ losses trace = [] := by
  constructor
  · apply List.countP_eq_zero.mpr
    intro event hevent
    rw [(h event hevent).sealing]
    exact Bool.false_ne_true
  · exact (losses_eq_nil_iff trace).mpr fun event hevent => lostAt_eq_none (h event hevent).2

def Balanced {α : Type} (program : Executor α) : Prop :=
  ∀ trace result, Runs program trace result → sealings trace = (losses trace).length

section Balanced

variable {α β : Type}

theorem balanced_of_neutral {returns : α → Prop} {unwinds : Option String → Prop}
    {program : Executor α} (h : Ensures Query.Neutral returns unwinds program) :
    Balanced program := by
  intro trace result hruns
  obtain ⟨hsealings, hlosses⟩ := neutral_trace (h.of_runs hruns).1
  rw [hsealings, hlosses]
  rfl

theorem balanced_ask {asked : Query} {next : asked.Answer → Executor α} (hasked : asked.Neutral)
    (hnext : ∀ answer, Balanced (next answer)) : Balanced (Program.ask asked next) := by
  intro trace result hruns
  obtain ⟨answer, rest, rfl, hrest⟩ := runs_ask_iff.mp hruns
  have hevent := @neutral_trace [⟨asked, answer⟩] (by simpa using hasked)
  have hcount := hnext answer rest result hrest
  rw [← List.singleton_append, sealings_append, losses_append, hevent.1, hevent.2, Nat.zero_add]
  exact hcount

theorem Balanced.bind {program : Executor α} {next : α → Executor β} (h : Balanced program)
    (hnext : ∀ value, Balanced (next value)) : Balanced (program >>= next) := by
  intro trace result hruns
  cases runs_bind_iff.mp hruns with
  | inl hunwinds =>
    obtain ⟨payload, -, hprogram⟩ := hunwinds
    exact h trace _ hprogram
  | inr hreturns =>
    obtain ⟨value, front, back, rfl, hprogram, hback⟩ := hreturns
    rw [sealings_append, losses_append, List.length_append, h front _ hprogram,
      hnext value back result hback]

theorem Balanced.forEach {σ ι : Type} {body : Nat → ι → σ → Executor σ}
    (hbody : ∀ index item state, Balanced (body index item state)) (index : Nat)
    (items : List ι) (state : σ) : Balanced (Program.forEach body index items state) := by
  induction items generalizing index state with
  | nil => exact @balanced_of_neutral _ (fun _ => True) (fun _ => True) _ trivial
  | cons item items ih => exact (hbody index item state).bind fun next => ih (index + 1) next

end Balanced

/-! ## The blocks -/

theorem AsksToFinish.neutral {block : Block} {position : Nat} {query : Query}
    (h : AsksToFinish block position query) : query.Neutral := by
  refine ⟨?_, h.request_ne⟩
  intro why hrequest
  cases h with
  | inl hquery =>
    rw [hquery] at hrequest
    cases hrequest
  | inr hasks =>
    cases hasks.2 with
    | inl helapsed =>
      rw [helapsed] at hrequest
      cases hrequest
    | inr hcommand =>
      obtain ⟨line, ms, -, hcommand⟩ := hcommand
      rw [hcommand] at hrequest
      cases hrequest

theorem balanced_runStep (block : Block) (step : BatchStep) (position deadline : Nat)
    (bound : Bindings) (alreadyGone : Bool) :
    Balanced (runStep block step position deadline bound alreadyGone) := by
  intro trace result hruns
  obtain ⟨elapsed, hskipped | hissued⟩ := runs_runStep_iff.mp hruns
  · obtain ⟨why, -, rfl, -⟩ := hskipped
    rfl
  · obtain ⟨action, checks, answer, reading, sealed, tail, -, rfl, hsealed, hfinish⟩ := hissued
    have hasks := ((finishStep_ensures block step position deadline bound alreadyGone action
      checks reading.read answer.settled).of_runs hfinish).1
    have htail := neutral_trace fun event hevent => (hasks event hevent).neutral
    have hfront : sealings (sealed ++ tail) = if reading.read = .same then 0 else 1 := by
      rw [sealings_append, htail.1]
      cases hsealed with
      | inl hkept =>
        rw [hkept.2, if_pos hkept.1]
        rfl
      | inr hlost =>
        obtain ⟨hlost, broke, rfl⟩ := hlost
        rw [if_neg hlost]
        rfl
    have hlosses : losses (sealed ++ tail) = [] := by
      rw [losses_append, htail.2, List.append_nil]
      cases hsealed with
      | inl hkept =>
        rw [hkept.2]
        rfl
      | inr hlost =>
        obtain ⟨-, broke, rfl⟩ := hlost
        rfl
    change sealings (sealed ++ tail) = (losses ([⟨readingQuery block position, reading⟩] ++
      (sealed ++ tail))).length
    rw [losses_append, hlosses, List.append_nil, hfront]
    by_cases hsame : reading.read = .same
    · simp [losses, lostAt, readingQuery, hsame]
    · simp [losses, lostAt, readingQuery, hsame]

theorem neutral_gate (block : Block) (position : Nat) :
    Query.Neutral ⟨.gate block position, .elapsed⟩ ∧
      Query.Neutral ⟨.gate block position, .abandoned⟩ ∧
        Query.Neutral ⟨.gate block position, .interrupted⟩ := by
  simp [Query.Neutral]

theorem balanced_rankOutcome (position stepsDeadline : Nat) (done : StepOutcome) (reading : Held) :
    Balanced (rankOutcome position stepsDeadline done reading) := by
  have hgate := neutral_gate .steps position
  have hdone (outcome : BatchOutcome) : Balanced (pure outcome) :=
    @balanced_of_neutral _ (fun _ => True) (fun _ => True) _ trivial
  simp only [rankOutcome, abandoned_bind, elapsed_bind]
  split
  · exact hdone _
  · exact hdone _
  split
  · exact hdone _
  split
  · exact balanced_ask hgate.2.1 fun _ => hdone _
  split
  · exact hdone _
  · exact hdone _
  · exact balanced_ask hgate.1 fun _ => hdone _

theorem balanced_mainStep (stepsDeadline index : Nat) (step : BatchStep) (progress : Progress) :
    Balanced (mainStep stepsDeadline index step progress) := by
  have hgate := neutral_gate .steps (index + 1)
  have hdone (next : Progress) : Balanced (pure next) :=
    @balanced_of_neutral _ (fun _ => True) (fun _ => True) _ trivial
  simp only [mainStep, abandoned_bind, interrupted_bind, elapsed_bind]
  split
  · exact hdone _
  refine balanced_ask hgate.2.1 fun abandoned => ?_
  split
  · exact hdone _
  refine balanced_ask hgate.2.2 fun interrupted => ?_
  split
  · exact hdone _
  refine balanced_ask hgate.1 fun elapsed => ?_
  split
  · exact hdone _
  exact (balanced_runStep _ _ _ _ _ _).bind fun run =>
    (balanced_rankOutcome _ _ _ _).bind fun outcome => hdone _

theorem balanced_alwaysStep (budget index : Nat) (step : BatchStep) (progress : Progress) :
    Balanced (alwaysStep budget index step progress) := by
  have hdone (next : Progress) : Balanced (pure next) :=
    @balanced_of_neutral _ (fun _ => True) (fun _ => True) _ trivial
  simp only [alwaysStep, elapsed_bind]
  split
  · exact hdone _
  refine balanced_ask (neutral_gate .always (index + 1)).1 fun elapsed => ?_
  split
  · exact hdone _
  exact (balanced_runStep _ _ _ _ _ _).bind fun run => hdone _

section

variable {budget : Nat} {trace front back : Trace} {main : Progress} {outcome : BatchOutcome}

theorem mainBlock_sealings {steps : List BatchStep} {result : Except (Option String) Progress}
    (h : Runs (mainBlock steps budget) trace result) :
    sealings trace = (losses trace).length :=
  Balanced.forEach (balanced_mainStep _) 0 steps _ trace result h

theorem alwaysBlock_sealings {always : List BatchStep} {result : Except (Option String) Progress}
    (h : Runs (alwaysBlock always budget main) trace result) :
    sealings trace = (losses trace).length :=
  Balanced.forEach (balanced_alwaysStep _) 0 always _ trace result h

/-- Behind the main block the batch has sealed once, for a lost target or for its
rollback. -/
theorem sealings_before_cleanup {steps : List BatchStep}
    (hmain : Runs (mainBlock steps budget) front (.ok main))
    (hseal : Runs (sealRollback main) back (.ok outcome)) :
    sealings front + sealings back = 1 := by
  have hwatched := (mainBlock_watched hmain).1 main rfl
  have hlosses := hwatched.certified.losses_length_le
  have hlost := hwatched.lost_iff
  rw [mainBlock_sealings hmain]
  simp only [sealRollback, sealing_bind] at hseal
  cases hunverified : main.unverified with
  | some seen =>
    rw [hunverified] at hseal hlost
    obtain ⟨rfl, -⟩ := runs_done_iff.mp hseal
    have hne := List.length_pos_iff.mpr (hlost.mp rfl)
    rw [sealings_nil]
    omega
  | none =>
    rw [hunverified] at hseal hlost
    obtain ⟨brokeLate, rest, rfl, hrest⟩ := runs_ask_iff.mp hseal
    obtain ⟨rfl, -⟩ := runs_done_iff.mp hrest
    have hkept : losses front = [] := by
      by_contra hne
      exact Bool.false_ne_true (hlost.mpr hne)
    rw [hkept]
    rfl

end

end WindbgMcp.Batch
