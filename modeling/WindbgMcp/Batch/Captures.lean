import WindbgMcp.Batch.BlockRuns
import WindbgMcp.Library.Fallible

/-! Capture references: when the texts of a step resolve, and which names are bound
when its turn comes. -/
namespace WindbgMcp.Batch

open Library Program

section Except

variable {ε α β : Type}

@[simp] theorem isOk_map (f : α → β) (result : Except ε α) : (f <$> result).isOk = result.isOk := by
  cases result <;> rfl

theorem isOk_bind {result : Except ε α} {next : α → Except ε β} (rest : Bool)
    (h : ∀ value, result = .ok value → (next value).isOk = rest) :
    (result >>= next).isOk = (result.isOk && rest) := by
  cases result with
  | error why => rfl
  | ok value => exact h value rfl

theorem isOk_mapM_iff (f : α → Except ε β) (items : List α) :
    (items.mapM f).isOk ↔ ∀ item ∈ items, (f item).isOk := by
  induction items with
  | nil => simp [List.mapM_nil, pure, Except.pure]
  | cons item items ih =>
    rw [List.mapM_cons, isOk_bind (items.mapM f).isOk]
    · simp [ih]
    · intro value _
      exact (isOk_bind true fun _ _ => rfl).trans (Bool.and_true _)

end Except

/-! ## The references of a step -/

/-- The names referred to, up to the first reference that is malformed. -/
def referencesFrom (rest : List Char) : List String :=
  match _hopen : Text.splitAtFirst opensReference rest with
  | none => []
  | some (_, after) =>
    match _hclose : Text.splitAtFirst closesReference after with
    | none => []
    | some (name, behind) =>
      if name.isEmpty || !name.all isCaptureChar then []
      else String.ofList name :: referencesFrom behind
termination_by rest.length
decreasing_by
  have hopened := Text.splitAtFirst_length _hopen
  have hclosed := Text.splitAtFirst_length _hclose
  simp only [opensReference, closesReference, List.length_cons, List.length_nil] at hopened hclosed
  omega

def resolvesAll (_ : String) : Option String := some ""

section

variable (resolve : String → Option String) (text : String)
  {rest before after name behind : List Char}

theorem scan_plain (hopen : Text.splitAtFirst opensReference rest = none) :
    substituteFrom resolve text rest = .ok rest ∧ referencesFrom rest = [] := by
  rw [substituteFrom, referencesFrom]
  constructor
  · split <;> simp_all
  · split <;> simp_all

theorem scan_open (hopen : Text.splitAtFirst opensReference rest = some (before, after))
    (hclose : Text.splitAtFirst closesReference after = none) :
    substituteFrom resolve text rest = .error (neverClosed text) ∧ referencesFrom rest = [] := by
  rw [substituteFrom, referencesFrom]
  constructor
  · split <;> simp_all
    split <;> simp_all
  · split <;> simp_all
    split <;> simp_all

theorem scan_closed (hopen : Text.splitAtFirst opensReference rest = some (before, after))
    (hclose : Text.splitAtFirst closesReference after = some (name, behind)) :
    (substituteFrom resolve text rest).isOk =
        (!(name.isEmpty || !name.all isCaptureChar) && (resolve (String.ofList name)).isSome &&
          (substituteFrom resolve text behind).isOk) ∧
      referencesFrom rest = if name.isEmpty || !name.all isCaptureChar then []
        else String.ofList name :: referencesFrom behind := by
  constructor
  · rw [substituteFrom]
    split
    · simp_all
    rename_i hopened
    obtain ⟨rfl, rfl⟩ := Prod.mk.inj (Option.some.inj (hopen.symm.trans hopened))
    split
    · simp_all
    rename_i hclosed
    obtain ⟨rfl, rfl⟩ := Prod.mk.inj (Option.some.inj (hclose.symm.trans hclosed))
    split
    · rename_i hname
      rw [hname]
      rfl
    rename_i hname
    rw [eq_false_of_ne_true hname]
    split
    · rename_i hresolve
      simp [hresolve]
    · rename_i value hresolve
      rw [isOk_bind true fun _ _ => rfl]
      simp [hresolve]
  · rw [referencesFrom]
    split
    · simp_all
    rename_i hopened
    obtain ⟨-, rfl⟩ := Prod.mk.inj (Option.some.inj (hopen.symm.trans hopened))
    split
    · simp_all
    rename_i hclosed
    obtain ⟨rfl, rfl⟩ := Prod.mk.inj (Option.some.inj (hclose.symm.trans hclosed))
    rfl

end

/-- A text resolves if it would with every name bound, and its own names are. -/
theorem substituteFrom_isOk_iff (resolve : String → Option String) (text : String)
    (rest : List Char) :
    (substituteFrom resolve text rest).isOk ↔
      (substituteFrom resolvesAll text rest).isOk ∧
        ∀ name ∈ referencesFrom rest, (resolve name).isSome := by
  fun_induction referencesFrom rest with
  | case1 rest hopen => simp [scan_plain _ text hopen]
  | case2 rest before after hopen hclose => simp [scan_open _ text hopen hclose]
  | case3 rest before after hopen name behind hclose hname =>
    simp only [(scan_closed _ text hopen hclose).1, hname]
    simp
  | case4 rest before after hopen name behind hclose hname ih =>
    simp only [(scan_closed _ text hopen hclose).1, eq_false_of_ne_true hname]
    simp only [Bool.not_false, Bool.true_and, resolvesAll, Option.isSome_some, Bool.and_eq_true,
      List.forall_mem_cons, ih]
    tauto

def StepAction.texts : StepAction → List String
  | .command text | .resume text _ | .runTo text _ | .eval text | .readMemory text _
  | .poolChunk text _ | .poolFindTag text _ _ _ _ => [text]
  | .poolCensus _ _ => []

def Check.texts : Check → List String
  | .contains text | .notContains text => [text]
  | .eval expr equals => [expr, equals]

def BatchStep.texts (step : BatchStep) : List String :=
  step.action.texts ++ step.expect.flatMap Check.texts

def references (text : String) : List String := referencesFrom text.toList

def wellFormed (text : String) : Bool := (substitute resolvesAll text).isOk

theorem substitute_isOk_iff (resolve : String → Option String) (text : String) :
    (substitute resolve text).isOk ↔
      wellFormed text ∧ ∀ name ∈ references text, (resolve name).isSome := by
  have hmap (resolve : String → Option String) :
      (substitute resolve text).isOk = (substituteFrom resolve text text.toList).isOk :=
    isOk_map String.ofList _
  rw [wellFormed, hmap, hmap]
  exact substituteFrom_isOk_iff resolve text text.toList

theorem action_isOk_iff (resolve : String → Option String) (action : StepAction) :
    (action.substituted resolve).isOk ↔ ∀ text ∈ action.texts, (substitute resolve text).isOk := by
  cases action <;> simp [StepAction.substituted, StepAction.texts]

theorem check_isOk_iff (resolve : String → Option String) (check : Check) :
    (check.substituted resolve).isOk ↔ ∀ text ∈ check.texts, (substitute resolve text).isOk := by
  cases check with
  | contains text => simp [Check.substituted, Check.texts]
  | notContains text => simp [Check.substituted, Check.texts]
  | eval expr equals =>
    simp only [Check.substituted, Check.texts]
    rw [isOk_bind (substitute resolve equals).isOk]
    · simp
    · intro value _
      exact (isOk_bind true fun _ _ => rfl).trans (Bool.and_true _)

def BatchStep.references (step : BatchStep) : List String := step.texts.flatMap Batch.references

def BatchStep.wellFormed (step : BatchStep) : Bool := step.texts.all Batch.wellFormed

theorem substituted_isOk_iff (step : BatchStep) (resolve : String → Option String) :
    (step.substituted resolve).isOk ↔
      step.wellFormed ∧ ∀ name ∈ step.references, (resolve name).isSome := by
  have htexts : (step.substituted resolve).isOk ↔
      ∀ text ∈ step.texts, (substitute resolve text).isOk := by
    rw [BatchStep.substituted, isOk_bind (step.expect.mapM (Check.substituted resolve)).isOk]
    · simp only [Bool.and_eq_true, action_isOk_iff, isOk_mapM_iff, check_isOk_iff, BatchStep.texts,
        List.forall_mem_append, List.forall_mem_flatMap]
    · intro action _
      exact (isOk_bind true fun _ _ => rfl).trans (Bool.and_true _)
  rw [htexts, BatchStep.wellFormed, BatchStep.references, List.all_eq_true,
    List.forall_mem_flatMap]
  simp only [substitute_isOk_iff]
  exact forall₂_and

/-! ## The names bound so far -/

/-- The captures of the steps that ended `ok`. -/
def captured (items : List BatchStep) (done : List StepOutcome) : List String :=
  ((items.zip done).filter (·.2.ok)).filterMap (·.1.capture)

def Bindings.Names (bound : Bindings) (names : List String) : Prop :=
  ∀ name, (bound.get name).isSome ↔ name ∈ names

theorem mem_captured_concat {items : List BatchStep} {done : List StepOutcome} {step : BatchStep}
    {outcome : StepOutcome} (hitem : items[done.length]? = some step) (name : String) :
    name ∈ captured items (done ++ [outcome]) ↔
      name ∈ captured items done ∨ outcome.ok = true ∧ step.capture = some name := by
  obtain ⟨hlt, hstep⟩ := List.getElem?_eq_some_iff.mp hitem
  obtain ⟨front, back, rfl, hlength⟩ :
      ∃ front back, items = front ++ step :: back ∧ front.length = done.length := by
    refine ⟨items.take done.length, items.drop (done.length + 1), ?_, ?_⟩
    · rw [← hstep, List.getElem_cons_drop, List.take_append_drop]
    · rw [List.length_take]
      omega
  have hzip : (front ++ step :: back).zip (done ++ [outcome]) =
      (front ++ step :: back).zip done ++ [(step, outcome)] := by
    have hfront : (front ++ step :: back).zip (done ++ []) = front.zip done := by
      rw [List.zip_append hlength, List.zip_nil_right, List.append_nil]
    rw [List.append_nil] at hfront
    rw [hfront, List.zip_append hlength, List.zip_cons_cons, List.zip_nil_right]
  rw [captured, hzip, List.filter_append, List.filterMap_append, List.mem_append]
  cases hok : outcome.ok <;> simp [captured, hok]

section

variable {items : List BatchStep} {done : List StepOutcome} {step : BatchStep} {bound : Bindings}
  {names : List String}

theorem Bindings.Names.skip {position : Nat} {why : String}
    (h : bound.Names (names ++ captured items done)) (hitem : items[done.length]? = some step) :
    bound.Names (names ++ captured items (done ++ [.skipped position step why])) := by
  intro name
  rw [h name, List.mem_append, List.mem_append, mem_captured_concat hitem]
  simp [StepOutcome.ok, StepOutcome.skipped]

theorem Bindings.Names.record {run : StepRun} (h : bound.Names (names ++ captured items done))
    (hitem : items[done.length]? = some step) (hbinds : Binds step bound run) :
    run.bound.Names (names ++ captured items (done ++ [run.outcome])) := by
  intro name
  rw [hbinds name, h name, List.mem_append, List.mem_append, mem_captured_concat hitem, or_assoc]

end

theorem mainBlock_names {steps : List BatchStep} {budget : Nat} {trace : Trace} {main : Progress}
    (h : Runs (mainBlock steps budget) trace (.ok main)) :
    main.bound.Names (captured steps main.done) := by
  refine (mainBlock_turns (fun index progress _ => Recorded steps index progress.done ∧
    progress.bound.Names ([] ++ captured steps progress.done)) ?_
    ⟨recorded_nil steps, by simp [Bindings.Names, Bindings.get, captured]⟩ h).2
  rintro index step progress before trace next hitem ⟨hrecorded, hnames⟩ hturn
  obtain ⟨outcome, hadds⟩ := hturn.adds
  refine ⟨hrecorded.add hitem hadds, ?_⟩
  rw [← hrecorded.length] at hitem
  cases hturn with
  | stopped why hstopped => exact hnames.skip hitem
  | gated outcome why gates hcommitted houtcome hkept hgates => exact hnames.skip hitem
  | ran gates middle ranking run outcome hcommitted hgates hrun hranking hranks =>
    exact hnames.record hitem (runStep_returns hrun).binds

end WindbgMcp.Batch
