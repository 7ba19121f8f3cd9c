import Mathlib.Data.List.Basic

/-! Computations that may fail and keep their state when they do.  A success is taken
apart at each bind, so that no proof has to unfold the monad. -/
namespace WindbgMcp.Library

@[simp] theorem isOk_ok {ε α : Type} (value : α) :
    (Except.ok value : Except ε α).isOk = true := rfl

@[simp] theorem isOk_error {ε α : Type} (why : ε) :
    (Except.error why : Except ε α).isOk = false := rfl

theorem bind_eq_ok {ε α β : Type} {first : Except ε α} {next : α → Except ε β} {result : β} :
    first >>= next = .ok result ↔ ∃ value, first = .ok value ∧ next value = .ok result := by
  cases first with
  | error failure => exact ⟨fun same => (by cases same), fun ⟨_, same, _⟩ => (by cases same)⟩
  | ok value => simp [bind, Except.bind]

def insist {ε : Type} (holds : Prop) [Decidable holds] (why : ε) : Except ε Unit :=
  if holds then .ok () else .error why

theorem insist_eq_ok {ε : Type} {holds : Prop} [Decidable holds] {why : ε} {result : Unit} :
    insist holds why = .ok result ↔ holds := by
  unfold insist
  split
  · simp_all
  · simp_all

theorem mapError_eq_ok {ε ε' α : Type} {f : ε → ε'} {first : Except ε α} {result : α} :
    first.mapError f = .ok result ↔ first = .ok result := by
  cases first with
  | error why => simp [Except.mapError]
  | ok value => simp [Except.mapError]

theorem elim_eq_ok {ε α : Type} {found : Option α} {why : ε} {value : α} :
    found.elim (Except.error why) Except.ok = .ok value ↔ found = some value := by
  cases found with
  | none => simp
  | some other => simp

theorem map_eq_ok {ε α β : Type} {f : α → β} {first : Except ε α} {result : β} :
    f <$> first = .ok result ↔ ∃ value, first = .ok value ∧ f value = result := by
  cases first with
  | error why => simp
  | ok value => simp

theorem forM_eq_ok {ε α : Type} {f : α → Except ε Unit} {items : List α} {result : Unit} :
    items.forM f = .ok result ↔ ∀ item ∈ items, f item = .ok () := by
  induction items with
  | nil => exact iff_of_true rfl (List.forall_mem_nil _)
  | cons item items ih =>
    change (f item >>= fun _ => items.forM f) = .ok result ↔ _
    rw [bind_eq_ok, List.forall_mem_cons, ← ih]
    exact exists_and_right.trans (and_congr_left fun _ => ⟨fun ⟨(), h⟩ => h, fun h => ⟨(), h⟩⟩)

theorem mapM_eq_ok {ε α β : Type} {f : α → Except ε β} {items : List α} {results : List β}
    (h : items.mapM f = .ok results) :
    List.Forall₂ (fun item result => f item = .ok result) items results := by
  induction items generalizing results with
  | nil =>
    cases h
    exact .nil
  | cons item items ih =>
    rw [List.mapM_cons] at h
    simp only [bind_eq_ok] at h
    obtain ⟨result, hitem, rest, hrest, h⟩ := h
    cases h
    exact .cons hitem (ih hrest)

theorem toOption_eq_some {ε α : Type} {result : Except ε α} {value : α} :
    result.toOption = some value ↔ result = .ok value := by
  cases result with
  | error why => simp [Except.toOption]
  | ok other => simp [Except.toOption]

abbrev Fallible (σ : Type) := ExceptT String (StateM σ)

namespace Fallible

variable {σ α β : Type} {state after : σ}

def result (action : Fallible σ α) (state : σ) : Except String α × σ := action.run.run state

@[simp] theorem result_pure (value : α) :
    result (pure value : Fallible σ α) state = (.ok value, state) := rfl

@[simp] theorem result_throw (error : String) :
    result (throw error : Fallible σ α) state = (.error error, state) := rfl

@[simp] theorem result_get : result (get : Fallible σ σ) state = (.ok state, state) := rfl

@[simp] theorem result_set (other : σ) :
    result (set other : Fallible σ PUnit) state = (.ok ⟨⟩, other) := rfl

@[simp] theorem result_modify (f : σ → σ) :
    result (modify f : Fallible σ PUnit) state = (.ok ⟨⟩, f state) := rfl

theorem result_bind (action : Fallible σ α) (next : α → Fallible σ β) :
    result (action >>= next) state =
      match result action state with
      | (.ok value, middle) => result (next value) middle
      | (.error error, middle) => (.error error, middle) := by
  change (let outcome := action state; ExceptT.bindCont next outcome.1 outcome.2) =
    match action state with
    | (.ok value, middle) => result (next value) middle
    | (.error error, middle) => (.error error, middle)
  rcases action state with ⟨outcome, middle⟩
  cases outcome with
  | error error => rfl
  | ok value => rfl

theorem bind_ok {action : Fallible σ α} {next : α → Fallible σ β} {value : β}
    (h : result (action >>= next) state = (.ok value, after)) :
    ∃ first middle, result action state = (.ok first, middle) ∧
      result (next first) middle = (.ok value, after) := by
  rw [result_bind] at h
  rcases haction : result action state with ⟨outcome, middle⟩
  rw [haction] at h
  cases outcome with
  | error error => cases h
  | ok first => exact ⟨first, middle, rfl, h⟩

theorem result_tryCatch (action : Fallible σ α) (handler : String → Fallible σ α) :
    result (tryCatch action handler) state =
      match result action state with
      | (.ok value, middle) => (.ok value, middle)
      | (.error error, middle) => result (handler error) middle := by
  simp only [result, ExceptT.run, StateT.run, tryCatch, tryCatchThe, MonadExceptOf.tryCatch,
    ExceptT.tryCatch, ExceptT.mk, bind, StateT.bind, pure]
  rcases action state with ⟨outcome, middle⟩
  cases outcome with
  | error error => rfl
  | ok value => rfl

theorem guard_ok {fails : Prop} [Decidable fails] {error : String} {next : α → Fallible σ β}
    {action : Fallible σ β} {value : β}
    (h : result (if fails then throw error >>= next else action) state = (.ok value, after)) :
    ¬ fails ∧ result action state = (.ok value, after) := by
  by_cases hfails : fails
  · rw [if_pos hfails, result_bind, result_throw] at h
    cases h
  · rw [if_neg hfails] at h
    exact ⟨hfails, h⟩

theorem lift_ok {check : Except String α} {value : α}
    (h : result (liftM check : Fallible σ α) state = (.ok value, after)) :
    check = .ok value ∧ after = state := by
  cases check with
  | error error => cases h
  | ok found =>
    cases h
    exact ⟨rfl, rfl⟩

theorem elim_ok {found : Option α} {error : String} {value : α}
    (h : result (found.elim (throw error) pure : Fallible σ α) state = (.ok value, after)) :
    found = some value ∧ after = state := by
  cases found with
  | none => cases h
  | some other =>
    cases h
    exact ⟨rfl, rfl⟩

/-! ### What every success leaves alone -/

section Keeps

variable {γ : Type} {view : σ → γ}

/-- Every success leaves what `view` shows of the state as it was. -/
def Keeps (view : σ → γ) (action : Fallible σ α) : Prop :=
  ∀ state value after, result action state = (.ok value, after) → view after = view state

theorem Keeps.bind {action : Fallible σ α} {next : α → Fallible σ β} (h : Keeps view action)
    (hnext : ∀ value, Keeps view (next value)) : Keeps view (action >>= next) := by
  intro state value after hrun
  obtain ⟨first, middle, hfirst, hrest⟩ := bind_ok hrun
  rw [hnext first middle value after hrest, h state first middle hfirst]

theorem keeps_pure (value : α) : Keeps view (pure value : Fallible σ α) := by
  intro state other after h
  cases h
  rfl

theorem keeps_lift (check : Except String α) : Keeps view (liftM check : Fallible σ α) := by
  intro state value after h
  rw [(lift_ok h).2]

theorem keeps_forM {step : α → Fallible σ PUnit} {items : List α}
    (h : ∀ item ∈ items, Keeps view (step item)) : Keeps view (items.forM step) := by
  induction items with
  | nil => exact keeps_pure _
  | cons item items ih =>
    obtain ⟨hitem, hitems⟩ := List.forall_mem_cons.mp h
    exact hitem.bind fun _ => ih hitems

end Keeps

/-! ### What every outcome leaves alone -/

section Preserves

variable {γ : Type} {view : σ → γ}

/-- Success or failure, what `view` shows of the state stays as it was. -/
def Preserves (view : σ → γ) (action : Fallible σ α) : Prop :=
  ∀ state, view (result action state).2 = view state

theorem preserves_pure (value : α) : Preserves view (pure value : Fallible σ α) := fun _ => rfl

theorem preserves_throw (error : String) : Preserves view (throw error : Fallible σ α) :=
  fun _ => rfl

theorem preserves_lift (check : Except String α) : Preserves view (liftM check : Fallible σ α) := by
  intro state
  cases check with
  | error error => rfl
  | ok value => rfl

theorem Preserves.bind {action : Fallible σ α} {next : α → Fallible σ β}
    (h : Preserves view action) (hnext : ∀ value, Preserves view (next value)) :
    Preserves view (action >>= next) := by
  intro state
  have hfirst := h state
  rw [result_bind]
  rcases hrun : result action state with ⟨outcome, middle⟩
  rw [hrun] at hfirst
  cases outcome with
  | error error => exact hfirst
  | ok value => exact (hnext value middle).trans hfirst

theorem preserves_mapM {step : α → Fallible σ β} (h : ∀ item, Preserves view (step item))
    (items : List α) : Preserves view (items.mapM step) := by
  induction items with
  | nil => exact preserves_pure _
  | cons item items ih =>
    rw [List.mapM_cons]
    exact (h item).bind fun _ => ih.bind fun _ => preserves_pure _

end Preserves

/-- What holds of every success of a step holds of all the results of a list of them. -/
theorem mapM_ok {step : α → Fallible σ β} {property : α → β → Prop}
    (hstep : ∀ item state value after, result (step item) state = (.ok value, after) →
      property item value)
    {items : List α} {values : List β}
    (h : result (items.mapM step) state = (.ok values, after)) :
    List.Forall₂ property items values := by
  induction items generalizing state values after with
  | nil =>
    rw [List.mapM_nil, result_pure, Prod.mk.injEq] at h
    cases h.1
    exact .nil
  | cons item items ih =>
    rw [List.mapM_cons] at h
    obtain ⟨first, middle, hfirst, h⟩ := bind_ok h
    obtain ⟨rest, last, hrest, h⟩ := bind_ok h
    rw [result_pure, Prod.mk.injEq] at h
    cases h.1
    exact .cons (hstep item _ _ _ hfirst) (ih hrest)

end Fallible

end WindbgMcp.Library
