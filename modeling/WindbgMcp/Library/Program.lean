import Mathlib.Data.List.Basic

/-! Programs that put queries to an outside party and may unwind.  A run of a
program is a trace of answered queries with the result they lead to; quantifying
over runs is quantifying over everything the other party can do. -/
namespace WindbgMcp.Library

inductive Program (Query : Type) (Answer : Query → Type) (ε α : Type) : Type where
  | done (value : α)
  | unwind (payload : ε)
  | ask (query : Query) (next : Answer query → Program Query Answer ε α)

structure Event {Query : Type} (Answer : Query → Type) where
  query : Query
  answer : Answer query

instance {Query : Type} {Answer : Query → Type} [DecidableEq Query]
    [∀ query, DecidableEq (Answer query)] : DecidableEq (Event Answer) :=
  fun ⟨query, answer⟩ ⟨query', answer'⟩ =>
    if h : query = query' then
      decidable_of_iff (h ▸ answer = answer') (by subst h; simp)
    else isFalse fun heq => h (congrArg Event.query heq)

namespace Program

variable {Query : Type} {Answer : Query → Type} {ε α β σ ι : Type}

def bind : Program Query Answer ε α → (α → Program Query Answer ε β) → Program Query Answer ε β
  | .done value, next => next value
  | .unwind payload, _ => .unwind payload
  | .ask query continuation, next => .ask query fun answer => (continuation answer).bind next

instance : Monad (Program Query Answer ε) where
  pure := .done
  bind := bind

def catchUnwind : Program Query Answer ε α → Program Query Answer ε (Except ε α)
  | .done value => .done (.ok value)
  | .unwind payload => .done (.error payload)
  | .ask query next => .ask query fun answer => (next answer).catchUnwind

@[simp] theorem pure_eq (value : α) :
    (pure value : Program Query Answer ε α) = .done value := rfl

@[simp] theorem done_bind (value : α) (next : α → Program Query Answer ε β) :
    (Program.done value >>= next) = next value := rfl

@[simp] theorem unwind_bind (payload : ε) (next : α → Program Query Answer ε β) :
    (Program.unwind payload >>= next) = .unwind payload := rfl

@[simp] theorem ask_bind (asked : Query) (continuation : Answer asked → Program Query Answer ε α)
    (next : α → Program Query Answer ε β) :
    (Program.ask asked continuation >>= next) =
      .ask asked fun answer => continuation answer >>= next := rfl

theorem bind_assoc {γ : Type} (program : Program Query Answer ε α)
    (next : α → Program Query Answer ε β) (last : β → Program Query Answer ε γ) :
    (program >>= next) >>= last = program >>= fun value => next value >>= last := by
  induction program with
  | done value => rfl
  | unwind payload => rfl
  | ask asked continuation ih =>
    simp only [ask_bind]
    congr 1
    funext answer
    exact ih answer

/-! ## Runs -/

inductive Runs : Program Query Answer ε α → List (Event Answer) → Except ε α → Prop where
  | done (value : α) : Runs (.done value) [] (.ok value)
  | unwind (payload : ε) : Runs (.unwind payload) [] (.error payload)
  | ask {asked : Query} {next : Answer asked → Program Query Answer ε α}
      {trace : List (Event Answer)} {result : Except ε α} (answer : Answer asked)
      (h : Runs (next answer) trace result) :
      Runs (.ask asked next) (⟨asked, answer⟩ :: trace) result

section

variable {trace : List (Event Answer)}

@[simp] theorem runs_done_iff {value : α} {result : Except ε α} :
    Runs (Program.done value : Program Query Answer ε α) trace result ↔
      trace = [] ∧ result = .ok value := by
  constructor
  · intro h
    cases h
    exact ⟨rfl, rfl⟩
  · rintro ⟨rfl, rfl⟩
    exact .done value

@[simp] theorem runs_unwind_iff {payload : ε} {result : Except ε α} :
    Runs (Program.unwind payload : Program Query Answer ε α) trace result ↔
      trace = [] ∧ result = .error payload := by
  constructor
  · intro h
    cases h
    exact ⟨rfl, rfl⟩
  · rintro ⟨rfl, rfl⟩
    exact .unwind payload

@[simp] theorem runs_ask_iff {asked : Query} {next : Answer asked → Program Query Answer ε α}
    {result : Except ε α} :
    Runs (.ask asked next) trace result ↔
      ∃ answer rest, trace = ⟨asked, answer⟩ :: rest ∧ Runs (next answer) rest result := by
  constructor
  · intro h
    cases h with
    | ask answer hnext => exact ⟨answer, _, rfl, hnext⟩
  · rintro ⟨answer, rest, rfl, hnext⟩
    exact .ask answer hnext

theorem runs_bind_iff {program : Program Query Answer ε α}
    {next : α → Program Query Answer ε β} {result : Except ε β} :
    Runs (program >>= next) trace result ↔
      (∃ payload, result = .error payload ∧ Runs program trace (.error payload)) ∨
        ∃ value front back, trace = front ++ back ∧ Runs program front (.ok value) ∧
          Runs (next value) back result := by
  induction program generalizing trace with
  | done value =>
    simp only [done_bind, runs_done_iff, reduceCtorEq, and_false, exists_false, false_or,
      Except.ok.injEq]
    constructor
    · intro h
      exact ⟨value, [], trace, rfl, ⟨rfl, rfl⟩, h⟩
    · rintro ⟨_, front, back, rfl, ⟨rfl, rfl⟩, h⟩
      exact h
  | unwind payload =>
    simp only [unwind_bind, runs_unwind_iff, reduceCtorEq, and_false, false_and, exists_false,
      or_false, Except.error.injEq]
    constructor
    · rintro ⟨rfl, rfl⟩
      exact ⟨payload, rfl, rfl, rfl⟩
    · rintro ⟨_, rfl, rfl, rfl⟩
      exact ⟨rfl, rfl⟩
  | ask asked continuation ih =>
    simp only [ask_bind, runs_ask_iff, ih]
    constructor
    · rintro ⟨answer, rest, rfl, ⟨payload, rfl, h⟩ | ⟨value, front, back, rfl, hfirst, hnext⟩⟩
      · exact Or.inl ⟨payload, rfl, answer, rest, rfl, h⟩
      · exact Or.inr ⟨value, ⟨asked, answer⟩ :: front, back, rfl, ⟨answer, front, rfl, hfirst⟩,
          hnext⟩
    · rintro (⟨payload, rfl, answer, rest, rfl, h⟩ |
        ⟨value, _, back, rfl, ⟨answer, rest, rfl, hfirst⟩, hnext⟩)
      · exact ⟨answer, rest, rfl, Or.inl ⟨payload, rfl, h⟩⟩
      · exact ⟨answer, rest ++ back, rfl, Or.inr ⟨value, rest, back, rfl, hfirst, hnext⟩⟩

theorem runs_bind_returns {program : Program Query Answer ε α}
    {next : α → Program Query Answer ε β} {result : Except ε β}
    {returns : α → List (Event Answer) → Prop}
    (h : Runs (program >>= next) trace result)
    (hfirst : ∀ front first, Runs program front first →
      ∃ value, first = .ok value ∧ returns value front) :
    ∃ value front back, trace = front ++ back ∧ returns value front ∧
      Runs (next value) back result := by
  rcases runs_bind_iff.mp h with ⟨payload, -, hprogram⟩ | ⟨value, front, back, heq, hprogram, hnext⟩
  · obtain ⟨_, hvalue, -⟩ := hfirst _ _ hprogram
    cases hvalue
  · obtain ⟨_, hvalue, hreturns⟩ := hfirst _ _ hprogram
    cases hvalue
    exact ⟨value, front, back, heq, hreturns, hnext⟩

end

/-! ## What holds on every path -/

/-- Every query asked satisfies `asks`, every value returned `returns`, and every
payload unwound with `unwinds`. -/
def Ensures (asks : Query → Prop) (returns : α → Prop) (unwinds : ε → Prop) :
    Program Query Answer ε α → Prop
  | .done value => returns value
  | .unwind payload => unwinds payload
  | .ask asked next => asks asked ∧ ∀ answer, Ensures asks returns unwinds (next answer)

section

variable {asks : Query → Prop} {returns : α → Prop} {unwinds : ε → Prop}

theorem Ensures.bind {first : β → Prop} {program : Program Query Answer ε β}
    {next : β → Program Query Answer ε α} (h : Ensures asks first unwinds program)
    (hnext : ∀ value, first value → Ensures asks returns unwinds (next value)) :
    Ensures asks returns unwinds (program >>= next) := by
  induction program with
  | done value => exact hnext value h
  | unwind payload => exact h
  | ask asked continuation ih => exact ⟨h.1, fun answer => ih answer (h.2 answer)⟩

theorem Ensures.mono {asks' : Query → Prop} {returns' : α → Prop} {unwinds' : ε → Prop}
    {program : Program Query Answer ε α} (h : Ensures asks returns unwinds program)
    (hasks : ∀ asked, asks asked → asks' asked) (hreturns : ∀ value, returns value → returns' value)
    (hunwinds : ∀ payload, unwinds payload → unwinds' payload) :
    Ensures asks' returns' unwinds' program := by
  induction program with
  | done value => exact hreturns value h
  | unwind payload => exact hunwinds payload h
  | ask asked continuation ih => exact ⟨hasks asked h.1, fun answer => ih answer (h.2 answer)⟩

theorem Ensures.of_runs {program : Program Query Answer ε α} {trace : List (Event Answer)}
    {result : Except ε α} (h : Ensures asks returns unwinds program)
    (hruns : Runs program trace result) :
    (∀ event ∈ trace, asks event.query) ∧ (∀ value, result = .ok value → returns value) ∧
      (∀ payload, result = .error payload → unwinds payload) := by
  induction hruns with
  | done value =>
    refine ⟨by simp, ?_, by simp⟩
    intro other hother
    obtain rfl := Except.ok.inj hother
    exact h
  | unwind payload =>
    refine ⟨by simp, by simp, ?_⟩
    intro other hother
    obtain rfl := Except.error.inj hother
    exact h
  | ask answer _ ih =>
    obtain ⟨hevents, hvalue, hpayload⟩ := ih (h.2 answer)
    refine ⟨?_, hvalue, hpayload⟩
    intro event hevent
    rcases List.mem_cons.mp hevent with rfl | hevent
    · exact h.1
    · exact hevents event hevent

end

/-! ## Loops -/

def forEach (body : Nat → ι → σ → Program Query Answer ε σ) :
    Nat → List ι → σ → Program Query Answer ε σ
  | _, [], state => .done state
  | index, item :: items, state => do
    let next ← body index item state
    forEach body (index + 1) items next

theorem Ensures.forEach {asks : Query → Prop} {unwinds : ε → Prop}
    {body : Nat → ι → σ → Program Query Answer ε σ}
    (hbody : ∀ index item state, Ensures asks (fun _ => True) unwinds (body index item state))
    (index : Nat) (items : List ι) (state : σ) :
    Ensures asks (fun _ => True) unwinds (forEach body index items state) := by
  induction items generalizing index state with
  | nil => exact trivial
  | cons item items ih => exact (hbody index item state).bind fun next _ => ih (index + 1) next

/-- The loop rule.  `invariant` speaks of the index, the state and the whole trace
so far; `escape` of the trace with which the body unwinds. -/
theorem runs_forEach {body : Nat → ι → σ → Program Query Answer ε σ}
    (invariant : Nat → σ → List (Event Answer) → Prop)
    (escape : List (Event Answer) → Prop) {items : List ι}
    (hstep : ∀ index item state before trace result, items[index]? = some item →
      invariant index state before → Runs (body index item state) trace result →
      (∀ next, result = .ok next → invariant (index + 1) next (before ++ trace)) ∧
        (∀ payload, result = .error payload → escape (before ++ trace)))
    {state : σ} (before : List (Event Answer)) {trace : List (Event Answer)}
    {result : Except ε σ} (hstart : invariant 0 state before)
    (hruns : Runs (forEach body 0 items state) trace result) :
    (∀ last, result = .ok last → invariant items.length last (before ++ trace)) ∧
      (∀ payload, result = .error payload → escape (before ++ trace)) := by
  -- the items behind the index are what is left of the list
  suffices hgeneral : ∀ (left done : List ι) (state : σ) (before trace : List (Event Answer)),
      items = done ++ left → invariant done.length state before →
      Runs (forEach body done.length left state) trace result →
      (∀ last, result = .ok last → invariant items.length last (before ++ trace)) ∧
        (∀ payload, result = .error payload → escape (before ++ trace)) from
    hgeneral items [] state before trace rfl hstart hruns
  intro left
  induction left with
  | nil =>
    rintro done state before trace hitems hinvariant hruns
    rw [List.append_nil] at hitems
    subst hitems
    simp only [forEach, runs_done_iff] at hruns
    obtain ⟨rfl, rfl⟩ := hruns
    refine ⟨?_, ?_⟩
    · intro last hlast
      obtain rfl := Except.ok.inj hlast
      rw [List.append_nil]
      exact hinvariant
    · intro payload hpayload
      cases hpayload
  | cons item left ih =>
    rintro done state before trace hitems hinvariant hruns
    have hitem : items[done.length]? = some item := by simp [hitems]
    simp only [forEach, runs_bind_iff] at hruns
    rcases hruns with ⟨payload, rfl, hbody⟩ | ⟨next, front, back, rfl, hbody, hrest⟩
    · exact ⟨by simp, (hstep _ item state before trace _ hitem hinvariant hbody).2⟩
    · have hnext := (hstep _ item state before front _ hitem hinvariant hbody).1 next rfl
      have hdone : items = (done ++ [item]) ++ left := by simp [hitems]
      have hcount : (done ++ [item]).length = done.length + 1 := by simp
      rw [← hcount] at hnext hrest
      rw [← List.append_assoc]
      exact ih (done ++ [item]) next (before ++ front) back hdone hnext hrest

/-- The body again and again until it returns a value.  A turn that does not lower
the state would let the loop run on; it unwinds with `stuck` instead, which a proof
about the body rules out. -/
def loop (below : σ → σ → Prop) [DecidableRel below] (wf : WellFounded below) (stuck : ε)
    (body : σ → Program Query Answer ε (σ ⊕ α)) (state : σ) : Program Query Answer ε α := do
  match ← body state with
  | .inr value => .done value
  | .inl next =>
    if _h : below next state then loop below wf stuck body next
    else .unwind stuck
termination_by wf.wrap state

/-- The rule for such loops: a body that keeps the invariant, lowers the state and
does not unwind makes the loop return. -/
theorem runs_loop {below : σ → σ → Prop} [DecidableRel below] {wf : WellFounded below} {stuck : ε}
    {body : σ → Program Query Answer ε (σ ⊕ α)}
    (invariant : σ → List (Event Answer) → Prop) (returns : α → List (Event Answer) → Prop)
    (hstep : ∀ state before trace result, invariant state before →
      Runs (body state) trace result → ∃ outcome, result = .ok outcome ∧
        (∀ next, outcome = .inl next → below next state ∧ invariant next (before ++ trace)) ∧
        (∀ value, outcome = .inr value → returns value (before ++ trace)))
    {state : σ} (before : List (Event Answer)) {trace : List (Event Answer)}
    {result : Except ε α} (hstart : invariant state before)
    (hruns : Runs (loop below wf stuck body state) trace result) :
    ∃ value, result = .ok value ∧ returns value (before ++ trace) := by
  induction state using wf.induction generalizing before trace with
  | _ state ih =>
    rw [loop, runs_bind_iff] at hruns
    rcases hruns with ⟨payload, rfl, hbody⟩ | ⟨outcome, front, back, rfl, hbody, hrest⟩
    · obtain ⟨_, hresult, -⟩ := hstep state before trace _ hstart hbody
      cases hresult
    · obtain ⟨_, hresult, hnext, hvalue⟩ := hstep state before front _ hstart hbody
      obtain rfl := Except.ok.inj hresult
      cases outcome with
      | inr value =>
        obtain ⟨rfl, rfl⟩ := runs_done_iff.mp hrest
        rw [List.append_nil]
        exact ⟨value, rfl, hvalue value rfl⟩
      | inl next =>
        obtain ⟨hbelow, hinvariant⟩ := hnext next rfl
        simp only [hbelow, dite_true] at hrest
        obtain ⟨value, hresult, hreturns⟩ := ih next hbelow (before ++ front) hinvariant hrest
        refine ⟨value, hresult, ?_⟩
        rw [← List.append_assoc]
        exact hreturns

/-! ## Executing against a host -/

structure Execution (Answer : Query → Type) (ε α σ : Type) where
  result : Except ε α
  trace : List (Event Answer)
  state : σ

variable (host : σ → (asked : Query) → Answer asked × σ)

def execute : σ → Program Query Answer ε α → Execution Answer ε α σ
  | state, .done value => ⟨.ok value, [], state⟩
  | state, .unwind payload => ⟨.error payload, [], state⟩
  | state, .ask asked next =>
    let answered := host state asked
    let rest := execute answered.2 (next answered.1)
    { rest with trace := ⟨asked, answered.1⟩ :: rest.trace }

theorem runs_execute (state : σ) (program : Program Query Answer ε α) :
    Runs program (execute host state program).trace (execute host state program).result := by
  induction program generalizing state with
  | done value => exact .done value
  | unwind payload => exact .unwind payload
  | ask asked next ih => exact .ask _ (ih _ _)

theorem execute_forall {holds : Event Answer → Prop}
    (hhost : ∀ state asked, holds ⟨asked, (host state asked).1⟩) (state : σ)
    (program : Program Query Answer ε α) :
    ∀ event ∈ (execute host state program).trace, holds event := by
  induction program generalizing state with
  | done value => simp [execute]
  | unwind payload => simp [execute]
  | ask asked next ih => exact List.forall_mem_cons.mpr ⟨hhost state asked, ih _ _⟩

theorem execute_bind {state : σ} {program : Program Query Answer ε α}
    (next : α → Program Query Answer ε β) {value : α}
    (h : (execute host state program).result = .ok value) :
    execute host state (program >>= next) =
      let rest := execute host (execute host state program).state (next value)
      { rest with trace := (execute host state program).trace ++ rest.trace } := by
  induction program generalizing state with
  | done other =>
    obtain rfl := Except.ok.inj h
    rfl
  | unwind payload => cases h
  | ask asked continuation ih =>
    rw [ask_bind, execute, ih _ h]
    rfl

theorem execute_bind_ok {state : σ} {program : Program Query Answer ε α}
    (next : α → Program Query Answer ε β) {value : α}
    (h : (execute host state program).result = .ok value) :
    (execute host state (program >>= next)).result =
      (execute host (execute host state program).state (next value)).result := by
  rw [execute_bind host next h]

section

variable {τ : Type} {below : τ → τ → Prop} [DecidableRel below] {wf : WellFounded below}
  {stuck : ε} {body : τ → Program Query Answer ε (τ ⊕ α)} {state : σ} {turn : τ}

theorem execute_loop_of_value {value : α}
    (h : (execute host state (body turn)).result = .ok (.inr value)) :
    execute host state (loop below wf stuck body turn) =
      ⟨.ok value, (execute host state (body turn)).trace, (execute host state (body turn)).state⟩ := by
  rw [loop, execute_bind host _ h]
  simp only [execute, List.append_nil]

theorem execute_loop_of_next {next : τ}
    (h : (execute host state (body turn)).result = .ok (.inl next)) (hbelow : below next turn) :
    execute host state (loop below wf stuck body turn) =
      let rest := execute host (execute host state (body turn)).state (loop below wf stuck body next)
      { rest with trace := (execute host state (body turn)).trace ++ rest.trace } := by
  rw [loop, execute_bind host _ h]
  simp only [hbelow, dite_true]

theorem execute_loop_done {value : α}
    (h : (execute host state (body turn)).result = .ok (.inr value)) :
    (execute host state (loop below wf stuck body turn)).result = .ok value := by
  rw [execute_loop_of_value host h]

theorem execute_loop_next {next : τ}
    (h : (execute host state (body turn)).result = .ok (.inl next)) (hbelow : below next turn) :
    (execute host state (loop below wf stuck body turn)).result =
      (execute host (execute host state (body turn)).state
        (loop below wf stuck body next)).result := by
  rw [execute_loop_of_next host h hbelow]

theorem execute_loop_done_trace {value : α}
    (h : (execute host state (body turn)).result = .ok (.inr value)) :
    (execute host state (loop below wf stuck body turn)).trace =
      (execute host state (body turn)).trace := by
  rw [execute_loop_of_value host h]

theorem execute_loop_next_trace {next : τ}
    (h : (execute host state (body turn)).result = .ok (.inl next)) (hbelow : below next turn) :
    (execute host state (loop below wf stuck body turn)).trace =
      (execute host state (body turn)).trace ++
        (execute host (execute host state (body turn)).state
          (loop below wf stuck body next)).trace := by
  rw [execute_loop_of_next host h hbelow]

end

section Turns
variable {τ : Type}

def turns (below : τ → τ → Prop) [DecidableRel below] (wf : WellFounded below)
    (body : τ → Program Query Answer ε (τ ⊕ α)) (state : σ) (turn : τ) : List (σ × τ) :=
  (state, turn) ::
    match (execute host state (body turn)).result with
    | .ok (.inl next) =>
      if _h : below next turn then
        turns below wf body (execute host state (body turn)).state next
      else []
    | _ => []
termination_by wf.wrap turn

variable {below : τ → τ → Prop} [DecidableRel below] {wf : WellFounded below} {stuck : ε}
  {body : τ → Program Query Answer ε (τ ⊕ α)}

/-- The rule for a loop against a host whose body does not unwind and lowers the state: what
holds of the last turn, and of a turn before others if of those, holds of all the turns. -/
theorem execute_loop_rule
    (motive : σ → τ → Execution Answer ε α σ → List (σ × τ) → Prop)
    (hreturns : ∀ state turn, ∃ outcome, (execute host state (body turn)).result = .ok outcome ∧
      ∀ next, outcome = .inl next → below next turn)
    (hdone : ∀ state turn value, (execute host state (body turn)).result = .ok (.inr value) →
      motive state turn ⟨.ok value, (execute host state (body turn)).trace,
        (execute host state (body turn)).state⟩ [(state, turn)])
    (hnext : ∀ state turn next, (execute host state (body turn)).result = .ok (.inl next) →
      let after := (execute host state (body turn)).state
      let rest := execute host after (loop below wf stuck body next)
      motive after next rest (turns host below wf body after next) →
      motive state turn { rest with trace := (execute host state (body turn)).trace ++ rest.trace }
        ((state, turn) :: turns host below wf body after next))
    (state : σ) (turn : τ) :
    motive state turn (execute host state (loop below wf stuck body turn))
      (turns host below wf body state turn) := by
  induction turn using wf.induction generalizing state with
  | _ turn ih =>
    obtain ⟨outcome, hresult, hbelow⟩ := hreturns state turn
    rw [turns, hresult]
    cases outcome with
    | inr value =>
      rw [execute_loop_of_value host hresult]
      exact hdone state turn value hresult
    | inl next =>
      have hlower := hbelow next rfl
      rw [execute_loop_of_next host hresult hlower]
      simp only [hlower, dite_true]
      exact hnext state turn next hresult (ih next hlower _)

end Turns

/-- A relation that the host keeps between what is observed of its state before
and after a query, over a whole trace. -/
inductive Observed {τ : Type} (step : τ → Event Answer → τ → Prop) :
    τ → List (Event Answer) → τ → Prop where
  | nil (view : τ) : Observed step view [] view
  | cons {view next last : τ} {event : Event Answer} {trace : List (Event Answer)}
      (hstep : step view event next) (hrest : Observed step next trace last) :
      Observed step view (event :: trace) last

section

variable {τ : Type} {step : τ → Event Answer → τ → Prop} {view last : τ}

@[simp] theorem observed_nil_iff : Observed step view [] last ↔ last = view := by
  constructor
  · intro h
    cases h
    rfl
  · rintro rfl
    exact .nil last

@[simp] theorem observed_cons_iff {event : Event Answer} {trace : List (Event Answer)} :
    Observed step view (event :: trace) last ↔
      ∃ next, step view event next ∧ Observed step next trace last := by
  constructor
  · intro h
    cases h with
    | cons hstep hrest => exact ⟨_, hstep, hrest⟩
  · rintro ⟨next, hstep, hrest⟩
    exact .cons hstep hrest

end

theorem observed_append_iff {τ : Type} {step : τ → Event Answer → τ → Prop} {view last : τ}
    {front back : List (Event Answer)} :
    Observed step view (front ++ back) last ↔
      ∃ middle, Observed step view front middle ∧ Observed step middle back last := by
  induction front generalizing view with
  | nil => simp
  | cons event front ih =>
    simp only [List.cons_append, observed_cons_iff, ih]
    constructor
    · rintro ⟨next, hstep, middle, hfront, hback⟩
      exact ⟨middle, ⟨next, hstep, hfront⟩, hback⟩
    · rintro ⟨middle, ⟨next, hstep, hfront⟩, hback⟩
      exact ⟨next, hstep, middle, hfront, hback⟩

theorem observed_execute {τ : Type} {step : τ → Event Answer → τ → Prop} (view : σ → τ)
    (hhost : ∀ state asked,
      step (view state) ⟨asked, (host state asked).1⟩ (view (host state asked).2))
    (state : σ) (program : Program Query Answer ε α) :
    Observed step (view state) (execute host state program).trace
      (view (execute host state program).state) := by
  induction program generalizing state with
  | done value => exact .nil _
  | unwind payload => exact .nil _
  | ask asked next ih => exact .cons (hhost state asked) (ih _ _)

end Program

end WindbgMcp.Library
