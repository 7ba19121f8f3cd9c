import WindbgMcp.Engine.Stops
import Mathlib.Data.List.Induction
import Mathlib.Data.List.Nodup
import Mathlib.Data.List.Perm.Basic

/-! A session has one run at a time, a stop is filed on the run that it answers and stays
as it is, and where a refused start leaves it readable. -/
namespace WindbgMcp.Engine.Stops

open Library

variable {ω ε : Type}

/-- Where the stop of a job comes from: the reply of its worker, or the refusal to queue it. -/
inductive Delivered (events : List (Event ω ε)) (job : Nat) : Except ε ω → Prop where
  | answered {result : Except ε ω} (now : Nat) (h : .file job result now ∈ events) :
      Delivered events job result
  | refused {why : ε} (now : Nat) (h : .submitted job (.error why) now ∈ events) :
      Delivered events job (.error why)

theorem Delivered.mono {events later : List (Event ω ε)} {job : Nat} {result : Except ε ω}
    (h : Delivered events job result) (hsub : events ⊆ later) : Delivered later job result := by
  cases h with
  | answered now h => exact .answered now (hsub h)
  | refused now h => exact .refused now (hsub h)

/-- What every run keeps.  `owed` says which run is running: that of the only job whose stop
is still to be filed. -/
structure Sound (events : List (Event ω ε)) (system : System ω ε) : Prop where
  fresh : ∀ job ∈ system.entered ++ system.runs.map (·.job), job < system.session.nextId
  distinct : (system.entered ++ system.runs.map (·.job)).Nodup
  owed : system.pending =
    (system.session.execution.filter Execution.running).toList.map (·.job)
  past_stopped : ∀ run ∈ system.past, run.stopped ≠ none
  refused_by : ∀ refused ∈ system.refused,
    ∃ now, .submitted refused.1 (.error refused.2) now ∈ events
  delivered : ∀ run ∈ system.runs, ∀ result ∈ run.stopped, Delivered events run.job result

namespace Sound

variable {events : List (Event ω ε)} {system : System ω ε}

theorem initial (nextId now : Nat) : Sound [] (initial ω ε nextId now) where
  fresh := by simp [Stops.initial, System.runs]
  distinct := by simp [Stops.initial, System.runs]
  owed := by simp [Stops.initial, System.pending]
  past_stopped := by simp [Stops.initial]
  refused_by := by simp [Stops.initial]
  delivered := by simp [Stops.initial, System.runs]

theorem slot_of_pending (h : Sound events system) {job : Nat} (hjob : job ∈ system.pending) :
    ∃ execution, system.session.execution = some execution ∧ execution.stopped = none ∧
      execution.job = job ∧ system.pending = [job] := by
  rw [h.owed] at hjob
  cases hslot : system.session.execution.filter Execution.running with
  | none => simp [hslot] at hjob
  | some execution =>
    obtain ⟨hexecution, hrunning⟩ := Option.filter_eq_some_iff.mp hslot
    obtain rfl : job = execution.job := by simpa [hslot] using hjob
    refine ⟨execution, hexecution, Execution.running_iff.mp hrunning, rfl, ?_⟩
    rw [h.owed, hslot]
    rfl

theorem pending_of_stopped (h : Sound events system) {execution : Execution ω ε}
    (hslot : system.session.execution = some execution) (hstopped : execution.stopped ≠ none) :
    system.pending = [] := by
  have hrunning : ¬ execution.running = true := by
    rw [Execution.running_iff]
    exact hstopped
  rw [h.owed, hslot, Option.filter_some, if_neg hrunning]
  rfl

/-- A step that starts no run: which runs there are stays, and what it changes of the run in
the slot is answered for. -/
theorem of_same_jobs {events' : List (Event ω ε)} {system' : System ω ε}
    (h : Sound events system) (hevents : events ⊆ events')
    (hentered : system'.entered = system.entered)
    (hnext : system.session.nextId ≤ system'.session.nextId)
    (hpast : system'.past = system.past)
    (hjobs : system'.session.execution.map (·.job) = system.session.execution.map (·.job))
    (howed : system'.pending =
      (system'.session.execution.filter Execution.running).toList.map (·.job))
    (hrefused : ∀ refused ∈ system'.refused,
      ∃ now, .submitted refused.1 (.error refused.2) now ∈ events')
    (hdelivered : ∀ run ∈ system'.session.execution, ∀ result ∈ run.stopped,
      Delivered events' run.job result) :
    Sound events' system' := by
  have hruns : system'.runs.map (·.job) = system.runs.map (·.job) := by
    have htoList := congrArg Option.toList hjobs
    simp only [Option.toList_map] at htoList
    rw [System.runs, System.runs, List.map_append, List.map_append, hpast, htoList]
  constructor
  case fresh =>
    intro job hjob
    rw [hentered, hruns] at hjob
    exact Nat.lt_of_lt_of_le (h.fresh job hjob) hnext
  case distinct =>
    rw [hentered, hruns]
    exact h.distinct
  case owed => exact howed
  case past_stopped =>
    rw [hpast]
    exact h.past_stopped
  case refused_by => exact hrefused
  case delivered =>
    intro run hrun result hresult
    rw [System.runs, hpast, List.mem_append] at hrun
    cases hrun with
    | inl hpassed =>
      exact (h.delivered run (List.mem_append_left _ hpassed) result hresult).mono hevents
    | inr hslot => exact hdelivered run (Option.mem_toList.mp hslot) result hresult

theorem refused_later (h : Sound events system) (event : Event ω ε) :
    ∀ refused ∈ system.refused,
      ∃ now, .submitted refused.1 (.error refused.2) now ∈ events ++ [event] := by
  intro refused hrefused
  obtain ⟨now, hmem⟩ := h.refused_by refused hrefused
  exact ⟨now, List.mem_append_left _ hmem⟩

theorem delivered_later (h : Sound events system) (event : Event ω ε) {run : Execution ω ε}
    (hrun : run ∈ system.runs) :
    ∀ result ∈ run.stopped, Delivered (events ++ [event]) run.job result := by
  intro result hresult
  exact (h.delivered run hrun result hresult).mono (List.subset_append_left _ _)

theorem mem_runs_of_slot {run : Execution ω ε} (hslot : run ∈ system.session.execution) :
    run ∈ system.runs :=
  List.mem_append_right _ (Option.mem_toList.mpr hslot)

theorem drawn (h : Sound events system) :
    Sound (events ++ [.drawn]) (step system .drawn) := by
  apply h.of_same_jobs
  case hevents => exact List.subset_append_left _ _
  case hentered => rfl
  case hnext => exact Nat.le_succ _
  case hpast => rfl
  case hjobs => rfl
  case howed => exact h.owed
  case hrefused => exact h.refused_later _
  case hdelivered =>
    intro run hrun
    exact h.delivered_later _ (mem_runs_of_slot hrun)

theorem enter (h : Sound events system) :
    Sound (events ++ [.enter]) (step system .enter) := by
  constructor
  case fresh =>
    intro job hjob
    rcases List.mem_cons.mp hjob with rfl | hold
    · exact Nat.lt_succ_self _
    · exact Nat.lt_succ_of_lt (h.fresh job hold)
  case distinct =>
    apply List.nodup_cons.mpr
    constructor
    · intro hmem
      exact Nat.lt_irrefl _ (h.fresh _ hmem)
    · exact h.distinct
  case owed => exact h.owed
  case past_stopped => exact h.past_stopped
  case refused_by => exact h.refused_later _
  case delivered =>
    intro run hrun
    exact h.delivered_later _ hrun

theorem idle (h : Sound events system) (event : Event ω ε) : Sound (events ++ [event]) system := by
  constructor
  case fresh => exact h.fresh
  case distinct => exact h.distinct
  case owed => exact h.owed
  case past_stopped => exact h.past_stopped
  case refused_by => exact h.refused_later event
  case delivered =>
    intro run hrun
    exact h.delivered_later event hrun

/-- A claim takes a slot in which nothing runs, and its job leaves those that entered. -/
theorem claim (h : Sound events system) (execution : Execution ω ε) (now : Nat)
    (hnew : execution.stopped = none) (event : Event ω ε) :
    Sound (events ++ [event]) (system.claim execution now) := by
  unfold System.claim
  split
  case isFalse => exact h.idle event
  case isTrue hclaim =>
    obtain ⟨hentered, hgate⟩ := hclaim
    have hperm := List.perm_cons_erase hentered
    by_cases hslot : ∀ running ∈ system.session.execution, running.stopped ≠ none
    · rw [Session.claimExecution_of_stopped execution now hslot]
      have hpending : system.pending = [] := by
        cases hexecution : system.session.execution with
        | none =>
          rw [h.owed, hexecution]
          rfl
        | some running => exact h.pending_of_stopped hexecution (hslot running hexecution)
      have hjobs : (system.entered ++ system.runs.map (·.job)).Perm
          (system.entered.erase execution.job ++
            (system.runs ++ [execution]).map (·.job)) := by
        rw [List.map_append, ← List.append_assoc, List.map_singleton]
        apply (hperm.append_right _).trans
        exact (List.perm_append_singleton _ _).symm
      constructor
      case fresh =>
        intro job hjob
        exact h.fresh job (hjobs.mem_iff.mpr hjob)
      case distinct => exact hjobs.nodup_iff.mp h.distinct
      case owed =>
        have hothers : system.refused.map (·.1) ++ system.filing = [] := by
          rw [System.pending, Option.isNone_iff_eq_none.mp hgate] at hpending
          exact hpending
        simp [System.pending, List.append_eq_nil_iff.mp hothers, Option.filter_some,
          Execution.running_iff.mpr hnew]
      case past_stopped =>
        intro run hrun
        cases List.mem_append.mp hrun with
        | inl hpassed => exact h.past_stopped run hpassed
        | inr hreplaced => exact hslot run (Option.mem_toList.mp hreplaced)
      case refused_by => exact h.refused_later event
      case delivered =>
        intro run hrun
        cases List.mem_append.mp hrun with
        | inl hheld => exact h.delivered_later event hheld
        | inr hclaimed =>
          obtain rfl : run = execution := by simpa using hclaimed
          rw [hnew]
          nofun
    · push Not at hslot
      obtain ⟨running, hrunning, hgoing⟩ := hslot
      obtain ⟨held, hheld⟩ := Session.claimExecution_of_running execution now hrunning hgoing
      rw [hheld]
      have hsublist : (system.entered.erase execution.job ++ system.runs.map (·.job)).Sublist
          (system.entered ++ system.runs.map (·.job)) :=
        (List.erase_sublist).append_right _
      constructor
      case fresh =>
        intro job hjob
        exact h.fresh job (hsublist.subset hjob)
      case distinct => exact h.distinct.sublist hsublist
      case owed => exact h.owed
      case past_stopped => exact h.past_stopped
      case refused_by => exact h.refused_later event
      case delivered => exact (h.idle event).delivered

/-- The enqueue hands the job of the gate on, to those that await a reply or to those that
were refused. -/
theorem submitted (h : Sound events system) (job : Nat) (answer : Except ε Unit) (now : Nat) :
    Sound (events ++ [.submitted job answer now]) (system.submitted job answer now) := by
  unfold System.submitted
  split
  case isFalse => exact h.idle _
  case isTrue hgate =>
    obtain ⟨claim, hclaim, hjob⟩ : ∃ claim, system.gate = some claim ∧ claim.job = job := by
      simpa [Option.any_eq_true] using hgate
    have hmem : job ∈ system.pending := by simp [System.pending, hclaim, hjob]
    obtain ⟨-, -, -, -, hpending⟩ := h.slot_of_pending hmem
    cases answer with
    | ok =>
      have hothers : system.refused.map (·.1) ++ system.filing = [] := by
        simpa [System.pending, hclaim, hjob] using hpending
      have hsame : system.pending = (system.refused.map (·.1)) ++ (job :: system.filing) := by
        rw [hpending, (List.append_eq_nil_iff.mp hothers).1, (List.append_eq_nil_iff.mp hothers).2]
        rfl
      apply h.of_same_jobs
      case hevents => exact List.subset_append_left _ _
      case hentered => rfl
      case hnext => exact Nat.le_refl _
      case hpast => rfl
      case hjobs => rfl
      case howed => exact hsame.symm.trans h.owed
      case hrefused => exact h.refused_later _
      case hdelivered =>
        intro run hrun
        exact h.delivered_later _ (mem_runs_of_slot hrun)
    | error why =>
      have hsame : system.pending = (job :: system.refused.map (·.1)) ++ system.filing := by
        simp [System.pending, hclaim, hjob]
      apply h.of_same_jobs
      case hevents => exact List.subset_append_left _ _
      case hentered => rfl
      case hnext => exact Nat.le_refl _
      case hpast => rfl
      case hjobs => rfl
      case howed => exact hsame.symm.trans h.owed
      case hrefused =>
        intro refused hrefused
        rcases List.mem_cons.mp hrefused with rfl | hold
        · exact ⟨now, by simp⟩
        · exact h.refused_later _ refused hold
      case hdelivered =>
        intro run hrun
        exact h.delivered_later _ (mem_runs_of_slot hrun)

/-- A stop is filed for a job that is owed one: it lands on the run of that job, and nothing
is owed from then on. -/
theorem finish (h : Sound events system) {job : Nat} (hmem : job ∈ system.pending)
    (result : Except ε ω) (now : Nat) :
    ∃ execution, system.session.execution = some execution ∧ execution.job = job ∧
      (system.session.finishExecution job result now).execution =
        some (execution.finished result now) := by
  obtain ⟨execution, hslot, -, hjob, -⟩ := h.slot_of_pending hmem
  refine ⟨execution, hslot, hjob, ?_⟩
  rw [Session.finishExecution_execution, hslot, Option.map_some, Execution.changed, if_pos hjob]

theorem filed (h : Sound events system) {system' : System ω ε} {job : Nat}
    {result : Except ε ω} {now : Nat} (event : Event ω ε) (hmem : job ∈ system.pending)
    (hdelivered : Delivered (events ++ [event]) job result)
    (hentered : system'.entered = system.entered) (hpast : system'.past = system.past)
    (hsession : system'.session = system.session.finishExecution job result now)
    (hrefused : system'.refused ⊆ system.refused)
    (hpending : system'.pending.length < system.pending.length) :
    Sound (events ++ [event]) system' := by
  obtain ⟨execution, hslot, hjob, hfinished⟩ := h.finish hmem result now
  rw [← hsession] at hfinished
  obtain ⟨-, -, -, -, halone⟩ := h.slot_of_pending hmem
  have hnone : system'.pending = [] := by
    rw [halone, List.length_singleton, Nat.lt_one_iff] at hpending
    exact List.eq_nil_of_length_eq_zero hpending
  apply h.of_same_jobs
  case hevents => exact List.subset_append_left _ _
  case hentered => exact hentered
  case hnext => simp [hsession]
  case hpast => exact hpast
  case hjobs =>
    rw [hfinished, hslot]
    rfl
  case howed =>
    rw [hnone, hfinished]
    rfl
  case hrefused =>
    intro refused hmem'
    exact h.refused_later _ refused (hrefused hmem')
  case hdelivered =>
    intro run hrun given hgiven
    obtain rfl : execution.finished result now = run := by simpa [hfinished] using hrun
    obtain rfl : result = given := by simpa [Execution.finished] using hgiven
    exact hjob ▸ hdelivered

theorem refuse (h : Sound events system) (job now : Nat) :
    Sound (events ++ [.refuse job now]) (system.refuse job now) := by
  unfold System.refuse
  split
  case h_1 => exact h.idle _
  case h_2 refusedJob why hfind =>
    obtain ⟨rfl, hrefused, hmem⟩ := System.pending_of_find hfind
    obtain ⟨when, hevent⟩ := h.refused_later (.refuse refusedJob now) _ hrefused
    apply h.filed
    case hmem => exact hmem
    case hdelivered => exact .refused when hevent
    case hentered => rfl
    case hpast => rfl
    case hsession => rfl
    case hrefused => exact List.filter_subset_self _
    case hpending =>
      have hfewer : (system.refused.filter (·.1 != refusedJob)).length < system.refused.length :=
        List.length_filter_lt_length_iff_exists.mpr ⟨_, hrefused, by simp⟩
      simpa [System.pending] using hfewer

theorem file (h : Sound events system) (job : Nat) (result : Except ε ω) (now : Nat) :
    Sound (events ++ [.file job result now]) (system.file job result now) := by
  unfold System.file
  split
  case isFalse => exact h.idle _
  case isTrue hfiling =>
    apply h.filed
    case hmem => exact List.mem_append_right _ hfiling
    case hsession => rfl
    case hdelivered => exact .answered now (by simp)
    case hentered => rfl
    case hpast => rfl
    case hrefused => exact List.Subset.refl _
    case hpending =>
      have hfewer : (system.filing.erase job).length < system.filing.length := by
        rw [List.length_erase_of_mem hfiling]
        have := List.length_pos_of_mem hfiling
        omega
      simpa [System.pending] using hfewer

theorem resumed (h : Sound events system) (job now : Nat) :
    Sound (events ++ [.resumed job now]) (step system (.resumed job now)) := by
  have hslot : (step system (.resumed job now)).session.execution =
      system.session.execution.map (Execution.changed job (Execution.resumed now)) :=
    Session.executionMoving_execution _ _ _
  apply h.of_same_jobs
  case hevents => exact List.subset_append_left _ _
  case hentered => rfl
  case hnext => exact Nat.le_refl _
  case hpast => rfl
  case hjobs =>
    rw [hslot, Option.map_map]
    apply Option.map_congr
    intro execution _
    exact Execution.changed_resumed_job job now execution
  case howed =>
    rw [hslot]
    apply h.owed.trans
    cases system.session.execution with
    | none => rfl
    | some execution =>
      cases hstopped : execution.stopped <;>
        simp [Option.filter_some, Execution.running, hstopped]
  case hrefused => exact h.refused_later _
  case hdelivered =>
    intro run hrun
    rw [hslot] at hrun
    obtain ⟨execution, hexecution, rfl⟩ := Option.map_eq_some_iff.mp hrun
    rw [Execution.changed_resumed_job, Execution.changed_resumed_stopped]
    exact h.delivered_later _ (mem_runs_of_slot hexecution)

theorem step (h : Sound events system) (event : Event ω ε) :
    Sound (events ++ [event]) (step system event) := by
  cases event with
  | drawn => exact h.drawn
  | enter => exact h.enter
  | claim job handle command bound now => exact h.claim _ now rfl _
  | submitted job answer now => exact h.submitted job answer now
  | refuse job now => exact h.refuse job now
  | file job result now => exact h.file job result now
  | resumed job now => exact h.resumed job now

end Sound

theorem sound_run (nextId now : Nat) (events : List (Event ω ε)) :
    Sound events (run step (initial ω ε nextId now) events) := by
  induction events using List.reverseRecOn with
  | nil => exact Sound.initial nextId now
  | append_singleton events event ih =>
    rw [run_concat]
    exact ih.step event

/-! ### What a run keeps of what it was -/

/-- A run, seen again: its stop and the start of its clock are what they were. -/
structure Later (run later : Execution ω ε) : Prop where
  job : later.job = run.job
  handle : later.handle = run.handle
  stopped : ∀ result ∈ run.stopped, later.stopped = some result
  moving : ∀ since ∈ run.movingSince, later.movingSince = some since

namespace Later

theorem refl (run : Execution ω ε) : Later run run where
  job := rfl
  handle := rfl
  stopped := fun _ h => h
  moving := fun _ h => h

theorem trans {run later last : Execution ω ε} (h : Later run later) (h' : Later later last) :
    Later run last where
  job := h'.job.trans h.job
  handle := h'.handle.trans h.handle
  stopped := fun result hresult => h'.stopped result (h.stopped result hresult)
  moving := fun since hsince => h'.moving since (h.moving since hsince)

theorem finished {run : Execution ω ε} (h : run.stopped = none) (result : Except ε ω)
    (now : Nat) : Later run (run.finished result now) where
  job := rfl
  handle := rfl
  stopped := by simp [h]
  moving := fun _ h => h

theorem resumed (run : Execution ω ε) (job now : Nat) :
    Later run (Execution.changed job (Execution.resumed now) run) := by
  unfold Execution.changed
  split
  · constructor
    case job => rfl
    case handle => rfl
    case stopped => exact fun _ h => h
    case moving =>
      intro since hsince
      simp [Execution.resumed, Option.mem_def.mp hsince]
  · exact refl run

end Later

def AllLater (runs later : List (Execution ω ε)) : Prop :=
  ∀ run ∈ runs, ∃ run' ∈ later, Later run run'

namespace AllLater

theorem of_subset {runs later : List (Execution ω ε)} (h : runs ⊆ later) : AllLater runs later := by
  intro run hrun
  exact ⟨run, h hrun, .refl run⟩

theorem trans {runs later last : List (Execution ω ε)} (h : AllLater runs later)
    (h' : AllLater later last) : AllLater runs last := by
  intro run hrun
  obtain ⟨next, hnext, hlater⟩ := h run hrun
  obtain ⟨final, hfinal, hlast⟩ := h' next hnext
  exact ⟨final, hfinal, hlater.trans hlast⟩

theorem of_slot {system system' : System ω ε} (hpast : system'.past = system.past)
    (hslot : ∀ run ∈ system.session.execution,
      ∃ run' ∈ system'.session.execution, Later run run') :
    AllLater system.runs system'.runs := by
  intro run hrun
  cases List.mem_append.mp hrun with
  | inl hpassed =>
    refine ⟨run, List.mem_append_left _ ?_, .refl run⟩
    rw [hpast]
    exact hpassed
  | inr hheld =>
    obtain ⟨run', hrun', hlater⟩ := hslot run (Option.mem_toList.mp hheld)
    exact ⟨run', List.mem_append_right _ (Option.mem_toList.mpr hrun'), hlater⟩

theorem of_filed {events : List (Event ω ε)} {system system' : System ω ε} {job : Nat}
    {result : Except ε ω} {now : Nat} (h : Sound events system) (hmem : job ∈ system.pending)
    (hpast : system'.past = system.past)
    (hsession : system'.session = system.session.finishExecution job result now) :
    AllLater system.runs system'.runs := by
  obtain ⟨execution, hslot, hrunning, -⟩ := h.slot_of_pending hmem
  obtain ⟨same, hsame, -, hfinished⟩ := h.finish hmem result now
  obtain rfl : execution = same := by simpa [hslot] using hsame
  apply of_slot hpast
  intro run hrun
  obtain rfl : execution = run := by simpa [hslot] using hrun
  rw [hsession]
  exact ⟨_, hfinished, .finished hrunning result now⟩

theorem step {events : List (Event ω ε)} {system : System ω ε} (h : Sound events system)
    (event : Event ω ε) : AllLater system.runs (step system event).runs := by
  cases event with
  | drawn => exact of_subset (List.Subset.refl _)
  | enter => exact of_subset (List.Subset.refl _)
  | claim job handle command bound now =>
    simp only [Stops.step, System.claim]
    split
    · split
      · exact of_subset (List.Subset.refl _)
      · apply of_subset
        exact List.subset_append_left _ _
    · exact of_subset (List.Subset.refl _)
  | submitted job answer now =>
    simp only [Stops.step, System.submitted]
    split
    · cases answer <;> exact of_subset (List.Subset.refl _)
    · exact of_subset (List.Subset.refl _)
  | refuse job now =>
    simp only [Stops.step, System.refuse]
    split
    · exact of_subset (List.Subset.refl _)
    · next refused why hfind =>
      obtain ⟨rfl, -, hmem⟩ := System.pending_of_find hfind
      exact of_filed h hmem rfl rfl
  | file job result now =>
    simp only [Stops.step, System.file]
    split
    case isTrue hfiling => exact of_filed h (List.mem_append_right _ hfiling) rfl rfl
    case isFalse => exact of_subset (List.Subset.refl _)
  | resumed job now =>
    apply of_slot
    case hpast => rfl
    intro run hrun
    refine ⟨_, ?_, .resumed run job now⟩
    simp only [Stops.step, Session.executionMoved_execution, Session.executionMoving_execution]
    exact Option.mem_map_of_mem _ hrun

end AllLater

theorem allLater_run (nextId now : Nat) (front back : List (Event ω ε)) :
    AllLater (run step (initial ω ε nextId now) front).runs
      (run step (initial ω ε nextId now) (front ++ back)).runs := by
  induction back using List.reverseRecOn with
  | nil =>
    rw [List.append_nil]
    exact .of_subset (List.Subset.refl _)
  | append_singleton back event ih =>
    rw [← List.append_assoc, run_concat]
    exact ih.trans (.step (sound_run nextId now (front ++ back)) event)

/-! ### Refused starts -/

/-- The enqueue that a step refuses, if it refuses one, is that of a start whose claim found
no run in the slot. -/
def RefusedUnclaimed (system : System ω ε) (event : Event ω ε) : Prop :=
  ∀ job why now, event = .submitted job (.error why) now →
    ∀ claim ∈ system.gate, claim.job = job → claim.displaced = none

/-- A run that has stopped is in the slot, or a start has claimed the slot from such a run. -/
inductive Holding (run : Execution ω ε) (system : System ω ε) : Prop where
  | slot (later : Execution ω ε) (hslot : system.session.execution = some later)
      (hlater : Later run later) (hgate : system.gate = none)
  | gate (claim : Claim ω ε) (hgate : system.gate = some claim) (h : claim.displaced ≠ none)

theorem queued_le (system : System ω ε) (event : Event ω ε) :
    system.queued.length ≤ (step system event).queued.length := by
  cases event with
  | drawn => exact Nat.le_refl _
  | enter => exact Nat.le_refl _
  | claim job handle command bound now =>
    simp only [step, System.claim]
    split
    · split <;> exact Nat.le_refl _
    · exact Nat.le_refl _
  | submitted job answer now =>
    simp only [step, System.submitted]
    split
    · cases answer with
      | ok => exact Nat.le_succ _
      | error why => exact Nat.le_refl _
    · exact Nat.le_refl _
  | refuse job now =>
    simp only [step, System.refuse]
    split <;> exact Nat.le_refl _
  | file job result now =>
    simp only [step, System.file]
    split <;> exact Nat.le_refl _
  | resumed job now => exact Nat.le_refl _

theorem queued_le_run (nextId now : Nat) (front back : List (Event ω ε)) :
    (run step (initial ω ε nextId now) front).queued.length ≤
      (run step (initial ω ε nextId now) (front ++ back)).queued.length := by
  induction back using List.reverseRecOn with
  | nil => exact Nat.le_of_eq (by rw [List.append_nil])
  | append_singleton back event ih =>
    rw [← List.append_assoc, run_concat]
    exact Nat.le_trans ih (queued_le _ event)

namespace Holding

variable {execution : Execution ω ε} {events : List (Event ω ε)} {system : System ω ε}

/-- While a stopped run is in the slot no stop is owed, so that only a claim does anything
to it. -/
theorem step_slot (h : Sound events system) {result : Except ε ω}
    (hstopped : execution.stopped = some result) {later : Execution ω ε}
    (hslot : system.session.execution = some later) (hlater : Later execution later)
    (hgate : system.gate = none) (event : Event ω ε) :
    Holding execution (step system event) := by
  have hstop : later.stopped ≠ none := by simp [hlater.stopped result hstopped]
  have hpending := h.pending_of_stopped hslot hstop
  have hsame : Holding execution system := .slot later hslot hlater hgate
  cases event with
  | drawn => exact .slot later hslot hlater hgate
  | enter => exact .slot later hslot hlater hgate
  | claim job handle command bound now =>
    simp only [step, System.claim]
    split
    · rw [Session.claimExecution_of_stopped]
      case h => simpa [hslot] using hstop
      exact .gate _ rfl (by simp [hslot])
    · exact hsame
  | submitted job answer now =>
    simp only [step, System.submitted, hgate]
    exact hsame
  | refuse job now =>
    simp only [step, System.refuse]
    split
    · exact hsame
    · next refused why hfind =>
      have hmem := (System.pending_of_find hfind).2.2
      rw [hpending] at hmem
      cases hmem
  | file job result now =>
    simp only [step, System.file]
    split
    · next hfiling =>
      have hmem : job ∈ system.pending := List.mem_append_right _ hfiling
      rw [hpending] at hmem
      cases hmem
    · exact hsame
  | resumed job now =>
    apply Holding.slot
    case hslot =>
      simp only [step, Session.executionMoved_execution, Session.executionMoving_execution, hslot]
      rfl
    case hlater => exact hlater.trans (.resumed later job now)
    case hgate => exact hgate

/-- A claim over a stopped run ends with its job queued, unless it is refused. -/
theorem step_gate {claim : Claim ω ε} (hgate : system.gate = some claim)
    (hdisplaced : claim.displaced ≠ none) {event : Event ω ε}
    (hunclaimed : RefusedUnclaimed system event) :
    Holding execution (step system event) ∨
      system.queued.length < (step system event).queued.length := by
  have hsame : Holding execution system := .gate claim hgate hdisplaced
  cases event with
  | drawn => exact .inl (.gate claim hgate hdisplaced)
  | enter => exact .inl (.gate claim hgate hdisplaced)
  | claim job handle command bound now =>
    left
    simp only [step, System.claim, hgate, Option.isNone_some, Bool.false_eq_true, and_false,
      ite_false]
    exact hsame
  | submitted job answer now =>
    simp only [step, System.submitted]
    split
    · next hjob =>
      cases answer with
      | ok => exact .inr (Nat.lt_succ_self _)
      | error why =>
        have hsamejob : claim.job = job := by simpa [hgate] using hjob
        exact absurd (hunclaimed job why now rfl claim hgate hsamejob) hdisplaced
    · exact .inl hsame
  | refuse job now =>
    left
    simp only [step, System.refuse]
    split
    · exact hsame
    · exact .gate claim hgate hdisplaced
  | file job result now =>
    left
    simp only [step, System.file]
    split
    · exact .gate claim hgate hdisplaced
    · exact hsame
  | resumed job now => exact .inl (.gate claim hgate hdisplaced)

end Holding

theorem holding_run {nextId now : Nat} {front back : List (Event ω ε)}
    {execution : Execution ω ε} {result : Except ε ω}
    (hslot : (run step (initial ω ε nextId now) front).session.execution = some execution)
    (hstopped : execution.stopped = some result)
    (hunclaimed : ∀ visit ∈ visits step (initial ω ε nextId now) (front ++ back),
      RefusedUnclaimed visit.1 visit.2) :
    Holding execution (run step (initial ω ε nextId now) (front ++ back)) ∨
      (run step (initial ω ε nextId now) front).queued.length <
        (run step (initial ω ε nextId now) (front ++ back)).queued.length := by
  induction back using List.reverseRecOn with
  | nil =>
    rw [List.append_nil]
    left
    have hpending := (sound_run nextId now front).pending_of_stopped hslot (by simp [hstopped])
    apply Holding.slot execution hslot (.refl execution)
    simp only [System.pending, List.append_eq_nil_iff] at hpending
    simpa using hpending.1.1
  | append_singleton back event ih =>
    rw [← List.append_assoc, visits_append] at hunclaimed
    have hbefore := ih fun visit hvisit => hunclaimed visit (List.mem_append_left _ hvisit)
    have hlast := hunclaimed (run step (initial ω ε nextId now) (front ++ back), event)
      (List.mem_append_right _ List.mem_cons_self)
    rw [← List.append_assoc, run_concat]
    have hle := queued_le (run step (initial ω ε nextId now) (front ++ back)) event
    rcases hbefore with (⟨later, hheld, hlater, hgate⟩ | ⟨claim, hgate, hdisplaced⟩) | hqueued
    · left
      exact .step_slot (sound_run nextId now (front ++ back)) hstopped hheld hlater hgate event
    · cases Holding.step_gate hgate hdisplaced hlast with
      | inl hholding => exact .inl hholding
      | inr hmore => exact .inr (Nat.lt_of_le_of_lt (queued_le_run nextId now front back) hmore)
    · right
      exact Nat.lt_of_lt_of_le hqueued hle

structure StopsKept (events : List (Event ω ε)) (system later : System ω ε) : Prop where
  alone : (system.runs.filter Execution.running).length ≤ 1
  distinct : (system.runs.map (·.job)).Nodup
  delivered : ∀ run ∈ system.runs, ∀ result ∈ run.stopped, Delivered events run.job result
  filed : ∀ job ∈ system.filing, ∀ result now, ∃ execution ∈ system.session.execution,
    execution.job = job ∧ (step system (.file job result now)).session.execution =
      some (execution.finished result now)
  kept : AllLater system.runs later.runs

/-- A run that has stopped is read under its handle as long as no job is queued behind it,
whichever starts are refused meanwhile. -/
def Readable (system later : System ω ε) : Prop :=
  ∀ execution ∈ system.session.execution, ∀ result, execution.stopped = some result →
    later.gate = none → later.queued = system.queued → ∀ now,
      ∃ found, later.session.executionBy execution.handle now = some found ∧
        found.job = execution.job ∧ found.running = false ∧ found.stopped = some result

theorem Sound.alone {events : List (Event ω ε)} {system : System ω ε} (h : Sound events system) :
    (system.runs.filter Execution.running).length ≤ 1 := by
  have hpast : system.past.filter Execution.running = [] := by
    rw [List.filter_eq_nil_iff]
    intro run hrun
    rw [Execution.running_iff]
    exact h.past_stopped run hrun
  rw [System.runs, List.filter_append, hpast, List.nil_append]
  apply Nat.le_trans (List.length_filter_le _ _)
  cases system.session.execution <;> simp

theorem Sound.filed_reply {events : List (Event ω ε)} {system : System ω ε}
    (h : Sound events system) {job : Nat} (hjob : job ∈ system.filing) (result : Except ε ω)
    (now : Nat) :
    ∃ execution ∈ system.session.execution, execution.job = job ∧
      (Stops.step system (.file job result now)).session.execution =
        some (execution.finished result now) := by
  obtain ⟨execution, hslot, hsame, hfinished⟩ :=
    h.finish (List.mem_append_right _ hjob) result now
  refine ⟨execution, hslot, hsame, ?_⟩
  simp only [Stops.step, System.file, if_pos hjob]
  exact hfinished

theorem readable_of_holding {nextId now : Nat} {front back : List (Event ω ε)}
    (h : ∀ visit ∈ visits step (initial ω ε nextId now) (front ++ back),
      RefusedUnclaimed visit.1 visit.2) :
    Readable (run step (initial ω ε nextId now) front)
      (run step (initial ω ε nextId now) (front ++ back)) := by
  intro execution hslot result hstopped hgate hqueued now'
  rcases holding_run hslot hstopped h with
    (⟨later, hheld, hlater, -⟩ | ⟨claim, hclaimed, -⟩) | hmore
  · refine ⟨⟨later.job, false, some result, later.hasRunFor now', none⟩, ?_, hlater.job, rfl, rfl⟩
    rw [← hlater.handle]
    exact Session.executionBy_of_stopped now' hheld (hlater.stopped result hstopped)
  · rw [hgate] at hclaimed
    cases hclaimed
  · rw [hqueued] at hmore
    exact absurd hmore (Nat.lt_irrefl _)

/-- In every run of a session, one run at a time and each stop kept on the run that it
answers; and the stop stays readable when no start that took the slot from a stopped run is
refused in its enqueue. -/
theorem stops_kept (nextId now : Nat) (front back : List (Event ω ε)) :
    StopsKept front (run step (initial ω ε nextId now) front)
        (run step (initial ω ε nextId now) (front ++ back)) ∧
      ((∀ visit ∈ visits step (initial ω ε nextId now) (front ++ back),
          RefusedUnclaimed visit.1 visit.2) →
        Readable (run step (initial ω ε nextId now) front)
          (run step (initial ω ε nextId now) (front ++ back))) := by
  have hsound := sound_run nextId now front
  constructor
  · constructor
    case alone => exact hsound.alone
    case distinct => exact hsound.distinct.of_append_right
    case delivered => exact hsound.delivered
    case filed =>
      intro job hjob result now'
      exact hsound.filed_reply hjob result now'
    case kept => exact allLater_run nextId now front back
  · exact readable_of_holding

/-- A run and its stop, and a second start that is refused while the first still runs. -/
theorem stops_kept_refusedClaim :
    Readable (run step (initial String String 1 0)
        [.enter, .enter, .claim 1 "exec-1" "g" 60 0, .submitted 1 (.ok ()) 0,
          .claim 2 "exec-2" "g" 60 1, .file 1 (.ok "breakpoint") 5])
      (run step (initial String String 1 0)
        ([.enter, .enter, .claim 1 "exec-1" "g" 60 0, .submitted 1 (.ok ()) 0,
          .claim 2 "exec-2" "g" 60 1, .file 1 (.ok "breakpoint") 5] ++ [.drawn])) := by
  apply (stops_kept 1 0 _ _).2
  simp [visits, RefusedUnclaimed]

/-- A start that `submit_gated` refuses has taken the slot from the run that stopped. -/
theorem stop_overwritten :
    ¬ ∀ (nextId now : Nat) (front back : List (Event String String)),
      Readable (run step (initial String String nextId now) front)
        (run step (initial String String nextId now) (front ++ back)) := by
  intro h
  obtain ⟨found, hfound, -⟩ := h 1 0
    [.enter, .claim 1 "exec-1" "g" 60 0, .submitted 1 (.ok ()) 0, .file 1 (.ok "breakpoint") 5]
    [.enter, .claim 2 "exec-2" "g" 60 9, .submitted 2 (.error "refused") 9, .refuse 2 9]
    _ rfl (.ok "breakpoint") rfl rfl rfl 9
  have hnone : (run step (initial String String 1 0)
      [.enter, .claim 1 "exec-1" "g" 60 0, .submitted 1 (.ok ()) 0, .file 1 (.ok "breakpoint") 5,
        .enter, .claim 2 "exec-2" "g" 60 9, .submitted 2 (.error "refused") 9,
        .refuse 2 9]).session.executionBy "exec-1" 9 = none := rfl
  exact Option.some_ne_none _ (hfound.symm.trans hnone)

end WindbgMcp.Engine.Stops
