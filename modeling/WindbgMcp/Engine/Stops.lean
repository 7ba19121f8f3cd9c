import WindbgMcp.Engine.Execution
import WindbgMcp.Library.Run

/-! The run that a session holds: who may start one, whose stop it ends at, and what is
left of a stop when the next start is refused. -/
namespace WindbgMcp.Engine.Stops

open Library

variable {ω ε : Type}

structure Held where
  handle : String
  waited : Nat
  moving : Bool
deriving DecidableEq, Repr

structure FoundExecution (ω ε : Type) where
  job : Nat
  running : Bool
  stopped : Option (Except ε ω)
  runningFor : Nat
  breaksIn : Option Nat

structure Session (ω ε : Type) where
  nextId : Nat
  execution : Option (Execution ω ε)
  lastUsed : Nat
  executionChanged : Nat

namespace Session

def executionMoved (session : Session ω ε) : Session ω ε :=
  { session with executionChanged := session.executionChanged + 1 }

def claimExecution (session : Session ω ε) (execution : Execution ω ε) (now : Nat) :
    Except Held (Session ω ε) :=
  match session.execution.filter Execution.running with
  | some running => .error
      { handle := running.handle
        waited := if running.moving then running.hasRunFor now else now - running.started
        moving := running.moving }
  | none => .ok { session with execution := some execution }.executionMoved

/-- An answer is filed against the job that produced it, and dropped where the session
holds another run. -/
def finishExecution (session : Session ω ε) (job : Nat) (result : Except ε ω) (now : Nat) :
    Session ω ε :=
  match session.execution.filter (·.job == job) with
  | none => session
  | some execution =>
    { session with
      execution := some
        { execution with ranFor := some (execution.goingFor now), stopped := some result }
      lastUsed := now }.executionMoved

def executionBy (session : Session ω ε) (handle : String) (now : Nat) :
    Option (FoundExecution ω ε) :=
  (session.execution.filter (·.handle == handle)).map fun execution =>
    { job := execution.job
      running := execution.running
      stopped := execution.stopped
      runningFor := execution.hasRunFor now
      breaksIn := execution.breaksIn now }

def executionMoving (session : Session ω ε) (job : Nat) (now : Nat) : Session ω ε :=
  { session with
    execution := session.execution.map fun execution =>
      if execution.job == job then
        { execution with movingSince := some (execution.movingSince.getD now) }
      else execution }

end Session

/-- A start between its claim and its enqueue, and the run whose place it took. -/
structure Claim (ω ε : Type) where
  job : Nat
  displaced : Option (Execution ω ε)

/-- A session with the starts on it and the tasks they left behind.  The last two fields
only record: the runs that were replaced, and the jobs that were queued. -/
structure System (ω ε : Type) where
  session : Session ω ε
  entered : List Nat
  gate : Option (Claim ω ε)
  refused : List (Nat × ε)
  filing : List Nat
  past : List (Execution ω ε)
  queued : List Nat

/-- What happens on a session, one lock acquisition after another.  What `submit_gated`
answers, what the worker replies and which milestones it reports is left open. -/
inductive Event (ω ε : Type) where
  | drawn
  | enter
  | claim (job : Nat) (handle command : String) (bound now : Nat)
  | submitted (job : Nat) (answer : Except ε Unit) (now : Nat)
  | refuse (job now : Nat)
  | file (job : Nat) (result : Except ε ω) (now : Nat)
  | resumed (job now : Nat)

namespace System

def enter (system : System ω ε) : System ω ε :=
  { system with
    session := { system.session with nextId := system.session.nextId + 1 }
    entered := system.session.nextId :: system.entered }

def claim (system : System ω ε) (execution : Execution ω ε) (now : Nat) : System ω ε :=
  if execution.job ∈ system.entered ∧ system.gate.isNone then
    match system.session.claimExecution execution now with
    | .error _ => { system with entered := system.entered.erase execution.job }
    | .ok session =>
      { system with
        session := session
        entered := system.entered.erase execution.job
        gate := some ⟨execution.job, system.session.execution⟩
        past := system.past ++ system.session.execution.toList }
  else system

def submitted (system : System ω ε) (job : Nat) (answer : Except ε Unit) (now : Nat) :
    System ω ε :=
  if system.gate.any (·.job == job) then
    match answer with
    | .ok () =>
      { system with
        session := { system.session with lastUsed := now }
        gate := none
        filing := job :: system.filing
        queued := job :: system.queued }
    | .error why => { system with gate := none, refused := (job, why) :: system.refused }
  else system

def refuse (system : System ω ε) (job now : Nat) : System ω ε :=
  match system.refused.find? (·.1 == job) with
  | none => system
  | some (_, why) =>
    { system with
      session := system.session.finishExecution job (.error why) now
      refused := system.refused.filter (·.1 != job) }

def file (system : System ω ε) (job : Nat) (result : Except ε ω) (now : Nat) : System ω ε :=
  if job ∈ system.filing then
    { system with
      session := system.session.finishExecution job result now
      filing := system.filing.erase job }
  else system

end System

def step (system : System ω ε) : Event ω ε → System ω ε
  | .drawn =>
    { system with session := { system.session with nextId := system.session.nextId + 1 } }
  | .enter => system.enter
  | .claim job handle command bound now =>
    system.claim
      { handle := handle, command := command, job := job, started := now, movingSince := none,
        ranFor := none, bound := bound, stopped := none } now
  | .submitted job answer now => system.submitted job answer now
  | .refuse job now => system.refuse job now
  | .file job result now => system.file job result now
  | .resumed job now =>
    { system with session := (system.session.executionMoving job now).executionMoved }

def initial (ω ε : Type) (nextId now : Nat) : System ω ε where
  session := ⟨nextId, none, now, 0⟩
  entered := []
  gate := none
  refused := []
  filing := []
  past := []
  queued := []

/-! ### What a slot operation does to the slot -/

namespace Session

@[simp] theorem executionMoved_execution (session : Session ω ε) :
    session.executionMoved.execution = session.execution := rfl

@[simp] theorem executionMoved_nextId (session : Session ω ε) :
    session.executionMoved.nextId = session.nextId := rfl

@[simp] theorem finishExecution_nextId (session : Session ω ε) (job : Nat)
    (result : Except ε ω) (now : Nat) :
    (session.finishExecution job result now).nextId = session.nextId := by
  unfold finishExecution
  split <;> rfl

theorem finishExecution_execution (session : Session ω ε) (job : Nat) (result : Except ε ω)
    (now : Nat) :
    (session.finishExecution job result now).execution =
      session.execution.map (Execution.changed job (Execution.finished result now)) := by
  unfold finishExecution
  cases hslot : session.execution with
  | none => simp [hslot]
  | some execution =>
    by_cases hjob : execution.job = job <;>
      simp [Option.filter, Execution.changed, Execution.finished, hjob, hslot]

@[simp] theorem executionMoving_nextId (session : Session ω ε) (job now : Nat) :
    (session.executionMoving job now).nextId = session.nextId := rfl

theorem executionMoving_execution (session : Session ω ε) (job now : Nat) :
    (session.executionMoving job now).execution =
      session.execution.map (Execution.changed job (Execution.resumed now)) := by
  cases hslot : session.execution with
  | none => simp [executionMoving, hslot]
  | some execution => simp [executionMoving, hslot, Execution.changed, Execution.resumed]

theorem claimExecution_of_running {session : Session ω ε} {running : Execution ω ε}
    (execution : Execution ω ε) (now : Nat) (hslot : session.execution = some running)
    (h : running.stopped = none) :
    ∃ held, session.claimExecution execution now = .error held := by
  simp [claimExecution, hslot, Option.filter, Execution.running_iff.mpr h]

theorem claimExecution_of_stopped {session : Session ω ε} (execution : Execution ω ε)
    (now : Nat) (h : ∀ running ∈ session.execution, running.stopped ≠ none) :
    session.claimExecution execution now =
      .ok { session with execution := some execution }.executionMoved := by
  have hfree : session.execution.filter Execution.running = none := by
    rw [Option.filter_eq_none_iff]
    intro running hrunning
    rw [Execution.running_iff]
    exact h running hrunning
  simp only [claimExecution, hfree]

theorem executionBy_of_stopped {session : Session ω ε} {execution : Execution ω ε}
    {result : Except ε ω} (now : Nat) (hslot : session.execution = some execution)
    (hstopped : execution.stopped = some result) :
    session.executionBy execution.handle now =
      some ⟨execution.job, false, some result, execution.hasRunFor now, none⟩ := by
  simp [executionBy, hslot, Option.filter, Execution.running, Execution.breaksIn, hstopped]

end Session

/-! ### The runs of a session, and the jobs that are still owed a stop -/

namespace System

def runs (system : System ω ε) : List (Execution ω ε) :=
  system.past ++ system.session.execution.toList

def pending (system : System ω ε) : List Nat :=
  (system.gate.map (·.job)).toList ++ system.refused.map (·.1) ++ system.filing

theorem pending_of_find {system : System ω ε} {job : Nat} {refused : Nat × ε}
    (h : system.refused.find? (·.1 == job) = some refused) :
    refused.1 = job ∧ refused ∈ system.refused ∧ job ∈ system.pending := by
  have hjob : refused.1 = job := by simpa using List.find?_some h
  have hmem := List.mem_of_find?_eq_some h
  refine ⟨hjob, hmem, ?_⟩
  apply List.mem_append_left
  apply List.mem_append_right
  exact List.mem_map.mpr ⟨refused, hmem, hjob⟩

end System

end WindbgMcp.Engine.Stops
