import Mathlib.Data.List.Basic

/-! A run started by `continue_async`, which its session holds until another run replaces
it.  The stop is what the worker's reply to the run's job comes to. -/
namespace WindbgMcp.Engine

structure Execution (ω ε : Type) where
  handle : String
  command : String
  job : Nat
  started : Nat
  movingSince : Option Nat
  ranFor : Option Nat
  bound : Nat
  stopped : Option (Except ε ω)
  deriving DecidableEq, Repr

variable {ω ε : Type}

namespace Execution

def running (run : Execution ω ε) : Bool := run.stopped.isNone

def moving (run : Execution ω ε) : Bool := run.movingSince.isSome

def goingFor (run : Execution ω ε) (now : Nat) : Nat := run.movingSince.elim 0 (now - ·)

def hasRunFor (run : Execution ω ε) (now : Nat) : Nat := run.ranFor.getD (run.goingFor now)

def breaksIn (run : Execution ω ε) (now : Nat) : Option Nat :=
  if run.running && run.bound - run.goingFor now != 0 then some (run.bound - run.goingFor now)
  else none

/-! ### What a slot operation does to the run in it -/

def finished (result : Except ε ω) (now : Nat) (execution : Execution ω ε) : Execution ω ε :=
  { execution with ranFor := some (execution.goingFor now), stopped := some result }

def resumed (now : Nat) (execution : Execution ω ε) : Execution ω ε :=
  { execution with movingSince := some (execution.movingSince.getD now) }

def changed (job : Nat) (change : Execution ω ε → Execution ω ε) (execution : Execution ω ε) :
    Execution ω ε :=
  if execution.job = job then change execution else execution

theorem running_iff {execution : Execution ω ε} :
    execution.running = true ↔ execution.stopped = none := by
  simp [running]

@[simp] theorem changed_resumed_job (job now : Nat) (execution : Execution ω ε) :
    (changed job (resumed now) execution).job = execution.job := by
  unfold changed resumed
  split <;> rfl

@[simp] theorem changed_resumed_stopped (job now : Nat) (execution : Execution ω ε) :
    (changed job (resumed now) execution).stopped = execution.stopped := by
  unfold changed resumed
  split <;> rfl

end Execution

end WindbgMcp.Engine
