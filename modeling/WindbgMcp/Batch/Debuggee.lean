import WindbgMcp.Batch.Language
import WindbgMcp.Library.Program

/-! The engine seam: what the executor may ask of a debugger, and what it makes of
a call that panics.  Each query carries the site it is made from, which names the
step it is made for; no modelled function reads it. -/
namespace WindbgMcp.Batch

open Library

structure Failed where
  message : String
  engineOutput : Option String
deriving DecidableEq, Repr

structure Ran where
  output : String
  interrupted : Bool
  targetGone : Bool
deriving DecidableEq, Repr

inductive Held where
  | same
  | replaced (why : String)
  | uncertain (why : String)
deriving DecidableEq, Repr

inductive Sealed where
  | rollback
  | targetLost
deriving DecidableEq, Repr

inductive PoolOp where
  | findTag (tag : String) (paged : Option Bool) (refresh : Bool)
      (stopAfterMatches : Option { matches_ : Nat // 0 < matches_ }) (limit : Nat)
  | chunk (address : String) (refresh : Bool)
  | census (refresh : Bool) (limit : Nat)
deriving DecidableEq, Repr

def maxRows : Nat := 2000
def findTagRows : Nat := 64
def censusRows : Nat := 40

def clampRows (limit : Option Nat) (default : Nat) : Nat := min (limit.getD default) maxRows

inductive EngineCall where
  | command (line : String) (budgetMs : Nat)
  | resume (line : String) (timeoutMs : Nat)
  | runTo (address : String) (timeoutMs : Nat)
  | readMemory (address : String) (size budgetMs : Nat)
  | pool (query : PoolOp) (budgetMs : Nat)
deriving DecidableEq, Repr

def EngineCall.watchdogMs : EngineCall → Nat
  | .command _ ms | .resume _ ms | .runTo _ ms | .readMemory _ _ ms | .pool _ ms => ms

inductive Request where
  | engine (call : EngineCall)
  | hasTarget
  | replaced
  | running
  | elapsed
  | abandoned
  | interrupted
  | sealing (why : Sealed)
deriving DecidableEq, Repr

/-- A call into the debugger, which may panic with or without a message. -/
inductive Call (α : Type) where
  | returned (value : α)
  | panicked (why : Option String)
deriving DecidableEq, Repr

abbrev Answer : Request → Type
  | .engine _ => Call (Except Failed Ran)
  | .hasTarget => Call (Option Bool)
  | .replaced => Call Held
  | .running => Call (Option Bool)
  | .elapsed => Nat
  | .abandoned => Bool
  | .interrupted => Bool
  | .sealing _ => Bool

inductive Block where
  | steps
  | always
deriving DecidableEq, Repr

/-- `gate` is asked between steps, `reading` between a step's action and its
assertions, and `ending` when the action failed. -/
inductive Site where
  | gate (block : Block) (position : Nat)
  | action (block : Block) (position : Nat)
  | reading (block : Block) (position : Nat)
  | ending (block : Block) (position : Nat)
  | assertion (block : Block) (position : Nat)
  | seal
  | probe
  | report
deriving DecidableEq, Repr

structure Query where
  site : Site
  request : Request
deriving DecidableEq, Repr

abbrev Query.Answer (query : Query) : Type := Batch.Answer query.request

abbrev Happening := Event Query.Answer

abbrev Trace := List Happening

abbrev Executor := Program Query Query.Answer (Option String)

def Call.settle {α : Type} : Call α → Executor α
  | .returned value => .done value
  | .panicked why => .unwind why

namespace Debuggee

variable (site : Site)

def engine (call : EngineCall) : Executor (Except Failed Ran) :=
  .ask ⟨site, .engine call⟩ Call.settle

def hasTarget : Executor (Option Bool) := .ask ⟨site, .hasTarget⟩ Call.settle

def replaced : Executor Held := .ask ⟨site, .replaced⟩ Call.settle

def running : Executor (Option Bool) := .ask ⟨site, .running⟩ Call.settle

def elapsed : Executor Nat := .ask ⟨site, .elapsed⟩ .done

def abandoned : Executor Bool := .ask ⟨site, .abandoned⟩ .done

def interrupted : Executor Bool := .ask ⟨site, .interrupted⟩ .done

def sealing (why : Sealed) : Executor Bool := .ask ⟨site, .sealing why⟩ .done

end Debuggee

def panicMessage : Option String → String
  | some why => "the debugger operation panicked: " ++ why
  | none => "the debugger operation panicked"

def guarded {α : Type} (call : Executor (Except Failed α)) : Executor (Except Failed α) := do
  match ← call.catchUnwind with
  | .ok result => pure result
  | .error why => pure (.error ⟨panicMessage why, none⟩)

/-- `Debuggee::replaced` with a panic turned into `uncertain`. -/
def held (site : Site) : Executor Held := do
  match ← guarded (do pure (.ok (← Debuggee.replaced site))) with
  | .ok held => pure held
  | .error why => pure (.uncertain why.message)

def answered (why : Failed) : String :=
  match why.engineOutput with
  | some printed => why.message ++ "; the debugger answered: " ++ Text.trim printed
  | none => why.message

/-! ## What a guarded call makes of each answer -/

def Call.settled {α : Type} : Call (Except Failed α) → Except Failed α
  | .returned result => result
  | .panicked why => .error ⟨panicMessage why, none⟩

def Call.attempted {α : Type} : Call α → Except Failed α
  | .returned value => .ok value
  | .panicked why => .error ⟨panicMessage why, none⟩

def Call.read : Call Held → Held
  | .returned held => held
  | .panicked why => .uncertain (panicMessage why)

section Bind

variable {α : Type} (site : Site)

@[simp] theorem elapsed_bind (next : Nat → Executor α) :
    (Debuggee.elapsed site >>= next) = .ask ⟨site, .elapsed⟩ next := rfl

@[simp] theorem abandoned_bind (next : Bool → Executor α) :
    (Debuggee.abandoned site >>= next) = .ask ⟨site, .abandoned⟩ next := rfl

@[simp] theorem interrupted_bind (next : Bool → Executor α) :
    (Debuggee.interrupted site >>= next) = .ask ⟨site, .interrupted⟩ next := rfl

@[simp] theorem sealing_bind (why : Sealed) (next : Bool → Executor α) :
    (Debuggee.sealing site why >>= next) = .ask ⟨site, .sealing why⟩ next := rfl

@[simp] theorem hasTarget_bind (next : Option Bool → Executor α) :
    (Debuggee.hasTarget site >>= next) =
      .ask ⟨site, .hasTarget⟩ fun answer => answer.settle >>= next := rfl

@[simp] theorem guarded_engine_bind (call : EngineCall)
    (next : Except Failed Ran → Executor α) :
    (guarded (Debuggee.engine site call) >>= next) =
      .ask ⟨site, .engine call⟩ fun answer => next answer.settled := by
  change Program.ask _ _ = Program.ask _ _
  congr 1
  funext answer
  cases answer <;> rfl

@[simp] theorem guarded_running_bind (next : Except Failed (Option Bool) → Executor α) :
    (guarded (do pure (.ok (← Debuggee.running site))) >>= next) =
      .ask ⟨site, .running⟩ fun answer => next answer.attempted := by
  change Program.ask _ _ = Program.ask _ _
  congr 1
  funext answer
  cases answer <;> rfl

@[simp] theorem held_bind (next : Held → Executor α) :
    (held site >>= next) = .ask ⟨site, .replaced⟩ fun answer => next answer.read := by
  change Program.ask _ _ = Program.ask _ _
  congr 1
  funext answer
  cases answer <;> rfl

end Bind

end WindbgMcp.Batch
