import WindbgMcp.Engine.Server
import WindbgMcp.Engine.Gate

/-! What a client asks of the registry.  The caller is the identity its credential
named, and every question below is about that client's own sessions. -/
namespace WindbgMcp.Engine
open Library
open Structured (ProfileFacts)

structure SessionSnapshot where
  id : String
  kind : SessionKind
  what : String
  profile : Option ProfileFacts
  pid : Nat
  state : SessionState
  inStateFor : Nat
  age : Nat
  current : Bool
  execution : Option ExecutionInfo
  deriving DecidableEq, Repr

def noSessionOpen : String :=
  ("no debug session is open. Start one with open_dump / open_trace / attach_process / " ++
  "attach_kernel / attach_kernel_local / launch.")

namespace Registry

/-- Routes a call to the session the caller named, or to its current one.  Another
client's handle is answered as one that was never issued. -/
def resolveAdmitting (registry : Registry) (caller : Client) (supplied : Option String)
    (admits : Session → Bool) : Except EngineError Session :=
  match supplied with
  | none =>
    match registry.current caller with
    | some session => .ok session
    | none => .error (.stale noSessionOpen)
  | some want =>
    match registry.findVisible want with
    | none => .error (.stale (unknownHandle want))
    | some session =>
      if session.owner != caller then .error (.stale (unknownHandle want))
      else if admits session then .ok session
      else if session.kernelUnresolved || session.liveControlUnresolved then
        .error (.recoveryRequired (staleHandle want session.state))
      else .error (.stale (staleHandle want session.state))

def resolve (registry : Registry) (caller : Client) (supplied : Option String) :
    Except EngineError Session :=
  registry.resolveAdmitting caller supplied fun session => session.state.acceptsHandle

def resolveForLiveBreak (registry : Registry) (caller : Client) (supplied : Option String) :
    Except EngineError Session :=
  registry.resolveAdmitting caller supplied fun session =>
    session.state.acceptsHandle || liveBreakFollowsTeardown session.kind session.state .liveBreak

def resolveForTeardown (registry : Registry) (caller : Client) (supplied : Option String) :
    Except EngineError Session :=
  registry.resolveAdmitting caller supplied fun session => session.state.acceptsTeardown

def resolveForExecutionRead (registry : Registry) (caller : Client) (supplied : Option String) :
    Except EngineError Session :=
  registry.resolveAdmitting caller supplied fun session => session.state.acceptsExecutionRead

def visibleSessionIds (registry : Registry) (caller : Client) : List String :=
  (registry.publicOf caller).flatMap fun session =>
    session.id :: (registry.companionsOf session.id).map Session.id

def liveCountFor (registry : Registry) (owner : Client) : Nat := (registry.liveFor owner).length

def snapshot (registry : Registry) (caller : Client) (now : Nat) : List SessionSnapshot :=
  let current := (registry.current caller).map Session.id
  (registry.publicOf caller).reverse.map fun session =>
    { id := session.id
      kind := session.kind
      what := session.what
      profile := session.profile
      pid := session.pid
      state := session.state
      inStateFor := now - session.standing.since
      age := now - session.created
      current := current == some session.id
      execution := session.execution.map fun run => run.info now }

def noRoom (registry : Registry) (live : List Session) (inFlight : Nat) : String :=
  let listed := live.map fun session =>
    "  " ++ session.id ++ " — " ++ session.kind.label ++ " (" ++ session.what ++ ")" ++
      (if registry.treeBusy session then " — busy" else " — idle")
  let opens :=
    if inFlight == 0 then ""
    else " (" ++ toString inFlight ++ " more open" ++ (if inFlight == 1 then "" else "s") ++
      " already in flight)"
  "this server holds " ++ toString live.length ++ " debug sessions" ++ opens ++ (" and none of " ++
  "them can be reclaimed — a session with a call in flight is never ended to make room, and that " ++
  "includes an attach still waiting for its target. So there is no room to open another:\n") ++
    "\n".intercalate listed ++
    ("\n\nEnd one with `end_session \x7b \"session_id\": \"…\" \x7d` — it terminates that session's " ++
    "engine worker process even if the session is parked and cannot unwind on its own.")

def takeSlot (registry : Registry) (caller : Client) : Except String Client × Registry :=
  if registry.closing then (.error shuttingDown, registry)
  else
    let live := registry.liveFor caller
    let inFlight := registry.opening caller
    let needed := live.length + inFlight + 1 - maxSessions
    let reclaimable := live.countP fun session => !registry.treeBusy session
    if reclaimable < needed then (.error (registry.noRoom live inFlight), registry)
    else
      (.ok caller, { registry with
        opening := Function.update registry.opening caller (inFlight + 1) })

def reclaimed : String :=
  ("reclaimed to make room for a new session — this server holds at most 4 at once, and this was " ++
  "the oldest idle one")

def idleVictim (registry : Registry) (keeping : Session) : Option Session :=
  (registry.liveFor keeping.owner).find? fun session =>
    session.id != keeping.id && !registry.treeBusy session

/-- The oldest idle session of an owner that is over the limit, closed while the
registry is locked. -/
def claimOverageVictim (registry : Registry) (keeping : Session) (now : Nat) :
    Option Session × Registry :=
  if (registry.liveFor keeping.owner).length ≤ maxSessions then (none, registry)
  else
    match registry.idleVictim keeping with
    | some idle =>
      let closed := fun session : Session => session.setState now (.closed reclaimed)
      (some (closed idle), registry.modify idle.id closed)
    | none => (none, registry)

end Registry

end WindbgMcp.Engine
