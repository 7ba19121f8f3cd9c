import WindbgMcp.Listen.Lease

/-! The listener as a whole: the lease table, the requests in flight through `gate`,
the MCP service, and the one `sweep` task.  Whose ids the service holds, and which ids
any request has carried, are recorded for the specification only. -/
namespace WindbgMcp.Listen
open Engine (Client)

/-- Where a request is in `gate`. -/
inductive Call
  | idle
  /-- Its id is nobody else's; the caller's own entry is still to be asked. -/
  | checked (client : Client) (session : Option String) (delete : Bool)
  /-- With the MCP service. -/
  | admitted (client : Client) (session : Option String) (delete : Bool)
  /-- Answered by the service, not yet settled. -/
  | answered (client : Client) (session minted : Option String) (ok delete : Bool)
  /-- A settled departure, still to be taken out of the table. -/
  | leaving (client : Client) (id : String)
  deriving DecidableEq, Repr

/-- Where the sweeper is: between clients, in the await of `release_leased`, or closing
in the service the ids an expiry reported. -/
inductive Sweep
  | idle
  | releasing (client : Client) (ids : List String) (revoked : Bool)
  | closing (client : Client) (ids : List String) (revoked : Bool)
  deriving DecidableEq, Repr

structure Front where
  now : Nat
  lease : Lease
  /-- The ids the service answers for, with the client each was minted for. -/
  held : List (String × Client)
  minted : List (String × Client)
  /-- Every id a request has carried. -/
  presented : List String
  calls : Nat → Call
  sweep : Sweep

inductive Act
  | tick (elapsed : Nat)
  | arrive (n : Nat) (client : Client) (session : Option String) (delete : Bool)
  | admits (n : Nat)
  | handle (n : Nat) (minted : Option String) (ok : Bool)
  | settle (n : Nat)
  | leave (n : Nat)
  | revoke (client : Client)
  | expire (client : Client)
  | releasedLeased
  | close
  | finish
  deriving DecidableEq, Repr

def Sweep.takes : Sweep → Client → String → Prop
  | .idle, _, _ => False
  | .releasing client ids _, owner, id => owner = client ∧ id ∈ ids
  | .closing client ids _, owner, id => owner = client ∧ id ∈ ids

namespace Front

def new (grace : Nat) : Front where
  now := 0
  lease := Lease.new grace
  held := []
  minted := []
  presented := []
  calls := fun _ => .idle
  sweep := .idle

def setCall (front : Front) (n : Nat) (call : Call) : Front :=
  { front with calls := Function.update front.calls n call }

/-- What the MCP service can answer: an id it mints is a new one, and a request that
carries an id succeeds only while the service holds that id. -/
def answers (front : Front) (session minted : Option String) (ok : Bool) : Bool :=
  (minted.all fun id => id ∉ front.minted.map Prod.fst ∧ id ∉ front.presented) &&
    (!ok || session.all fun id => id ∈ front.held.map Prod.fst)

/-- The service with one answer given: the new id is held, and a `DELETE` that
succeeded closes the one it names. -/
def served (front : Front) (client : Client) (session minted : Option String)
    (ok delete : Bool) : Front :=
  let fresh := minted.toList.map fun id => (id, client)
  { front with
    held := fresh ++ if ok && delete then front.held.filter fun entry => some entry.1 ≠ session
      else front.held
    minted := fresh ++ front.minted }

/-- The await of `gate` has returned and the request is settled. -/
def settled (front : Front) (n : Nat) (client : Client) (session minted : Option String)
    (ok delete : Bool) : Front :=
  let next := match session with
    | some id => if delete && ok then Call.leaving client id else .idle
    | none => .idle
  { front with lease := (front.lease.settle front.now session minted ok client).1 }.setCall n next

def step (front : Front) : Act → Front
  | .tick elapsed => { front with now := front.now + elapsed }
  | .arrive n client session delete =>
    match front.calls n with
    | .idle =>
      let front := { front with presented := session.toList ++ front.presented }
      if session.any (front.lease.heldByAnother client) then front
      else front.setCall n (.checked client session delete)
    | _ => front
  | .admits n =>
    match front.calls n with
    | .checked client session delete =>
      let own := front.lease.admitOwn front.now client
      { front with lease := own.1 }.setCall n
        (if own.2 = Admission.serve then .admitted client session delete else .idle)
    | _ => front
  | .handle n minted ok =>
    match front.calls n with
    | .admitted client session delete =>
      if front.answers session minted ok then
        (front.served client session minted ok delete).setCall n
          (.answered client session minted ok delete)
      else front
    | _ => front
  | .settle n =>
    match front.calls n with
    | .answered client session minted ok delete => front.settled n client session minted ok delete
    | _ => front
  | .leave n =>
    match front.calls n with
    | .leaving client id =>
      { front with lease := front.lease.released front.now client id }.setCall n .idle
    | _ => front
  | .revoke client => { front with lease := front.lease.revoke front.now client }
  | .expire client =>
    match front.sweep with
    | .idle =>
      let asked := front.lease.expiredFor front.now client
      { front with
        lease := asked.1
        sweep := match asked.2 with
          | some expired => .releasing client expired.mcp expired.revoked
          | none => .idle }
    | _ => front
  | .releasedLeased =>
    match front.sweep with
    | .releasing client ids revoked => { front with sweep := .closing client ids revoked }
    | _ => front
  | .close =>
    match front.sweep with
    | .closing client (id :: ids) revoked =>
      { front with
        held := front.held.filter fun entry => entry.1 ≠ id
        sweep := .closing client ids revoked }
    | _ => front
  | .finish =>
    match front.sweep with
    | .closing client [] revoked =>
      { front with
        lease := if revoked then front.lease.forget client else front.lease.releasedLeases client
        sweep := .idle }
    | _ => front

end Front

end WindbgMcp.Listen
