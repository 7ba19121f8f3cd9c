import Mathlib.Data.List.MinMax
import WindbgMcp.Library.KeyedStacks
import WindbgMcp.Library.Run

/-! The pool trace's recorder (`pooltrace.rs`): what a hit at a call site, or behind
one, does to the calls in flight and to the allocations recorded. -/
namespace WindbgMcp.PoolTrace
open WindbgMcp.Library

def maxAllocations : Nat := 1024

def maxPending : Nat := 256

inductive BreakpointAction
  | go
  | breakIn
  deriving DecidableEq, Repr

abbrev Arguments : Type := Vector UInt64 3

structure Site where
  allocator : String
  call : UInt64
  returnsTo : Option UInt64
  deriving DecidableEq, Repr

structure Allocation where
  sequence : Nat
  site : Nat
  thread : UInt64
  arguments : Arguments
  address : Option UInt64
  deriving DecidableEq, Repr

/-- A call seen at entry and not yet at its return.  One whose arguments would not
read holds its place all the same. -/
structure Pending where
  sequence : Nat
  arguments : Option Arguments
  deriving DecidableEq, Repr

abbrev Key : Type := UInt64 × Nat

structure Recorder where
  sites : List Site
  pending : KeyedStacks Key Pending := ∅
  allocations : List Allocation := []
  limit : Nat
  nextSequence : Nat := 0
  dropped : Nat := 0
  unreadable : Nat := 0
  unpaired : Nat := 0
  full : Bool := false

namespace Recorder

def new (sites : List Site) (limit : Nat) : Recorder :=
  { sites := sites, limit := max 1 (min limit maxAllocations) }

def pendingCount (recorder : Recorder) : Nat := recorder.pending.total

def record (recorder : Recorder) (allocation : Allocation) : Recorder × BreakpointAction :=
  if recorder.full then
    ({ recorder with dropped := recorder.dropped + 1 }, .go)
  else
    let allocations := recorder.allocations ++ [allocation]
    let recorder := { recorder with allocations := allocations }
    if recorder.limit ≤ allocations.length then
      ({ recorder with full := true }, .breakIn)
    else
      (recorder, .go)

/-- The key of the oldest waiting call.  The bottom of each stack is its oldest call;
no two waiting calls have one sequence. -/
def oldest (recorder : Recorder) : Option Key :=
  let bottoms := recorder.pending.entries.filterMap fun entry =>
    entry.2.head?.map fun call => (call.sequence, entry.1)
  (bottoms.argmin Prod.fst).map Prod.snd

def evictOldest (recorder : Recorder) : Recorder :=
  match recorder.oldest with
  | none => recorder
  | some key =>
    match recorder.pending.lookup key with
    | none => recorder
    | some calls =>
      { recorder with
        pending := recorder.pending.setStack key (calls.drop 1)
        unpaired := recorder.unpaired + 1 }

def hold (recorder : Recorder) (key : Key) (call : Pending) : Recorder :=
  let recorder :=
    if maxPending ≤ recorder.pendingCount then recorder.evictOldest else recorder
  { recorder with
    pending := recorder.pending.insert key (recorder.pending.stack key ++ [call]) }

def returns (recorder : Recorder) (site : Nat) : Bool :=
  (recorder.sites[site]?).any fun site => site.returnsTo.isSome

/-- A call at `site` on `thread`, with its arguments where they would read. -/
def entry (recorder : Recorder) (site : Nat) (thread : UInt64) (arguments : Option Arguments) :
    Recorder × BreakpointAction :=
  let sequence := recorder.nextSequence
  let recorder := { recorder with nextSequence := sequence + 1 }
  let recorder :=
    if arguments.isNone then { recorder with unreadable := recorder.unreadable + 1 }
    else recorder
  if !recorder.returns site then
    -- Traced at entry only: this is the whole allocation.
    match arguments with
    | some arguments => recorder.record ⟨sequence, site, thread, arguments, none⟩
    | none => (recorder, .go)
  else
    (recorder.hold (thread, site) ⟨sequence, arguments⟩, .go)

/-- A return from `site` on `thread`, with the return value where it would read.
One with no call pending was not seen made. -/
def returned (recorder : Recorder) (site : Nat) (thread : UInt64) (value : Option UInt64) :
    Recorder × BreakpointAction :=
  let recorder :=
    if value.isNone then { recorder with unreadable := recorder.unreadable + 1 } else recorder
  match recorder.pending.lookup (thread, site) with
  | none => (recorder, .go)
  | some calls =>
    match calls.getLast? with
    | none => (recorder, .go)
    | some call =>
      let recorder :=
        { recorder with pending := recorder.pending.setStack (thread, site) calls.dropLast }
      match call.arguments, value with
      | some arguments, some value =>
        recorder.record ⟨call.sequence, site, thread, arguments, some value⟩
      | _, _ => (recorder, .go)

def abandon (recorder : Recorder) (key : Key) : Recorder :=
  match recorder.pending.lookup key with
  | none => recorder
  | some calls =>
    { recorder with
      pending := recorder.pending.erase key
      unpaired := recorder.unpaired + calls.length }

def threadless (recorder : Recorder) (site : Nat) : Recorder × BreakpointAction :=
  let recorder := { recorder with unreadable := recorder.unreadable + 1 }
  let keys := recorder.pending.keys.filter fun key => key.2 = site
  (keys.foldl abandon recorder, .go)

end Recorder

inductive Hit
  | entry (site : Nat) (thread : UInt64) (arguments : Option Arguments)
  | returned (site : Nat) (thread : UInt64) (value : Option UInt64)
  | threadless (site : Nat)
  deriving DecidableEq, Repr

def Recorder.hit (recorder : Recorder) : Hit → Recorder × BreakpointAction
  | .entry site thread arguments => recorder.entry site thread arguments
  | .returned site thread value => recorder.returned site thread value
  | .threadless site => recorder.threadless site

def Recorder.step (recorder : Recorder) (hit : Hit) : Recorder := (recorder.hit hit).1

def trace (sites : List Site) (limit : Nat) (hits : List Hit) : Recorder :=
  run Recorder.step (Recorder.new sites limit) hits

end WindbgMcp.PoolTrace
