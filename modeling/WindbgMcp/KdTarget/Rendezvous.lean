import WindbgMcp.KdTarget.Serving

/-! The flag that pairs a running-target rendezvous with the frame of the break-in
it served.  There is one flag for any number of break-ins, so the pairing holds
along the runs that set it only for the next frame that reads it. -/
namespace WindbgMcp.KdTarget

open KdWire Library

namespace Server

variable {report : List UInt8}

/-- Frames that read or clear `servedWhileRunning` when they are dequeued. -/
def readsServedFlag (queued : Queued) : Bool :=
  queued.message.wakeReason == some .breakIn || queued.message.wakeReason == some .reset

def nextReader (server : Server) : Option Queued := server.undelivered.find? readsServedFlag

/-- The move is no rendezvous, or is one for the next frame that reads the flag,
with the flag clear. -/
def paired (server : Server) (move : Move) : Bool :=
  match server.rendezvous? move with
  | none => true
  | some serial =>
    !server.stopped.servedWhileRunning && server.nextReader.any (·.serial == serial)

/-- What the flag says of the undelivered messages. -/
structure Flagged (server : Server) : Prop where
  set : server.stopped.servedWhileRunning = true →
    ∃ queued, server.nextReader = some queued ∧ queued.message = .frame .breakIn ∧
      queued.serial ∈ server.served ∧
      ∀ other ∈ server.undelivered, other.serial ∈ server.served → other.serial = queued.serial
  clear : server.stopped.servedWhileRunning = false →
    ∀ queued ∈ server.undelivered, queued.serial ∉ server.served
  consumed : ∀ serial answer, (serial, answer) ∈ server.answers →
    (answer = .consumed ↔ serial ∈ server.served)
  bounded : ∀ serial ∈ server.served, serial < server.decoded.length

theorem flagged_start (report : List UInt8) : (start report).Flagged where
  set := by simp [start]
  clear := by simp [start]
  consumed := by simp [start]
  bounded := by simp [start]

theorem wakeReason_eq_breakIn_iff (message : TransportMessage) :
    message.wakeReason = some .breakIn ↔ message = .frame .breakIn := by
  cases message with
  | frame frame => cases frame <;> simp [TransportMessage.wakeReason]
  | disconnected => simp [TransportMessage.wakeReason]
  | failed why => simp [TransportMessage.wakeReason]

theorem Flagged.decode {server : Server} (h : server.Flagged) (message : TransportMessage) :
    (server.step report (.decode message)).Flagged := by
  cases hhand : server.hand with
  | some queued =>
    simp only [Server.step, hhand]
    exact h
  | none =>
    have hundelivered := undelivered_decode report server message hhand
    have hnew : server.decoded.length ∉ server.served :=
      fun hmem => Nat.lt_irrefl _ (h.bounded _ hmem)
    constructor
    · rw [nextReader, hundelivered, step_decode server message hhand]
      intro hflag
      obtain ⟨queued, hnext, hbreakIn, hserved, honly⟩ := h.set hflag
      refine ⟨queued, ?_, hbreakIn, hserved, ?_⟩
      · rw [List.find?_append, show server.undelivered.find? readsServedFlag = some queued from
          hnext]
        rfl
      · intro other hother hmem
        rcases List.mem_append.mp hother with hother | hother
        · exact honly other hother hmem
        · rw [List.mem_singleton.mp hother] at hmem
          exact absurd hmem hnew
    · rw [hundelivered, step_decode server message hhand]
      intro hflag queued hqueued
      rcases List.mem_append.mp hqueued with hqueued | hqueued
      · exact h.clear hflag queued hqueued
      · rw [List.mem_singleton.mp hqueued]
        exact hnew
    · rw [step_decode server message hhand]
      exact h.consumed
    · rw [step_decode server message hhand]
      intro serial hserial
      have := h.bounded serial hserial
      simp only [List.length_append, List.length_singleton]
      omega

theorem readsServedFlag_frame_iff (frame : Frame) (serial : Nat) :
    readsServedFlag ⟨.frame frame, serial⟩ = true ↔
      frame = .breakIn ∨ ∃ id, frame = .control packetTypeReset id := by
  cases frame with
  | breakIn => simp [readsServedFlag, TransportMessage.wakeReason]
  | malformed why fatal => simp [readsServedFlag, TransportMessage.wakeReason]
  | control packetType id =>
    simp [readsServedFlag, TransportMessage.wakeReason]
  | data packet => simp [readsServedFlag, TransportMessage.wakeReason]

theorem Flagged.first_of_set {server : Server} (h : server.Flagged) {first : Queued}
    {rest : List Queued} (hundelivered : server.undelivered = first :: rest)
    (hreads : readsServedFlag first = true)
    (hflag : server.stopped.servedWhileRunning = true) :
    first.message = .frame .breakIn ∧ first.serial ∈ server.served ∧
      ∀ other ∈ rest, other.serial ∈ server.served → other.serial = first.serial := by
  obtain ⟨queued, hnext, hbreakIn, hserved, honly⟩ := h.set hflag
  have hfirst : first = queued := by
    rw [nextReader, hundelivered, List.find?_cons, hreads] at hnext
    exact Option.some.inj hnext
  subst hfirst
  refine ⟨hbreakIn, hserved, fun other hother => honly other ?_⟩
  rw [hundelivered]
  exact List.mem_cons_of_mem _ hother

theorem Flagged.none_behind {server : Server} (h : server.Flagged) {first : Queued}
    {rest : List Queued} (hundelivered : server.undelivered = first :: rest)
    (hnumbered : Numbered (first :: rest) server.decoded)
    (hreads : readsServedFlag first = true) :
    ∀ queued ∈ rest, queued.serial ∉ server.served := by
  intro queued hqueued hmem
  cases hflag : server.stopped.servedWhileRunning with
  | true =>
    have honly := (h.first_of_set hundelivered hreads hflag).2.2
    exact hnumbered.ne_first hqueued (honly queued hqueued hmem)
  | false =>
    refine h.clear hflag queued ?_ hmem
    rw [hundelivered]
    exact List.mem_cons_of_mem _ hqueued

theorem Flagged.set_iff_served {server : Server} (h : server.Flagged) {first : Queued}
    {rest : List Queued} (hundelivered : server.undelivered = first :: rest)
    (hreads : readsServedFlag first = true) :
    server.stopped.servedWhileRunning = true ↔ first.serial ∈ server.served := by
  constructor
  · intro hflag
    exact (h.first_of_set hundelivered hreads hflag).2.1
  · intro hserved
    cases hflag : server.stopped.servedWhileRunning with
    | true => rfl
    | false =>
      refine absurd hserved (h.clear hflag first ?_)
      rw [hundelivered]
      exact List.mem_cons_self

theorem Flagged.set_behind {server : Server} (h : server.Flagged) {first : Queued}
    {rest : List Queued} (hundelivered : server.undelivered = first :: rest)
    (hother : first.message ≠ .frame .breakIn)
    (hflag : server.stopped.servedWhileRunning = true) :
    ∃ queued, rest.find? readsServedFlag = some queued ∧ queued.message = .frame .breakIn ∧
      queued.serial ∈ server.served ∧
      ∀ other ∈ rest, other.serial ∈ server.served → other.serial = queued.serial := by
  have hreads : readsServedFlag first = false := by
    by_contra hreads
    exact hother (h.first_of_set hundelivered (by simpa using hreads) hflag).1
  obtain ⟨queued, hnext, hbreakIn, hserved, honly⟩ := h.set hflag
  rw [nextReader, hundelivered, List.find?_cons, hreads] at hnext
  refine ⟨queued, hnext, hbreakIn, hserved, fun other hother => honly other ?_⟩
  rw [hundelivered]
  exact List.mem_cons_of_mem _ hother

theorem Flagged.serveFrame {server : Server} (h : server.Flagged) (htracked : server.Tracked)
    {frame : Frame} {serial : Nat} {rest : List Queued} (handling : Handling)
    (hqueue : server.queue = ⟨.frame frame, serial⟩ :: rest) :
    (serveFrame report { server with queue := rest } frame serial handling).Flagged := by
  have hserves := serveFrame_spec report { server with queue := rest } frame serial
    handling
  have hundelivered := undelivered_cons hqueue
  have hnumbered := htracked.numbered
  rw [hundelivered] at hnumbered
  by_cases hframe : frame = .breakIn
  · obtain ⟨hcleared, answer, hanswers, hanswer⟩ := hserves.breakIn hframe
    have hreads := (readsServedFlag_frame_iff frame serial).mpr (Or.inl hframe)
    constructor
    · rw [hcleared]
      intro hset
      cases hset
    · rw [hserves.undelivered, hserves.served]
      exact fun _ => h.none_behind hundelivered hnumbered hreads
    · rw [hanswers, hserves.served]
      intro other given hgiven
      rcases List.mem_append.mp hgiven with hgiven | hgiven
      · exact h.consumed other given hgiven
      · obtain ⟨rfl, rfl⟩ := Prod.mk.inj (List.mem_singleton.mp hgiven)
        exact hanswer.trans (h.set_iff_served hundelivered hreads)
    · rw [hserves.served, hserves.decoded]
      exact h.bounded
  · obtain ⟨hanswers, hkept⟩ := hserves.other hframe
    constructor
    · rw [nextReader, hserves.undelivered, hserves.served]
      intro hset
      refine h.set_behind hundelivered (by simpa using hframe) ?_
      rcases hkept with hsame | ⟨hcleared, -⟩
      · rw [hsame] at hset
        exact hset
      · rw [hcleared] at hset
        cases hset
    · rw [hserves.undelivered, hserves.served]
      intro hclear queued hqueued
      rcases hkept with hsame | ⟨-, hreset⟩
      · refine h.clear (by rw [← hsame]; exact hclear) queued ?_
        rw [hundelivered]
        exact List.mem_cons_of_mem _ hqueued
      · have hreads := (readsServedFlag_frame_iff frame serial).mpr (Or.inr hreset)
        exact h.none_behind hundelivered hnumbered hreads queued hqueued
    · rw [hanswers, hserves.served]
      exact h.consumed
    · rw [hserves.served, hserves.decoded]
      exact h.bounded

theorem Flagged.waitEnds {server : Server} (h : server.Flagged) (htracked : server.Tracked)
    (how : WaitEnd) (hpaired : server.paired (.waitEnds how) = true) :
    (server.step report (.waitEnds how)).Flagged := by
  rcases step_waitEnds_cases report server how with
    heq | ⟨link, mode, heq⟩ | ⟨serial, link, mode, hrendezvous, hreason, heq⟩
  · rw [heq]
    exact h
  · rw [heq]
    exact ⟨h.set, h.clear, h.consumed, h.bounded⟩
  · rw [heq]
    simp only [paired, hrendezvous, Bool.and_eq_true, Bool.not_eq_true'] at hpaired
    obtain ⟨hflag, hnext⟩ := hpaired
    obtain ⟨queued, hnext, hserial⟩ := (Option.any_eq_true _ _).mp hnext
    have hserial : queued.serial = serial := beq_iff_eq.mp hserial
    have hqueued : queued ∈ server.undelivered := List.mem_of_find?_eq_some hnext
    -- the wake that cut this wait stems from the very frame the flag will be read for
    obtain ⟨woken, hwoken, hwake⟩ :=
      List.mem_filterMap.mp (htracked.reason ⟨.breakIn, serial⟩ hreason rfl)
    obtain ⟨reason, hbreakIn, hpair⟩ := Option.map_eq_some_iff.mp hwake
    injection hpair with hreason hwokenSerial
    have hsame : queued = woken :=
      htracked.numbered.eq_of_serial_eq hqueued hwoken (hserial.trans hwokenSerial.symm)
    subst hsame hreason
    constructor
    · intro _
      refine ⟨queued, hnext, (wakeReason_eq_breakIn_iff _).mp hbreakIn, by simp [hserial], ?_⟩
      intro other hother hmem
      rcases List.mem_append.mp hmem with hmem | hmem
      · exact absurd hmem (h.clear hflag other hother)
      · rw [List.mem_singleton.mp hmem, hserial]
    · intro hclear
      cases hclear
    · intro other answer hanswer
      have hdelivered := (htracked.answered _ hanswer).2 queued hqueued
      rw [h.consumed other answer hanswer, List.mem_append, List.mem_singleton]
      constructor
      · exact Or.inl
      · rintro (hmem | rfl)
        · exact hmem
        · exact absurd hserial hdelivered
    · intro other hmem
      rcases List.mem_append.mp hmem with hmem | hmem
      · exact h.bounded other hmem
      · rw [List.mem_singleton.mp hmem, ← hserial]
        exact htracked.numbered.lt_length hqueued

theorem Flagged.dequeue {server : Server} (h : server.Flagged) (htracked : server.Tracked)
    (handling : Handling) : (server.step report (.dequeue handling)).Flagged := by
  rcases step_dequeue_cases report server handling with
    heq | ⟨-, heq⟩ | ⟨frame, serial, rest, -, hqueue, heq⟩
  · rw [heq]
    exact h
  · rw [heq]
    exact ⟨h.set, h.clear, h.consumed, h.bounded⟩
  · rw [heq]
    exact h.serveFrame htracked handling hqueue

theorem Flagged.queue {server : Server} (h : server.Flagged) :
    (server.step report .queue).Flagged := by
  have hundelivered : (server.step report .queue).undelivered = server.undelivered := by
    simp [Server.step, undelivered]
  exact ⟨by rw [nextReader, hundelivered]; exact h.set, by rw [hundelivered]; exact h.clear,
    h.consumed, h.bounded⟩

theorem Flagged.resumeRefused {server : Server} (h : server.Flagged) :
    (server.step report .resumeRefused).Flagged := by
  simp only [Server.step]
  split
  · obtain ⟨link, mode, heq⟩ := sendStop_eq report { server with wake := server.wake.finish.2 }
    rw [heq]
    exact ⟨h.set, h.clear, h.consumed, h.bounded⟩
  · exact h

theorem Flagged.step {server : Server} (h : server.Flagged) (htracked : server.Tracked)
    (move : Move) (hpaired : server.paired move = true) : (server.step report move).Flagged := by
  cases move with
  | decode message => exact h.decode message
  | queue => exact h.queue
  | dequeue handling => exact h.dequeue htracked handling
  | resumeRefused => exact h.resumeRefused
  | waitEnds how => exact h.waitEnds htracked how hpaired
  | idleExpires wait => exact ⟨h.set, h.clear, h.consumed, h.bounded⟩

/-- Each break-in is served once: by the rendezvous its wake produced, after which
its frame is only consumed, or by the stop that its frame resends or defers. -/
structure ServedOnce (server : Server) : Prop where
  pending : ∀ wake ∈ server.wake.pending,
    ∃ queued ∈ server.undelivered, queued.wake? = some wake
  notAgain : ∀ serial answer, (serial, answer) ∈ server.answers → serial ∈ server.served →
    answer = .consumed
  notDropped : ∀ serial, (serial, .consumed) ∈ server.answers → serial ∈ server.served
  accounted : ∀ serial, server.decoded[serial]? = some (.frame .breakIn) →
    (∃ queued ∈ server.undelivered, queued.serial = serial) ∨
      ∃ answer, (serial, answer) ∈ server.answers

theorem Tracked.servedOnce {server : Server} (h : server.Tracked) (hflagged : server.Flagged) :
    server.ServedOnce where
  pending := fun _ hwake => List.mem_filterMap.mp (h.pending.subset hwake)
  notAgain := fun serial answer hanswer => (hflagged.consumed serial answer hanswer).mpr
  notDropped := fun serial hanswer => (hflagged.consumed serial _ hanswer).mp rfl
  accounted := h.accounted

theorem servedOnce_of_paired (report : List UInt8) (moves : List Move)
    (hpaired : ∀ visit ∈ visits (step report) (start report) moves,
      visit.1.paired visit.2 = true) :
    (run (step report) (start report) moves).ServedOnce := by
  have hinvariant : (run (step report) (start report) moves).Tracked ∧
      (run (step report) (start report) moves).Flagged := by
    refine run_invariant (fun server : Server => server.Tracked ∧ server.Flagged)
      (fun server move => server.paired move = true) ?_ ⟨tracked_start report, flagged_start report⟩ hpaired
    rintro server move ⟨htracked, hflagged⟩ hmove
    exact ⟨htracked.step move, hflagged.step htracked move hmove⟩
  exact hinvariant.1.servedOnce hinvariant.2

/-! A debugger's side of two short runs: `g` requests and acknowledgements, with
Ctrl+Break arriving while the target runs. -/

def arrives (message : TransportMessage) : List Move := [.decode message, .queue]

def acknowledges (id : UInt32) : List Move :=
  arrives (.frame (.control packetTypeAcknowledge id))

def goes (id : UInt32) : List Move :=
  arrives (.frame (.data ⟨packetTypeStateManipulate, id,
    wordBytes dbgkdContinueApi ++ List.replicate 52 0⟩))

def dequeues : Move := .dequeue ⟨[], false, false⟩

def rendezvous : Move := .waitEnds (.breakWake true)

def breakWhileRunning : List Move :=
  acknowledges initialPacketId ++ [dequeues] ++ goes initialPacketId ++ [dequeues] ++
    arrives (.frame .breakIn) ++ [rendezvous, dequeues]

theorem servedOnce_breakWhileRunning :
    (run (step []) (start []) breakWhileRunning).answers = [(2, .consumed)] ∧
      (run (step []) (start []) breakWhileRunning).ServedOnce :=
  ⟨by decide, servedOnce_of_paired [] breakWhileRunning (by decide)⟩

/-- The second `g` is already queued when the first rendezvous sets the flag, so
the second rendezvous finds it set; the frame of the break-in it served then
defers a stop. -/
def breakTwiceBeforeServing : List Move :=
  acknowledges initialPacketId ++ [dequeues] ++ goes initialPacketId ++
    acknowledges (initialPacketId ^^^ 1) ++ goes (initialPacketId ^^^ 1) ++
    arrives (.frame .breakIn) ++ [dequeues, rendezvous, dequeues, dequeues] ++
    arrives (.frame .breakIn) ++ [rendezvous, dequeues, dequeues]

theorem breakTwiceBeforeServing_deferred :
    ¬ (run (step []) (start []) breakTwiceBeforeServing).ServedOnce := by
  intro h
  have hconsumed := h.notAgain 5 .deferred (by decide) (by decide)
  cases hconsumed

end Server

end WindbgMcp.KdTarget
