import WindbgMcp.KdTarget.WaitWake
import WindbgMcp.Library.Run

/-! What the serving loop keeps true of wakes, queued messages and answered
break-ins over every interleaving with the reader. -/
namespace WindbgMcp.KdTarget

open KdWire Library

namespace WaitWakeState

theorem request_cases (state : WaitWakeState) (expected : Option Nat) (wake : Wake) :
    let next := (state.request expected wake).2
    (next.pending = state.pending ++ [wake] ∧ next.active = state.active ∧
        (expected = none ∨ isBreakIn wake = true)) ∨
      (next.pending = state.pending ∧ next.active = state.active) ∨
      (next.pending = state.pending ∧
        ∃ wait, next.active = some wait ∧ state.active.isSome ∧ wait.reason = some wake) := by
  simp only [request]
  split
  · cases expected with
    | none => exact Or.inl ⟨rfl, rfl, Or.inl rfl⟩
    | some wait => exact Or.inr (Or.inl ⟨rfl, rfl⟩)
  · rename_i wait hactive
    split
    · exact Or.inr (Or.inl ⟨rfl, rfl⟩)
    split
    · rename_i hdefer
      exact Or.inl ⟨rfl, rfl, Or.inr hdefer.2⟩
    · exact Or.inr (Or.inr ⟨rfl, _, rfl, by simp [hactive], rfl⟩)

theorem begin_cases (state : WaitWakeState) (activity : WaitActivity) (breakIn : BreakInPolicy) :
    ((state.begin activity breakIn).2.pending = state.pending ∧
        ∃ wait, (state.begin activity breakIn).2.active = some wait ∧ wait.reason = none) ∨
      ((state.begin activity breakIn).2.pending = state.pending.tail ∧
        ∃ wait, (state.begin activity breakIn).2.active = some wait ∧
          wait.reason = state.pending.head?) := by
  unfold «begin»
  split
  · exact Or.inl ⟨rfl, _, rfl, rfl⟩
  · exact Or.inr ⟨rfl, _, rfl, rfl⟩

theorem consumeFrame_active (state : WaitWakeState) (frame : Frame) :
    (state.consumeFrame frame).active = state.active := by
  unfold consumeFrame
  split <;> rfl

theorem pairs_of_wakeReason {reason : WaitWakeReason} {frame : Frame}
    (h : (TransportMessage.frame frame).wakeReason = some reason) : pairs reason frame = true := by
  cases frame with
  | breakIn =>
    simp only [TransportMessage.wakeReason, Option.some.injEq] at h
    subst h
    rfl
  | malformed why fatal =>
    cases fatal <;> simp [TransportMessage.wakeReason] at h
    subst h
    rfl
  | control packetType id =>
    simp only [TransportMessage.wakeReason, Option.ite_none_right_eq_some,
      Option.some.injEq] at h
    obtain ⟨rfl, rfl⟩ := h
    rfl
  | data packet => cases h

/-- Dequeuing a message and consuming its frame keeps the pending reasons in the
order of the messages that remain. -/
theorem consumeFrame_sublist {state : WaitWakeState} {frame : Frame} {serial : Nat}
    {rest : List Queued}
    (h : state.pending.Sublist ((⟨.frame frame, serial⟩ :: rest).filterMap Queued.wake?)) :
    (state.consumeFrame frame).pending.Sublist (rest.filterMap Queued.wake?) := by
  rw [List.filterMap_cons] at h
  cases hpending : state.pending with
  | nil =>
    unfold consumeFrame
    split <;> simp [hpending]
  | cons wake later =>
    rw [hpending] at h
    by_cases hpairs : pairs wake.reason frame = true
    · have hconsumed : (state.consumeFrame frame).pending = later := by
        simp [consumeFrame, hpending, hpairs]
      rw [hconsumed]
      split at h
      · exact (List.sublist_cons_self wake later).trans h
      · exact h.of_cons_cons
    · have hkept : (state.consumeFrame frame).pending = wake :: later := by
        simp [consumeFrame, hpending, hpairs]
      rw [hkept]
      split at h
      · exact h
      · rename_i own hown
        -- the frame's own reason would have paired, so the first one is a later message's
        rcases List.cons_sublist_cons'.mp h with hlater | ⟨rfl, -⟩
        · exact hlater
        · obtain ⟨reason, hreason, rfl⟩ := Option.map_eq_some_iff.mp hown
          exact absurd (pairs_of_wakeReason hreason) hpairs

end WaitWakeState

namespace Server

variable {report : List UInt8}

theorem sendStop_eq (report : List UInt8) (server : Server) :
    ∃ link mode, server.sendStop report = { server with link := link, mode := mode } := by
  unfold sendStop
  split
  · exact ⟨_, .stopped, rfl⟩
  · exact ⟨_, .ended, rfl⟩

structure Numbered (undelivered : List Queued) (decoded : List TransportMessage) : Prop where
  ascends : undelivered.Pairwise (·.serial < ·.serial)
  names : ∀ queued ∈ undelivered, decoded[queued.serial]? = some queued.message

theorem Numbered.lt_length {undelivered : List Queued} {decoded : List TransportMessage}
    (h : Numbered undelivered decoded) {queued : Queued} (hmem : queued ∈ undelivered) :
    queued.serial < decoded.length :=
  (List.getElem?_eq_some_iff.mp (h.names queued hmem)).1

theorem Numbered.push {undelivered : List Queued} {decoded : List TransportMessage}
    (h : Numbered undelivered decoded) (message : TransportMessage) :
    Numbered (undelivered ++ [⟨message, decoded.length⟩]) (decoded ++ [message]) := by
  refine ⟨?_, ?_⟩
  · rw [List.pairwise_append]
    refine ⟨h.ascends, List.pairwise_singleton _ _, ?_⟩
    intro queued hqueued last hlast
    rw [List.mem_singleton.mp hlast]
    exact h.lt_length hqueued
  · intro queued hqueued
    rcases List.mem_append.mp hqueued with hqueued | hqueued
    · rw [List.getElem?_append_left (h.lt_length hqueued)]
      exact h.names queued hqueued
    · rw [List.mem_singleton.mp hqueued]
      simp

theorem Numbered.tail {first : Queued} {rest : List Queued} {decoded : List TransportMessage}
    (h : Numbered (first :: rest) decoded) : Numbered rest decoded :=
  ⟨(List.pairwise_cons.mp h.ascends).2,
    fun queued hqueued => h.names queued (List.mem_cons_of_mem _ hqueued)⟩

theorem Numbered.ne_first {first queued : Queued} {rest : List Queued}
    {decoded : List TransportMessage} (h : Numbered (first :: rest) decoded)
    (hmem : queued ∈ rest) : queued.serial ≠ first.serial :=
  Nat.ne_of_gt ((List.pairwise_cons.mp h.ascends).1 queued hmem)

theorem Numbered.eq_of_serial_eq {undelivered : List Queued}
    {decoded : List TransportMessage} (h : Numbered undelivered decoded) {left right : Queued}
    (hleft : left ∈ undelivered) (hright : right ∈ undelivered)
    (hserial : left.serial = right.serial) : left = right := by
  have hmessage : some left.message = some right.message := by
    rw [← h.names left hleft, ← h.names right hright, hserial]
  cases left
  cases right
  simp_all

/-- The unconditional bookkeeping: reasons belong to undelivered messages, and
every break-in decoded is undelivered or answered. -/
structure Tracked (server : Server) : Prop where
  numbered : Numbered server.undelivered server.decoded
  pending : server.wake.pending.Sublist (server.undelivered.filterMap Queued.wake?)
  reason : ∀ wake, server.wake.active.bind (·.reason) = some wake → wake.reason = .breakIn →
    wake ∈ server.undelivered.filterMap Queued.wake?
  waiting : server.wake.active.isSome → server.mode = .running
  answered : ∀ answer ∈ server.answers, answer.1 < server.decoded.length ∧
    ∀ queued ∈ server.undelivered, queued.serial ≠ answer.1
  accounted : ∀ serial, server.decoded[serial]? = some (.frame .breakIn) →
    (∃ queued ∈ server.undelivered, queued.serial = serial) ∨
      ∃ answer, (serial, answer) ∈ server.answers

theorem tracked_start (report : List UInt8) : (start report).Tracked where
  numbered := ⟨.nil, by simp [start, undelivered]⟩
  pending := List.nil_sublist _
  reason := by simp [start]
  waiting := by simp [start]
  answered := by simp [start]
  accounted := by simp [start]

theorem Tracked.sendStop {server : Server} (h : server.Tracked)
    (hidle : server.wake.active = none) : (server.sendStop report).Tracked := by
  obtain ⟨link, mode, heq⟩ := sendStop_eq report server
  rw [heq]
  exact ⟨h.numbered, h.pending, h.reason, by simp [hidle], h.answered, h.accounted⟩

theorem Tracked.finish {server : Server} (h : server.Tracked) (mode : Mode) :
    ({ server with wake := server.wake.finish.2, mode := mode } : Server).Tracked where
  numbered := h.numbered
  pending := h.pending
  reason := by simp [WaitWakeState.finish]
  waiting := by simp [WaitWakeState.finish]
  answered := h.answered
  accounted := h.accounted

def raise (server : Server) (queued : Queued) : WaitWakeState :=
  match queued.wake? with
  | some wake => (server.wake.request none wake).2
  | none => server.wake

theorem raise_cases (server : Server) (queued : Queued) :
    ((server.raise queued).active = server.wake.active ∧
        ((server.raise queued).pending = server.wake.pending ∨
          ∃ wake, queued.wake? = some wake ∧
            (server.raise queued).pending = server.wake.pending ++ [wake])) ∨
      ((server.raise queued).pending = server.wake.pending ∧
        ∃ wait wake, queued.wake? = some wake ∧ (server.raise queued).active = some wait ∧
          server.wake.active.isSome ∧ wait.reason = some wake) := by
  unfold raise
  split
  · rename_i wake hwake
    rcases server.wake.request_cases none wake with
      ⟨hpending, hactive, -⟩ | ⟨hpending, hactive⟩ | ⟨hpending, wait, hactive, hwas, hreason⟩
    · exact Or.inl ⟨hactive, Or.inr ⟨wake, hwake, hpending⟩⟩
    · exact Or.inl ⟨hactive, Or.inl hpending⟩
    · exact Or.inr ⟨hpending, wait, wake, hwake, hactive, hwas, hreason⟩
  · exact Or.inl ⟨rfl, Or.inl rfl⟩

theorem step_decode (server : Server) (message : TransportMessage) (hhand : server.hand = none) :
    server.step report (.decode message) =
      { server with
        wake := server.raise ⟨message, server.decoded.length⟩
        hand := some ⟨message, server.decoded.length⟩
        decoded := server.decoded ++ [message] } := by
  rw [step, hhand]
  rfl

theorem undelivered_decode (report : List UInt8) (server : Server) (message : TransportMessage)
    (hhand : server.hand = none) :
    (server.step report (.decode message)).undelivered =
      server.undelivered ++ [⟨message, server.decoded.length⟩] := by
  simp [step_decode server message hhand, undelivered, hhand]

theorem Tracked.decode {server : Server} (h : server.Tracked) (message : TransportMessage) :
    (server.step report (.decode message)).Tracked := by
  cases hhand : server.hand with
  | some queued =>
    simp only [step, hhand]
    exact h
  | none =>
    have hundelivered := undelivered_decode report server message hhand
    have hwakes (wake : Wake) (hmem : wake ∈ server.undelivered.filterMap Queued.wake?) :
        wake ∈ (server.undelivered ++
          [(⟨message, server.decoded.length⟩ : Queued)]).filterMap Queued.wake? := by
      rw [List.filterMap_append]
      exact List.mem_append_left _ hmem
    have hcases := server.raise_cases ⟨message, server.decoded.length⟩
    constructor
    · rw [hundelivered, step_decode server message hhand]
      exact h.numbered.push message
    · rw [hundelivered, step_decode server message hhand, List.filterMap_append]
      rcases hcases with ⟨-, hpending | ⟨wake, hwake, hpending⟩⟩ | ⟨hpending, -⟩
      · simpa [hpending] using h.pending.trans (List.sublist_append_left _ _)
      · simpa [hpending, hwake] using h.pending
      · simpa [hpending] using h.pending.trans (List.sublist_append_left _ _)
    · rw [hundelivered, step_decode server message hhand]
      intro wake hreason hbreakIn
      rcases hcases with ⟨hactive, -⟩ | ⟨-, wait, own, hown, hactive, -, hwait⟩
      · exact hwakes wake (h.reason wake (by simpa [hactive] using hreason) hbreakIn)
      · simp only [hactive, Option.bind_some, hwait, Option.some.injEq] at hreason
        subst hreason
        simp [hown]
    · rw [step_decode server message hhand]
      intro hactive
      rcases hcases with ⟨hsame, -⟩ | ⟨-, wait, own, hown, hset, hwas, -⟩
      · exact h.waiting (by simpa [hsame] using hactive)
      · exact h.waiting hwas
    · rw [hundelivered, step_decode server message hhand]
      intro answer hanswer
      obtain ⟨hlt, hdelivered⟩ := h.answered answer hanswer
      refine ⟨by simp; omega, fun queued hqueued => ?_⟩
      rcases List.mem_append.mp hqueued with hqueued | hqueued
      · exact hdelivered queued hqueued
      · rw [List.mem_singleton.mp hqueued]
        exact Nat.ne_of_gt hlt
    · rw [hundelivered, step_decode server message hhand]
      intro serial hserial
      by_cases hlt : serial < server.decoded.length
      · rw [List.getElem?_append_left hlt] at hserial
        rcases h.accounted serial hserial with ⟨queued, hqueued, rfl⟩ | hanswered
        · exact Or.inl ⟨queued, List.mem_append_left _ hqueued, rfl⟩
        · exact Or.inr hanswered
      · have hlast : serial = server.decoded.length := by
          have := (List.getElem?_eq_some_iff.mp hserial).1
          simp only [List.length_append, List.length_singleton] at this
          omega
        subst hlast
        exact Or.inl ⟨_, List.mem_append_right _ (List.mem_singleton_self _), rfl⟩

theorem Tracked.queue {server : Server} (h : server.Tracked) :
    (server.step report .queue).Tracked := by
  have hundelivered : (server.step report .queue).undelivered = server.undelivered := by
    simp [step, undelivered]
  exact ⟨by rw [hundelivered]; exact h.numbered, by rw [hundelivered]; exact h.pending,
    by rw [hundelivered]; exact h.reason, h.waiting, by rw [hundelivered]; exact h.answered,
    by rw [hundelivered]; exact h.accounted⟩

theorem Tracked.idleExpires {server : Server} (h : server.Tracked) (wait : Nat) :
    (server.step report (.idleExpires wait)).Tracked := by
  have hcases := server.wake.request_cases (some wait) ⟨.idle, server.decoded.length⟩
  have hidle : WaitWakeState.isBreakIn ⟨.idle, server.decoded.length⟩ = false := rfl
  simp only [hidle, reduceCtorEq, Bool.false_eq_true, or_self, and_false, false_or] at hcases
  simp only [step]
  constructor
  · exact h.numbered
  · rcases hcases with ⟨hpending, -⟩ | ⟨hpending, -⟩
    · rw [hpending]
      exact h.pending
    · rw [hpending]
      exact h.pending
  · intro wake hreason hbreakIn
    rcases hcases with ⟨-, hactive⟩ | ⟨-, active, hactive, -, hset⟩
    · exact h.reason wake (by simpa [hactive] using hreason) hbreakIn
    · simp only [hactive, Option.bind_some, hset, Option.some.injEq] at hreason
      subst hreason
      cases hbreakIn
  · intro hactive
    rcases hcases with ⟨-, hsame⟩ | ⟨-, active, hset, hwas, -⟩
    · exact h.waiting (by simpa [hsame] using hactive)
    · exact h.waiting hwas
  · exact h.answered
  · exact h.accounted

/-- Everything that serving one dequeued frame can do.  A break-in frame is
answered once, and reads and clears the flag; a reset clears it too. -/
structure Serves (server next : Server) (frame : Frame) (serial : Nat) : Prop where
  undelivered : next.undelivered = server.undelivered
  decoded : next.decoded = server.decoded
  served : next.served = server.served
  wake : next.wake = server.wake.consumeFrame frame ∨
    ∃ activity breakIn, next.mode = .running ∧
      next.wake = ((server.wake.consumeFrame frame).begin activity breakIn).2
  breakIn : frame = .breakIn → next.stopped.servedWhileRunning = false ∧
    ∃ answer, next.answers = server.answers ++ [(serial, answer)] ∧
      (answer = .consumed ↔ server.stopped.servedWhileRunning = true)
  other : frame ≠ .breakIn → next.answers = server.answers ∧
    (next.stopped.servedWhileRunning = server.stopped.servedWhileRunning ∨
      next.stopped.servedWhileRunning = false ∧ ∃ id, frame = .control packetTypeReset id)

theorem receive_breakIn_iff (link : TargetLink) (frame : Frame) :
    (link.receive frame).1.breakIn = true ↔ frame = .breakIn := by
  cases frame with
  | breakIn => simp [TargetLink.receive]
  | malformed why fatal => simp [TargetLink.receive, Inbound.quiet]
  | control packetType id =>
    simp only [TargetLink.receive, reduceCtorEq, iff_false]
    split_ifs
    · exact Bool.false_ne_true
    · exact Bool.false_ne_true
    · split <;> exact Bool.false_ne_true
    · exact Bool.false_ne_true
  | data packet =>
    simp only [TargetLink.receive, reduceCtorEq, iff_false]
    split_ifs <;> exact Bool.false_ne_true

theorem receive_protocolError_ne_breakIn {link : TargetLink} {frame : Frame}
    (h : (link.receive frame).1.protocolError.isSome = true) : frame ≠ .breakIn := by
  rintro rfl
  cases h

theorem reset_of_receive_peerReset {link : TargetLink} {frame : Frame}
    (h : (link.receive frame).1.peerReset = true) : ∃ id, frame = .control packetTypeReset id := by
  cases frame with
  | breakIn => cases h
  | malformed why fatal => cases h
  | control packetType id =>
    by_cases hreset : packetType = packetTypeReset
    · exact ⟨id, by rw [hreset]⟩
    · simp only [TargetLink.receive, hreset, if_false] at h
      split_ifs at h
      · cases h
      · split at h <;> cases h
      · cases h
  | data packet =>
    simp only [TargetLink.receive] at h
    split_ifs at h <;> cases h

/-- What serving a packet leaves alone, and how it may start a wait. -/
structure ServesPacket (server next : Server) : Prop where
  undelivered : next.undelivered = server.undelivered
  decoded : next.decoded = server.decoded
  served : next.served = server.served
  answers : next.answers = server.answers
  flag : next.stopped.servedWhileRunning = server.stopped.servedWhileRunning
  wake : next.wake = server.wake ∨ ∃ activity breakIn, next.mode = .running ∧
    next.wake = (server.wake.begin activity breakIn).2

theorem sendStop_spec (server : Server) (stopped : StoppedBreakIn)
    (hflag : stopped.servedWhileRunning = server.stopped.servedWhileRunning) :
    ServesPacket server (sendStop report { server with stopped := stopped }) := by
  obtain ⟨link, mode, heq⟩ := sendStop_eq report { server with stopped := stopped }
  rw [heq]
  exact ⟨rfl, rfl, rfl, rfl, hflag, Or.inl rfl⟩

theorem serveContinue_spec (server : Server) (trace : Bool) (handling : Handling) :
    ServesPacket server (server.serveContinue report trace handling) := by
  simp only [serveContinue]
  split
  · exact sendStop_spec server _ rfl
  split
  · exact sendStop_spec server _ rfl
  · exact ⟨rfl, rfl, rfl, rfl, rfl, Or.inr ⟨_, _, rfl, rfl⟩⟩

theorem servePacket_spec (report : List UInt8) (server : Server) (packet : DataPacket)
    (handling : Handling) : ServesPacket server (server.servePacket report packet handling) := by
  simp only [servePacket]
  split
  · exact ⟨rfl, rfl, rfl, rfl, rfl, Or.inl rfl⟩
  split
  · exact serveContinue_spec server _ handling
  · split <;> exact ⟨rfl, rfl, rfl, rfl, rfl, Or.inl rfl⟩

theorem serveBreakIn_spec (report : List UInt8) (server : Server) (serial : Nat) :
    let next := server.serveBreakIn report serial
    next.undelivered = server.undelivered ∧ next.decoded = server.decoded ∧
      next.served = server.served ∧ next.wake = server.wake ∧
      next.stopped.servedWhileRunning = false ∧
      ∃ answer, next.answers = server.answers ++ [(serial, answer)] ∧
        (answer = .consumed ↔ server.stopped.servedWhileRunning = true) := by
  simp only [serveBreakIn]
  split
  · rename_i htaken
    exact ⟨rfl, rfl, rfl, rfl, rfl, .consumed, rfl, fun _ => htaken, fun _ => rfl⟩
  · rename_i htaken
    have hclear (answer : BreakInAnswer) (hne : answer ≠ .consumed) :
        answer = .consumed ↔ server.stopped.servedWhileRunning = true :=
      ⟨fun h => absurd h hne, fun h => absurd h htaken⟩
    simp only [StoppedBreakIn.receive, StoppedBreakIn.takeServedFrame]
    by_cases hawaiting : server.link.awaitingAcknowledgement = true
    · simp only [hawaiting, if_true, Bool.false_eq_true, if_false]
      exact ⟨rfl, trivial, trivial, trivial, trivial, .deferred, rfl, hclear _ (by decide)⟩
    · simp only [hawaiting, if_true, Bool.false_eq_true, if_false]
      obtain ⟨link, mode, heq⟩ := sendStop_eq report
        { server with
          stopped := ⟨server.stopped.deferred, false⟩
          answers := server.answers ++ [(serial, .resent)] }
      rw [heq]
      exact ⟨rfl, rfl, rfl, rfl, rfl, .resent, rfl, hclear _ (by decide)⟩

theorem serveFrame_spec (report : List UInt8) (server : Server) (frame : Frame) (serial : Nat) (handling : Handling) :
    Serves server (server.serveFrame report frame serial handling) frame serial := by
  simp only [serveFrame]
  split
  · rename_i herror
    exact ⟨rfl, rfl, rfl, Or.inl rfl, fun h => absurd h (receive_protocolError_ne_breakIn herror),
      fun _ => ⟨rfl, Or.inl rfl⟩⟩
  split
  · rename_i hbreakIn
    have hframe := (receive_breakIn_iff _ _).mp hbreakIn
    obtain ⟨hundelivered, hdecoded, hserved, hwake, hflag, hanswer⟩ :=
      serveBreakIn_spec report
        { server with
          wake := server.wake.consumeFrame frame
          link := (server.link.receive frame).2 } serial
    exact ⟨hundelivered, hdecoded, hserved, Or.inl hwake, fun _ => ⟨hflag, hanswer⟩,
      fun h => absurd hframe h⟩
  rename_i hbreakIn
  have hframe : frame ≠ .breakIn := fun h => hbreakIn ((receive_breakIn_iff _ _).mpr h)
  split
  · rename_i hreset
    obtain ⟨link, mode, heq⟩ := sendStop_eq report
      { server with
        wake := server.wake.consumeFrame frame
        link := (server.link.receive frame).2
        stopped := server.stopped.reset }
    rw [heq]
    exact ⟨rfl, rfl, rfl, Or.inl rfl, fun h => absurd h hframe,
      fun _ => ⟨rfl, Or.inr ⟨rfl, reset_of_receive_peerReset hreset⟩⟩⟩
  split
  · rename_i packet hreceived
    have hpacket := servePacket_spec report
      { server with
        wake := server.wake.consumeFrame frame
        link := (server.link.receive frame).2 } packet handling
    exact ⟨hpacket.undelivered, hpacket.decoded, hpacket.served, hpacket.wake,
      fun h => absurd h hframe, fun _ => ⟨hpacket.answers, Or.inl hpacket.flag⟩⟩
  · exact ⟨rfl, rfl, rfl, Or.inl rfl, fun h => absurd h hframe, fun _ => ⟨rfl, Or.inl rfl⟩⟩

theorem undelivered_cons {server : Server} {first : Queued} {rest : List Queued}
    (hqueue : server.queue = first :: rest) :
    server.undelivered = first :: ({ server with queue := rest } : Server).undelivered := by
  simp [undelivered, hqueue]

theorem begin_sublist {state : WaitWakeState} {activity : WaitActivity}
    {breakIn : BreakInPolicy} {wakes : List Wake} (h : state.pending.Sublist wakes) :
    (state.begin activity breakIn).2.pending.Sublist wakes ∧
      ∀ wake, (state.begin activity breakIn).2.active.bind (·.reason) = some wake →
        wake ∈ wakes := by
  rcases state.begin_cases activity breakIn with
    ⟨hpending, wait, hactive, hreason⟩ | ⟨hpending, wait, hactive, hreason⟩
  · refine ⟨by rw [hpending]; exact h, ?_⟩
    intro wake hwake
    simp [hactive, hreason] at hwake
  · refine ⟨by rw [hpending]; exact (List.tail_sublist _).trans h, ?_⟩
    intro wake hwake
    simp only [hactive, Option.bind_some, hreason] at hwake
    exact h.subset (List.mem_of_mem_head? hwake)

theorem Tracked.idle {server : Server} (h : server.Tracked) (hstopped : server.mode = .stopped) :
    server.wake.active = none := by
  cases hactive : server.wake.active with
  | none => rfl
  | some wait =>
    have hrunning := h.waiting (by rw [hactive]; rfl)
    rw [hstopped] at hrunning
    cases hrunning

theorem Serves.answers_eq {server next : Server} {frame : Frame} {serial : Nat}
    (h : Serves server next frame serial) :
    ∃ added : List (Nat × BreakInAnswer), next.answers = server.answers ++ added ∧
      (∀ answer ∈ added, answer.1 = serial) ∧
      (frame = .breakIn → ∃ answer, (serial, answer) ∈ added) := by
  by_cases hframe : frame = .breakIn
  · obtain ⟨-, given, hgiven, -⟩ := h.breakIn hframe
    refine ⟨_, hgiven, ?_, fun _ => ⟨given, List.mem_singleton_self _⟩⟩
    intro answer hanswer
    rw [List.mem_singleton.mp hanswer]
  · refine ⟨[], ?_, by simp, fun h => absurd h hframe⟩
    rw [(h.other hframe).1, List.append_nil]

/-- The wakes left are among those of the messages left, and a wait goes with a
running target. -/
theorem Serves.wakes {server next : Server} {frame : Frame} {serial : Nat} {wakes : List Wake}
    (h : Serves server next frame serial)
    (hkept : (server.wake.consumeFrame frame).pending.Sublist wakes)
    (hidle : (server.wake.consumeFrame frame).active = none) :
    next.wake.pending.Sublist wakes ∧
      (∀ wake, next.wake.active.bind (·.reason) = some wake → wake ∈ wakes) ∧
      (next.wake.active.isSome → next.mode = .running) := by
  rcases h.wake with hwake | ⟨activity, breakIn, hmode, hwake⟩
  · rw [hwake, hidle]
    exact ⟨hkept, by simp, by simp⟩
  · rw [hwake]
    exact ⟨(begin_sublist hkept).1, (begin_sublist hkept).2, fun _ => hmode⟩

theorem Tracked.serveFrame {server : Server} (h : server.Tracked) {frame : Frame}
    {serial : Nat} {rest : List Queued} (handling : Handling) (hstopped : server.mode = .stopped)
    (hqueue : server.queue = ⟨.frame frame, serial⟩ :: rest) :
    (serveFrame report { server with queue := rest } frame serial handling).Tracked := by
  have hserves := serveFrame_spec report { server with queue := rest } frame serial
    handling
  have hundelivered := undelivered_cons hqueue
  have hnumbered := h.numbered
  rw [hundelivered] at hnumbered
  have hkept : (server.wake.consumeFrame frame).pending.Sublist
      (({ server with queue := rest } : Server).undelivered.filterMap Queued.wake?) := by
    have hpending := h.pending
    rw [hundelivered] at hpending
    exact WaitWakeState.consumeFrame_sublist hpending
  have hconsumed : (server.wake.consumeFrame frame).active = none := by
    rw [WaitWakeState.consumeFrame_active, h.idle hstopped]
  obtain ⟨hpending, hreason, hwaiting⟩ := hserves.wakes hkept hconsumed
  obtain ⟨added, hanswers, hown, hbreakIn⟩ := hserves.answers_eq
  constructor
  · rw [hserves.undelivered, hserves.decoded]
    exact hnumbered.tail
  · rw [hserves.undelivered]
    exact hpending
  · rw [hserves.undelivered]
    exact fun wake hwake _ => hreason wake hwake
  · exact hwaiting
  · rw [hserves.undelivered, hserves.decoded, hanswers]
    intro answer hanswer
    rcases List.mem_append.mp hanswer with hanswer | hanswer
    · obtain ⟨hlt, hdelivered⟩ := h.answered answer hanswer
      rw [hundelivered] at hdelivered
      exact ⟨hlt, fun queued hqueued => hdelivered queued (List.mem_cons_of_mem _ hqueued)⟩
    · rw [hown answer hanswer]
      exact ⟨hnumbered.lt_length List.mem_cons_self,
        fun queued hqueued => hnumbered.ne_first hqueued⟩
  · rw [hserves.undelivered, hserves.decoded, hanswers]
    intro other hother
    rcases h.accounted other hother with ⟨queued, hqueued, hserial⟩ | ⟨answer, hanswer⟩
    · rw [hundelivered] at hqueued
      rcases List.mem_cons.mp hqueued with rfl | hqueued
      · -- the frame just served is the break-in itself
        have hnamed := hnumbered.names _ List.mem_cons_self
        rw [hserial, hother] at hnamed
        injection hnamed with hnamed
        injection hnamed with hnamed
        obtain ⟨given, hgiven⟩ := hbreakIn hnamed.symm
        exact Or.inr ⟨given, List.mem_append_right _ (hserial ▸ hgiven)⟩
      · exact Or.inl ⟨queued, hqueued, hserial⟩
    · exact Or.inr ⟨answer, List.mem_append_left _ hanswer⟩

def rendezvous? (server : Server) : Move → Option Nat
  | .waitEnds (.breakWake true) =>
    if server.mode = .running ∧ server.wake.active.any (·.activity.breakRequested) then
      match server.wake.finish.1 with
      | some ⟨.breakIn, serial⟩ => some serial
      | _ => none
    else none
  | _ => none

theorem step_waitEnds_cases (report : List UInt8) (server : Server) (how : WaitEnd) :
    server.step report (.waitEnds how) = server ∨
      (∃ link mode, server.step report (.waitEnds how) =
        { server with wake := server.wake.finish.2, link := link, mode := mode }) ∨
      ∃ serial link mode, server.rendezvous? (.waitEnds how) = some serial ∧
        server.wake.active.bind (·.reason) = some ⟨.breakIn, serial⟩ ∧
        server.step report (.waitEnds how) =
          { server with
            wake := server.wake.finish.2
            link := link
            mode := mode
            stopped := server.stopped.served
            served := server.served ++ [serial] } := by
  by_cases hrunning : server.mode = .running
  · simp only [step, hrunning, if_true]
    split
    · obtain ⟨link, mode, heq⟩ := sendStop_eq report
        { server with wake := server.wake.finish.2 }
      exact Or.inr (Or.inl ⟨link, mode, heq⟩)
    · rename_i serial hreason
      split
      · rename_i hbreakWakes
        obtain ⟨link, mode, heq⟩ := sendStop_eq report
          { server with
            wake := server.wake.finish.2
            stopped := server.stopped.served
            served := server.served ++ [serial] }
        refine Or.inr (Or.inr ⟨serial, link, mode, ?_, hreason, heq⟩)
        simp [rendezvous?, hrunning, hbreakWakes, hreason]
      · exact Or.inl rfl
    · exact Or.inr (Or.inl ⟨server.link, .ended, rfl⟩)
  · exact Or.inl (by simp [step, hrunning])

theorem Tracked.waitEnds {server : Server} (h : server.Tracked) (how : WaitEnd) :
    (server.step report (.waitEnds how)).Tracked := by
  rcases step_waitEnds_cases report server how with
    heq | ⟨link, mode, heq⟩ | ⟨serial, link, mode, -, -, heq⟩
  · rw [heq]
    exact h
  · rw [heq]
    have hfinished := h.finish mode
    exact ⟨hfinished.numbered, hfinished.pending, hfinished.reason, hfinished.waiting,
      hfinished.answered, hfinished.accounted⟩
  · rw [heq]
    have hfinished := h.finish mode
    exact ⟨hfinished.numbered, hfinished.pending, hfinished.reason, hfinished.waiting,
      hfinished.answered, hfinished.accounted⟩

theorem Tracked.resumeRefused {server : Server} (h : server.Tracked) :
    (server.step report .resumeRefused).Tracked := by
  simp only [step]
  split
  · exact (h.finish server.mode).sendStop rfl
  · exact h

theorem step_dequeue_cases (report : List UInt8) (server : Server) (handling : Handling) :
    server.step report (.dequeue handling) = server ∨
      (server.mode = .stopped ∧
        server.step report (.dequeue handling) = { server with mode := .ended }) ∨
      ∃ frame serial rest, server.mode = .stopped ∧
        server.queue = ⟨.frame frame, serial⟩ :: rest ∧
        server.step report (.dequeue handling) =
          serveFrame report { server with queue := rest } frame serial handling := by
  simp only [step]
  split
  · rename_i frame serial rest hmode hqueue
    exact Or.inr (Or.inr ⟨frame, serial, rest, hmode, hqueue, rfl⟩)
  · rename_i hmode hqueue
    exact Or.inr (Or.inl ⟨hmode, rfl⟩)
  · exact Or.inl rfl

theorem Tracked.dequeue {server : Server} (h : server.Tracked) (handling : Handling) :
    (server.step report (.dequeue handling)).Tracked := by
  rcases step_dequeue_cases report server handling with
    heq | ⟨hstopped, heq⟩ | ⟨frame, serial, rest, hstopped, hqueue, heq⟩
  · rw [heq]
    exact h
  · rw [heq]
    exact ⟨h.numbered, h.pending, h.reason, by simp [h.idle hstopped], h.answered, h.accounted⟩
  · rw [heq]
    exact h.serveFrame handling hstopped hqueue

theorem Tracked.step {server : Server} (h : server.Tracked) (move : Move) :
    (server.step report move).Tracked := by
  cases move with
  | decode message => exact h.decode message
  | queue => exact h.queue
  | dequeue handling => exact h.dequeue handling
  | resumeRefused => exact h.resumeRefused
  | waitEnds how => exact h.waitEnds how
  | idleExpires wait => exact h.idleExpires wait

end Server

end WindbgMcp.KdTarget
