import WindbgMcp.KdWire.Link
import WindbgMcp.Library.StopAndWait

/-! A stop-and-wait peer and the target link over two faulty channels.  The
channels carry frames in order and may lose, repeat or corrupt any of them; what
the target takes is the stop-and-wait order of the library, seen through the
parity of the sequence number. -/
namespace WindbgMcp.KdWire

open Library

def framesOf (bytes : List UInt8) : List Frame :=
  (decode [bytes]).1.map fun
    | .ok frame => frame
    | .error error => .malformed error.display false

theorem decode_message (message : Message) :
    decode [message.bytes] = ([.ok message.frame], Decoder.new) := by
  have h := decode_transmissions [⟨[], by simp, message⟩]
  simpa [Transmission.bytes] using h

theorem framesOf_control (packetType : UInt16) (id : UInt32) :
    framesOf (control packetType id) = [.control packetType id] := by
  have h := decode_message (.control packetType id)
  simp only [Message.bytes, Message.frame] at h
  simp [framesOf, h]

theorem framesOf_data {packetType : UInt16} {id : UInt32} {payload packet : List UInt8}
    (h : data packetType id payload = .ok packet) :
    framesOf packet = [.data ⟨packetType, id, payload⟩] := by
  have hfits := length_le_of_data_ok h
  have hencoded := Message.data_eq_bytes ⟨packetType, id, payload⟩ hfits
  have hpacket : packet = (Message.data ⟨packetType, id, payload⟩ hfits).bytes := by
    rw [h] at hencoded
    exact Except.ok.inj hencoded
  rw [framesOf, hpacket, decode_message]
  rfl

def Frame.packet? : Frame → Option DataPacket
  | .data packet => some packet
  | _ => none

def Frame.acknowledged? : Frame → Option UInt32
  | .control packetType id => if packetType = packetTypeAcknowledge then some id else none
  | _ => none

def Frame.reset? : Frame → Option UInt32
  | .control packetType id => if packetType = packetTypeReset then some id else none
  | _ => none

def Frame.isChatter : Frame → Bool
  | .control packetType _ => packetType != packetTypeReset
  | .data _ => false
  | _ => true

abbrev Payload := UInt16 × List UInt8

structure Exchange where
  given : List Payload
  /-- The peer's place in `given`: everything before it has been acknowledged. -/
  current : Nat
  toTarget : List Frame
  link : TargetLink
  toPeer : List Frame
  /-- What `receive` has returned as `inbound.packet`, in order. -/
  delivered : List Payload

inductive Direction where
  | toTarget
  | toPeer
deriving DecidableEq, Repr

inductive Move where
  | transmit
  | chatter (frame : Frame)
  | targetReceives
  | targetSends (packetType : UInt16) (payload : List UInt8)
  | peerReceives
  | lose (direction : Direction) (index : Nat)
  | duplicate (direction : Direction) (index : Nat)
  | corrupt (direction : Direction) (index : Nat) (why : String) (fatal : Bool)
deriving DecidableEq, Repr

namespace Exchange

def start (given : List Payload) : Exchange := ⟨given, 0, [], TargetLink.new, [], []⟩

def packetAt (given : List Payload) (number : Nat) : DataPacket :=
  let message := given.getD number (0, [])
  ⟨message.1, sequenceId number, message.2⟩

def onChannel (exchange : Exchange) (fault : List Frame → List Frame) : Direction → Exchange
  | .toTarget => { exchange with toTarget := fault exchange.toTarget }
  | .toPeer => { exchange with toPeer := fault exchange.toPeer }

def repeatAt (index : Nat) (channel : List Frame) : List Frame :=
  channel.take index ++ ((channel.drop index).take 1 ++ channel.drop index)

def step (exchange : Exchange) : Move → Exchange
  | .transmit =>
    if exchange.current < exchange.given.length then
      { exchange with
        toTarget := exchange.toTarget ++ [.data (packetAt exchange.given exchange.current)] }
    else exchange
  | .chatter frame =>
    if frame.isChatter then { exchange with toTarget := exchange.toTarget ++ [frame] }
    else exchange
  | .targetReceives =>
    match exchange.toTarget with
    | [] => exchange
    | frame :: rest =>
      let answer := exchange.link.receive frame
      { exchange with
        toTarget := rest
        link := answer.2
        toPeer := exchange.toPeer ++ answer.1.writes.flatMap framesOf
        delivered := exchange.delivered ++
          answer.1.packet.toList.map fun packet => (packet.packetType, packet.payload) }
  | .targetSends packetType payload =>
    match exchange.link.send packetType payload with
    | (.ok packet, link) =>
      { exchange with link := link, toPeer := exchange.toPeer ++ framesOf packet }
    | (.error _, link) => { exchange with link := link }
  | .peerReceives =>
    match exchange.toPeer with
    | [] => exchange
    | frame :: rest =>
      { exchange with
        toPeer := rest
        current :=
          if exchange.current < exchange.given.length ∧
              frame.acknowledged? = some (sequenceId exchange.current)
          then exchange.current + 1 else exchange.current }
  | .lose direction index => exchange.onChannel (·.eraseIdx index) direction
  | .duplicate direction index => exchange.onChannel (repeatAt index) direction
  | .corrupt direction index why fatal =>
    exchange.onChannel (·.set index (.malformed why fatal)) direction

/-- Seen through a view that does not show malformed frames, a channel fault
drops and repeats frames and does nothing else. -/
def Faulty (before after : List Frame) : Prop :=
  ∀ {β : Type} (view : Frame → Option β), (∀ why fatal, view (.malformed why fatal) = none) →
    Garbles (before.filterMap view) (after.filterMap view)

theorem faulty_eraseIdx (channel : List Frame) (index : Nat) :
    Faulty channel (channel.eraseIdx index) := by
  intro β view _
  exact (Garbles.of_eraseIdx channel index).filterMap view

theorem faulty_repeatAt (channel : List Frame) (index : Nat) :
    Faulty channel (repeatAt index channel) := by
  intro β view _
  apply Garbles.filterMap
  unfold repeatAt
  nth_rw 1 [← List.take_append_drop index channel]
  apply Garbles.append_left
  cases channel.drop index with
  | nil => exact .nil
  | cons frame rest => exact .again (.refl _)

theorem faulty_set (channel : List Frame) (index : Nat) (why : String) (fatal : Bool) :
    Faulty channel (channel.set index (.malformed why fatal)) := by
  intro β view hhidden
  induction channel generalizing index with
  | nil => exact .nil
  | cons frame rest ih =>
    cases index with
    | zero =>
      simp only [List.set_cons_zero, List.filterMap_cons, hhidden]
      cases view frame with
      | none => exact .refl _
      | some value => exact .drop value (.refl _)
    | succ index =>
      simp only [List.set_cons_succ, List.filterMap_cons]
      cases view frame with
      | none => exact ih index
      | some value => exact .keep value (ih index)

/-- The numbers of the packets and acknowledgements in flight, and that they are
in the stop-and-wait order. -/
structure Numbered (exchange : Exchange) (acks packets : List Nat) : Prop where
  inFlight : InFlight acks packets exchange.current exchange.delivered.length
  toTarget : exchange.toTarget.filterMap Frame.packet? =
    packets.map (packetAt exchange.given)
  toPeer : exchange.toPeer.filterMap Frame.acknowledged? = acks.map sequenceId
  available : ∀ number ∈ packets, number < exchange.given.length
  receiveId : exchange.link.receiveId = sequenceId exchange.delivered.length
  delivered : exchange.delivered <+: exchange.given
  noReset : exchange.toTarget.filterMap Frame.reset? = []
  outstanding : ∀ packet, exchange.link.outstanding = some packet →
    (framesOf packet).filterMap Frame.acknowledged? = []

theorem numbered_start (given : List Payload) : (start given).Numbered [] [] where
  inFlight := .start
  toTarget := rfl
  toPeer := rfl
  available := by simp
  receiveId := by
    change initialPacketId = sequenceId 0
    decide
  delivered := List.nil_prefix
  noReset := rfl
  outstanding := by simp [start, TargetLink.new]

theorem Numbered.fault {exchange : Exchange} {acks packets : List Nat}
    (h : exchange.Numbered acks packets) {fault : List Frame → List Frame}
    (hfault : ∀ channel, Faulty channel (fault channel)) (direction : Direction) :
    ∃ acks' packets', (exchange.onChannel fault direction).Numbered acks' packets' := by
  cases direction with
  | toTarget =>
    have hpackets := hfault exchange.toTarget Frame.packet? fun _ _ => rfl
    rw [h.toTarget] at hpackets
    obtain ⟨packets', hgarbles, hnumbers⟩ := hpackets.exists_of_map
    have hresets := hfault exchange.toTarget Frame.reset? fun _ _ => rfl
    rw [h.noReset] at hresets
    refine ⟨acks, packets', h.inFlight.garble_packets hgarbles, hnumbers, h.toPeer,
      fun number hnumber => h.available number (hgarbles.mem hnumber), h.receiveId,
      h.delivered, ?_, h.outstanding⟩
    exact List.eq_nil_iff_forall_not_mem.mpr fun id hid => List.not_mem_nil (hresets.mem hid)
  | toPeer =>
    have hacks := hfault exchange.toPeer Frame.acknowledged? fun _ _ => rfl
    rw [h.toPeer] at hacks
    obtain ⟨acks', hgarbles, hnumbers⟩ := hacks.exists_of_map
    exact ⟨acks', packets, h.inFlight.garble_acks hgarbles, h.toTarget, hnumbers, h.available,
      h.receiveId, h.delivered, h.noReset, h.outstanding⟩

theorem Numbered.transmit {exchange : Exchange} {acks packets : List Nat}
    (h : exchange.Numbered acks packets) :
    ∃ packets', (exchange.step .transmit).Numbered acks packets' := by
  simp only [step]
  split
  · rename_i hmore
    refine ⟨packets ++ [exchange.current], h.inFlight.transmit, ?_, h.toPeer, ?_, h.receiveId,
      h.delivered, ?_, h.outstanding⟩
    · simp [h.toTarget, Frame.packet?]
    · intro number hnumber
      rcases List.mem_append.mp hnumber with hnumber | hnumber
      · exact h.available number hnumber
      · rw [List.mem_singleton.mp hnumber]
        exact hmore
    · simp [h.noReset, Frame.reset?]
  · exact ⟨packets, h⟩

theorem Numbered.chatter {exchange : Exchange} {acks packets : List Nat}
    (h : exchange.Numbered acks packets) (frame : Frame) :
    (exchange.step (.chatter frame)).Numbered acks packets := by
  simp only [step]
  split
  · rename_i hchatter
    have hpacket : frame.packet? = none := by
      cases frame <;> first | rfl | cases hchatter
    have hreset : frame.reset? = none := by
      cases frame with
      | control packetType id =>
        simp only [Frame.isChatter, bne_iff_ne] at hchatter
        simp [Frame.reset?, hchatter]
      | _ => rfl
    refine ⟨h.inFlight, ?_, h.toPeer, h.available, h.receiveId, h.delivered, ?_, h.outstanding⟩
    · simp [h.toTarget, hpacket]
    · simp [h.noReset, hreset]
  · exact h

theorem Numbered.targetSends {exchange : Exchange} {acks packets : List Nat}
    (h : exchange.Numbered acks packets) (packetType : UInt16) (payload : List UInt8) :
    (exchange.step (.targetSends packetType payload)).Numbered acks packets := by
  simp only [step, TargetLink.send]
  by_cases hbusy : exchange.link.outstanding.isSome
  · simp only [hbusy, ↓reduceIte]
    exact h
  · simp only [hbusy]
    cases hdata : data packetType exchange.link.sendId payload with
    | error why => exact h
    | ok packet =>
      have hquiet : (framesOf packet).filterMap Frame.acknowledged? = [] := by
        rw [framesOf_data hdata]
        rfl
      refine ⟨h.inFlight, h.toTarget, ?_, h.available, h.receiveId, h.delivered, h.noReset, ?_⟩
      · simp [h.toPeer, hquiet]
      · intro packet' hpacket'
        cases hpacket'
        exact hquiet

theorem Numbered.peerReceives {exchange : Exchange} {acks packets : List Nat}
    (h : exchange.Numbered acks packets) :
    ∃ acks', (exchange.step .peerReceives).Numbered acks' packets := by
  simp only [step]
  split
  · exact ⟨acks, h⟩
  · rename_i frame rest hchannel
    have hnumbers := h.toPeer
    rw [hchannel, List.filterMap_cons] at hnumbers
    cases hack : frame.acknowledged? with
    | none =>
      rw [hack] at hnumbers
      refine ⟨acks, ?_⟩
      simpa using ⟨h.inFlight, h.toTarget, hnumbers, h.available, h.receiveId, h.delivered,
        h.noReset, h.outstanding⟩
    | some id =>
      rw [hack] at hnumbers
      obtain ⟨ack, acks', rfl, rfl, hrest⟩ := List.map_eq_cons_iff.mp hnumbers.symm
      refine ⟨acks', ?_⟩
      -- the oldest acknowledgement is for the current packet or the one before it
      rcases h.inFlight.acknowledge with ⟨rfl, hinFlight⟩ | ⟨hstale, hinFlight⟩
      · have hmore : exchange.current < exchange.given.length :=
          Nat.lt_of_lt_of_le hinFlight.current_le h.delivered.length_le
        rw [if_pos ⟨hmore, rfl⟩]
        exact ⟨hinFlight, h.toTarget, hrest.symm, h.available, h.receiveId, h.delivered,
          h.noReset, h.outstanding⟩
      · have hother : ¬(exchange.current < exchange.given.length ∧
            some (sequenceId ack) = some (sequenceId exchange.current)) := by
          rintro ⟨-, hsame⟩
          rw [← hstale, Option.some.injEq] at hsame
          exact sequenceId_ne_succ ack hsame.symm
        rw [if_neg hother]
        exact ⟨hinFlight, h.toTarget, hrest.symm, h.available, h.receiveId, h.delivered,
          h.noReset, h.outstanding⟩

/-- What a frame that is neither data nor a reset does to the receive side: it
delivers nothing and writes no acknowledgement. -/
theorem receive_chatter {link : TargetLink} {frame : Frame} (hpacket : frame.packet? = none)
    (hreset : frame.reset? = none)
    (houtstanding : ∀ packet, link.outstanding = some packet →
      (framesOf packet).filterMap Frame.acknowledged? = []) :
    (link.receive frame).2.receiveId = link.receiveId ∧
      (link.receive frame).1.packet = none ∧
      ((link.receive frame).1.writes.flatMap framesOf).filterMap Frame.acknowledged? = [] ∧
      ∀ packet, (link.receive frame).2.outstanding = some packet →
        (framesOf packet).filterMap Frame.acknowledged? = [] := by
  have hresend : (framesOf (control packetTypeResend 0)).filterMap Frame.acknowledged? = [] := by
    rw [framesOf_control]
    rfl
  have hreply : (framesOf (control packetTypeReset 0)).filterMap Frame.acknowledged? = [] := by
    rw [framesOf_control]
    rfl
  cases frame with
  | breakIn => exact ⟨rfl, rfl, rfl, houtstanding⟩
  | malformed why fatal =>
    refine ⟨rfl, rfl, ?_, houtstanding⟩
    simpa [TargetLink.receive] using hresend
  | data packet => cases hpacket
  | control packetType id =>
    have htype : packetType ≠ packetTypeReset := by
      intro htype
      simp [Frame.reset?, htype] at hreset
    simp only [TargetLink.receive, htype, ↓reduceIte]
    split
    · exact ⟨rfl, rfl, rfl, by simp⟩
    split
    · split
      · rename_i packet hpacket
        refine ⟨rfl, rfl, ?_, houtstanding⟩
        simpa using houtstanding packet hpacket
      · refine ⟨rfl, rfl, ?_, houtstanding⟩
        simpa using hreply
    · exact ⟨rfl, rfl, rfl, houtstanding⟩

theorem receive_awaited {link : TargetLink} {packet : DataPacket}
    (h : packet.id = link.receiveId) :
    link.receive (.data packet) =
      ({ Inbound.quiet with
          writes := [control packetTypeAcknowledge packet.id]
          packet := some packet }, { link with receiveId := link.receiveId ^^^ 1 }) := by
  simp [TargetLink.receive, h]

theorem receive_repeated {link : TargetLink} {packet : DataPacket}
    (hother : packet.id ≠ link.receiveId) (h : packet.id = link.receiveId ^^^ 1) :
    link.receive (.data packet) =
      ({ Inbound.quiet with writes := [control packetTypeAcknowledge packet.id] }, link) := by
  rw [TargetLink.receive, if_neg hother, if_pos h]

theorem prefix_push {delivered given : List Payload} (h : delivered <+: given)
    (hmore : delivered.length < given.length) :
    delivered ++ [given.getD delivered.length (0, [])] <+: given := by
  obtain ⟨rest, rfl⟩ := h
  cases rest with
  | nil => simp at hmore
  | cons next rest => exact ⟨rest, by simp⟩

theorem acknowledged_control (number : Nat) :
    (([control packetTypeAcknowledge (sequenceId number)]).flatMap framesOf).filterMap
      Frame.acknowledged? = [sequenceId number] := by
  rw [List.flatMap_singleton, framesOf_control]
  rfl

/-- The oldest packet on the channel is the awaited one or a repeat of the last one
taken; either way it is acknowledged. -/
theorem Numbered.targetTakes {exchange : Exchange} {acks packets : List Nat} {number : Nat}
    {rest : List Frame} (h : exchange.Numbered acks (number :: packets))
    (hchannel : exchange.toTarget = .data (packetAt exchange.given number) :: rest) :
    (exchange.step .targetReceives).Numbered (acks ++ [number]) packets := by
  have hrest : rest.filterMap Frame.packet? = packets.map (packetAt exchange.given) := by
    have hnumbers := h.toTarget
    rw [hchannel] at hnumbers
    exact List.cons.inj hnumbers |>.2
  have hresets : rest.filterMap Frame.reset? = [] := by
    have hresets := h.noReset
    rw [hchannel] at hresets
    exact hresets
  have havailable : ∀ later ∈ packets, later < exchange.given.length := fun later hlater =>
    h.available later (List.mem_cons_of_mem _ hlater)
  have hacks : exchange.toPeer.filterMap Frame.acknowledged? ++ [sequenceId number] =
      (acks ++ [number]).map sequenceId := by
    rw [h.toPeer, List.map_append, List.map_singleton]
  have hack := acknowledged_control number
  simp only [step, hchannel]
  rcases h.inFlight.deliver with ⟨rfl, hinFlight⟩ | ⟨hstale, hinFlight⟩
  · have hid : (packetAt exchange.given exchange.delivered.length).id =
        exchange.link.receiveId := h.receiveId.symm
    rw [receive_awaited hid]
    refine ⟨?_, hrest, ?_, havailable, ?_, ?_, hresets, h.outstanding⟩
    · simpa using hinFlight
    · rw [List.filterMap_append]
      exact (congrArg _ hack).trans hacks
    · simp [sequenceId_succ, h.receiveId]
    · exact prefix_push h.delivered (h.available _ List.mem_cons_self)
  · have hid : (packetAt exchange.given number).id = exchange.link.receiveId ^^^ 1 := by
      rw [h.receiveId, ← hstale, sequenceId_succ, UInt32.xor_assoc, UInt32.xor_self,
        UInt32.xor_zero]
      rfl
    have hother : (packetAt exchange.given number).id ≠ exchange.link.receiveId := by
      rw [h.receiveId, ← hstale]
      exact (sequenceId_ne_succ number).symm
    rw [receive_repeated hother hid]
    refine ⟨?_, hrest, ?_, havailable, ?_, ?_, hresets, h.outstanding⟩
    · simpa [Inbound.quiet] using hinFlight
    · rw [List.filterMap_append]
      exact (congrArg _ hack).trans hacks
    · simpa [Inbound.quiet] using h.receiveId
    · simpa [Inbound.quiet] using h.delivered

theorem Numbered.targetReceives {exchange : Exchange} {acks packets : List Nat}
    (h : exchange.Numbered acks packets) :
    ∃ acks' packets', (exchange.step .targetReceives).Numbered acks' packets' := by
  cases hchannel : exchange.toTarget with
  | nil =>
    refine ⟨acks, packets, ?_⟩
    simp only [step, hchannel]
    exact h
  | cons frame rest =>
    have hnumbers := h.toTarget
    have hresets := h.noReset
    rw [hchannel, List.filterMap_cons] at hnumbers hresets
    have hreset : frame.reset? = none := by
      cases hreset : frame.reset? with
      | none => rfl
      | some id => simp [hreset] at hresets
    rw [hreset] at hresets
    cases hpacket : frame.packet? with
    | none =>
      rw [hpacket] at hnumbers
      obtain ⟨hid, hnone, hwrites, houtstanding⟩ :=
        receive_chatter hpacket hreset h.outstanding
      refine ⟨acks, packets, ?_⟩
      simp only [step, hchannel]
      refine ⟨?_, hnumbers, ?_, h.available, ?_, ?_, hresets, houtstanding⟩
      · simpa [hnone] using h.inFlight
      · simp [h.toPeer, hwrites]
      · simpa [hnone, hid] using h.receiveId
      · simpa [hnone] using h.delivered
    | some packet =>
      have hframe : frame = .data packet := by
        cases frame with
        | data packet' => exact congrArg Frame.data (Option.some.inj hpacket)
        | _ => cases hpacket
      rw [hpacket] at hnumbers
      obtain ⟨number, packets', rfl, rfl, -⟩ := List.map_eq_cons_iff.mp hnumbers.symm
      rw [hframe] at hchannel
      exact ⟨acks ++ [number], packets', h.targetTakes hchannel⟩

theorem Numbered.step {exchange : Exchange} {acks packets : List Nat}
    (h : exchange.Numbered acks packets) (move : Move) :
    ∃ acks' packets', (exchange.step move).Numbered acks' packets' := by
  cases move with
  | transmit => exact ⟨acks, h.transmit⟩
  | chatter frame => exact ⟨acks, packets, h.chatter frame⟩
  | targetReceives => exact h.targetReceives
  | targetSends packetType payload => exact ⟨acks, packets, h.targetSends packetType payload⟩
  | peerReceives =>
    obtain ⟨acks', h'⟩ := h.peerReceives
    exact ⟨acks', packets, h'⟩
  | lose direction index => exact h.fault (faulty_eraseIdx · index) direction
  | duplicate direction index => exact h.fault (faulty_repeatAt · index) direction
  | corrupt direction index why fatal => exact h.fault (faulty_set · index why fatal) direction

theorem given_step (exchange : Exchange) (move : Move) :
    (exchange.step move).given = exchange.given := by
  cases move with
  | transmit | chatter => simp only [step]; split <;> rfl
  | targetReceives | peerReceives | targetSends => simp only [step]; split <;> rfl
  | lose direction | duplicate direction | corrupt direction => cases direction <;> rfl

/-- Exactly once and in order: whatever the channels do, what the link has
returned is an initial part of what the peer was given, and the peer is never
past a packet that has not been delivered. -/
theorem delivered_prefix_given (given : List Payload) (moves : List Move) :
    let exchange := run step (start given) moves
    exchange.delivered <+: given ∧ exchange.current ≤ exchange.delivered.length := by
  obtain ⟨hgiven, acks, packets, h⟩ : (run step (start given) moves).given = given ∧
      ∃ acks packets, (run step (start given) moves).Numbered acks packets := by
    refine run_invariant (fun exchange : Exchange => exchange.given = given ∧
      ∃ acks packets, exchange.Numbered acks packets) (fun _ _ => True) ?_
      ⟨rfl, [], [], numbered_start given⟩ (fun _ _ => trivial)
    rintro exchange move ⟨hgiven, acks, packets, h⟩ -
    exact ⟨(given_step exchange move).trans hgiven, h.step move⟩
  refine ⟨?_, h.inFlight.current_le⟩
  have hprefix := h.delivered
  rwa [hgiven] at hprefix

end Exchange

end WindbgMcp.KdWire
