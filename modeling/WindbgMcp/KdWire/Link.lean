import WindbgMcp.KdWire.RoundTrip
import WindbgMcp.Library.Run

/-! The target's end of the KD link: one outstanding packet at a time, an
alternating id in each direction, and acknowledgement, resend and reset
traffic. -/
namespace WindbgMcp.KdWire

open Library

structure Inbound where
  writes : List (List UInt8)
  packet : Option DataPacket
  breakIn : Bool
  peerReset : Bool
  protocolError : Option String
deriving DecidableEq, Repr

def Inbound.quiet : Inbound := ⟨[], none, false, false, none⟩

structure TargetLink where
  sendId : UInt32
  receiveId : UInt32
  outstanding : Option (List UInt8)
deriving DecidableEq, Repr

namespace TargetLink

def new : TargetLink := ⟨initialPacketId, initialPacketId, none⟩

def receive (link : TargetLink) : Frame → Inbound × TargetLink
  | .breakIn => ({ Inbound.quiet with breakIn := true }, link)
  | .malformed why fatal =>
    ({ Inbound.quiet with
        writes := [control packetTypeResend 0]
        protocolError := if fatal then some why else none }, link)
  | .control packetType id =>
    if packetType = packetTypeReset then
      ({ Inbound.quiet with writes := [control packetTypeReset 0], peerReset := true },
        ⟨initialPacketId, initialPacketId, none⟩)
    else if packetType = packetTypeAcknowledge ∧ id = link.sendId then
      (.quiet, { link with sendId := link.sendId ^^^ 1, outstanding := none })
    else if packetType = packetTypeResend then
      match link.outstanding with
      | some packet => ({ Inbound.quiet with writes := [packet] }, link)
      | none => ({ Inbound.quiet with writes := [control packetTypeReset 0] }, link)
    else
      (.quiet, link)
  | .data packet =>
    if packet.id = link.receiveId then
      ({ Inbound.quiet with
          writes := [control packetTypeAcknowledge packet.id]
          packet := some packet }, { link with receiveId := link.receiveId ^^^ 1 })
    else if packet.id = link.receiveId ^^^ 1 then
      ({ Inbound.quiet with writes := [control packetTypeAcknowledge packet.id] }, link)
    else
      ({ Inbound.quiet with writes := [control packetTypeResend 0] }, link)

def send (link : TargetLink) (packetType : UInt16) (payload : List UInt8) :
    Except String (List UInt8) × TargetLink :=
  if link.outstanding.isSome then
    (.error "a KD data packet is still awaiting acknowledgement", link)
  else
    match data packetType link.sendId payload with
    | .error why => (.error why, link)
    | .ok packet => (.ok packet, { link with outstanding := some packet })

def awaitingAcknowledgement (link : TargetLink) : Bool := link.outstanding.isSome

end TargetLink

/-- The id of the packet with sequence number `count`. -/
def sequenceId (count : Nat) : UInt32 := initialPacketId ^^^ UInt32.ofNat (count % 2)

theorem sequenceId_succ (count : Nat) : sequenceId (count + 1) = sequenceId count ^^^ 1 := by
  rcases Nat.mod_two_eq_zero_or_one count with h | h
  · have hnext : (count + 1) % 2 = 1 := by omega
    simp only [sequenceId, h, hnext]
    decide
  · have hnext : (count + 1) % 2 = 0 := by omega
    simp only [sequenceId, h, hnext]
    decide

theorem sequenceId_ne_succ (count : Nat) : sequenceId (count + 1) ≠ sequenceId count := by
  rcases Nat.mod_two_eq_zero_or_one count with h | h
  · have hnext : (count + 1) % 2 = 1 := by omega
    simp only [sequenceId, h, hnext]
    decide
  · have hnext : (count + 1) % 2 = 0 := by omega
    simp only [sequenceId, h, hnext]
    decide

def packetId (packet : List UInt8) : UInt32 := word packet 8

theorem packetId_of_data_ok {packetType : UInt16} {id : UInt32}
    {payload packet : List UInt8} (h : data packetType id payload = .ok packet) :
    packetId packet = id := by
  have hfits := length_le_of_data_ok h
  rw [data_eq_ok hfits, Except.ok.injEq] at h
  rw [packetId, ← h, word_header_id]

inductive LinkCall where
  | send (packetType : UInt16) (payload : List UInt8)
  | receive (frame : Frame)
deriving DecidableEq, Repr

/-- What an observer of the calls knows: the packet `send` last returned that no
acknowledgement has answered, and how many were answered since the last reset. -/
structure Ledger where
  acknowledged : Nat
  awaiting : Option (List UInt8)
deriving DecidableEq, Repr

namespace Ledger

def sent (ledger : Ledger) : Except String (List UInt8) → Ledger
  | .ok packet => { ledger with awaiting := some packet }
  | .error _ => ledger

def received (ledger : Ledger) : Frame → Ledger
  | .control packetType id =>
    if packetType = packetTypeReset then ⟨0, none⟩
    else if packetType = packetTypeAcknowledge ∧ ledger.awaiting.map packetId = some id then
      ⟨ledger.acknowledged + 1, none⟩
    else ledger
  | _ => ledger

end Ledger

structure ObservedLink where
  link : TargetLink
  ledger : Ledger
deriving DecidableEq, Repr

namespace ObservedLink

def new : ObservedLink := ⟨TargetLink.new, ⟨0, none⟩⟩

def call (observed : ObservedLink) : LinkCall → ObservedLink
  | .send packetType payload =>
    let answer := observed.link.send packetType payload
    ⟨answer.2, observed.ledger.sent answer.1⟩
  | .receive frame => ⟨(observed.link.receive frame).2, observed.ledger.received frame⟩

def Counts (observed : ObservedLink) : Prop :=
  observed.link.sendId = sequenceId observed.ledger.acknowledged

def IgnoresStray (observed : ObservedLink) (called : LinkCall) : Prop :=
  ∀ id, called = .receive (.control packetTypeAcknowledge id) →
    observed.link.outstanding = none → (observed.call called).link = observed.link

/-- The call is not an acknowledgement of the current send id while nothing is
outstanding. -/
def Answers (observed : ObservedLink) (called : LinkCall) : Prop :=
  called = .receive (.control packetTypeAcknowledge observed.link.sendId) →
    observed.link.outstanding ≠ none

structure Consistent (observed : ObservedLink) : Prop where
  counts : observed.Counts
  awaits : observed.ledger.awaiting = observed.link.outstanding
  carries : ∀ packet, observed.link.outstanding = some packet →
    packetId packet = observed.link.sendId

theorem consistent_new : Consistent new := ⟨rfl, rfl, by intro packet h; cases h⟩

theorem Consistent.send {observed : ObservedLink} (h : observed.Consistent)
    (packetType : UInt16) (payload : List UInt8) :
    (observed.call (.send packetType payload)).Consistent := by
  unfold call TargetLink.send
  simp only
  split
  · exact h
  · split
    · exact h
    · rename_i packet hpacket
      refine ⟨h.counts, rfl, ?_⟩
      intro packet' hpacket'
      cases hpacket'
      exact packetId_of_data_ok hpacket

/-- Only an acknowledgement of the send id, or a reset, touches the send side. -/
theorem Consistent.receive {observed : ObservedLink} (h : observed.Consistent)
    (frame : Frame) (hanswers : observed.Answers (.receive frame)) :
    (observed.call (.receive frame)).Consistent := by
  cases frame with
  | breakIn => exact h
  | malformed why fatal => exact h
  | data packet =>
    simp only [call, TargetLink.receive, Ledger.received]
    split
    · exact ⟨h.counts, h.awaits, h.carries⟩
    · split <;> exact h
  | control packetType id =>
    simp only [call, TargetLink.receive, Ledger.received]
    split
    · exact ⟨rfl, rfl, by intro packet hpacket; cases hpacket⟩
    · split
      · rename_i hack
        obtain ⟨rfl, rfl⟩ := hack
        obtain ⟨packet, hpacket⟩ := Option.ne_none_iff_exists'.mp (hanswers rfl)
        have hknown : observed.ledger.awaiting.map packetId = some observed.link.sendId := by
          rw [h.awaits, hpacket, Option.map_some, h.carries packet hpacket]
        rw [if_pos ⟨rfl, hknown⟩]
        refine ⟨?_, rfl, by intro packet hpacket; cases hpacket⟩
        rw [Counts, sequenceId_succ, ← h.counts]
      · rename_i hack
        have hunknown : ¬(packetType = packetTypeAcknowledge ∧
            observed.ledger.awaiting.map packetId = some id) := by
          rintro ⟨hacknowledge, hid⟩
          rw [h.awaits, Option.map_eq_some_iff] at hid
          obtain ⟨packet, hpacket, hid⟩ := hid
          exact hack ⟨hacknowledge, hid ▸ h.carries packet hpacket⟩
        rw [if_neg hunknown]
        split
        · split <;> exact h
        · exact h

theorem Consistent.call {observed : ObservedLink} (h : observed.Consistent)
    (called : LinkCall) (hanswers : observed.Answers called) :
    (observed.call called).Consistent := by
  cases called with
  | send packetType payload => exact h.send packetType payload
  | receive frame => exact h.receive frame hanswers

theorem ignoresStray_of_answers {observed : ObservedLink} {called : LinkCall}
    (hanswers : observed.Answers called) : observed.IgnoresStray called := by
  intro id hcalled hnone
  subst hcalled
  have hid : id ≠ observed.link.sendId := by
    rintro rfl
    exact hanswers rfl hnone
  have hreset : packetTypeAcknowledge ≠ packetTypeReset := by decide
  have hresend : packetTypeAcknowledge ≠ packetTypeResend := by decide
  simp [ObservedLink.call, TargetLink.receive, hid, hreset, hresend]

theorem Consistent.not_counts_of_stray {observed : ObservedLink} (h : observed.Consistent)
    {called : LinkCall} (hstray : ¬ observed.Answers called) :
    ¬ (observed.call called).Counts := by
  simp only [Answers, not_forall, not_not] at hstray
  obtain ⟨rfl, hnone⟩ := hstray
  have hreset : packetTypeAcknowledge ≠ packetTypeReset := by decide
  have hawaiting : observed.ledger.awaiting = none := h.awaits.trans hnone
  simp only [Counts, ObservedLink.call, TargetLink.receive, Ledger.received, hreset, hawaiting,
    Option.map_none, reduceCtorEq, and_true, and_false, ↓reduceIte]
  rw [h.counts, ← sequenceId_succ]
  exact sequenceId_ne_succ _

/-- The send id counts the acknowledged packets in every state of a run, and
every stray acknowledgement of the run is ignored, exactly when the run has no
acknowledgement of the current send id with nothing outstanding. -/
theorem counts_iff_answers (calls : List LinkCall) :
    ((∀ front, front <+: calls → (run call new front).Counts) ∧
        ∀ visit ∈ visits call new calls, visit.1.IgnoresStray visit.2) ↔
      ∀ visit ∈ visits call new calls, visit.1.Answers visit.2 := by
  constructor
  · rintro ⟨hcounts, -⟩
    suffices ∀ (observed : ObservedLink), observed.Consistent →
        (∀ front, front <+: calls → (run call observed front).Counts) →
        ∀ visit ∈ visits call observed calls, visit.1.Answers visit.2 from
      this new consistent_new hcounts
    clear hcounts
    induction calls with
    | nil => intro observed _ _ visit hvisit; cases hvisit
    | cons called calls ih =>
      intro observed hconsistent hcounts
      have hanswers : observed.Answers called := by
        by_contra hstray
        exact hconsistent.not_counts_of_stray hstray (hcounts [called] ⟨calls, rfl⟩)
      intro visit hvisit
      rcases List.mem_cons.mp hvisit with rfl | hlater
      · exact hanswers
      · refine ih _ (hconsistent.call called hanswers) ?_ visit hlater
        intro front hfront
        exact hcounts (called :: front) (List.cons_prefix_cons.mpr ⟨rfl, hfront⟩)
  · intro hanswers
    refine ⟨?_, fun visit hvisit => ignoresStray_of_answers (hanswers visit hvisit)⟩
    rintro front ⟨back, rfl⟩
    rw [visits_append] at hanswers
    exact (run_invariant Consistent Answers (fun state input h => h.call input) consistent_new
      fun visit hvisit => hanswers visit (List.mem_append_left _ hvisit)).counts

/-- A fresh link toggles its send id on an acknowledgement nobody is owed. -/
theorem stray_acknowledgement_toggles :
    ¬ ((∀ front, front <+: [LinkCall.receive (.control packetTypeAcknowledge initialPacketId)] →
        (run call new front).Counts) ∧
      ∀ visit ∈ visits call new
        [LinkCall.receive (.control packetTypeAcknowledge initialPacketId)],
        visit.1.IgnoresStray visit.2) := by
  rintro ⟨hcounts, -⟩
  have hafter := hcounts _ List.prefix_rfl
  unfold Counts at hafter
  revert hafter
  decide

end ObservedLink

end WindbgMcp.KdWire
