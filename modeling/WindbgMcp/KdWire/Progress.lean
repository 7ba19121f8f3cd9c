import WindbgMcp.KdWire.Decoding

/-! The reader calls `next` until it answers `Ok(None)` and then reads the socket
again.  Every other answer shortens the buffer, so that loop ends on any bytes,
and what is kept while waiting is less than one largest packet. -/
namespace WindbgMcp.KdWire

open Library

/-- The decoder after `calls` more calls of `next`. -/
def Decoder.after (decoder : Decoder) : Nat → Decoder
  | 0 => decoder
  | calls + 1 => decoder.next.2.after calls

/-- A whole header whose byte count is in range waits for at most the payload:
the trailing byte is the one still missing. -/
theorem length_decodePacket_wait {buffered : List UInt8}
    (h : (decodePacket buffered).1 = .ok none) :
    (decodePacket buffered).2.buffered.length ≤ headerBytes + maxPacketBytes := by
  unfold decodePacket at h ⊢
  simp only at h ⊢
  split at h
  · simp at h
  rename_i hsmall
  rw [if_neg hsmall]
  split at h
  · split at h <;> simp at h
  rename_i hdata
  rw [if_neg hdata]
  split at h
  · rename_i hpartial
    rw [if_pos hpartial]
    simp only
    omega
  split at h
  · simp at h
  split at h <;> simp at h

theorem length_next_wait {decoder : Decoder} (h : decoder.next.1 = .ok none) :
    decoder.next.2.buffered.length ≤ headerBytes + maxPacketBytes := by
  unfold Decoder.next at h ⊢
  split at h
  · exact Nat.zero_le _
  · split at h
    · simp at h
    rename_i hpacket
    rw [if_neg hpacket]
    split at h
    · rename_i hshort
      rw [if_pos hshort]
      simp only
      omega
    · rename_i hheader
      rw [if_neg hheader]
      exact length_decodePacket_wait h

/-- A frame and an error both consume: none of the exits of `next` leaves the
buffer as long as it was, except by answering `Ok(None)`. -/
theorem length_next_lt {decoder : Decoder} (h : decoder.next.1 ≠ .ok none) :
    decoder.next.2.buffered.length < decoder.buffered.length := by
  generalize hnext : decoder.next = answer at h ⊢
  obtain ⟨answer, shorter⟩ := answer
  have hdecode : decodeNext decoder.buffered = decision (answer, shorter) := by
    unfold decodeNext
    rw [← hnext]
  cases answer with
  | error error => exact length_decodeNext_lt hdecode
  | ok frame =>
    cases frame with
    | none => exact absurd rfl h
    | some frame => exact length_decodeNext_lt hdecode

theorem drains (decoder : Decoder) :
    ∃ calls, calls ≤ decoder.buffered.length ∧ (decoder.after calls).next.1 = .ok none := by
  induction hlen : decoder.buffered.length using Nat.strongRecOn generalizing decoder with
  | _ length ih =>
    by_cases hwait : decoder.next.1 = .ok none
    · exact ⟨0, Nat.zero_le _, hwait⟩
    · have hshorter := length_next_lt hwait
      rw [hlen] at hshorter
      obtain ⟨calls, hcalls, hdrained⟩ := ih _ hshorter decoder.next.2 rfl
      refine ⟨calls + 1, ?_, hdrained⟩
      omega

theorem length_decode (chunks : List (List UInt8)) :
    (decode chunks).2.buffered.length ≤ headerBytes + maxPacketBytes := by
  have hwaits : decodeNext (decode chunks).2.buffered = (none, (decode chunks).2.buffered) := by
    unfold decode
    rw [StreamDecoder.feed_eq_drain]
    exact stream.next_drain _
  generalize (decode chunks).2 = residue at hwaits ⊢
  unfold decodeNext at hwaits
  generalize hnext : Decoder.next ⟨residue.buffered⟩ = answer at hwaits
  obtain ⟨answer, left⟩ := answer
  cases answer with
  | error error => simp [decision] at hwaits
  | ok frame =>
    cases frame with
    | some frame => simp [decision] at hwaits
    | none =>
      have hleft : left.buffered = residue.buffered := by simpa [decision] using hwaits
      have hbound := @length_next_wait ⟨residue.buffered⟩ (by rw [hnext])
      rw [hnext] at hbound
      rwa [← hleft]

theorem next_progresses_with_bounded_residue :
    (∀ decoder : Decoder,
      (decoder.next.1 = .ok none ∧ decoder.next.2.buffered.length ≤ 16 + 4000 ∨
        decoder.next.1 ≠ .ok none ∧
          decoder.next.2.buffered.length < decoder.buffered.length) ∧
      ∃ calls, calls ≤ decoder.buffered.length ∧
        (decoder.after calls).next.1 = .ok none) ∧
    ∀ chunks : List (List UInt8), (decode chunks).2.buffered.length ≤ 16 + 4000 := by
  constructor
  · intro decoder
    refine ⟨?_, drains decoder⟩
    by_cases hwait : decoder.next.1 = .ok none
    · exact Or.inl ⟨hwait, length_next_wait hwait⟩
    · exact Or.inr ⟨hwait, length_next_lt hwait⟩
  · exact length_decode

end WindbgMcp.KdWire
