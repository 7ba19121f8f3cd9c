import WindbgMcp.KdWire.Codec

/-! The decoder as a lawful stream decoder: a decision taken on part of the input
is the decision taken with more of it, and waiting drops only bytes no
continuation could have used.  Chunk independence is the library's consequence. -/
namespace WindbgMcp.KdWire

open Library

@[simp] theorem length_wordBytes (value : UInt32) : (wordBytes value).length = 4 := by
  simp [wordBytes]

@[simp] theorem length_halfBytes (value : UInt16) : (halfBytes value).length = 2 := by
  simp [halfBytes]

@[simp] theorem length_neededLeader (byte : UInt8) : (neededLeader byte).length = 4 := by
  unfold neededLeader
  split <;> simp

theorem spellsLeader_iff (buffered needed : List UInt8) :
    spellsLeader buffered needed = true ↔ buffered.take needed.length <+: needed := by
  unfold spellsLeader
  rw [beq_iff_eq, List.prefix_iff_eq_take, List.length_take, Nat.min_comm]
  rcases Nat.le_total buffered.length needed.length with h | h
  · rw [Nat.min_eq_right h, List.take_of_length_le (Nat.le_refl _), List.take_of_length_le h]
  · rw [Nat.min_eq_left h]

theorem spellsLeader_of_append {buffered more needed : List UInt8}
    (h : spellsLeader (buffered ++ more) needed = true) :
    spellsLeader buffered needed = true := by
  rw [spellsLeader_iff] at h ⊢
  refine List.IsPrefix.trans ?_ h
  rw [List.take_append]
  exact List.prefix_append _ _

theorem spellsLeader_append {buffered more needed : List UInt8}
    (hlong : needed.length ≤ buffered.length) :
    spellsLeader (buffered ++ more) needed = spellsLeader buffered needed := by
  rw [Bool.eq_iff_iff, spellsLeader_iff, spellsLeader_iff,
    List.take_append_of_le_length hlong]

/-- A buffer that `discardNoise` leaves as it is. -/
def Settled : List UInt8 → Prop
  | [] => True
  | byte :: rest => byte = breakInByte ∨
      spellsLeader (byte :: rest) (neededLeader byte) = true

theorem discardBrokenLeaders_settled {buffered : List UInt8} (h : Settled buffered) :
    discardBrokenLeaders buffered = buffered := by
  cases buffered with
  | nil => rfl
  | cons byte rest =>
    rcases h with hbreak | hspells
    · simp [discardBrokenLeaders, hbreak]
    · simp [discardBrokenLeaders, hspells]

theorem settled_discardBrokenLeaders (buffered : List UInt8) :
    Settled (discardBrokenLeaders buffered) := by
  induction buffered with
  | nil => trivial
  | cons byte rest ih =>
    unfold discardBrokenLeaders
    split
    · rename_i hbreak
      exact Or.inl (by simpa using hbreak)
    · split
      · rename_i hspells
        exact Or.inr hspells
      · exact ih

theorem length_discardBrokenLeaders_le (buffered : List UInt8) :
    (discardBrokenLeaders buffered).length ≤ buffered.length := by
  induction buffered with
  | nil => simp [discardBrokenLeaders]
  | cons byte rest ih =>
    unfold discardBrokenLeaders
    split
    · exact Nat.le_refl _
    · split
      · exact Nat.le_refl _
      · exact Nat.le_succ_of_le ih

/-- A byte no frame starts with is dropped by the leader scan too, so the search
for the first candidate byte changes nothing. -/
theorem discardBrokenLeaders_cons_noise {byte : UInt8} (rest : List UInt8)
    (h : startsFrame byte = false) :
    discardBrokenLeaders (byte :: rest) = discardBrokenLeaders rest := by
  simp only [startsFrame, Bool.or_eq_false_iff, beq_eq_false_iff_ne] at h
  obtain ⟨⟨hbreak, hdata⟩, hcontrol⟩ := h
  have hmiss : spellsLeader (byte :: rest) (neededLeader byte) = false := by
    rw [Bool.eq_false_iff]
    intro hspells
    rw [spellsLeader_iff, length_neededLeader] at hspells
    simp only [neededLeader, hdata, beq_iff_eq, ↓reduceIte] at hspells
    have hhead := List.IsPrefix.head hspells (by simp)
    simp only [List.take_succ_cons, List.head_cons] at hhead
    exact hcontrol (hhead.trans rfl)
  simp [discardBrokenLeaders, hbreak, hmiss]

theorem discardNoise_eq (buffered : List UInt8) :
    discardNoise buffered = discardBrokenLeaders buffered := by
  unfold discardNoise
  induction buffered with
  | nil => rfl
  | cons byte rest ih =>
    cases hstarts : startsFrame byte with
    | true => simp [hstarts]
    | false =>
      rw [discardBrokenLeaders_cons_noise rest hstarts, ← ih]
      simp [hstarts]

theorem discardBrokenLeaders_append (buffered more : List UInt8) :
    discardBrokenLeaders (discardBrokenLeaders buffered ++ more) =
      discardBrokenLeaders (buffered ++ more) := by
  induction buffered with
  | nil => rfl
  | cons byte rest ih =>
    by_cases hsettled : Settled (byte :: rest)
    · rw [discardBrokenLeaders_settled hsettled]
    · simp only [Settled, not_or, Bool.not_eq_true] at hsettled
      obtain ⟨hbreak, hmiss⟩ := hsettled
      have hmissLonger :
          spellsLeader (byte :: (rest ++ more)) (neededLeader byte) = false := by
        rw [Bool.eq_false_iff]
        intro hspells
        rw [← List.cons_append] at hspells
        rw [spellsLeader_of_append hspells] at hmiss
        contradiction
      have hhere : discardBrokenLeaders (byte :: rest) = discardBrokenLeaders rest := by
        simp [discardBrokenLeaders, hbreak, hmiss]
      have hlonger : discardBrokenLeaders (byte :: (rest ++ more)) =
          discardBrokenLeaders (rest ++ more) := by
        simp [discardBrokenLeaders, hbreak, hmissLonger]
      rw [hhere, List.cons_append, hlonger, ih]

theorem discardNoise_append (buffered more : List UInt8) :
    discardNoise (discardNoise buffered ++ more) = discardNoise (buffered ++ more) := by
  simp only [discardNoise_eq]
  exact discardBrokenLeaders_append buffered more

theorem discardNoise_settled {buffered : List UInt8} (h : Settled buffered) :
    discardNoise buffered = buffered := by
  rw [discardNoise_eq, discardBrokenLeaders_settled h]

theorem Settled.append {byte : UInt8} {rest : List UInt8} (more : List UInt8)
    (h : Settled (byte :: rest))
    (hlong : byte = breakInByte ∨ 4 ≤ (byte :: rest).length) :
    Settled (byte :: rest ++ more) := by
  rcases h with hbreak | hspells
  · exact Or.inl hbreak
  · rcases hlong with hbreak | hlength
    · exact Or.inl hbreak
    · exact Or.inr ((spellsLeader_append (by simpa using hlength)).trans hspells)

/-- The answer of `next` in the library's shape: `Ok(None)` waits, and a frame
or an error is a decision. -/
def decision (answer : Except DecodeError (Option Frame) × Decoder) :
    Option (Except DecodeError Frame) × List UInt8 :=
  match answer with
  | (.ok none, decoder) => (none, decoder.buffered)
  | (.ok (some frame), decoder) => (some (.ok frame), decoder.buffered)
  | (.error error, decoder) => (some (.error error), decoder.buffered)

theorem decision_append {answer : Except DecodeError (Option Frame)}
    {buffered rest : List UInt8} {item : Except DecodeError Frame}
    (h : decision (answer, ⟨buffered⟩) = (some item, rest)) (more : List UInt8) :
    decision (answer, ⟨buffered ++ more⟩) = (some item, rest ++ more) := by
  rcases answer with error | _ | frame
  · simp only [decision, Prod.mk.injEq] at h ⊢
    exact ⟨h.1, by rw [h.2]⟩
  · simp [decision] at h
  · simp only [decision, Prod.mk.injEq] at h ⊢
    exact ⟨h.1, by rw [h.2]⟩

def decodeNext (buffered : List UInt8) : Option (Except DecodeError Frame) × List UInt8 :=
  decision (Decoder.next ⟨buffered⟩)

theorem half_append {buffered : List UInt8} (more : List UInt8) {«at» : Nat}
    (h : «at» + 2 ≤ buffered.length) : half (buffered ++ more) «at» = half buffered «at» := by
  unfold half
  rw [LittleEndian.slice_append _ _ _ _ h]

theorem word_append {buffered : List UInt8} (more : List UInt8) {«at» : Nat}
    (h : «at» + 4 ≤ buffered.length) : word (buffered ++ more) «at» = word buffered «at» := by
  unfold word
  rw [LittleEndian.slice_append _ _ _ _ h]

theorem decodePacket_wait {buffered rest : List UInt8}
    (h : decision (decodePacket buffered) = (none, rest)) : rest = buffered := by
  unfold decodePacket at h
  simp only at h
  split at h
  · simp [decision] at h
  split at h
  · split at h <;> simp [decision] at h
  split at h
  · simpa [decision, eq_comm] using h
  split at h
  · simp [decision] at h
  split at h <;> simp [decision] at h

theorem decodePacket_final {buffered rest : List UInt8} {item : Except DecodeError Frame}
    (hheader : headerBytes ≤ buffered.length)
    (h : decision (decodePacket buffered) = (some item, rest)) (more : List UInt8) :
    decision (decodePacket (buffered ++ more)) = (some item, rest ++ more) := by
  have hheader' : 16 ≤ buffered.length := hheader
  have hdrop (count : Nat) (hcount : count ≤ buffered.length) :
      (buffered ++ more).drop count = buffered.drop count ++ more :=
    List.drop_append_of_le_length hcount
  unfold decodePacket at h ⊢
  rw [word_append more (by omega), word_append more (by omega), word_append more (by omega),
    half_append more (by omega), half_append more (by omega)]
  simp only at h ⊢
  split at h
  · rename_i hoversized
    rw [if_pos hoversized, hdrop 1 (by omega)]
    exact decision_append h more
  rename_i hsmall
  rw [if_neg hsmall]
  split at h
  · rename_i hcontrol
    rw [if_pos hcontrol, hdrop headerBytes hheader]
    split at h
    · rename_i hpayload
      rw [if_pos hpayload]
      exact decision_append h more
    · rename_i hempty
      rw [if_neg hempty]
      exact decision_append h more
  rename_i hdata
  rw [if_neg hdata]
  split at h
  · simp [decision] at h
  rename_i hwhole
  have htotal : headerBytes + (half buffered 6).toNat + 1 ≤ buffered.length := by omega
  have hlonger : ¬ (buffered ++ more).length < headerBytes + (half buffered 6).toNat + 1 := by
    rw [List.length_append]
    omega
  have htrailer : (buffered ++ more).getD (headerBytes + (half buffered 6).toNat + 1 - 1) 0 =
      buffered.getD (headerBytes + (half buffered 6).toNat + 1 - 1) 0 := by
    rw [List.getD_eq_getElem?_getD, List.getElem?_append_left (by omega),
      ← List.getD_eq_getElem?_getD]
  have hpayload : ((buffered ++ more).drop headerBytes).take (half buffered 6).toNat =
      (buffered.drop headerBytes).take (half buffered 6).toNat := by
    rw [hdrop headerBytes hheader, List.take_append_of_le_length]
    rw [List.length_drop]
    omega
  rw [if_neg hlonger, htrailer, hpayload, hdrop _ htotal, hdrop 1 (by omega)]
  split at h
  · rename_i hbad
    rw [if_pos hbad]
    exact decision_append h more
  rename_i htrailing
  rw [if_neg htrailing]
  split at h
  · rename_i hchecksum
    rw [if_pos hchecksum]
    exact decision_append h more
  · rename_i hchecksum
    rw [if_neg hchecksum]
    exact decision_append h more

theorem length_decodePacket_lt {buffered rest : List UInt8}
    {item : Except DecodeError Frame} (hheader : headerBytes ≤ buffered.length)
    (h : decision (decodePacket buffered) = (some item, rest)) :
    rest.length < buffered.length := by
  have hheader' : 16 ≤ buffered.length := hheader
  have hdrop (answer : Except DecodeError (Option Frame)) (count : Nat) (hcount : 0 < count)
      (h : decision (answer, ⟨buffered.drop count⟩) = (some item, rest)) :
      rest.length < buffered.length := by
    have hrest : buffered.drop count = rest := by
      rcases answer with error | _ | frame <;> simp_all [decision]
    rw [← hrest, List.length_drop]
    omega
  unfold decodePacket at h
  simp only at h
  split at h
  · exact hdrop _ 1 (by decide) h
  split at h
  · split at h <;> exact hdrop _ headerBytes (by decide) h
  split at h
  · simp [decision] at h
  split at h
  · exact hdrop _ 1 (by decide) h
  split at h <;> exact hdrop _ _ (by omega) h

theorem decodeNext_congr {buffered buffered' : List UInt8}
    (h : discardNoise buffered = discardNoise buffered') :
    decodeNext buffered = decodeNext buffered' := by
  simp only [decodeNext, Decoder.next, h]

theorem decodeNext_wait {buffered rest : List UInt8}
    (h : decodeNext buffered = (none, rest)) : rest = discardNoise buffered := by
  unfold decodeNext Decoder.next at h
  simp only at h
  split at h
  · rename_i hempty
    simpa [decision, hempty] using h.symm
  · rename_i first tail hsettled
    rw [hsettled]
    split at h
    · simp [decision] at h
    split at h
    · simpa [decision] using h.symm
    · exact decodePacket_wait h

theorem decodeNext_decides {buffered rest : List UInt8} {item : Except DecodeError Frame}
    (h : decodeNext buffered = (some item, rest)) :
    (∃ tail, discardNoise buffered = breakInByte :: tail ∧ item = .ok .breakIn ∧ rest = tail) ∨
    (∃ first tail, discardNoise buffered = first :: tail ∧ first ≠ breakInByte ∧
      headerBytes ≤ (first :: tail).length ∧
      decision (decodePacket (first :: tail)) = (some item, rest)) := by
  unfold decodeNext Decoder.next at h
  simp only at h
  split at h
  · simp [decision] at h
  · rename_i first tail hsettled
    split at h
    · rename_i hbreak
      simp only [decision, Prod.mk.injEq, Option.some.injEq] at h
      exact Or.inl ⟨tail, by rw [hsettled, hbreak], h.1.symm, h.2.symm⟩
    split at h
    · simp [decision] at h
    · rename_i hbreak hshort
      exact Or.inr ⟨first, tail, hsettled, hbreak, Nat.le_of_not_lt hshort, h⟩

theorem settled_discardNoise (buffered : List UInt8) : Settled (discardNoise buffered) := by
  rw [discardNoise_eq]
  exact settled_discardBrokenLeaders buffered

theorem decodeNext_of_breakIn {buffered tail : List UInt8}
    (h : discardNoise buffered = breakInByte :: tail) :
    decodeNext buffered = (some (.ok .breakIn), tail) := by
  simp [decodeNext, Decoder.next, h, decision]

theorem decodeNext_of_packet {buffered tail : List UInt8} {first : UInt8}
    (h : discardNoise buffered = first :: tail) (hpacket : first ≠ breakInByte)
    (hheader : headerBytes ≤ (first :: tail).length) :
    decodeNext buffered = decision (decodePacket (first :: tail)) := by
  simp only [decodeNext, Decoder.next, h, hpacket, Nat.not_lt.mpr hheader, ↓reduceIte]

theorem decodeNext_final {buffered rest : List UInt8} {item : Except DecodeError Frame}
    (h : decodeNext buffered = (some item, rest)) (more : List UInt8) :
    decodeNext (buffered ++ more) = (some item, rest ++ more) := by
  have hsettled := settled_discardNoise buffered
  rcases decodeNext_decides h with
    ⟨tail, hnoise, rfl, rfl⟩ | ⟨first, tail, hnoise, hpacket, hheader, hdecoded⟩
  · apply decodeNext_of_breakIn
    rw [← discardNoise_append, hnoise]
    exact discardNoise_settled (Or.inl rfl)
  · have hlonger : discardNoise (buffered ++ more) = first :: (tail ++ more) := by
      rw [hnoise] at hsettled
      rw [← discardNoise_append, hnoise, discardNoise_settled]
      · rfl
      · exact hsettled.append more
          (Or.inr (Nat.le_trans (by decide : 4 ≤ headerBytes) hheader))
    rw [decodeNext_of_packet hlonger hpacket
      (by simp only [List.length_cons, List.length_append] at hheader ⊢; omega)]
    exact decodePacket_final hheader hdecoded more

theorem length_decodeNext_lt {buffered rest : List UInt8} {item : Except DecodeError Frame}
    (h : decodeNext buffered = (some item, rest)) : rest.length < buffered.length := by
  have hnoise : (discardNoise buffered).length ≤ buffered.length := by
    rw [discardNoise_eq]
    exact length_discardBrokenLeaders_le buffered
  rcases decodeNext_decides h with
    ⟨tail, hbuffer, rfl, rfl⟩ | ⟨first, tail, hbuffer, hpacket, hheader, hdecoded⟩
  · rw [hbuffer, List.length_cons] at hnoise
    omega
  · have hshorter := length_decodePacket_lt hheader hdecoded
    rw [hbuffer] at hnoise
    omega

/-- `Decoder::next` called until `Ok(None)`, as the transport reader does. -/
def stream : StreamDecoder UInt8 (Except DecodeError Frame) where
  next := decodeNext
  next_nil := rfl
  shrinks := length_decodeNext_lt
  final := decodeNext_final
  resumes := by
    intro buffered rest h more
    apply decodeNext_congr
    rw [decodeNext_wait h, discardNoise_append]

/-- Push each chunk into a fresh decoder, calling `next` until it waits after
each: the frames and errors in order, and the decoder left behind. -/
def decode (chunks : List (List UInt8)) : List (Except DecodeError Frame) × Decoder :=
  let fed := stream.feed chunks
  (fed.1, ⟨fed.2⟩)

/-- The decoded sequence and the bytes left buffered are functions of the byte
stream alone. -/
theorem decode_of_flatten_eq (chunks chunks' : List (List UInt8))
    (h : chunks.flatten = chunks'.flatten) : decode chunks = decode chunks' := by
  unfold decode
  rw [StreamDecoder.feed_eq_drain, StreamDecoder.feed_eq_drain, h]

theorem decode_split_reset_packet :
    decode [[0xff, 0x69, 0x69], [0x69, 0x69, 6, 0, 0, 0, 0, 0, 0, 0, 0, 0, 0, 0, 0x62]] =
      decode [[0xff], [0x69, 0x69, 0x69, 0x69, 6, 0, 0, 0, 0], [0, 0, 0, 0, 0, 0, 0], [0x62]] :=
  decode_of_flatten_eq _ _ (by decide)

end WindbgMcp.KdWire
