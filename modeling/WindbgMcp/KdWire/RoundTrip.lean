import WindbgMcp.KdWire.Decoding

/-! What the encoders write, the decoder reads back: packets, break-in bytes and
line noise between them, for any sequence of messages. -/
namespace WindbgMcp.KdWire

open Library

theorem word_at {front : List UInt8} (value : UInt32) (more : List UInt8) {«at» : Nat}
    (h : front.length = «at») : word (front ++ (wordBytes value ++ more)) «at» = value := by
  subst h
  unfold word wordBytes
  rw [LittleEndian.slice_encode _ _ _ _ (by simpa using value.toNat_lt)]
  exact UInt32.ofNat_toNat

theorem half_at {front : List UInt8} (value : UInt16) (more : List UInt8) {«at» : Nat}
    (h : front.length = «at») : half (front ++ (halfBytes value ++ more)) «at» = value := by
  subst h
  unfold half halfBytes
  rw [LittleEndian.slice_encode _ _ _ _ (by simpa using value.toNat_lt)]
  exact UInt16.ofNat_toNat

def header (leader : UInt32) (packetType count : UInt16) (id checksum : UInt32) : List UInt8 :=
  wordBytes leader ++ (halfBytes packetType ++ (halfBytes count ++
    (wordBytes id ++ wordBytes checksum)))

@[simp] theorem length_header (leader : UInt32) (packetType count : UInt16)
    (id checksum : UInt32) : (header leader packetType count id checksum).length = 16 := by
  simp [header]

section Header

variable (leader : UInt32) (packetType count : UInt16) (id checksum : UInt32)
  (more : List UInt8)

theorem word_header_leader :
    word (header leader packetType count id checksum ++ more) 0 = leader := by
  have hfront : ([] : List UInt8).length = 0 := rfl
  simp only [header, List.append_assoc]
  exact word_at _ _ hfront

theorem half_header_type :
    half (header leader packetType count id checksum ++ more) 4 = packetType := by
  simp only [header, List.append_assoc]
  exact half_at _ _ (by simp)

theorem half_header_count :
    half (header leader packetType count id checksum ++ more) 6 = count := by
  simp only [header, List.append_assoc]
  rw [← List.append_assoc]
  exact half_at _ _ (by simp)

theorem word_header_id :
    word (header leader packetType count id checksum ++ more) 8 = id := by
  simp only [header, List.append_assoc]
  rw [← List.append_assoc, ← List.append_assoc]
  exact word_at _ _ (by simp)

theorem word_header_checksum :
    word (header leader packetType count id checksum ++ more) 12 = checksum := by
  simp only [header, List.append_assoc]
  rw [← List.append_assoc, ← List.append_assoc, ← List.append_assoc]
  exact word_at _ _ (by simp)

theorem drop_header :
    (header leader packetType count id checksum ++ more).drop headerBytes = more := by
  rw [List.drop_append_of_le_length (by simp [headerBytes]),
    List.drop_of_length_le (by simp [headerBytes]), List.nil_append]

end Header

theorem control_eq_header (packetType : UInt16) (id : UInt32) :
    control packetType id = header controlPacketLeader packetType 0 id 0 := rfl

theorem data_eq_ok {packetType : UInt16} {id : UInt32} {payload : List UInt8}
    (h : payload.length ≤ maxPacketBytes) :
    data packetType id payload =
      .ok (header packetLeader packetType (UInt16.ofNat payload.length) id
        (checksumBytes payload) ++ (payload ++ [packetTrailingByte])) := by
  unfold data
  rw [if_neg (by omega)]
  simp only [header, List.append_assoc]

theorem length_le_of_data_ok {packetType : UInt16} {id : UInt32}
    {payload packet : List UInt8} (h : data packetType id payload = .ok packet) :
    payload.length ≤ maxPacketBytes := by
  unfold data at h
  split at h
  · cases h
  · omega

theorem discardNoise_header {leader : UInt32} (packetType count : UInt16)
    (id checksum : UInt32) (more : List UInt8)
    (h : leader = packetLeader ∨ leader = controlPacketLeader) :
    ∃ first tail, header leader packetType count id checksum ++ more = first :: tail ∧
      first ≠ breakInByte ∧ discardNoise (first :: tail) = first :: tail := by
  rcases h with rfl | rfl
  · exact ⟨0x30, _, rfl, by decide, discardNoise_settled (Or.inr rfl)⟩
  · exact ⟨0x69, _, rfl, by decide, discardNoise_settled (Or.inr rfl)⟩

theorem decodeNext_header {leader : UInt32} (packetType count : UInt16)
    (id checksum : UInt32) (more : List UInt8)
    (h : leader = packetLeader ∨ leader = controlPacketLeader) :
    decodeNext (header leader packetType count id checksum ++ more) =
      decision (decodePacket (header leader packetType count id checksum ++ more)) := by
  obtain ⟨first, tail, hshape, hfirst, hkept⟩ :=
    discardNoise_header packetType count id checksum more h
  have hlength : headerBytes ≤ (first :: tail).length := by
    rw [← hshape, List.length_append, length_header]
    exact Nat.le_add_right _ _
  rw [hshape]
  exact decodeNext_of_packet hkept hfirst hlength

theorem decodeNext_control (packetType : UInt16) (id : UInt32) (more : List UInt8) :
    decodeNext (control packetType id ++ more) =
      (some (.ok (.control packetType id)), more) := by
  rw [control_eq_header, decodeNext_header _ _ _ _ _ (Or.inr rfl)]
  unfold decodePacket
  rw [word_header_leader, half_header_type, half_header_count, word_header_id,
    word_header_checksum, drop_header]
  simp [decision, maxPacketBytes]

theorem decodeNext_data {packetType : UInt16} {id : UInt32} {payload bytes : List UInt8}
    (h : data packetType id payload = .ok bytes) (more : List UInt8) :
    decodeNext (bytes ++ more) = (some (.ok (.data ⟨packetType, id, payload⟩)), more) := by
  have hfits := length_le_of_data_ok h
  have hcount : (UInt16.ofNat payload.length).toNat = payload.length := by
    have hsmall : payload.length < 65536 := Nat.lt_of_le_of_lt hfits (by decide)
    simpa using hsmall
  rw [data_eq_ok hfits, Except.ok.injEq] at h
  subst h
  rw [List.append_assoc, decodeNext_header _ _ _ _ _ (Or.inl rfl)]
  have hdrop (count : Nat) (tail : List UInt8) :
      (header packetLeader packetType (UInt16.ofNat payload.length) id
        (checksumBytes payload) ++ tail).drop (headerBytes + count) = tail.drop count := by
    rw [← List.drop_drop, drop_header]
  have htrailer : (header packetLeader packetType (UInt16.ofNat payload.length) id
      (checksumBytes payload) ++ (payload ++ [packetTrailingByte] ++ more)).getD
        (headerBytes + payload.length + 1 - 1) 0 = packetTrailingByte := by
    rw [Nat.add_sub_cancel, List.getD_eq_getElem?_getD,
      List.getElem?_append_right (by simp [headerBytes])]
    simp [headerBytes]
  have hlength : headerBytes + payload.length + 1 ≤
      (header packetLeader packetType (UInt16.ofNat payload.length) id (checksumBytes payload) ++
        (payload ++ [packetTrailingByte] ++ more)).length := by
    simp only [List.length_append, length_header, List.length_singleton, headerBytes]
    omega
  unfold decodePacket
  simp only [word_header_leader, half_header_type, half_header_count, word_header_id,
    word_header_checksum, hcount, drop_header]
  rw [if_neg (by omega), if_neg (by decide), if_neg (Nat.not_lt_of_le hlength), htrailer,
    if_neg (by simp), Nat.add_assoc, hdrop]
  have hpayload : (payload ++ [packetTrailingByte] ++ more).take payload.length = payload := by
    simp
  have hrest : (payload ++ [packetTrailingByte] ++ more).drop (payload.length + 1) = more := by
    rw [← List.drop_drop]
    simp
  rw [hpayload, hrest, if_neg (by simp)]
  rfl

theorem discardNoise_noise (noise more : List UInt8)
    (h : ∀ byte ∈ noise, startsFrame byte = false) :
    discardNoise (noise ++ more) = discardNoise more := by
  simp only [discardNoise_eq]
  induction noise with
  | nil => rfl
  | cons byte noise ih =>
    rw [List.cons_append, discardBrokenLeaders_cons_noise _ (h byte List.mem_cons_self)]
    exact ih fun later hlater => h later (List.mem_cons_of_mem _ hlater)

inductive Message where
  | control (packetType : UInt16) (id : UInt32)
  | data (packet : DataPacket) (hfits : packet.payload.length ≤ maxPacketBytes)
  | breakIn

namespace Message

def frame : Message → Frame
  | control packetType id => .control packetType id
  | data packet _ => .data packet
  | breakIn => .breakIn

def bytes : Message → List UInt8
  | control packetType id => KdWire.control packetType id
  | data packet _ =>
    (KdWire.data packet.packetType packet.id packet.payload).toOption.getD []
  | breakIn => [breakInByte]

theorem data_eq_bytes (packet : DataPacket) (hfits : packet.payload.length ≤ maxPacketBytes) :
    KdWire.data packet.packetType packet.id packet.payload = .ok (data packet hfits).bytes := by
  simp [bytes, data_eq_ok hfits, Except.toOption]

theorem decodeNext_bytes (message : Message) (more : List UInt8) :
    decodeNext (message.bytes ++ more) = (some (.ok message.frame), more) := by
  cases message with
  | control packetType id => exact decodeNext_control packetType id more
  | data packet hfits => exact decodeNext_data (data_eq_bytes packet hfits) more
  | breakIn => exact decodeNext_of_breakIn (discardNoise_settled (Or.inl rfl))

end Message

/-- A message on the line with the noise that precedes it: bytes none of which
is `0x30`, `0x62` or `0x69`. -/
structure Transmission where
  noise : List UInt8
  quiet : ∀ byte ∈ noise, byte ≠ 0x30 ∧ byte ≠ 0x62 ∧ byte ≠ 0x69
  message : Message

def Transmission.bytes (sent : Transmission) : List UInt8 := sent.noise ++ sent.message.bytes

theorem Transmission.decodeNext_bytes (sent : Transmission) (more : List UInt8) :
    decodeNext (sent.bytes ++ more) = (some (.ok sent.message.frame), more) := by
  have hquiet : ∀ byte ∈ sent.noise, startsFrame byte = false := by
    intro byte hbyte
    obtain ⟨hdata, hbreak, hcontrol⟩ := sent.quiet byte hbyte
    simp [startsFrame, breakInByte, hdata, hbreak, hcontrol]
  rw [← sent.message.decodeNext_bytes more]
  apply decodeNext_congr
  rw [Transmission.bytes, List.append_assoc, discardNoise_noise _ _ hquiet]

/-- Any sequence of encoded messages, each behind any noise, decodes to exactly
its frames, without an error and with nothing left over. -/
theorem decode_transmissions (sent : List Transmission) :
    decode [sent.flatMap Transmission.bytes] =
      (sent.map fun transmission => .ok transmission.message.frame, Decoder.new) := by
  have hdrained : stream.drain (sent.flatMap Transmission.bytes) =
      (sent.map fun transmission => .ok transmission.message.frame, []) :=
    StreamDecoder.drain_flatMap _ _ sent
      fun transmission _ more => transmission.decodeNext_bytes more
  simp only [decode, StreamDecoder.feed_eq_drain, List.flatten_cons, List.flatten_nil,
    List.append_nil, hdrained, Decoder.new]

end WindbgMcp.KdWire
