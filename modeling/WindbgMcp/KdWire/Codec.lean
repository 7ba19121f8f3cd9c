import WindbgMcp.Library.LittleEndian
import WindbgMcp.Library.StreamDecoder
import WindbgMcp.Library.Text

/-! The serial KD packet codec: frames, the resynchronising decoder and the two
encoders.  Bytes and header fields keep their machine widths; a buffer is the
list of the bytes it holds. -/
namespace WindbgMcp.KdWire

open Library

def initialPacketId : UInt32 := 0x80800000
def maxPacketBytes : Nat := 4000

def headerBytes : Nat := 16
def packetLeader : UInt32 := 0x30303030
def controlPacketLeader : UInt32 := 0x69696969
def packetTrailingByte : UInt8 := 0xaa
def breakInByte : UInt8 := 0x62

def packetTypeStateManipulate : UInt16 := 2
def packetTypeAcknowledge : UInt16 := 4
def packetTypeResend : UInt16 := 5
def packetTypeReset : UInt16 := 6
def packetTypeStateChange64 : UInt16 := 7

structure DataPacket where
  packetType : UInt16
  id : UInt32
  payload : List UInt8
deriving DecidableEq, Repr

/-- `malformed` is a framing failure the decoder has already consumed or
resynchronised; `fatal` bounds a client that keeps sending corrupt frames. -/
inductive Frame where
  | breakIn
  | malformed (why : String) (fatal : Bool)
  | control (packetType : UInt16) (id : UInt32)
  | data (packet : DataPacket)
deriving DecidableEq, Repr

inductive DecodeError where
  | oversized (byteCount : Nat)
  | controlPayload (byteCount : Nat) (checksum : UInt32)
  | badChecksum (expected actual : UInt32)
  | missingTrailer (actual : UInt8)
deriving DecidableEq, Repr

def DecodeError.display : DecodeError → String
  | .oversized byteCount =>
    s!"KD packet declares {byteCount} bytes; the protocol maximum is {maxPacketBytes}"
  | .controlPayload byteCount checksum =>
    s!"KD control packet has byte count {byteCount} and checksum {Text.hex checksum.toNat}"
  | .badChecksum expected actual =>
    s!"KD packet checksum is {Text.hex actual.toNat}, expected {Text.hex expected.toNat}"
  | .missingTrailer actual =>
    s!"KD packet trailer is {Text.hex actual.toNat}, expected 0xaa"

def half (bytes : List UInt8) («at» : Nat) : UInt16 :=
  UInt16.ofNat (LittleEndian.slice bytes «at» 2)

def word (bytes : List UInt8) («at» : Nat) : UInt32 :=
  UInt32.ofNat (LittleEndian.slice bytes «at» 4)

def halfBytes (value : UInt16) : List UInt8 := LittleEndian.encode 2 value.toNat
def wordBytes (value : UInt32) : List UInt8 := LittleEndian.encode 4 value.toNat

def checksumBytes (bytes : List UInt8) : UInt32 :=
  bytes.foldl (fun sum byte => sum + byte.toUInt32) 0

def control (packetType : UInt16) (id : UInt32) : List UInt8 :=
  wordBytes controlPacketLeader ++ (halfBytes packetType ++ (halfBytes 0 ++
    (wordBytes id ++ wordBytes 0)))

def data (packetType : UInt16) (id : UInt32) (payload : List UInt8) :
    Except String (List UInt8) :=
  if payload.length > maxPacketBytes then
    .error s!"KD packet payload is {payload.length} bytes; maximum is {maxPacketBytes}"
  else
    .ok (wordBytes packetLeader ++ (halfBytes packetType ++
      (halfBytes (UInt16.ofNat payload.length) ++ (wordBytes id ++
        (wordBytes (checksumBytes payload) ++ (payload ++ [packetTrailingByte]))))))

def startsFrame (byte : UInt8) : Bool :=
  byte == breakInByte || byte == 0x30 || byte == 0x69

/-- The leader a buffer starting with `byte` has to spell out. -/
def neededLeader (byte : UInt8) : List UInt8 :=
  if byte == 0x30 then wordBytes packetLeader else wordBytes controlPacketLeader

def spellsLeader (buffered : List UInt8) (needed : List UInt8) : Bool :=
  let compare := min buffered.length needed.length
  buffered.take compare == needed.take compare

/-- The second half of `discardNoise`: drop single bytes until a break-in byte or
an unbroken (perhaps still incomplete) leader stands first. -/
def discardBrokenLeaders : List UInt8 → List UInt8
  | [] => []
  | byte :: rest =>
    if byte == breakInByte then byte :: rest
    else if spellsLeader (byte :: rest) (neededLeader byte) then byte :: rest
    else discardBrokenLeaders rest

def discardNoise (buffered : List UInt8) : List UInt8 :=
  discardBrokenLeaders (buffered.dropWhile fun byte => !startsFrame byte)

structure Decoder where
  buffered : List UInt8
deriving DecidableEq, Repr

def Decoder.new : Decoder := ⟨[]⟩

def Decoder.push (decoder : Decoder) (bytes : List UInt8) : Decoder :=
  ⟨decoder.buffered ++ bytes⟩

/-- What `next` answers for a buffer whose first byte opens a leader and which
holds a whole header. -/
def decodePacket (buffered : List UInt8) :
    Except DecodeError (Option Frame) × Decoder :=
  let leader := word buffered 0
  let packetType := half buffered 4
  let byteCount := (half buffered 6).toNat
  let id := word buffered 8
  let checksum := word buffered 12
  if byteCount > maxPacketBytes then
    (.error (.oversized byteCount), ⟨buffered.drop 1⟩)
  else if leader = controlPacketLeader then
    if byteCount ≠ 0 ∨ checksum ≠ 0 then
      (.error (.controlPayload byteCount checksum), ⟨buffered.drop headerBytes⟩)
    else
      (.ok (some (.control packetType id)), ⟨buffered.drop headerBytes⟩)
  else
    let total := headerBytes + byteCount + 1
    if buffered.length < total then
      (.ok none, ⟨buffered⟩)
    else
      let trailer := buffered.getD (total - 1) 0
      if trailer ≠ packetTrailingByte then
        (.error (.missingTrailer trailer), ⟨buffered.drop 1⟩)
      else
        let payload := (buffered.drop headerBytes).take byteCount
        let actual := checksumBytes payload
        if actual ≠ checksum then
          (.error (.badChecksum checksum actual), ⟨buffered.drop total⟩)
        else
          (.ok (some (.data ⟨packetType, id, payload⟩)), ⟨buffered.drop total⟩)

def Decoder.next (decoder : Decoder) : Except DecodeError (Option Frame) × Decoder :=
  match discardNoise decoder.buffered with
  | [] => (.ok none, ⟨[]⟩)
  | first :: rest =>
    if first = breakInByte then (.ok (some .breakIn), ⟨rest⟩)
    else if (first :: rest).length < headerBytes then (.ok none, ⟨first :: rest⟩)
    else decodePacket (first :: rest)

end WindbgMcp.KdWire
