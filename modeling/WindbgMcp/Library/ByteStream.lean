import Mathlib.Data.List.Basic

/-! Reading from a stream of bytes that may fail at any point and ends when its sender
closes it.  The two operations are those of a buffered reader: a line of at most a given
length, and a fixed number of bytes. -/
namespace WindbgMcp.Library.ByteStream

/-- What the next read finds; the end of a list of arrivals is the end of the stream. -/
inductive Arrival where
  | byte (value : UInt8)
  | fault
deriving DecidableEq, Repr

def newline : UInt8 := 10

/-- Bytes up to and with the first newline, at most `limit`, fewer at the end of the
stream.  The flag says that a read failed, whereupon the bytes before it are lost. -/
def readUntil : Nat → List Arrival → List UInt8 × Bool × List Arrival
  | 0, stream => ([], false, stream)
  | _ + 1, [] => ([], false, [])
  | _ + 1, .fault :: stream => ([], true, stream)
  | limit + 1, .byte value :: stream =>
    if value = newline then ([value], false, stream)
    else
      let (bytes, failed, rest) := readUntil limit stream
      (value :: bytes, failed, rest)

/-- Exactly `count` bytes; none when a read fails or the stream ends first. -/
def readExact : Nat → List Arrival → Option (List UInt8) × List Arrival
  | 0, stream => (some [], stream)
  | _ + 1, [] => (none, [])
  | _ + 1, .fault :: stream => (none, stream)
  | count + 1, .byte value :: stream =>
    let (bytes, rest) := readExact count stream
    (bytes.map (value :: ·), rest)

def ofBytes (bytes : List UInt8) : List Arrival := bytes.map .byte

@[simp] theorem ofBytes_nil : ofBytes [] = [] := rfl

@[simp] theorem ofBytes_cons (value : UInt8) (bytes : List UInt8) :
    ofBytes (value :: bytes) = .byte value :: ofBytes bytes := rfl

def IsLine (bytes : List UInt8) : Prop := ∃ front, bytes = front ++ [newline] ∧ newline ∉ front

variable {limit count : Nat} {stream rest : List Arrival} {bytes : List UInt8}

theorem readUntil_suffix (limit : Nat) (stream : List Arrival) :
    (readUntil limit stream).2.2 <:+ stream := by
  fun_induction readUntil limit stream with
  | case1 => exact List.suffix_refl _
  | case2 => exact List.suffix_refl _
  | case3 => exact List.suffix_cons _ _
  | case4 => exact List.suffix_cons _ _
  | case5 limit value stream _ bytes failed rest heq ih =>
    rw [heq] at ih
    exact ih.trans (List.suffix_cons _ _)

theorem readExact_suffix (count : Nat) (stream : List Arrival) :
    (readExact count stream).2 <:+ stream := by
  fun_induction readExact count stream with
  | case1 => exact List.suffix_refl _
  | case2 => exact List.suffix_refl _
  | case3 => exact List.suffix_cons _ _
  | case4 count value stream bytes rest heq ih =>
    rw [heq] at ih
    exact ih.trans (List.suffix_cons _ _)

/-- What a read without failure took stood at the front of the stream: a whole line, as
much as the limit allows, or all that was left. -/
theorem readUntil_spec (h : readUntil limit stream = (bytes, false, rest)) :
    stream = ofBytes bytes ++ rest ∧
      (IsLine bytes ∨ newline ∉ bytes ∧ (bytes.length = limit ∨ rest = [])) := by
  fun_induction readUntil limit stream generalizing bytes rest with
  | case1 stream =>
    cases h
    exact ⟨rfl, .inr ⟨List.not_mem_nil, .inl rfl⟩⟩
  | case2 =>
    cases h
    exact ⟨rfl, .inr ⟨List.not_mem_nil, .inr rfl⟩⟩
  | case3 => cases h
  | case4 limit stream =>
    cases h
    exact ⟨rfl, .inl ⟨[], rfl, List.not_mem_nil⟩⟩
  | case5 limit value stream hvalue tail failed left heq ih =>
    obtain ⟨rfl, rfl, rfl⟩ : value :: tail = bytes ∧ failed = false ∧ left = rest := by
      simpa using h
    obtain ⟨hstream, hline⟩ := ih heq
    refine ⟨by rw [hstream]; rfl, ?_⟩
    rcases hline with ⟨front, hfront, hinside⟩ | ⟨hinside, hend⟩
    · refine .inl ⟨value :: front, by rw [hfront]; rfl, ?_⟩
      simp only [List.mem_cons, not_or]
      exact ⟨fun h => hvalue h.symm, hinside⟩
    · refine .inr ⟨?_, ?_⟩
      · simp only [List.mem_cons, not_or]
        exact ⟨fun h => hvalue h.symm, hinside⟩
      · rcases hend with hlength | hrest
        · exact .inl (by rw [List.length_cons, hlength])
        · exact .inr hrest

theorem readExact_spec (h : readExact count stream = (some bytes, rest)) :
    stream = ofBytes bytes ++ rest ∧ bytes.length = count := by
  fun_induction readExact count stream generalizing bytes rest with
  | case1 stream =>
    cases h
    exact ⟨rfl, rfl⟩
  | case2 => cases h
  | case3 => cases h
  | case4 count value stream taken left heq ih =>
    obtain ⟨hbytes, rfl⟩ := Prod.mk.inj h
    obtain ⟨tail, rfl, rfl⟩ := Option.map_eq_some_iff.mp hbytes
    obtain ⟨hstream, hlength⟩ := ih heq
    exact ⟨by rw [hstream]; rfl, by rw [List.length_cons, hlength]⟩

end WindbgMcp.Library.ByteStream
