import Mathlib.Data.List.Basic

/-! Incremental decoders over a buffered input stream. A step either decides,
consuming a front part of the buffer, or waits, possibly dropping input that no
continuation can use. Two laws make the decoded sequence independent of how a
transport splits the stream: a decision is final, and a wait forgets nothing. -/
namespace WindbgMcp.Library

/-- `next buffer` is the decoded item, if the buffer decides one, and what stays
buffered.  The laws are exactly what chunk independence needs. -/
structure StreamDecoder (β ω : Type) where
  next : List β → Option ω × List β
  next_nil : next [] = (none, [])
  shrinks : ∀ {buffer item rest}, next buffer = (some item, rest) →
    rest.length < buffer.length
  final : ∀ {buffer item rest}, next buffer = (some item, rest) →
    ∀ more, next (buffer ++ more) = (some item, rest ++ more)
  resumes : ∀ {buffer rest}, next buffer = (none, rest) →
    ∀ more, next (buffer ++ more) = next (rest ++ more)

namespace StreamDecoder

/-- Call `next` until it waits.  Every decision shortens the buffer. -/
def drain (decoder : StreamDecoder β ω) (buffer : List β) : List ω × List β :=
  match _h : decoder.next buffer with
  | (none, rest) => ([], rest)
  | (some item, rest) =>
    let later := decoder.drain rest
    (item :: later.1, later.2)
termination_by buffer.length
decreasing_by exact decoder.shrinks _h

def push (decoder : StreamDecoder β ω) (state : List ω × List β)
    (chunk : List β) : List ω × List β :=
  let drained := decoder.drain (state.2 ++ chunk)
  (state.1 ++ drained.1, drained.2)

def feed (decoder : StreamDecoder β ω) (chunks : List (List β)) : List ω × List β :=
  chunks.foldl decoder.push ([], [])

variable {decoder : StreamDecoder β ω}

theorem drain_of_wait {buffer rest : List β}
    (h : decoder.next buffer = (none, rest)) : decoder.drain buffer = ([], rest) := by
  rw [drain]
  split
  · rename_i heq
    rw [h] at heq
    cases heq
    rfl
  · rename_i heq
    rw [h] at heq
    cases heq

theorem drain_of_decision {buffer rest : List β} {item : ω}
    (h : decoder.next buffer = (some item, rest)) :
    decoder.drain buffer = (item :: (decoder.drain rest).1, (decoder.drain rest).2) := by
  rw [drain]
  split
  · rename_i heq
    rw [h] at heq
    cases heq
  · rename_i heq
    rw [h] at heq
    cases heq
    rfl

/-- Decoding a longer stream is decoding its front, then the residue with the
rest behind it. -/
theorem drain_append (buffer more : List β) :
    decoder.drain (buffer ++ more) =
      ((decoder.drain buffer).1 ++ (decoder.drain ((decoder.drain buffer).2 ++ more)).1,
        (decoder.drain ((decoder.drain buffer).2 ++ more)).2) := by
  induction hlen : buffer.length using Nat.strongRecOn generalizing buffer with
  | _ length ih =>
    rcases hnext : decoder.next buffer with ⟨decided, rest⟩
    cases decided with
    | none =>
      rw [drain_of_wait hnext]
      have hresume := decoder.resumes hnext more
      rcases hlater : decoder.next (rest ++ more) with ⟨later, residue⟩
      rw [hlater] at hresume
      cases later with
      | none => simp [drain_of_wait hlater, drain_of_wait hresume]
      | some item => simp [drain_of_decision hlater, drain_of_decision hresume]
    | some item =>
      have hshorter := decoder.shrinks hnext
      rw [drain_of_decision hnext, drain_of_decision (decoder.final hnext more),
        ih rest.length (hlen ▸ hshorter) rest rfl]
      rfl

theorem next_drain (buffer : List β) :
    decoder.next (decoder.drain buffer).2 = (none, (decoder.drain buffer).2) := by
  induction hlen : buffer.length using Nat.strongRecOn generalizing buffer with
  | _ length ih =>
    rcases hnext : decoder.next buffer with ⟨decided, rest⟩
    cases decided with
    | none =>
      rw [drain_of_wait hnext]
      have hagain := decoder.resumes hnext []
      simp only [List.append_nil] at hagain
      rw [← hagain, hnext]
    | some item =>
      rw [drain_of_decision hnext]
      exact ih rest.length (hlen ▸ decoder.shrinks hnext) rest rfl

private theorem foldl_push (chunks : List (List β)) (items : List ω) (buffer : List β)
    (hwaits : decoder.next buffer = (none, buffer)) :
    chunks.foldl decoder.push (items, buffer) =
      (items ++ (decoder.drain (buffer ++ chunks.flatten)).1,
        (decoder.drain (buffer ++ chunks.flatten)).2) := by
  induction chunks generalizing items buffer with
  | nil => simp [drain_of_wait hwaits]
  | cons chunk chunks ih =>
    simp only [List.foldl_cons, push, List.flatten_cons]
    rw [ih _ _ (next_drain _), ← List.append_assoc buffer chunk,
      drain_append (buffer ++ chunk)]
    simp

theorem feed_eq_drain (chunks : List (List β)) :
    decoder.feed chunks = decoder.drain chunks.flatten := by
  simp [feed, foldl_push chunks [] [] decoder.next_nil]

theorem drain_flatMap (encode : μ → List β) (item : μ → ω) (messages : List μ)
    (hdecides : ∀ message ∈ messages, ∀ more,
      decoder.next (encode message ++ more) = (some (item message), more)) :
    decoder.drain (messages.flatMap encode) = (messages.map item, []) := by
  induction messages with
  | nil => exact drain_of_wait decoder.next_nil
  | cons message messages ih =>
    rw [List.flatMap_cons,
      drain_of_decision (hdecides message List.mem_cons_self _),
      ih fun later hlater => hdecides later (List.mem_cons_of_mem _ hlater)]
    rfl

end StreamDecoder

end WindbgMcp.Library
