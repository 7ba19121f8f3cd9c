import Mathlib.Data.List.Basic
import Mathlib.Order.Defs.PartialOrder

/-! Stop-and-wait over channels that lose and repeat what they carry but never
reorder it.  Sequence numbers here are unbounded; the ordering below confines
everything in flight to two neighbouring numbers, which is why an implementation
may send only their parity. -/
namespace WindbgMcp.Library

/-- `Garbles xs ys`: `ys` is `xs` with items dropped and items repeated in place. -/
inductive Garbles : List α → List α → Prop where
  | nil : Garbles [] []
  | keep (x : α) (h : Garbles xs ys) : Garbles (x :: xs) (x :: ys)
  | drop (x : α) (h : Garbles xs ys) : Garbles (x :: xs) ys
  | again (h : Garbles (x :: xs) ys) : Garbles (x :: xs) (x :: ys)

namespace Garbles

variable {α β : Type} {xs ys : List α}

@[refl] theorem refl (xs : List α) : Garbles xs xs := by
  induction xs with
  | nil => exact nil
  | cons x xs ih => exact keep x ih

theorem of_eraseIdx (xs : List α) (i : Nat) : Garbles xs (xs.eraseIdx i) := by
  induction xs generalizing i with
  | nil => exact nil
  | cons x xs ih =>
    cases i with
    | zero => exact drop x (refl xs)
    | succ i => exact keep x (ih i)

theorem append_left (front : List α) (h : Garbles xs ys) :
    Garbles (front ++ xs) (front ++ ys) := by
  induction front with
  | nil => exact h
  | cons x front ih => exact keep x ih

theorem mem (h : Garbles xs ys) {x : α} (hx : x ∈ ys) : x ∈ xs := by
  induction h with
  | nil => exact hx
  | keep y h ih =>
    rcases List.mem_cons.mp hx with rfl | hx
    · exact List.mem_cons_self
    · exact List.mem_cons_of_mem _ (ih hx)
  | drop y h ih => exact List.mem_cons_of_mem _ (ih hx)
  | again h ih =>
    rcases List.mem_cons.mp hx with rfl | hx
    · exact List.mem_cons_self
    · exact ih hx

theorem pairwise {R : α → α → Prop} (hrefl : ∀ x, R x x) (h : Garbles xs ys)
    (hxs : xs.Pairwise R) : ys.Pairwise R := by
  induction h with
  | nil => exact hxs
  | keep x h ih =>
    rw [List.pairwise_cons] at hxs ⊢
    exact ⟨fun y hy => hxs.1 y (h.mem hy), ih hxs.2⟩
  | drop x h ih => exact ih (List.pairwise_cons.mp hxs).2
  | @again x xs ys h ih =>
    refine List.pairwise_cons.mpr ⟨fun y hy => ?_, ih hxs⟩
    rcases List.mem_cons.mp (h.mem hy) with rfl | hy
    · exact hrefl y
    · exact (List.pairwise_cons.mp hxs).1 y hy

theorem filterMap (view : α → Option β) (h : Garbles xs ys) :
    Garbles (xs.filterMap view) (ys.filterMap view) := by
  induction h with
  | nil => exact nil
  | keep x h ih =>
    cases hx : view x with
    | none => simpa [hx] using ih
    | some y => simpa [hx] using keep y ih
  | drop x h ih =>
    cases hx : view x with
    | none => simpa [hx] using ih
    | some y => simpa [hx] using drop y ih
  | @again x xs ys h ih =>
    cases hx : view x with
    | none => simpa [hx] using ih
    | some y =>
      simp only [List.filterMap_cons, hx] at ih ⊢
      exact again ih

theorem exists_of_map (label : α → β) {zs : List β} (h : Garbles (xs.map label) zs) :
    ∃ ys, Garbles xs ys ∧ zs = ys.map label := by
  generalize hxs : xs.map label = labelled at h
  induction h generalizing xs with
  | nil =>
    rw [List.map_eq_nil_iff.mp hxs]
    exact ⟨[], nil, rfl⟩
  | keep y h ih =>
    obtain ⟨x, rest, rfl, rfl, hrest⟩ := List.map_eq_cons_iff.mp hxs
    obtain ⟨ys, hys, rfl⟩ := ih hrest
    exact ⟨x :: ys, keep x hys, rfl⟩
  | drop y h ih =>
    obtain ⟨x, rest, rfl, rfl, hrest⟩ := List.map_eq_cons_iff.mp hxs
    obtain ⟨ys, hys, rfl⟩ := ih hrest
    exact ⟨ys, drop x hys, rfl⟩
  | again h ih =>
    obtain ⟨x, rest, rfl, rfl, hrest⟩ := List.map_eq_cons_iff.mp hxs
    obtain ⟨ys, hys, rfl⟩ := ih hxs
    exact ⟨x :: ys, again hys, rfl⟩

end Garbles

/-- The order of everything in flight while the sender works on `current` and the
receiver has taken `delivered` packets: acknowledgements, oldest first, then the
receiver, then packets, oldest first, then the sender again. -/
structure InFlight (acks packets : List Nat) (current delivered : Nat) : Prop where
  acks_sorted : acks.Pairwise (· ≤ ·)
  packets_sorted : packets.Pairwise (· ≤ ·)
  acks_between : ∀ ack ∈ acks, current ≤ ack + 1 ∧ ack + 1 ≤ delivered
  packets_between : ∀ packet ∈ packets, delivered ≤ packet + 1 ∧ packet ≤ current
  current_le : current ≤ delivered
  delivered_le : delivered ≤ current + 1

namespace InFlight

variable {acks packets : List Nat} {current delivered : Nat}

theorem start : InFlight [] [] 0 0 :=
  ⟨.nil, .nil, by simp, by simp, Nat.le_refl _, by omega⟩

theorem garble_packets (h : InFlight acks packets current delivered)
    {packets' : List Nat} (hgarbles : Garbles packets packets') :
    InFlight acks packets' current delivered :=
  ⟨h.acks_sorted, hgarbles.pairwise Nat.le_refl h.packets_sorted, h.acks_between,
    fun packet hpacket => h.packets_between packet (hgarbles.mem hpacket),
    h.current_le, h.delivered_le⟩

theorem garble_acks (h : InFlight acks packets current delivered)
    {acks' : List Nat} (hgarbles : Garbles acks acks') :
    InFlight acks' packets current delivered :=
  ⟨hgarbles.pairwise Nat.le_refl h.acks_sorted, h.packets_sorted,
    fun ack hack => h.acks_between ack (hgarbles.mem hack), h.packets_between,
    h.current_le, h.delivered_le⟩

theorem transmit (h : InFlight acks packets current delivered) :
    InFlight acks (packets ++ [current]) current delivered := by
  refine ⟨h.acks_sorted, ?_, h.acks_between, ?_, h.current_le, h.delivered_le⟩
  · rw [List.pairwise_append]
    refine ⟨h.packets_sorted, List.pairwise_singleton _ _, ?_⟩
    intro packet hpacket later hlater
    rw [List.mem_singleton.mp hlater]
    exact (h.packets_between packet hpacket).2
  · intro packet hpacket
    rcases List.mem_append.mp hpacket with hpacket | hpacket
    · exact h.packets_between packet hpacket
    · rw [List.mem_singleton.mp hpacket]
      exact ⟨h.delivered_le, Nat.le_refl _⟩

private theorem acks_push (h : InFlight acks packets current delivered) {ack : Nat}
    (hack : delivered ≤ ack + 1) : (acks ++ [ack]).Pairwise (· ≤ ·) := by
  rw [List.pairwise_append]
  refine ⟨h.acks_sorted, List.pairwise_singleton _ _, ?_⟩
  intro earlier hearlier later hlater
  rw [List.mem_singleton.mp hlater]
  have := h.acks_between earlier hearlier
  omega

/-- The oldest packet is either the one the receiver is waiting for or the one it
took last; it acknowledges both. -/
theorem deliver {packet : Nat} (h : InFlight acks (packet :: packets) current delivered) :
    (packet = delivered ∧ InFlight (acks ++ [packet]) packets current (delivered + 1)) ∨
      (packet + 1 = delivered ∧ InFlight (acks ++ [packet]) packets current delivered) := by
  obtain ⟨hlow, hhigh⟩ := h.packets_between packet List.mem_cons_self
  have hcurrent := h.current_le
  have hdelivered := h.delivered_le
  obtain ⟨holdest, hsorted⟩ := List.pairwise_cons.mp h.packets_sorted
  have hlater : ∀ later ∈ packets, later ≤ current := fun later hmem =>
    (h.packets_between later (List.mem_cons_of_mem _ hmem)).2
  by_cases hfresh : packet = delivered
  · refine Or.inl ⟨hfresh, h.acks_push hlow, hsorted, ?_, ?_, by omega, by omega⟩
    · intro ack hack
      rcases List.mem_append.mp hack with hack | hack
      · have := h.acks_between ack hack
        omega
      · rw [List.mem_singleton.mp hack]
        omega
    · intro later hmem
      have := holdest later hmem
      have := hlater later hmem
      omega
  · refine Or.inr ⟨by omega, h.acks_push hlow, hsorted, ?_, ?_, h.current_le, h.delivered_le⟩
    · intro ack hack
      rcases List.mem_append.mp hack with hack | hack
      · exact h.acks_between ack hack
      · rw [List.mem_singleton.mp hack]
        omega
    · intro later hmem
      exact h.packets_between later (List.mem_cons_of_mem _ hmem)

/-- The oldest acknowledgement is either of the current packet, which then has
been delivered, or of the one before it. -/
theorem acknowledge {ack : Nat} (h : InFlight (ack :: acks) packets current delivered) :
    (ack = current ∧ InFlight acks packets (current + 1) delivered) ∨
      (ack + 1 = current ∧ InFlight acks packets current delivered) := by
  obtain ⟨hlow, hhigh⟩ := h.acks_between ack List.mem_cons_self
  have hdelivered := h.delivered_le
  obtain ⟨holdest, hsorted⟩ := List.pairwise_cons.mp h.acks_sorted
  by_cases hcurrent : ack = current
  · refine Or.inl ⟨hcurrent, hsorted, h.packets_sorted, ?_, ?_, by omega, by omega⟩
    · intro later hmem
      have := holdest later hmem
      have := h.acks_between later (List.mem_cons_of_mem _ hmem)
      omega
    · intro packet hpacket
      have := h.packets_between packet hpacket
      omega
  · refine Or.inr ⟨by omega, hsorted, h.packets_sorted, ?_, h.packets_between, h.current_le,
      h.delivered_le⟩
    intro later hmem
    exact h.acks_between later (List.mem_cons_of_mem _ hmem)

end InFlight

end WindbgMcp.Library
