import Mathlib.Data.List.Basic

/-! Partial functions on addresses given by spans: a span maps an interval onto an
interval of the same size.  Lists of spans are in ascending order and do not overlap. -/
namespace WindbgMcp.Library

structure Span where
  start : Nat
  target : Nat
  size : Nat
  deriving DecidableEq, Repr

namespace Span

def Covers (span : Span) (address : Nat) : Prop :=
  span.start ≤ address ∧ address < span.start + span.size

def Below (first second : Span) : Prop := first.start + first.size ≤ second.start

/-- Aligned to the grain at both ends, on both sides, with its image under the limit. -/
structure Regular (grain limit : Nat) (span : Span) : Prop where
  start : grain ∣ span.start
  target : grain ∣ span.target
  size : grain ∣ span.size
  room : span.target + span.size ≤ limit

/-- The spans lie in `[low, high)`, and what they say is what `f` says. -/
structure Maps (f : Nat → Option Nat) (low high : Nat) (spans : List Span) : Prop where
  within : ∀ span ∈ spans, low ≤ span.start ∧ span.start + span.size ≤ high
  agrees : ∀ span ∈ spans, ∀ offset < span.size,
    f (span.start + offset) = some (span.target + offset)
  ascending : spans.Pairwise Below

/-- Every address of `[low, high)` that `f` maps is in a span. -/
def Exhausts (f : Nat → Option Nat) (low high : Nat) (spans : List Span) : Prop :=
  ∀ address, low ≤ address → address < high → (f address).isSome = true →
    ∃ span ∈ spans, span.Covers address

section
variable {f g : Nat → Option Nat} {low middle high : Nat} {spans later : List Span}

theorem maps_nil : Maps f low high [] :=
  ⟨nofun, nofun, List.Pairwise.nil⟩

theorem maps_singleton {span : Span} (hlow : low ≤ span.start)
    (hhigh : span.start + span.size ≤ high)
    (hagrees : ∀ offset < span.size, f (span.start + offset) = some (span.target + offset)) :
    Maps f low high [span] where
  within := by
    intro other hother
    obtain rfl := List.mem_singleton.mp hother
    exact ⟨hlow, hhigh⟩
  agrees := by
    intro other hother
    obtain rfl := List.mem_singleton.mp hother
    exact hagrees
  ascending := List.pairwise_singleton ..

theorem Maps.append (h : Maps f low middle spans) (hlater : Maps f middle high later)
    (hlow : low ≤ middle) (hhigh : middle ≤ high) : Maps f low high (spans ++ later) where
  within := by
    intro span hspan
    rcases List.mem_append.mp hspan with hmem | hmem
    · have := h.within span hmem
      omega
    · have := hlater.within span hmem
      omega
  agrees := by
    intro span hspan
    rcases List.mem_append.mp hspan with hmem | hmem
    · exact h.agrees span hmem
    · exact hlater.agrees span hmem
  ascending := by
    apply List.pairwise_append.mpr
    refine ⟨h.ascending, hlater.ascending, ?_⟩
    intro first hfirst second hsecond
    have := h.within first hfirst
    have := hlater.within second hsecond
    unfold Below
    omega

theorem Maps.congr (h : Maps f low high spans)
    (hsame : ∀ address, low ≤ address → address < high → g address = f address) :
    Maps g low high spans where
  within := h.within
  agrees := by
    intro span hspan offset hoffset
    have := h.within span hspan
    rw [hsame _ (by omega) (by omega)]
    exact h.agrees span hspan offset hoffset
  ascending := h.ascending

theorem exhausts_of_none
    (h : ∀ address, low ≤ address → address < high → f address = none) :
    Exhausts f low high spans := by
  intro address hlow hhigh hsome
  rw [h address hlow hhigh] at hsome
  cases hsome

theorem Exhausts.append (h : Exhausts f low middle spans)
    (hlater : Exhausts f middle high later) : Exhausts f low high (spans ++ later) := by
  intro address hlow hhigh hsome
  by_cases hmiddle : address < middle
  · obtain ⟨span, hspan, hcovers⟩ := h address hlow hmiddle hsome
    exact ⟨span, List.mem_append_left _ hspan, hcovers⟩
  · obtain ⟨span, hspan, hcovers⟩ := hlater address (by omega) hhigh hsome
    exact ⟨span, List.mem_append_right _ hspan, hcovers⟩

theorem Exhausts.congr (h : Exhausts f low high spans)
    (hsame : ∀ address, low ≤ address → address < high → g address = f address) :
    Exhausts g low high spans := by
  intro address hlow hhigh hsome
  rw [hsame address hlow hhigh] at hsome
  exact h address hlow hhigh hsome

end

section
variable {α : Type} (span : α → Span)

def lookup (entries : List α) (address : Nat) : Option α :=
  (entries.takeWhile fun entry => (span entry).start ≤ address).getLast?

theorem lookup_mem {entries : List α} {address : Nat} {entry : α}
    (h : lookup span entries address = some entry) :
    entry ∈ entries ∧ (span entry).start ≤ address := by
  have hmem := List.mem_of_getLast? h
  have hstart := List.all_eq_true.mp List.all_takeWhile entry hmem
  exact ⟨(List.takeWhile_sublist _).subset hmem, by simpa using hstart⟩

theorem lookup_of_covers {entries : List α} {address : Nat} {entry : α}
    (hascending : entries.Pairwise fun first second => (span first).Below (span second))
    (hentry : entry ∈ entries) (hcovers : (span entry).Covers address) :
    lookup span entries address = some entry := by
  obtain ⟨front, back, rfl⟩ := List.append_of_mem hentry
  rw [List.pairwise_append, List.pairwise_cons] at hascending
  unfold lookup
  have hfront : ∀ other ∈ front, decide ((span other).start ≤ address) = true := by
    intro other hother
    have hbelow := hascending.2.2 other hother entry List.mem_cons_self
    unfold Below at hbelow
    unfold Covers at hcovers
    simp only [decide_eq_true_eq]
    omega
  have hback : ∀ other ∈ back, ¬ decide ((span other).start ≤ address) = true := by
    intro other hother
    have hbelow := hascending.2.1.1 other hother
    unfold Below at hbelow
    unfold Covers at hcovers
    simp only [decide_eq_true_eq]
    omega
  rw [List.takeWhile_append_of_pos hfront, List.takeWhile_cons_of_pos (by simpa using hcovers.1)]
  have hnone : (back.takeWhile fun other => decide ((span other).start ≤ address)) = [] := by
    cases back with
    | nil => rfl
    | cons other back => exact List.takeWhile_cons_of_neg (hback other List.mem_cons_self)
  rw [hnone]
  simp

end

end Span

end WindbgMcp.Library
