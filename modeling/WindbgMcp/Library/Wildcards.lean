import Mathlib.Data.List.Basic

/-! Splitting a word along a pattern, some items of which stand for a run of letters and
every other for one letter. -/
namespace WindbgMcp.Library

/-- What the items of a pattern stand for.  A run item in front of a letter that sticks to
it stands for that letter alone. -/
structure Wildcards (π α : Type) where
  run : π → Bool
  one : π → α → Bool
  sticks : π → α → Bool

variable {π α : Type}

inductive Splits (kinds : Wildcards π α) : List π → List α → Prop where
  | nil : Splits kinds [] []
  | one {item : π} {letter : α} {pattern : List π} {word : List α}
      (hrun : kinds.run item = false) (hone : kinds.one item letter = true)
      (rest : Splits kinds pattern word) : Splits kinds (item :: pattern) (letter :: word)
  | run {item : π} (taken : List α) {pattern : List π} {word : List α}
      (hrun : kinds.run item = true)
      (hsticks : ∀ letter ∈ (taken ++ word).head?, kinds.sticks item letter = true →
        taken = [letter])
      (rest : Splits kinds pattern word) : Splits kinds (item :: pattern) (taken ++ word)

namespace Splits

variable {kinds : Wildcards π α} {item : π} {letter : α} {pattern : List π} {word : List α}

theorem nil_iff : Splits kinds [] word ↔ word = [] := by
  constructor
  · intro h
    cases h
    rfl
  · intro h
    rw [h]
    exact nil

theorem cons_one_iff (hrun : kinds.run item = false) : Splits kinds (item :: pattern) word ↔
    ∃ letter rest, word = letter :: rest ∧ kinds.one item letter = true ∧
      Splits kinds pattern rest := by
  constructor
  · intro h
    cases h with
    | one _ hone rest => exact ⟨_, _, rfl, hone, rest⟩
    | run taken hrun' => rw [hrun] at hrun'; cases hrun'
  · rintro ⟨letter, rest, rfl, hone, hrest⟩
    exact one hrun hone hrest

theorem cons_run_iff (hrun : kinds.run item = true) : Splits kinds (item :: pattern) word ↔
    ∃ count ≤ word.length, (∀ letter ∈ word.head?, kinds.sticks item letter = true → count = 1) ∧
      Splits kinds pattern (word.drop count) := by
  constructor
  · intro h
    cases h with
    | one hrun' => rw [hrun] at hrun'; cases hrun'
    | run taken _ hsticks rest =>
      refine ⟨taken.length, by simp, ?_, by rwa [List.drop_left]⟩
      intro letter hletter hstuck
      rw [hsticks letter hletter hstuck]
      rfl
  · rintro ⟨count, hcount, hsticks, hrest⟩
    have h := run (word.take count) hrun ?_ hrest
    · rwa [List.take_append_drop] at h
    rw [List.take_append_drop]
    intro letter hletter hstuck
    rw [hsticks letter hletter hstuck]
    cases word with
    | nil => cases hletter
    | cons first rest =>
      cases hletter
      rfl

theorem nil_right_iff : Splits kinds pattern [] ↔ pattern.all kinds.run = true := by
  induction pattern with
  | nil => simp [nil_iff]
  | cons item pattern ih =>
    rw [List.all_cons, Bool.and_eq_true]
    cases hrun : kinds.run item with
    | false => simp [cons_one_iff hrun]
    | true =>
      rw [cons_run_iff hrun, ← ih]
      simp

theorem cons_stuck_iff (hrun : kinds.run item = true) (hstuck : kinds.sticks item letter = true) :
    Splits kinds (item :: pattern) (letter :: word) ↔ Splits kinds pattern word := by
  rw [cons_run_iff hrun]
  constructor
  · rintro ⟨count, -, hsticks, hrest⟩
    rwa [hsticks letter rfl hstuck] at hrest
  · intro hrest
    refine ⟨1, by simp, ?_, hrest⟩
    intro _ _ _
    rfl

theorem cons_free_iff (hrun : kinds.run item = true)
    (hfree : ∀ letter ∈ word.head?, kinds.sticks item letter = false) :
    Splits kinds (item :: pattern) word ↔
      ∃ count ≤ word.length, Splits kinds pattern (word.drop count) := by
  rw [cons_run_iff hrun]
  apply exists_congr
  intro count
  apply and_congr_right
  intro _
  apply and_iff_right
  intro letter hletter hstuck
  rw [hfree letter hletter] at hstuck
  cases hstuck

theorem loosen {other : Wildcards π α} (hrun : kinds.run = other.run) (hone : kinds.one = other.one)
    (hsticks : ∀ item letter, letter ∈ word → other.run item = true →
      other.sticks item letter = true → kinds.sticks item letter = true)
    (h : Splits kinds pattern word) : Splits other pattern word := by
  induction h with
  | nil => exact nil
  | one hitem hletter _ ih =>
    rw [hrun] at hitem
    rw [hone] at hletter
    apply one hitem hletter
    apply ih
    intro item letter hmem
    exact hsticks item letter (List.mem_cons_of_mem _ hmem)
  | run taken hitem hstuck _ ih =>
    rw [hrun] at hitem
    apply run taken hitem
    · intro letter hletter hsticking
      apply hstuck letter hletter
      exact hsticks _ letter (List.mem_of_mem_head? hletter) hitem hsticking
    · apply ih
      intro item letter hmem
      exact hsticks item letter (List.mem_append_right _ hmem)

end Splits

/-! ## Places in a pattern and a word -/

/-- From one place of the pattern and the word, `count` items each stand for one letter. -/
def Steps (kinds : Wildcards π α) (pattern : List π) (word : List α) (i a count : Nat) : Prop :=
  ∀ j < count, ∃ item letter, pattern[i + j]? = some item ∧ word[a + j]? = some letter ∧
    kinds.one item letter = true

def SplitsAt (kinds : Wildcards π α) (pattern : List π) (word : List α) (i a : Nat) : Prop :=
  Splits kinds (pattern.drop i) (word.drop a)

variable {kinds : Wildcards π α} {pattern : List π} {word : List α} {i a m count : Nat}

theorem drop_of_getElem? {items : List α} {place : Nat} {item : α}
    (h : items[place]? = some item) : items.drop place = item :: items.drop (place + 1) := by
  obtain ⟨hlt, rfl⟩ := List.getElem?_eq_some_iff.mp h
  exact List.drop_eq_getElem_cons hlt

/-- Where each item stands for one letter, a split that starts no earlier gets no less far. -/
theorem Steps.passes (hsticks : ∀ item letter, kinds.run item = true →
      kinds.one item letter = true → kinds.sticks item letter = true)
    (hsteps : Steps kinds pattern word i a count) (hlater : a ≤ m) (hend : m ≤ word.length)
    (h : SplitsAt kinds pattern word i m) :
    ∃ n, a + count ≤ n ∧ n ≤ word.length ∧ SplitsAt kinds pattern word (i + count) n := by
  induction count with
  | zero => exact ⟨m, hlater, hend, h⟩
  | succ count ih =>
    obtain ⟨n, hn, hnend, hsplits⟩ := ih fun j hj => hsteps j (Nat.lt_succ_of_lt hj)
    obtain ⟨item, letter, hitem, hletter, hone⟩ := hsteps count (Nat.lt_succ_self count)
    rw [SplitsAt, drop_of_getElem? hitem] at hsplits
    cases hrun : kinds.run item with
    | false =>
      obtain ⟨first, rest, hrest, -, hsplits⟩ := (Splits.cons_one_iff hrun).mp hsplits
      have hlength := congrArg List.length hrest
      rw [List.length_drop, List.length_cons] at hlength
      have hnext : word.drop (n + 1) = rest := by
        rw [← List.drop_drop, hrest]
        rfl
      refine ⟨n + 1, by omega, by omega, ?_⟩
      rw [SplitsAt, hnext]
      exact hsplits
    | true =>
      obtain ⟨taken, htaken, hstuck, hsplits⟩ := (Splits.cons_run_iff hrun).mp hsplits
      rw [List.drop_drop] at hsplits
      rw [List.length_drop] at htaken
      have hpast : a + (count + 1) ≤ n + taken := by
        obtain heq | hlt := Nat.eq_or_lt_of_le hn
        · have htake : taken = 1 := by
            apply hstuck letter _ (hsticks item letter hrun hone)
            rw [← heq, drop_of_getElem? hletter]
            rfl
          omega
        · omega
      exact ⟨n + taken, hpast, by omega, hsplits⟩

end WindbgMcp.Library
