import Mathlib.Data.List.Perm.Basic
import Mathlib.Order.MinMax

/-! How long a teardown waits: its grace, then as long as the worker says that it is
unwinding a transaction, then what the release is still owed.  Instants and durations are
in nanoseconds, and every timeout elapses exactly. -/
namespace WindbgMcp.Engine.Teardown

def unwindRecheck : Nat := 1000000000

def unwindSlice (within left : Nat) : Nat := min (min within left) unwindRecheck

def releaseHandoff (ended : Option Nat) (now base left : Nat) : Option Nat := do
  let owed := min ((← ended) + base - now) left
  if owed = 0 then none else some owed

/-- A worker's notice: the instant it is recorded at, and the instant it names. -/
structure RollingBack where
  recordedAt : Nat
  named : Nat
deriving DecidableEq, Repr

/-- The notice as it is read: the interval it carries starts then, and is zero where it
takes a promise back. -/
def RollingBack.read (now withinMs : Nat) : RollingBack := ⟨now, now + withinMs * 1000000⟩

def record (slot : Option Nat) (notice : RollingBack) : Option Nat :=
  some (slot.elim notice.named (min · notice.named))

def unwoundAt (notices : List RollingBack) (now : Nat) : Option Nat :=
  (notices.filter (·.recordedAt ≤ now)).foldl record none

def unwindingFor (slot : Option Nat) (now : Nat) : Option Nat := do
  let left := (← slot) - now
  if left = 0 then none else some left

inductive Wait where
  | fixed
  | untilUnwound
deriving DecidableEq, Repr

variable {ρ : Type}

abbrev Reply (ρ : Type) := Option (Nat × ρ)

def Reply.before (reply : Reply ρ) (deadline : Nat) : Option ρ :=
  (reply.filter (·.1 ≤ deadline)).map (·.2)

/-- The answer of the worker, or the instant at which the wait was given up. -/
inductive Outcome (ρ : Type) where
  | replied (value : ρ)
  | gaveUp (instant : Nat)
deriving DecidableEq, Repr

theorem unwindSlice_pos {within left : Nat} (hwithin : within ≠ 0) (hleft : left ≠ 0) :
    0 < unwindSlice within left := by
  unfold unwindSlice unwindRecheck
  omega

theorem unwindSlice_le (within left : Nat) : unwindSlice within left ≤ left := by
  unfold unwindSlice
  omega

theorem unwindingFor_ne_zero {slot : Option Nat} {now within : Nat}
    (h : unwindingFor slot now = some within) : within ≠ 0 := by
  cases slot with
  | none => cases h
  | some named =>
    simp only [unwindingFor, Option.bind_eq_bind, Option.bind_some] at h
    grind

/-- The looks at what the worker says, each a slice behind the one before.  They end with
the answer, or with what is left of the patience and the instant. -/
def unwind (slot : Nat → Option Nat) (reply : Reply ρ) (left now : Nat) : ρ ⊕ (Nat × Nat) :=
  match _hwithin : unwindingFor (slot now) now with
  | none => .inr (left, now)
  | some within =>
    if _hleft : left = 0 then .inr (left, now)
    else
      match reply.before (now + unwindSlice within left) with
      | some value => .inl value
      | none => unwind slot reply (left - unwindSlice within left) (now + unwindSlice within left)
termination_by left
decreasing_by
  have hpos := unwindSlice_pos (unwindingFor_ne_zero _hwithin) _hleft
  omega

def expire (reply : Reply ρ) (now : Nat) : Outcome ρ :=
  match reply.before now with
  | some value => .replied value
  | none => .gaveUp now

/-- The wait of a call that is submitted at `start`. -/
def callAs (callTimeout : Nat) (slot : Nat → Option Nat) (start budget : Nat) (reply : Reply ρ) :
    Wait → Outcome ρ
  | .fixed => expire reply (start + budget)
  | .untilUnwound =>
    match reply.before (start + budget) with
    | some value => .replied value
    | none =>
      match unwind slot reply callTimeout (start + budget) with
      | .inl value => .replied value
      | .inr (left, now) =>
        match releaseHandoff (slot now) now budget left with
        | none => expire reply now
        | some handoff =>
          match reply.before (now + handoff) with
          | some value => .replied value
          | none => expire reply (now + handoff)

def looks (slot : Nat → Option Nat) (left now : Nat) : List Nat :=
  match _hwithin : unwindingFor (slot now) now with
  | none => [now]
  | some within =>
    if _hleft : left = 0 then [now]
    else now :: looks slot (left - unwindSlice within left) (now + unwindSlice within left)
termination_by left
decreasing_by
  have hpos := unwindSlice_pos (unwindingFor_ne_zero _hwithin) _hleft
  omega

def unwindUntil (slot : Nat → Option Nat) (left now : Nat) : Nat × Nat :=
  match _hwithin : unwindingFor (slot now) now with
  | none => (left, now)
  | some within =>
    if _hleft : left = 0 then (left, now)
    else unwindUntil slot (left - unwindSlice within left) (now + unwindSlice within left)
termination_by left
decreasing_by
  have hpos := unwindSlice_pos (unwindingFor_ne_zero _hwithin) _hleft
  omega

def giveUpAt (callTimeout : Nat) (slot : Nat → Option Nat) (start budget : Nat) : Nat :=
  let ended := unwindUntil slot callTimeout (start + budget)
  ended.2 + (releaseHandoff (slot ended.2) ended.2 budget ended.1).getD 0

/-! ### The slot -/

theorem foldl_record (notices : List RollingBack) (slot : Option Nat) :
    notices.foldl record slot = (slot.toList ++ notices.map (·.named)).min? := by
  induction notices generalizing slot with
  | nil => cases slot <;> simp
  | cons notice notices ih =>
    rw [List.foldl_cons, ih]
    cases slot with
    | none => rfl
    | some named =>
      simp only [record, Option.elim_some, Option.toList_some, List.map_cons, List.cons_append,
        List.nil_append, List.min?_cons', List.foldl_cons]

theorem unwoundAt_eq (notices : List RollingBack) (now : Nat) :
    unwoundAt notices now = ((notices.filter (·.recordedAt ≤ now)).map (·.named)).min? :=
  foldl_record _ none

theorem unwoundAt_eq_some {notices : List RollingBack} {now named : Nat} :
    unwoundAt notices now = some named ↔
      (∃ notice ∈ notices, notice.recordedAt ≤ now ∧ notice.named = named) ∧
        ∀ notice ∈ notices, notice.recordedAt ≤ now → named ≤ notice.named := by
  rw [unwoundAt_eq, List.min?_eq_some_iff]
  simp only [List.mem_map, List.mem_filter, decide_eq_true_eq, and_assoc]
  grind

/-- A promise of a minute that is taken back after two seconds. -/
example : unwoundAt [.read 0 60000, .read 2000000000 0] 3000000000 = some 2000000000 := by
  decide

theorem unwoundAt_eq_none {notices : List RollingBack} {now : Nat} :
    unwoundAt notices now = none ↔ ∀ notice ∈ notices, now < notice.recordedAt := by
  simp [unwoundAt_eq, List.min?_eq_none_iff]

theorem unwoundAt_congr {left right : List RollingBack} {now now' : Nat}
    (h : ∀ named, (∃ notice ∈ left, notice.recordedAt ≤ now ∧ notice.named = named) ↔
      ∃ notice ∈ right, notice.recordedAt ≤ now' ∧ notice.named = named) :
    unwoundAt left now = unwoundAt right now' := by
  apply Option.ext
  intro named
  rw [unwoundAt_eq_some, unwoundAt_eq_some, h named]
  apply and_congr_right
  intro _
  constructor <;> intro hleast notice hmem hrecorded
  · obtain ⟨other, hother, hby, hnamed⟩ := (h _).mpr ⟨notice, hmem, hrecorded, rfl⟩
    exact hnamed ▸ hleast other hother hby
  · obtain ⟨other, hother, hby, hnamed⟩ := (h _).mp ⟨notice, hmem, hrecorded, rfl⟩
    exact hnamed ▸ hleast other hother hby

theorem unwoundAt_perm {left right : List RollingBack} (h : left.Perm right) (now : Nat) :
    unwoundAt left now = unwoundAt right now := by
  apply unwoundAt_congr
  intro named
  simp only [h.mem_iff]

theorem unwoundAt_swap {first second promise ended now : Nat} (others : List RollingBack)
    (h : now < min first second ∨ max first second ≤ now) :
    unwoundAt (⟨first, promise⟩ :: ⟨second, ended⟩ :: others) now =
      unwoundAt (⟨first, ended⟩ :: ⟨second, promise⟩ :: others) now := by
  apply unwoundAt_congr
  intro named
  simp only [List.mem_cons, exists_eq_or_imp]
  grind

theorem unwoundAt_anti {notices : List RollingBack} {now later named named' : Nat}
    (hle : now ≤ later) (hnow : unwoundAt notices now = some named)
    (hlater : unwoundAt notices later = some named') : named' ≤ named := by
  obtain ⟨⟨notice, hmem, hrecorded, rfl⟩, -⟩ := unwoundAt_eq_some.mp hnow
  exact (unwoundAt_eq_some.mp hlater).2 notice hmem (hrecorded.trans hle)

theorem unwoundAt_isSome_mono {notices : List RollingBack} {now later named : Nat}
    (hle : now ≤ later) (hnow : unwoundAt notices now = some named) :
    ∃ named', unwoundAt notices later = some named' := by
  obtain ⟨⟨notice, hmem, hrecorded, -⟩, -⟩ := unwoundAt_eq_some.mp hnow
  apply Option.ne_none_iff_exists'.mp
  intro hnone
  have hlate := unwoundAt_eq_none.mp hnone notice hmem
  omega

/-! ### The wait -/

theorem Reply.before_mono {reply : Reply ρ} {now later : Nat} {value : ρ} (hle : now ≤ later)
    (h : reply.before now = some value) : reply.before later = some value := by
  cases reply with
  | none => cases h
  | some arrival =>
    unfold Reply.before at h ⊢
    grind

theorem unwindUntil_spec (slot : Nat → Option Nat) (left now : Nat) :
    (unwindUntil slot left now).1 + (unwindUntil slot left now).2 = left + now ∧
      now ≤ (unwindUntil slot left now).2 := by
  fun_induction unwindUntil slot left now with
  | case1 left now hwithin => exact ⟨rfl, le_refl _⟩
  | case2 now within hwithin => exact ⟨rfl, le_refl _⟩
  | case3 left now within hwithin hleft ih =>
    have hle := unwindSlice_le within left
    omega

theorem unwind_of_none {slot : Nat → Option Nat} {reply : Reply ρ} {left now : Nat}
    (hwithin : unwindingFor (slot now) now = none) :
    unwind slot reply left now = .inr (left, now) := by
  rw [unwind]
  split
  · rfl
  · simp_all

theorem unwind_of_spent {slot : Nat → Option Nat} {reply : Reply ρ} {now : Nat} :
    unwind slot reply 0 now = .inr (0, now) := by
  rw [unwind]
  split <;> simp

theorem unwind_of_some {slot : Nat → Option Nat} {reply : Reply ρ} {left now within : Nat}
    (hwithin : unwindingFor (slot now) now = some within) (hleft : left ≠ 0) :
    unwind slot reply left now =
      (reply.before (now + unwindSlice within left)).elim
        (unwind slot reply (left - unwindSlice within left) (now + unwindSlice within left))
        .inl := by
  rw [unwind]
  split
  · simp_all
  · next other hother =>
    obtain rfl : within = other := by simp_all
    rw [dif_neg hleft]
    cases reply.before (now + unwindSlice within left) <;> rfl

theorem unwind_eq (slot : Nat → Option Nat) (reply : Reply ρ) (left now : Nat)
    (hnow : reply.before now = none) :
    unwind slot reply left now =
      (reply.before (unwindUntil slot left now).2).elim
        (.inr (unwindUntil slot left now)) .inl := by
  fun_induction unwindUntil slot left now with
  | case1 left now hwithin => simp [unwind_of_none hwithin, hnow]
  | case2 now within hwithin => simp [unwind_of_spent, hnow]
  | case3 left now within hwithin hleft ih =>
    rw [unwind_of_some hwithin hleft]
    cases harrives : reply.before (now + unwindSlice within left) with
    | none => exact ih harrives
    | some value =>
      have hle := (unwindUntil_spec slot (left - unwindSlice within left)
        (now + unwindSlice within left)).2
      simp [Reply.before_mono hle harrives]

theorem callAs_untilUnwound (callTimeout : Nat) (slot : Nat → Option Nat) (start budget : Nat)
    (reply : Reply ρ) :
    callAs callTimeout slot start budget reply .untilUnwound =
      expire reply (giveUpAt callTimeout slot start budget) := by
  have hspec := unwindUntil_spec slot callTimeout (start + budget)
  have hlater : (unwindUntil slot callTimeout (start + budget)).2 ≤
      giveUpAt callTimeout slot start budget := Nat.le_add_right _ _
  cases hgrace : reply.before (start + budget) with
  | some value =>
    simp [callAs, hgrace, expire, Reply.before_mono (hspec.2.trans hlater) hgrace]
  | none =>
    simp only [callAs, hgrace, unwind_eq slot reply callTimeout (start + budget) hgrace]
    cases hended : reply.before (unwindUntil slot callTimeout (start + budget)).2 with
    | some value => simp [expire, Reply.before_mono hlater hended]
    | none =>
      simp only [Option.elim_none, giveUpAt]
      cases releaseHandoff (slot (unwindUntil slot callTimeout (start + budget)).2)
        (unwindUntil slot callTimeout (start + budget)).2 budget
        (unwindUntil slot callTimeout (start + budget)).1 with
      | none => rfl
      | some handoff =>
        cases harrives : reply.before
          ((unwindUntil slot callTimeout (start + budget)).2 + handoff) <;>
          simp [expire, harrives]

theorem releaseHandoff_getD (ended : Option Nat) (now base left : Nat) :
    (releaseHandoff ended now base left).getD 0 =
      ended.elim 0 fun instant => min (instant + base - now) left := by
  cases ended with
  | none => rfl
  | some instant =>
    simp only [releaseHandoff, Option.bind_eq_bind, Option.bind_some, Option.elim_some]
    split
    · next hspent => rw [hspent, Option.getD_none]
    · rfl

theorem mem_looks_unwindUntil (slot : Nat → Option Nat) (left now : Nat) :
    (unwindUntil slot left now).2 ∈ looks slot left now := by
  fun_induction unwindUntil slot left now with
  | case1 left now hwithin => rw [looks]; split <;> simp_all
  | case2 now within hwithin => rw [looks]; split <;> simp
  | case3 left now within hwithin hleft ih =>
    rw [looks]
    split
    · simp_all
    · next other hother =>
      obtain rfl : within = other := by simp_all
      rw [dif_neg hleft]
      apply List.mem_cons_of_mem
      exact ih

theorem unwindUntil_of_none {slot : Nat → Option Nat} {left now : Nat}
    (hwithin : unwindingFor (slot now) now = none) : unwindUntil slot left now = (left, now) := by
  rw [unwindUntil]
  split
  · rfl
  · simp_all

theorem unwindUntil_of_spent {slot : Nat → Option Nat} {now : Nat} :
    unwindUntil slot 0 now = (0, now) := by
  rw [unwindUntil]
  split <;> simp

theorem unwindUntil_of_some {slot : Nat → Option Nat} {left now within : Nat}
    (hwithin : unwindingFor (slot now) now = some within) (hleft : left ≠ 0) :
    unwindUntil slot left now =
      unwindUntil slot (left - unwindSlice within left) (now + unwindSlice within left) := by
  rw [unwindUntil]
  split
  · simp_all
  · next other hother =>
    obtain rfl : within = other := by simp_all
    rw [dif_neg hleft]

theorem unwindUntil_congr {slot slot' : Nat → Option Nat} {left now : Nat}
    (h : ∀ look ∈ looks slot left now, slot look = slot' look) :
    unwindUntil slot' left now = unwindUntil slot left now := by
  fun_induction looks slot left now with
  | case1 left now hwithin =>
    have hnow := h now List.mem_cons_self
    rw [unwindUntil_of_none hwithin, unwindUntil_of_none (hnow ▸ hwithin)]
  | case2 now within hwithin => rw [unwindUntil_of_spent, unwindUntil_of_spent]
  | case3 left now within hwithin hleft ih =>
    have hnow := h now List.mem_cons_self
    rw [unwindUntil_of_some hwithin hleft, unwindUntil_of_some (hnow ▸ hwithin) hleft]
    apply ih
    intro look hlook
    exact h look (List.mem_cons_of_mem _ hlook)

theorem giveUpAt_congr {callTimeout start budget : Nat} {slot slot' : Nat → Option Nat}
    (h : ∀ look ∈ looks slot callTimeout (start + budget), slot look = slot' look) :
    giveUpAt callTimeout slot' start budget = giveUpAt callTimeout slot start budget := by
  simp only [giveUpAt, unwindUntil_congr h, h _ (mem_looks_unwindUntil slot _ _)]

theorem le_giveUpAt (callTimeout : Nat) (slot : Nat → Option Nat) (start budget : Nat) :
    start + budget ≤ giveUpAt callTimeout slot start budget :=
  (unwindUntil_spec slot callTimeout (start + budget)).2.trans (Nat.le_add_right _ _)

theorem giveUpAt_le (callTimeout : Nat) (slot : Nat → Option Nat) (start budget : Nat) :
    giveUpAt callTimeout slot start budget ≤ start + budget + callTimeout := by
  have hspec := (unwindUntil_spec slot callTimeout (start + budget)).1
  simp only [giveUpAt, releaseHandoff_getD]
  cases slot (unwindUntil slot callTimeout (start + budget)).2 <;>
    simp only [Option.elim_none, Option.elim_some] <;> omega

theorem giveUpAt_of_none {callTimeout start budget : Nat} {slot : Nat → Option Nat}
    (h : slot (start + budget) = none) :
    giveUpAt callTimeout slot start budget = start + budget := by
  have hwithin : unwindingFor (slot (start + budget)) (start + budget) = none := by
    rw [h]
    rfl
  simp [giveUpAt, unwindUntil_of_none hwithin, h, releaseHandoff]

/-- The release has its grace from the instant that is in the slot when the wait ends. -/
theorem le_giveUpAt_of_ended {callTimeout start grace ended : Nat} {notices : List RollingBack}
    (h : unwoundAt notices (giveUpAt callTimeout (unwoundAt notices) start grace) = some ended) :
    min (ended + grace) (start + grace + callTimeout) ≤
      giveUpAt callTimeout (unwoundAt notices) start grace := by
  have hspec := (unwindUntil_spec (unwoundAt notices) callTimeout (start + grace)).1
  generalize hlooked : unwindUntil (unwoundAt notices) callTimeout (start + grace) = looked
    at hspec
  have heq : giveUpAt callTimeout (unwoundAt notices) start grace =
      looked.2 + (unwoundAt notices looked.2).elim 0 fun instant =>
        min (instant + grace - looked.2) looked.1 := by
    rw [giveUpAt, hlooked, releaseHandoff_getD]
  cases hslot : unwoundAt notices looked.2 with
  | none =>
    rw [hslot, Option.elim_none, Nat.add_zero] at heq
    rw [heq, hslot] at h
    cases h
  | some instant =>
    rw [hslot, Option.elim_some] at heq
    have hle : ended ≤ instant := by
      apply unwoundAt_anti _ hslot h
      omega
    omega

/-- What is asked of a teardown that gives up at an instant unless its reply comes. -/
structure Honours (callTimeout start grace : Nat) (notices : List RollingBack)
    (instant : Nat) : Prop where
  /-- a reply is returned exactly when it comes while the wait lasts -/
  answered : ∀ {ρ : Type} (reply : Reply ρ),
    callAs callTimeout (unwoundAt notices) start grace reply .untilUnwound = expire reply instant
  graced : start + grace ≤ instant
  bounded : instant ≤ start + grace + callTimeout
  /-- a promise is waited for as long as it stands -/
  promised : ∀ promise, unwoundAt notices instant = some promise →
    min promise (start + grace + callTimeout) ≤ instant
  /-- a promise made within the grace either still stands or has been taken back -/
  kept : ∀ promise, unwoundAt notices (start + grace) = some promise →
    min promise (start + grace + callTimeout) ≤ instant ∨
      ∃ ended < promise, unwoundAt notices instant = some ended
  /-- a release has its own grace, behind the transaction -/
  ended : ∀ ended, unwoundAt notices instant = some ended →
    min (ended + grace) (start + grace + callTimeout) ≤ instant
  plain : unwoundAt notices (start + grace) = none → instant = start + grace
  reordered : ∀ {ρ : Type} (reply : Reply ρ) (others : List RollingBack), notices.Perm others →
    callAs callTimeout (unwoundAt others) start grace reply .untilUnwound =
      callAs callTimeout (unwoundAt notices) start grace reply .untilUnwound
  /-- which of two notices came first is seen only by a look between the two -/
  exchanged : ∀ {ρ : Type} (reply : Reply ρ) (first second promise ended : Nat)
    (others : List RollingBack), notices = ⟨first, promise⟩ :: ⟨second, ended⟩ :: others →
    (∀ look ∈ looks (unwoundAt notices) callTimeout (start + grace),
      look < min first second ∨ max first second ≤ look) →
    callAs callTimeout (unwoundAt (⟨first, ended⟩ :: ⟨second, promise⟩ :: others)) start grace
        reply .untilUnwound =
      callAs callTimeout (unwoundAt notices) start grace reply .untilUnwound

theorem promise_kept {callTimeout start grace promise : Nat} {notices : List RollingBack}
    (h : unwoundAt notices (start + grace) = some promise) :
    min promise (start + grace + callTimeout) ≤
        giveUpAt callTimeout (unwoundAt notices) start grace ∨
      ∃ ended < promise,
        unwoundAt notices (giveUpAt callTimeout (unwoundAt notices) start grace) = some ended := by
  have hle := le_giveUpAt callTimeout (unwoundAt notices) start grace
  obtain ⟨ended, hended⟩ := unwoundAt_isSome_mono hle h
  rcases (unwoundAt_anti hle h hended).lt_or_eq with hlt | rfl
  · exact .inr ⟨ended, hlt, hended⟩
  · left
    have hgrace := le_giveUpAt_of_ended hended
    omega

/-- For every schedule of notices a teardown's wait honours what the worker names, is
bounded, and does not depend on the order of the notices. -/
theorem teardown_honours (callTimeout start grace : Nat) (notices : List RollingBack) :
    ∃ instant, Honours callTimeout start grace notices instant := by
  use giveUpAt callTimeout (unwoundAt notices) start grace
  constructor
  case answered =>
    intro ρ reply
    exact callAs_untilUnwound callTimeout (unwoundAt notices) start grace reply
  case graced => exact le_giveUpAt callTimeout (unwoundAt notices) start grace
  case bounded => exact giveUpAt_le callTimeout (unwoundAt notices) start grace
  case promised =>
    intro promise hpromise
    have hgrace := le_giveUpAt_of_ended hpromise
    omega
  case kept =>
    intro promise hpromise
    exact promise_kept hpromise
  case ended =>
    intro ended hended
    exact le_giveUpAt_of_ended hended
  case plain =>
    intro hnone
    exact giveUpAt_of_none hnone
  case reordered =>
    intro ρ reply others hperm
    have hslots : unwoundAt others = unwoundAt notices := by
      funext now
      exact (unwoundAt_perm hperm now).symm
    rw [hslots]
  case exchanged =>
    intro ρ reply first second promise ended others hnotices hlooks
    subst hnotices
    rw [callAs_untilUnwound, callAs_untilUnwound, giveUpAt_congr]
    intro look hlook
    exact unwoundAt_swap others (hlooks look hlook)

def retracted : List RollingBack :=
  [⟨400000000, 10000000000⟩, ⟨600000000, 700000000⟩]

def crossed : List RollingBack :=
  [⟨400000000, 700000000⟩, ⟨600000000, 10000000000⟩]

theorem giveUpAt_retracted :
    giveUpAt 60000000000 (unwoundAt retracted) 0 500000000 = 1500000000 := by
  -- The look at the end of the grace finds the promise, and commits the wait to a whole slice.
  have hpromise : unwindingFor (unwoundAt retracted 500000000) 500000000 = some 9500000000 := by
    decide
  have hdone : unwindingFor (unwoundAt retracted 1500000000) 1500000000 = none := by decide
  have hlooked : unwindUntil (unwoundAt retracted) 60000000000 (0 + 500000000) =
      (59000000000, 1500000000) :=
    (unwindUntil_of_some hpromise (by decide)).trans (unwindUntil_of_none hdone)
  unfold giveUpAt
  rw [hlooked]
  decide

theorem giveUpAt_crossed :
    giveUpAt 60000000000 (unwoundAt crossed) 0 500000000 = 1200000000 := by
  have hpromise : unwindingFor (unwoundAt crossed 500000000) 500000000 = some 200000000 := by
    decide
  have hdone : unwindingFor (unwoundAt crossed 700000000) 700000000 = none := by decide
  have hlooked : unwindUntil (unwoundAt crossed) 60000000000 (0 + 500000000) =
      (59800000000, 700000000) :=
    (unwindUntil_of_some hpromise (by decide)).trans (unwindUntil_of_none hdone)
  unfold giveUpAt
  rw [hlooked]
  decide

/-- The look at the end of the grace falls between the two notices: with the promise recorded
first the reply at 1.3 s is returned, with the retraction first the wait is over by then. -/
theorem teardown_sees_order :
    callAs 60000000000 (unwoundAt retracted) 0 500000000 (some (1300000000, ())) .untilUnwound =
        .replied () ∧
      callAs 60000000000 (unwoundAt crossed) 0 500000000 (some (1300000000, ())) .untilUnwound =
        .gaveUp 1200000000 := by
  rw [callAs_untilUnwound, callAs_untilUnwound, giveUpAt_retracted, giveUpAt_crossed]
  decide

end WindbgMcp.Engine.Teardown
