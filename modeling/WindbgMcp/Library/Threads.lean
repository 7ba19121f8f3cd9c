import Mathlib.Data.List.Nodup
import Mathlib.Logic.Function.Basic
import WindbgMcp.Library.Run

/-! Parties that interleave at their atomic sections.  Each party has a list of
sections still to run; the first of them changes what the parties share and may put
further sections in front of the rest. -/
namespace WindbgMcp.Library

structure Threads (ρ σ κ : Type) where
  shared : σ
  programs : ρ → List κ

namespace Threads
variable {ρ σ κ : Type} [DecidableEq ρ]

/-- What the parties share becomes `shared`, and one of them goes on with `program`. -/
def put (threads : Threads ρ σ κ) (party : ρ) (shared : σ) (program : List κ) :
    Threads ρ σ κ :=
  ⟨shared, Function.update threads.programs party program⟩

def advance (exec : σ → κ → σ × List κ) (threads : Threads ρ σ κ) (party : ρ) :
    Threads ρ σ κ :=
  match threads.programs party with
  | [] => threads
  | head :: rest =>
    threads.put party (exec threads.shared head).1 ((exec threads.shared head).2 ++ rest)

@[simp] theorem put_shared (threads : Threads ρ σ κ) (party : ρ) (shared : σ)
    (program : List κ) : (threads.put party shared program).shared = shared := rfl

@[simp] theorem put_programs_self (threads : Threads ρ σ κ) (party : ρ) (shared : σ)
    (program : List κ) : (threads.put party shared program).programs party = program := by
  unfold put
  exact Function.update_self party program threads.programs

theorem put_programs_of_ne (threads : Threads ρ σ κ) {party other : ρ} (hne : other ≠ party)
    (shared : σ) (program : List κ) :
    (threads.put party shared program).programs other = threads.programs other := by
  unfold put
  exact Function.update_of_ne hne program threads.programs

theorem put_forall {p : ρ → κ → Prop} {threads : Threads ρ σ κ} {party : ρ} {shared : σ}
    {program : List κ} (h : ∀ other, ∀ item ∈ threads.programs other, p other item)
    (hprogram : ∀ item ∈ program, p party item) :
    ∀ other, ∀ item ∈ (threads.put party shared program).programs other, p other item := by
  intro other item hitem
  by_cases hother : other = party
  · subst hother
    rw [put_programs_self] at hitem
    exact hprogram item hitem
  · rw [put_programs_of_ne threads hother] at hitem
    exact h other item hitem

theorem advance_nil {exec : σ → κ → σ × List κ} {threads : Threads ρ σ κ} {party : ρ}
    (h : threads.programs party = []) : threads.advance exec party = threads := by
  unfold advance
  rw [h]

theorem advance_cons {exec : σ → κ → σ × List κ} {threads : Threads ρ σ κ} {party : ρ}
    {head : κ} {rest : List κ} (h : threads.programs party = head :: rest) :
    threads.advance exec party =
      threads.put party (exec threads.shared head).1 ((exec threads.shared head).2 ++ rest) := by
  unfold advance
  rw [h]

/-! ## Invariants

A fact about what is shared, together with a fact about every section that some
party still has to run. -/

/-- `inv` holds of what is shared, and `due` of each section still to run. -/
structure Keeps (inv : σ → Prop) (due : σ → κ → Prop) (threads : Threads ρ σ κ) : Prop where
  shared : inv threads.shared
  pending : ∀ party, ∀ item ∈ threads.programs party, due threads.shared item

variable {inv : σ → Prop} {due : σ → κ → Prop}

theorem Keeps.put {threads : Threads ρ σ κ} (h : threads.Keeps inv due) {party : ρ} {shared : σ}
    {program : List κ} (hinv : inv shared)
    (hstable : ∀ item, due threads.shared item → due shared item)
    (hprogram : ∀ item ∈ program, due shared item) :
    (threads.put party shared program).Keeps inv due where
  shared := hinv
  pending := by
    intro other item hitem
    by_cases hother : other = party
    · subst hother
      rw [put_programs_self] at hitem
      exact hprogram item hitem
    · rw [put_programs_of_ne threads hother] at hitem
      exact hstable item (h.pending other item hitem)

omit [DecidableEq ρ] in
theorem Keeps.onShared {threads : Threads ρ σ κ} (h : threads.Keeps inv due) {shared : σ}
    (hinv : inv shared) (hstable : ∀ item, due threads.shared item → due shared item) :
    Keeps inv due (⟨shared, threads.programs⟩ : Threads ρ σ κ) where
  shared := hinv
  pending := fun party item hitem => hstable item (h.pending party item hitem)

/-- What one section must do for the invariant to survive any interleaving. -/
structure Sound (inv : σ → Prop) (due : σ → κ → Prop) (shared after : σ) (next : List κ) :
    Prop where
  kept : inv after
  stable : ∀ item, due shared item → due after item
  next : ∀ item ∈ next, due after item

theorem Keeps.runs {threads : Threads ρ σ κ} (h : threads.Keeps inv due) {party : ρ}
    {head : κ} {rest : List κ} (hprogram : threads.programs party = head :: rest) {after : σ}
    {next : List κ} (hsound : due threads.shared head → Sound inv due threads.shared after next) :
    (threads.put party after (next ++ rest)).Keeps inv due := by
  have hdue := h.pending party
  rw [hprogram] at hdue
  have hsound := hsound (hdue head List.mem_cons_self)
  apply h.put hsound.kept hsound.stable
  intro item hitem
  cases List.mem_append.mp hitem with
  | inl hnew => exact hsound.next item hnew
  | inr hrest => exact hsound.stable item (hdue item (List.mem_cons_of_mem _ hrest))

/-! ## Sections that are owed

A party that has a section to run has it until it runs it. -/

/-- Some section that `party` still has to run is as `p` says. -/
def Owes (threads : Threads ρ σ κ) (party : ρ) (p : κ → Prop) : Prop :=
  ∃ item ∈ threads.programs party, p item

section Owes
variable {threads : Threads ρ σ κ} {party runner : ρ} {p : κ → Prop} {shared : σ}

omit [DecidableEq ρ] in
theorem Owes.mono {q : κ → Prop} (h : threads.Owes party p) (himp : ∀ item, p item → q item) :
    threads.Owes party q := by
  obtain ⟨item, hitem, hp⟩ := h
  exact ⟨item, hitem, himp item hp⟩

theorem Owes.elsewhere (h : threads.Owes party p) (hne : party ≠ runner) {program : List κ} :
    (threads.put runner shared program).Owes party p := by
  unfold Owes
  rw [put_programs_of_ne threads hne]
  exact h

theorem Owes.idle (h : threads.Owes party p) (hidle : threads.programs runner = [])
    {program : List κ} : (threads.put runner shared program).Owes party p := by
  apply h.elsewhere
  rintro rfl
  obtain ⟨item, hitem, _⟩ := h
  rw [hidle] at hitem
  cases hitem

theorem Owes.runs (h : threads.Owes party p) {head : κ} {rest next : List κ}
    (hprogram : threads.programs runner = head :: rest) :
    party = runner ∧ p head ∨ (threads.put runner shared (next ++ rest)).Owes party p := by
  by_cases hne : party = runner
  · subst hne
    obtain ⟨item, hitem, hp⟩ := h
    rw [hprogram] at hitem
    rcases List.mem_cons.mp hitem with rfl | hrest
    · exact Or.inl ⟨rfl, hp⟩
    · apply Or.inr
      refine ⟨item, ?_, hp⟩
      rw [put_programs_self]
      exact List.mem_append_right next hrest
  · exact Or.inr (h.elsewhere hne)

theorem Owes.origin {program : List κ} (h : (threads.put runner shared program).Owes party p) :
    threads.Owes party p ∨ party = runner ∧ ∃ item ∈ program, p item := by
  obtain ⟨item, hitem, hp⟩ := h
  by_cases hparty : party = runner
  · subst hparty
    rw [put_programs_self] at hitem
    exact Or.inr ⟨rfl, item, hitem, hp⟩
  · rw [put_programs_of_ne threads hparty] at hitem
    exact Or.inl ⟨item, hitem, hp⟩

theorem owes_next {item : κ} {next rest : List κ} (hitem : item ∈ next) (hp : p item) :
    (threads.put runner shared (next ++ rest)).Owes runner p := by
  refine ⟨item, ?_, hp⟩
  rw [put_programs_self]
  exact List.mem_append_left rest hitem

end Owes

/-! ## Tokens

A token that is drawn once and only handed on is never in two places. -/

section Tokens
variable {ι : Type} [DecidableEq ι] {held : σ → List ι} {carried : κ → List ι}
  {drawn : σ → ι → Prop}

/-- Every token is held by what is shared, or carried by the sections of one party, at
most once in all. -/
structure Linear (held : σ → List ι) (carried : κ → List ι) (drawn : σ → ι → Prop)
    (threads : Threads ρ σ κ) : Prop where
  once : ∀ party token, (held threads.shared).count token +
    ((threads.programs party).flatMap carried).count token ≤ 1
  apart : ∀ party other, party ≠ other → ∀ token ∈ (threads.programs party).flatMap carried,
    token ∉ (threads.programs other).flatMap carried
  heldDrawn : ∀ token ∈ held threads.shared, drawn threads.shared token
  carriedDrawn : ∀ party, ∀ token ∈ (threads.programs party).flatMap carried,
    drawn threads.shared token

/-- A step that only hands tokens on, and draws those in `fresh`. -/
structure HandsOn (held : σ → List ι) (drawn : σ → ι → Prop) (shared after : σ)
    (before next fresh : List ι) : Prop where
  count : ∀ token, (held after).count token + next.count token ≤
    fresh.count token + ((held shared).count token + before.count token)
  nodup : fresh.Nodup
  unused : ∀ token ∈ fresh, ¬drawn shared token
  kept : ∀ token, drawn shared token → drawn after token
  fresh : ∀ token ∈ fresh, drawn after token

theorem HandsOn.beside {shared after : σ} {before next fresh : List ι} {extra : σ → List ι}
    (h : HandsOn held drawn shared after before next fresh) (hextra : extra after = extra shared) :
    HandsOn (fun shared => held shared ++ extra shared) drawn shared after before next fresh := by
  refine { h with count := ?_ }
  intro token
  have hcount := h.count token
  simp only [List.count_append, hextra]
  omega

namespace Linear
variable {threads : Threads ρ σ κ} {party : ρ} {shared : σ} {program : List κ}

omit [DecidableEq ρ] in
theorem once_held (h : threads.Linear held carried drawn) (party : ρ) :
    (held threads.shared).Nodup := by
  rw [List.nodup_iff_count_le_one]
  intro token
  have honce := h.once party token
  omega

omit [DecidableEq ρ] in
theorem not_held (h : threads.Linear held carried drawn) {party : ρ} {token : ι}
    (hcarried : token ∈ (threads.programs party).flatMap carried) :
    token ∉ held threads.shared := by
  intro hheld
  have honce := h.once party token
  have hpos := List.count_pos_iff.mpr hcarried
  have hpos' := List.count_pos_iff.mpr hheld
  omega

omit [DecidableEq ρ] in
theorem not_carried (h : threads.Linear held carried drawn) {token : ι}
    (hheld : token ∈ held threads.shared) (party : ρ) :
    token ∉ (threads.programs party).flatMap carried :=
  fun hcarried => h.not_held hcarried hheld

omit [DecidableEq ρ] in
theorem origin {fresh : List ι} (h : HandsOn held drawn threads.shared shared
      ((threads.programs party).flatMap carried) (program.flatMap carried) fresh)
    {token : ι} (hin : token ∈ held shared ∨ token ∈ program.flatMap carried) :
    token ∈ fresh ∨ token ∈ held threads.shared ∨
      token ∈ (threads.programs party).flatMap carried := by
  have hcount := h.count token
  have hpos : 0 < (held shared).count token + (program.flatMap carried).count token := by
    cases hin with
    | inl hheld => exact Nat.add_pos_left (List.count_pos_iff.mpr hheld) _
    | inr hcarried => exact Nat.add_pos_right _ (List.count_pos_iff.mpr hcarried)
  simp only [← List.count_pos_iff]
  omega

theorem put (h : threads.Linear held carried drawn) (fresh : List ι)
    (hstep : HandsOn held drawn threads.shared shared
      ((threads.programs party).flatMap carried) (program.flatMap carried) fresh) :
    (threads.put party shared program).Linear held carried drawn := by
  have hfreshHeld : ∀ token ∈ fresh, (held threads.shared).count token = 0 := by
    intro token hfresh
    rw [List.count_eq_zero]
    exact fun hheld => hstep.unused token hfresh (h.heldDrawn token hheld)
  have hfreshCarried : ∀ token ∈ fresh, ∀ other,
      ((threads.programs other).flatMap carried).count token = 0 := by
    intro token hfresh other
    rw [List.count_eq_zero]
    exact fun hcarried => hstep.unused token hfresh (h.carriedDrawn other token hcarried)
  have hapart : ∀ other, other ≠ party → ∀ token ∈ program.flatMap carried,
      token ∉ (threads.programs other).flatMap carried := by
    intro other hother token hnew hold
    rcases origin hstep (Or.inr hnew) with hfresh | hheld | hcarried
    · exact hstep.unused token hfresh (h.carriedDrawn other token hold)
    · exact h.not_held hold hheld
    · exact h.apart party other (Ne.symm hother) token hcarried hold
  constructor
  · intro other token
    have hcount := hstep.count token
    have hnodup := List.nodup_iff_count_le_one.mp hstep.nodup token
    have honce := h.once party token
    by_cases hfresh : token ∈ fresh
    · have hheld := hfreshHeld token hfresh
      have hcarried := hfreshCarried token hfresh
      by_cases hother : other = party
      · subst hother
        simp only [put_shared, put_programs_self]
        have := hcarried other
        omega
      · rw [put_programs_of_ne threads hother, put_shared, hcarried other]
        have := hcarried party
        omega
    · have hnone := List.count_eq_zero.mpr hfresh
      by_cases hother : other = party
      · subst hother
        simp only [put_shared, put_programs_self]
        omega
      · rw [put_programs_of_ne threads hother, put_shared]
        have honce' := h.once other token
        by_cases hcarried : token ∈ (threads.programs other).flatMap carried
        · have hpos := List.count_pos_iff.mpr hcarried
          have hzero := List.count_eq_zero.mpr
            (fun hin => h.apart other party hother token hcarried hin)
          omega
        · have hzero := List.count_eq_zero.mpr hcarried
          omega
  · intro first other hne token hfirst hother
    by_cases hf : first = party
    · subst hf
      rw [put_programs_self] at hfirst
      rw [put_programs_of_ne threads (Ne.symm hne)] at hother
      exact hapart other (Ne.symm hne) token hfirst hother
    · rw [put_programs_of_ne threads hf] at hfirst
      by_cases ho : other = party
      · subst ho
        rw [put_programs_self] at hother
        exact hapart first hf token hother hfirst
      · rw [put_programs_of_ne threads ho] at hother
        exact h.apart first other hne token hfirst hother
  · intro token hheld
    rcases origin hstep (Or.inl hheld) with hfresh | hold | hcarried
    · exact hstep.fresh token hfresh
    · exact hstep.kept token (h.heldDrawn token hold)
    · exact hstep.kept token (h.carriedDrawn party token hcarried)
  · intro other token hcarried
    by_cases hother : other = party
    · subst hother
      rw [put_programs_self] at hcarried
      rcases origin hstep (Or.inr hcarried) with hfresh | hold | hold
      · exact hstep.fresh token hfresh
      · exact hstep.kept token (h.heldDrawn token hold)
      · exact hstep.kept token (h.carriedDrawn other token hold)
    · rw [put_programs_of_ne threads hother] at hcarried
      exact hstep.kept token (h.carriedDrawn other token hcarried)

theorem advance {exec : σ → κ → σ × List κ} (h : threads.Linear held carried drawn) (party : ρ)
    (hexec : ∀ head, ∃ fresh, HandsOn held drawn threads.shared (exec threads.shared head).1
      (carried head) ((exec threads.shared head).2.flatMap carried) fresh) :
    (threads.advance exec party).Linear held carried drawn := by
  cases hprogram : threads.programs party with
  | nil =>
    rw [advance_nil hprogram]
    exact h
  | cons head rest =>
    obtain ⟨fresh, hstep⟩ := hexec head
    rw [advance_cons hprogram]
    apply h.put fresh
    refine { hstep with count := ?_ }
    intro token
    have hcount := hstep.count token
    rw [hprogram, List.flatMap_append, List.flatMap_cons, List.count_append, List.count_append]
    omega

theorem onShared (h : threads.Linear held carried drawn) (party : ρ) (fresh : List ι)
    (hstep : HandsOn held drawn threads.shared shared [] [] fresh) :
    Linear held carried drawn ⟨shared, threads.programs⟩ := by
  have hput : threads.put party shared (threads.programs party) = ⟨shared, threads.programs⟩ := by
    unfold Threads.put
    rw [Function.update_eq_self]
  rw [← hput]
  apply h.put fresh
  refine { hstep with count := ?_ }
  intro token
  have hcount := hstep.count token
  rw [List.count_nil] at hcount
  omega

end Linear

end Tokens

end Threads

end WindbgMcp.Library
