import Mathlib.Data.List.Basic

/-! A bounded history.  While more than `bound` entries count towards the bound, the
oldest entry that may go is dropped; entries that may not go are kept whatever the
bound says.  A shared history keeps one such bound for each owner. -/
namespace WindbgMcp.Library.History

variable {α : Type} {bound : Nat} {counts mayGo keep : α → Bool} {entries : List α}

def evict (bound : Nat) (counts mayGo : α → Bool) (entries : List α) : List α :=
  if bound < entries.countP counts then
    if entries.any mayGo then evict bound counts mayGo (entries.eraseP mayGo) else entries
  else entries
termination_by entries.length
decreasing_by
  rename_i h
  have hlength := List.length_eraseP (l := entries) (p := mayGo)
  rw [if_pos h] at hlength
  cases entries with
  | nil => exact absurd h Bool.false_ne_true
  | cons entry rest => simp only [List.length_cons] at hlength ⊢; omega

theorem evict_sublist : (evict bound counts mayGo entries).Sublist entries := by
  fun_induction evict bound counts mayGo entries with
  | case1 entries _ _ ih => exact ih.trans List.eraseP_sublist
  | case2 => exact List.Sublist.refl _
  | case3 => exact List.Sublist.refl _

theorem filter_eraseP_of_kept (hkeep : ∀ entry, mayGo entry → keep entry = false) :
    (entries.eraseP mayGo).filter keep = entries.filter keep := by
  induction entries with
  | nil => rfl
  | cons entry rest ih =>
    cases hentry : mayGo entry with
    | true => simp [hentry, hkeep entry hentry]
    | false => simp only [List.eraseP_cons, hentry, cond_false, List.filter_cons, ih]

theorem filter_evict_of_kept (hkeep : ∀ entry, mayGo entry → keep entry = false) :
    (evict bound counts mayGo entries).filter keep = entries.filter keep := by
  fun_induction evict bound counts mayGo entries with
  | case1 entries _ _ ih => rw [ih, filter_eraseP_of_kept hkeep]
  | case2 => rfl
  | case3 => rfl

theorem eraseP_filter_of_imp (hgo : ∀ entry, mayGo entry → keep entry = true) :
    (entries.eraseP mayGo).filter keep = (entries.filter keep).eraseP mayGo := by
  induction entries with
  | nil => rfl
  | cons entry rest ih =>
    cases hentry : mayGo entry with
    | true => simp [hentry, hgo entry hentry]
    | false =>
      cases hkeep : keep entry with
      | true => simp [hentry, hkeep, ih]
      | false => simp [hentry, hkeep, ih]

theorem filter_evict (hgo : ∀ entry, mayGo entry → keep entry = true)
    (hcounts : ∀ entry, counts entry → keep entry = true) :
    (evict bound counts mayGo entries).filter keep =
      evict bound counts mayGo (entries.filter keep) := by
  have hcount : ∀ entries : List α,
      (entries.filter keep).countP counts = entries.countP counts := by
    intro entries
    rw [List.countP_filter]
    apply List.countP_congr
    intro entry _
    have hentry := hcounts entry
    cases hc : counts entry <;> simp_all
  have hany : ∀ entries : List α, (entries.filter keep).any mayGo = entries.any mayGo := by
    intro entries
    rw [Bool.eq_iff_iff, List.any_eq_true, List.any_eq_true]
    simp only [List.mem_filter]
    constructor
    · rintro ⟨entry, hmem, hentry⟩
      exact ⟨entry, hmem.1, hentry⟩
    · rintro ⟨entry, hmem, hentry⟩
      exact ⟨entry, ⟨hmem, hgo entry hentry⟩, hentry⟩
  fun_induction evict bound counts mayGo entries with
  | case1 entries hover hsome ih =>
    rw [ih, eraseP_filter_of_imp hgo, evict.eq_1 bound counts mayGo (entries.filter keep), hcount,
      hany, if_pos hover, if_pos hsome]
  | case2 entries hover hnone =>
    rw [evict, hcount, hany, if_pos hover, if_neg hnone]
  | case3 entries hover =>
    rw [evict, hcount, if_neg hover]

/-- What is evicted is the oldest of what may go, as many as are over the bound. -/
theorem filter_mayGo_evict (hcounts : ∀ entry ∈ entries, mayGo entry → counts entry = true) :
    (evict bound counts mayGo entries).filter mayGo =
      (entries.filter mayGo).drop (entries.countP counts - bound) := by
  fun_induction evict bound counts mayGo entries with
  | case1 entries hover hany ih =>
    have hrest : ∀ entry ∈ entries.eraseP mayGo, mayGo entry → counts entry = true :=
      fun entry hentry => hcounts entry (List.mem_of_mem_eraseP hentry)
    obtain ⟨entry, hmem, hentry⟩ := List.any_eq_true.mp hany
    obtain ⟨oldest, front, back, hfront, holdest, heq, herase⟩ :=
      List.exists_of_eraseP hmem hentry
    have hcount : entries.countP counts = (entries.eraseP mayGo).countP counts + 1 := by
      rw [herase, heq, List.countP_append, List.countP_append, List.countP_cons,
        hcounts oldest (by simp [heq]) holdest]
      simp only [if_true]
      omega
    have hfilter : entries.filter mayGo = oldest :: (entries.eraseP mayGo).filter mayGo := by
      have hnone : front.filter mayGo = [] := List.filter_eq_nil_iff.mpr hfront
      rw [herase, heq, List.filter_append, List.filter_append, hnone,
        List.filter_cons_of_pos holdest]
      rfl
    rw [ih hrest, hfilter, hcount]
    have hsub : (entries.eraseP mayGo).countP counts + 1 - bound =
        (entries.eraseP mayGo).countP counts - bound + 1 := by omega
    rw [hsub, List.drop_succ_cons]
  | case2 entries hover hnone =>
    have hnil : entries.filter mayGo = [] := by
      apply List.filter_eq_nil_iff.mpr
      intro entry hmem hentry
      exact hnone (List.any_eq_true.mpr ⟨entry, hmem, hentry⟩)
    rw [hnil, List.drop_nil]
  | case3 entries hover =>
    rw [Nat.sub_eq_zero_of_le (Nat.le_of_not_lt hover), List.drop_zero]

theorem evict_congr {counts' : α → Bool}
    (hcounts : ∀ entry ∈ entries, counts entry = counts' entry) :
    evict bound counts mayGo entries = evict bound counts' mayGo entries := by
  have hcount : ∀ rest : List α, rest.Sublist entries →
      rest.countP counts = rest.countP counts' := by
    intro rest hrest
    apply List.countP_congr
    intro entry hentry
    rw [hcounts entry (hrest.subset hentry)]
  fun_induction evict bound counts mayGo entries with
  | case1 entries hover hany ih =>
    rw [evict.eq_1 bound counts' mayGo entries, ← hcount entries (List.Sublist.refl _),
      if_pos hover, if_pos hany]
    apply ih
    · exact fun entry hentry => hcounts entry (List.mem_of_mem_eraseP hentry)
    · exact fun rest hrest => hcount rest (hrest.trans List.eraseP_sublist)
  | case2 entries hover hnone =>
    rw [evict, ← hcount entries (List.Sublist.refl _), if_pos hover, if_neg hnone]
  | case3 entries hover =>
    rw [evict, ← hcount entries (List.Sublist.refl _), if_neg hover]

theorem evict_evict :
    evict bound counts mayGo (evict bound counts mayGo entries) =
      evict bound counts mayGo entries := by
  fun_induction evict bound counts mayGo entries with
  | case1 entries _ _ ih => exact ih
  | case2 entries hover hnone => rw [evict, if_pos hover, if_neg hnone]
  | case3 entries hover => rw [evict, if_neg hover]

section Owners
variable {κ : Type} [DecidableEq κ] {owner : α → κ} {owners : List κ} {who : κ}

def evictOf (bound : Nat) (owner : α → κ) (counts mayGo : α → Bool) (who : κ)
    (entries : List α) : List α :=
  evict bound (fun entry => owner entry == who && counts entry)
    (fun entry => owner entry == who && mayGo entry) entries

def evictEach (bound : Nat) (owner : α → κ) (owners : List κ) (counts mayGo : α → Bool)
    (entries : List α) : List α :=
  owners.foldl (fun entries who => evictOf bound owner counts mayGo who entries) entries

theorem evictEach_sublist :
    (evictEach bound owner owners counts mayGo entries).Sublist entries := by
  unfold evictEach
  induction owners generalizing entries with
  | nil => exact List.Sublist.refl _
  | cons other rest ih => exact ih.trans evict_sublist

theorem filter_evictEach_of_kept
    (hkeep : ∀ other ∈ owners, ∀ entry, owner entry = other → mayGo entry →
      keep entry = false) :
    (evictEach bound owner owners counts mayGo entries).filter keep = entries.filter keep := by
  unfold evictEach
  induction owners generalizing entries with
  | nil => rfl
  | cons other rest ih =>
    rw [List.foldl_cons, ih fun other hother => hkeep other (List.mem_cons_of_mem _ hother)]
    apply filter_evict_of_kept
    intro entry hentry
    rw [Bool.and_eq_true, beq_iff_eq] at hentry
    exact hkeep other List.mem_cons_self entry hentry.1 hentry.2

theorem filter_evictEach (hwho : who ∈ owners) :
    (evictEach bound owner owners counts mayGo entries).filter (fun entry => owner entry == who) =
      evictOf bound owner counts mayGo who (entries.filter fun entry => owner entry == who) := by
  have halone : ∀ entries : List α,
      (evictOf bound owner counts mayGo who entries).filter (fun entry => owner entry == who) =
        evictOf bound owner counts mayGo who
          (entries.filter fun entry => owner entry == who) := by
    intro entries
    apply filter_evict
    · intro entry hentry
      exact (Bool.and_eq_true _ _ ▸ hentry).1
    · intro entry hentry
      exact (Bool.and_eq_true _ _ ▸ hentry).1
  induction owners generalizing entries with
  | nil => exact absurd hwho List.not_mem_nil
  | cons other rest ih =>
    change (evictEach bound owner rest counts mayGo
      (evictOf bound owner counts mayGo other entries)).filter _ = _
    by_cases hrest : who ∈ rest
    · rw [ih hrest]
      by_cases hother : other = who
      · subst hother
        rw [halone]
        exact evict_evict
      · congr 1
        apply filter_evict_of_kept
        intro entry hentry
        rw [Bool.and_eq_true, beq_iff_eq] at hentry
        exact beq_false_of_ne fun heq => hother (hentry.1.symm.trans heq)
    · have hother : other = who := by
        cases hwho with
        | head => rfl
        | tail _ hmem => exact absurd hmem hrest
      subst hother
      rw [filter_evictEach_of_kept, halone]
      intro later hlater entry hentry _
      apply beq_false_of_ne
      intro heq
      exact hrest ((hentry.symm.trans heq) ▸ hlater)

end Owners

end WindbgMcp.Library.History
