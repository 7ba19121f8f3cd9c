import Mathlib.Data.List.Sort

/-! Sorting by a key that several elements may share.  A stable sort leaves the elements of one
key as it found them, so two lists sort alike just when they agree key by key.  A list extended
by what it lacks of another depends on which of the two came first, unless one of them begins
with the other. -/
namespace WindbgMcp.Library

section Ties
variable {α : Type*} (r : α → α → Prop) [DecidableRel r]

/-- The elements a sort cannot tell from `a`, in the order they stand in. -/
def ties (a : α) (xs : List α) : List α := xs.filter fun x => decide (r a x ∧ r x a)

variable {r}

theorem ties_cons (a x : α) (xs : List α) :
    ties r a (x :: xs) = if r a x ∧ r x a then x :: ties r a xs else ties r a xs := by
  unfold ties
  rw [List.filter_cons]
  simp only [decide_eq_true_eq]

theorem mem_ties {a x : α} {xs : List α} : x ∈ ties r a xs ↔ x ∈ xs ∧ r a x ∧ r x a := by
  unfold ties
  rw [List.mem_filter, decide_eq_true_eq]

theorem self_mem_ties [Std.Total r] {a : α} {xs : List α} (h : a ∈ xs) : a ∈ ties r a xs := by
  have hself : r a a := (Std.Total.total a a).elim id id
  exact mem_ties.mpr ⟨h, hself, hself⟩

section Insertion
variable [IsTrans α r]

theorem ties_orderedInsert (a x : α) (xs : List α) :
    ties r a (xs.orderedInsert r x) = ties r a (x :: xs) := by
  induction xs with
  | nil => rfl
  | cons y xs ih =>
    rw [List.orderedInsert_cons]
    split
    · rfl
    · next hbehind =>
      rw [ties_cons, ih, ties_cons, ties_cons a x, ties_cons a y]
      split
      · next hy =>
        split
        · next hx => exact absurd (trans_of r hx.2 hy.1) hbehind
        · rfl
      · rfl

@[simp] theorem ties_insertionSort (a : α) (xs : List α) :
    ties r a (xs.insertionSort r) = ties r a xs := by
  induction xs with
  | nil => rfl
  | cons x xs ih => rw [List.insertionSort_cons, ties_orderedInsert, ties_cons, ih, ← ties_cons]

/-- A stable sort orders a list by its key, and what shares a key as the list was ordered. -/
theorem pairwise_stable [Std.Total r] {before : α → α → Prop} {xs : List α}
    (h : xs.Pairwise before) :
    (xs.insertionSort r).Pairwise fun a b => r a b ∧ (r b a → before a b) := by
  induction xs with
  | nil => exact List.Pairwise.nil
  | cons x xs ih =>
    obtain ⟨hx, hxs⟩ := List.pairwise_cons.mp h
    have hfirst : ∀ y ∈ xs.insertionSort r, before x y :=
      fun y hy => hx y ((List.mem_insertionSort r).mp hy)
    have hsorted := ih hxs
    rw [List.insertionSort_cons]
    generalize xs.insertionSort r = ys at hfirst hsorted
    clear ih
    induction ys with
    | nil => exact List.pairwise_singleton _ x
    | cons y ys ih =>
      obtain ⟨hy, hys⟩ := List.pairwise_cons.mp hsorted
      rw [List.orderedInsert_cons]
      split
      · next hxy =>
        apply List.pairwise_cons.mpr ⟨?_, hsorted⟩
        intro z hz
        refine ⟨?_, fun _ => hfirst z hz⟩
        cases hz with
        | head => exact hxy
        | tail _ hz => exact trans_of r hxy (hy z hz).1
      · next hxy =>
        apply List.pairwise_cons.mpr ⟨?_, ih (fun z hz => hfirst z (List.mem_cons_of_mem y hz)) hys⟩
        intro z hz
        rcases (List.mem_orderedInsert r).mp hz with rfl | hz
        · exact ⟨(Std.Total.total z y).resolve_left hxy, fun h => absurd h hxy⟩
        · exact hy z hz

end Insertion

variable [Std.Total r]

theorem head_le_of_ties {x y : α} {xs ys : List α} (hsorted : (x :: xs).Pairwise r)
    (h : ∀ a, ties r a (x :: xs) = ties r a (y :: ys)) : r x y := by
  have hmem : y ∈ ties r y (x :: xs) := (h y).symm ▸ self_mem_ties List.mem_cons_self
  rcases List.mem_cons.mp (mem_ties.mp hmem).1 with rfl | hlater
  · exact (Std.Total.total y y).elim id id
  · exact List.rel_of_pairwise_cons hsorted hlater

theorem eq_of_ties {xs ys : List α} (hxs : xs.Pairwise r) (hys : ys.Pairwise r)
    (h : ∀ a, ties r a xs = ties r a ys) : xs = ys := by
  induction xs generalizing ys with
  | nil =>
    cases ys with
    | nil => rfl
    | cons y ys =>
      have hmem := self_mem_ties (r := r) (List.mem_cons_self (a := y) (l := ys))
      rw [← h y] at hmem
      cases hmem
  | cons x xs ih =>
    cases ys with
    | nil =>
      have hmem := self_mem_ties (r := r) (List.mem_cons_self (a := x) (l := xs))
      rw [h x] at hmem
      cases hmem
    | cons y ys =>
      have hxy := head_le_of_ties hxs h
      have hyx := head_le_of_ties hys fun a => (h a).symm
      have hx : r x x := (Std.Total.total x x).elim id id
      have hhead := h x
      rw [ties_cons, ties_cons, if_pos ⟨hx, hx⟩, if_pos ⟨hxy, hyx⟩] at hhead
      obtain rfl := (List.cons.inj hhead).1
      congr 1
      apply ih hxs.of_cons hys.of_cons
      intro a
      have hrest := h a
      rw [ties_cons, ties_cons] at hrest
      split at hrest
      · exact (List.cons.inj hrest).2
      · exact hrest

end Ties

section Extending
variable {α : Type*} [DecidableEq α]

/-- What of `ys` is not in `xs`. -/
def fresh (xs ys : List α) : List α := ys.filter fun y => decide (y ∉ xs)

/-- `xs`, and behind it what it lacks of `ys`. -/
def extend (xs ys : List α) : List α := xs ++ fresh xs ys

def Aligned (xs ys : List α) : Prop := xs <+: ys ∨ ys <+: xs

theorem mem_fresh {x : α} {xs ys : List α} : x ∈ fresh xs ys ↔ x ∈ ys ∧ x ∉ xs := by
  unfold fresh
  rw [List.mem_filter, decide_eq_true_eq]

@[simp] theorem mem_extend {x : α} {xs ys : List α} : x ∈ extend xs ys ↔ x ∈ xs ∨ x ∈ ys := by
  unfold extend
  rw [List.mem_append, mem_fresh]
  tauto

@[simp] theorem fresh_nil (xs : List α) : fresh xs [] = [] := rfl

@[simp] theorem nil_fresh (ys : List α) : fresh [] ys = ys := by
  unfold fresh
  exact List.filter_eq_self.mpr fun y _ => decide_eq_true List.not_mem_nil

theorem fresh_eq_nil {xs ys : List α} (h : ys ⊆ xs) : fresh xs ys = [] := by
  unfold fresh
  rw [List.filter_eq_nil_iff]
  intro y hy
  rw [decide_eq_true_eq]
  exact not_not_intro (h hy)

theorem fresh_append (xs ys zs : List α) : fresh xs (ys ++ zs) = fresh xs ys ++ fresh xs zs :=
  List.filter_append ..

theorem fresh_extend (xs ys zs : List α) :
    fresh (extend xs ys) zs = fresh (fresh xs ys) (fresh xs zs) := by
  unfold fresh
  rw [List.filter_filter]
  apply List.filter_congr
  intro z _
  rw [← Bool.decide_and, decide_eq_decide, ← fresh, mem_extend, mem_fresh]
  tauto

theorem fresh_fresh (xs ys zs : List α) : fresh xs (fresh ys zs) = fresh (extend ys xs) zs := by
  unfold fresh
  rw [List.filter_filter]
  apply List.filter_congr
  intro z _
  rw [← Bool.decide_and, decide_eq_decide, mem_extend]
  tauto

theorem Nodup.extend {xs ys : List α} (hxs : xs.Nodup) (hys : ys.Nodup) :
    (Library.extend xs ys).Nodup := by
  unfold Library.extend
  apply List.nodup_append.mpr ⟨hxs, hys.filter _, ?_⟩
  intro x hx y hy heq
  exact (mem_fresh.mp hy).2 (heq ▸ hx)

theorem filter_fresh (p : α → Bool) (xs ys : List α) :
    (fresh xs ys).filter p = fresh (xs.filter p) (ys.filter p) := by
  unfold fresh
  rw [List.filter_filter, List.filter_filter]
  apply List.filter_congr
  intro y _
  cases hp : p y with
  | true =>
    rw [Bool.true_and, Bool.and_true, decide_eq_decide, List.mem_filter]
    simp only [hp, and_true]
  | false => rw [Bool.false_and, Bool.and_false]

theorem filter_extend (p : α → Bool) (xs ys : List α) :
    (extend xs ys).filter p = extend (xs.filter p) (ys.filter p) := by
  unfold extend
  rw [List.filter_append, filter_fresh]

theorem extend_assoc (xs ys zs : List α) :
    extend (extend xs ys) zs = extend xs (extend ys zs) := by
  have hbehind : fresh xs (extend ys zs) = fresh xs ys ++ fresh (extend xs ys) zs := by
    have hswap : fresh (extend ys xs) zs = fresh (extend xs ys) zs := by
      unfold fresh
      apply List.filter_congr
      intro z _
      rw [decide_eq_decide, mem_extend, mem_extend, or_comm]
    rw [extend, fresh_append, fresh_fresh, hswap]
  calc extend (extend xs ys) zs = xs ++ fresh xs ys ++ fresh (extend xs ys) zs := rfl
    _ = xs ++ (fresh xs ys ++ fresh (extend xs ys) zs) := List.append_assoc ..
    _ = xs ++ fresh xs (extend ys zs) := by rw [hbehind]

theorem foldl_push {ys : List α} (h : ys.Nodup) (xs : List α) :
    ys.foldl (fun xs y => if y ∈ xs then xs else xs ++ [y]) xs = extend xs ys := by
  induction ys generalizing xs with
  | nil => rw [extend, fresh_nil, List.append_nil, List.foldl_nil]
  | cons y ys ih =>
    rw [List.foldl_cons, ih h.of_cons]
    split
    · next hy =>
      have hsame : fresh xs (y :: ys) = fresh xs ys := by
        rw [show y :: ys = [y] ++ ys from rfl, fresh_append, fresh_eq_nil, List.nil_append]
        exact List.cons_subset.mpr ⟨hy, List.nil_subset _⟩
      rw [extend, extend, hsame]
    · next hy =>
      have hone : extend xs [y] = xs ++ [y] := by
        rw [extend, fresh]
        simp only [List.filter_cons, hy, not_false_eq_true, decide_true, if_true, List.filter_nil]
      have hrest : extend [y] ys = y :: ys := by
        rw [extend, fresh, List.filter_eq_self.mpr]
        · rfl
        · intro other hother
          rw [decide_eq_true_eq, List.mem_singleton]
          rintro rfl
          exact (List.nodup_cons.mp h).1 hother
      rw [← hone, extend_assoc, hrest]

theorem extend_of_initial {xs ys : List α} (h : xs <+: ys) (hys : ys.Nodup) :
    extend xs ys = ys := by
  obtain ⟨rest, rfl⟩ := h
  rw [extend, fresh_append, fresh_eq_nil (List.Subset.refl xs), List.nil_append, fresh,
    List.filter_eq_self.mpr]
  intro x hx
  rw [decide_eq_true_eq]
  intro hin
  exact (List.nodup_append.mp hys).2.2 x hin x hx rfl

theorem extend_of_subset {xs ys : List α} (h : ys ⊆ xs) : extend xs ys = xs := by
  rw [extend, fresh_eq_nil h, List.append_nil]

theorem extend_comm_iff {xs ys : List α} (hxs : xs.Nodup) (hys : ys.Nodup) :
    extend xs ys = extend ys xs ↔ Aligned xs ys := by
  constructor
  · intro h
    apply List.prefix_or_prefix_of_prefix (List.prefix_append xs (fresh xs ys))
    rw [← extend, h]
    exact List.prefix_append ys _
  · rintro (h | h)
    · rw [extend_of_initial h hys, extend_of_subset h.subset]
    · rw [extend_of_initial h hxs, extend_of_subset h.subset]

theorem Aligned.fresh {xs ys : List α} (h : Aligned xs ys) (zs : List α) :
    Aligned (Library.fresh zs xs) (Library.fresh zs ys) :=
  h.imp (fun h => h.filter _) (fun h => h.filter _)

theorem extend_right_comm {zs xs ys : List α} (hxs : xs.Nodup) (hys : ys.Nodup)
    (h : Aligned (fresh zs xs) (fresh zs ys)) :
    extend (extend zs xs) ys = extend (extend zs ys) xs := by
  have hboth (xs ys : List α) :
      extend (extend zs xs) ys = zs ++ extend (fresh zs xs) (fresh zs ys) := by
    calc extend (extend zs xs) ys = zs ++ fresh zs xs ++ fresh (extend zs xs) ys := rfl
      _ = zs ++ (fresh zs xs ++ fresh (extend zs xs) ys) := List.append_assoc ..
      _ = zs ++ extend (fresh zs xs) (fresh zs ys) := by rw [fresh_extend, ← extend]
  have hfresh {ws : List α} (hws : ws.Nodup) : (fresh zs ws).Nodup := hws.filter _
  rw [hboth, hboth, (extend_comm_iff (hfresh hxs) (hfresh hys)).mpr h]

section Fold
variable {ε : Type*} (of : ε → List α)

theorem prefix_foldl_extend (sources : List ε) (zs : List α) :
    zs <+: sources.foldl (fun zs source => extend zs (of source)) zs := by
  induction sources generalizing zs with
  | nil => exact List.prefix_rfl
  | cons source sources ih => exact (List.prefix_append zs _).trans (ih _)

/-- Whatever order lists come in, the same is made of them, just when of any two what is not there
yet begins one with the other. -/
theorem foldl_extend_perm_iff {sources : List ε} (hnodup : ∀ source ∈ sources, (of source).Nodup)
    (zs : List α) :
    (∀ other : List ε, other.Perm sources →
      other.foldl (fun zs source => extend zs (of source)) zs =
        sources.foldl (fun zs source => extend zs (of source)) zs) ↔
      ∀ source ∈ sources, ∀ other ∈ sources,
        Aligned (fresh zs (of source)) (fresh zs (of other)) := by
  constructor
  · intro h
    have hbegins : ∀ source ∈ sources, zs ++ fresh zs (of source) <+:
        sources.foldl (fun zs source => extend zs (of source)) zs := by
      intro source hsource
      obtain ⟨before, after, rfl⟩ := List.append_of_mem hsource
      rw [← h (source :: (before ++ after)) List.perm_middle.symm]
      exact prefix_foldl_extend of _ _
    intro source hsource other hother
    have hor := List.prefix_or_prefix_of_prefix (hbegins source hsource) (hbegins other hother)
    exact hor.imp (List.prefix_append_right_inj zs).mp (List.prefix_append_right_inj zs).mp
  · intro haligned other hperm
    induction hperm generalizing zs with
    | nil => rfl
    | cons first _ ih =>
      rw [List.foldl_cons, List.foldl_cons]
      apply ih (fun source hsource => hnodup source (List.mem_cons_of_mem _ hsource))
      intro source hsource other hother
      rw [fresh_extend, fresh_extend]
      exact (haligned source (List.mem_cons_of_mem _ hsource) other
        (List.mem_cons_of_mem _ hother)).fresh _
    | swap first second rest =>
      have hfirst : first ∈ first :: second :: rest := List.mem_cons_self
      have hsecond : second ∈ first :: second :: rest :=
        List.mem_cons_of_mem _ List.mem_cons_self
      rw [List.foldl_cons, List.foldl_cons, List.foldl_cons, List.foldl_cons,
        extend_right_comm (hnodup second hsecond) (hnodup first hfirst)
          (haligned second hsecond first hfirst)]
    | trans _ hlast ih₁ ih₂ =>
      rw [ih₁ (fun source hsource => hnodup source (hlast.subset hsource)) zs
        fun source hsource other hother =>
          haligned source (hlast.subset hsource) other (hlast.subset hother)]
      exact ih₂ hnodup zs haligned

end Fold

end Extending

end WindbgMcp.Library
