import Mathlib.Data.Fintype.Card
import Mathlib.Data.List.Nodup

/-! Search with backtracking: one way to a goal, with the notes taken along it.  A node
is entered once in the whole search, whichever way led to it, and what was noted on a
way that led nowhere is taken back. -/
namespace WindbgMcp.Library.Backtracking

variable {α δ : Type}

structure Search (α δ : Type) where
  visited : List α
  noted : List δ

def Search.push (note : Option δ) (search : Search α δ) : Search α δ :=
  { search with noted := search.noted ++ note.toList }

def Search.pop (note : Option δ) (search : Search α δ) : Search α δ :=
  match note with
  | none => search
  | some _ => { search with noted := search.noted.dropLast }

@[simp] theorem Search.push_visited (note : Option δ) (search : Search α δ) :
    (search.push note).visited = search.visited := rfl

@[simp] theorem Search.push_noted (note : Option δ) (search : Search α δ) :
    (search.push note).noted = search.noted ++ note.toList := rfl

@[simp] theorem Search.pop_visited (note : Option δ) (search : Search α δ) :
    (search.pop note).visited = search.visited := by
  cases note with
  | none => rfl
  | some _ => rfl

theorem Search.pop_noted {note : Option δ} {search : Search α δ} {noted : List δ}
    (hnoted : search.noted = noted ++ note.toList) : (search.pop note).noted = noted := by
  cases note with
  | none => simpa [Search.pop] using hnoted
  | some step => simp [Search.pop, hnoted]

def tryEach (visit : α → Search α δ → Option (Bool × Search α δ)) :
    List (Option δ × α) → Search α δ → Option (Bool × Search α δ)
  | [], search => some (false, search)
  | (note, next) :: ways, search =>
    match visit next (search.push note) with
    | none => none
    | some (true, after) => some (true, after)
    | some (false, after) => tryEach visit ways (after.pop note)

variable (ways : α → List (Option δ × α)) (goal : α → Bool)

/-- Nothing, if the search has not come back after `fuel` nested calls. -/
def seek [DecidableEq α] : Nat → α → Search α δ → Option (Bool × Search α δ)
  | 0, _, _ => none
  | fuel + 1, node, search =>
    if goal node then some (true, search)
    else if node ∈ search.visited then some (false, search)
    else tryEach (seek fuel) (ways node) { search with visited := node :: search.visited }

/-- A way from a node to another, with what is noted along it. -/
inductive Way : α → List δ → α → Prop where
  | here (node : α) : Way node [] node
  | on {node next last : α} {note : Option δ} {notes : List δ}
      (hway : (note, next) ∈ ways node) (hrest : Way next notes last) :
      Way node (note.toList ++ notes) last

/-- A search that found nothing has entered all it was to try, and whatever it entered
leads only to what is entered. -/
structure Missed (targets : List α) (before after : Search α δ) : Prop where
  noted : after.noted = before.noted
  nodup : after.visited.Nodup
  grown : before.visited ⊆ after.visited
  entered : targets ⊆ after.visited
  closed : ∀ node ∈ after.visited, node ∉ before.visited →
    goal node = false ∧ ∀ way ∈ ways node, way.2 ∈ after.visited

/-- How a call comes back: with the notes of a way it found, or having found nothing. -/
inductive Answer (targets : List α) (finds : List δ → Prop) (before : Search α δ) :
    Bool → Search α δ → Prop where
  | found {after : Search α δ} (notes : List δ) (hfinds : finds notes)
      (hnoted : after.noted = before.noted ++ notes) : Answer targets finds before true after
  | missed {after : Search α δ} (hmissed : Missed ways goal targets before after) :
      Answer targets finds before false after

def Leads (node : α) (notes : List δ) : Prop :=
  ∃ last, goal last = true ∧ Way ways node notes last

def LeadsAlong (routes : List (Option δ × α)) (notes : List δ) : Prop :=
  ∃ route ∈ routes, ∃ rest, Leads ways goal route.2 rest ∧ notes = route.1.toList ++ rest

variable {ways goal}

theorem Missed.refl {before : Search α δ} (hnodup : before.visited.Nodup) {targets : List α}
    (hentered : targets ⊆ before.visited) : Missed ways goal targets before before :=
  ⟨rfl, hnodup, fun _ => id, hentered, fun _ hmem hfresh => absurd hmem hfresh⟩

theorem Missed.append {before middle after : Search α δ} {target : α} {targets : List α}
    (hfirst : Missed ways goal [target] before middle)
    (hrest : Missed ways goal targets middle after) :
    Missed ways goal (target :: targets) before after where
  noted := hrest.noted.trans hfirst.noted
  nodup := hrest.nodup
  grown := fun _ hmem => hrest.grown (hfirst.grown hmem)
  entered := by
    apply List.cons_subset.mpr
    exact ⟨hrest.grown (hfirst.entered List.mem_cons_self), hrest.entered⟩
  closed := by
    intro node hmem hfresh
    by_cases hmiddle : node ∈ middle.visited
    · have hclosed := hfirst.closed node hmiddle hfresh
      exact ⟨hclosed.1, fun way hway => hrest.grown (hclosed.2 way hway)⟩
    · exact hrest.closed node hmem hmiddle

theorem Missed.pop {before after : Search α δ} {note : Option δ} {targets : List α}
    (h : Missed ways goal targets (before.push note) after) :
    Missed ways goal targets before (after.pop note) where
  noted := Search.pop_noted h.noted
  nodup := by simpa using h.nodup
  grown := by simpa using h.grown
  entered := by simpa using h.entered
  closed := by simpa using h.closed

theorem Way.mem {node last : α} {notes : List δ} {nodes : List α}
    (h : Way ways node notes last) (hclosed : ∀ node ∈ nodes, ∀ way ∈ ways node, way.2 ∈ nodes)
    (hnode : node ∈ nodes) : last ∈ nodes := by
  induction h with
  | here node => exact hnode
  | on hway _ ih => exact ih (hclosed _ hnode _ hway)

variable (ways goal)

theorem tryEach_answers {visit : α → Search α δ → Option (Bool × Search α δ)}
    (routes : List (Option δ × α)) (before : Search α δ) (hnodup : before.visited.Nodup)
    (hvisit : ∀ node search, search.visited.Nodup → before.visited ⊆ search.visited →
      ∃ found after, visit node search = some (found, after) ∧
        Answer ways goal [node] (Leads ways goal node) search found after) :
    ∃ found after, tryEach visit routes before = some (found, after) ∧
      Answer ways goal (routes.map Prod.snd) (LeadsAlong ways goal routes) before found after := by
  induction routes generalizing before with
  | nil => exact ⟨false, before, rfl, .missed (Missed.refl hnodup (List.nil_subset _))⟩
  | cons route routes ih =>
    obtain ⟨note, next⟩ := route
    obtain ⟨found, after, hafter, hanswer⟩ :=
      hvisit next (before.push note) hnodup (List.Subset.refl _)
    cases hanswer with
    | found notes hfinds hnoted =>
      refine ⟨true, after, by simp only [tryEach, hafter], ?_⟩
      refine .found (note.toList ++ notes) ?_ (by simpa using hnoted)
      exact ⟨(note, next), List.mem_cons_self, notes, hfinds, rfl⟩
    | missed hmissed =>
      have hfirst := hmissed.pop
      obtain ⟨found, last, hlast, hanswer⟩ := ih (after.pop note) hfirst.nodup (by
        intro node search hsearch hsubset
        apply hvisit node search hsearch
        exact fun _ hmem => hsubset (hfirst.grown hmem))
      refine ⟨found, last, by simpa only [tryEach, hafter] using hlast, ?_⟩
      cases hanswer with
      | missed hrest => exact .missed (hfirst.append hrest)
      | found notes hfinds hnoted =>
        obtain ⟨route, hmem, hleads⟩ := hfinds
        refine .found notes ⟨route, List.mem_cons_of_mem _ hmem, hleads⟩ ?_
        rw [hnoted, hfirst.noted]

variable [Fintype α] [DecidableEq α]

theorem seek_answers {fuel : Nat} (node : α) {before : Search α δ}
    (hnodup : before.visited.Nodup) (hfuel : Fintype.card α - before.visited.length < fuel) :
    ∃ found after, seek ways goal fuel node before = some (found, after) ∧
      Answer ways goal [node] (Leads ways goal node) before found after := by
  induction fuel generalizing node before with
  | zero => exact absurd hfuel (Nat.not_lt_zero _)
  | succ fuel ih =>
    unfold seek
    by_cases hgoal : goal node = true
    · rw [if_pos hgoal]
      refine ⟨true, before, rfl, .found [] ⟨node, hgoal, .here node⟩ ?_⟩
      rw [List.append_nil]
    rw [if_neg hgoal]
    by_cases hseen : node ∈ before.visited
    · rw [if_pos hseen]
      exact ⟨false, before, rfl, .missed (Missed.refl hnodup (by simpa using hseen))⟩
    rw [if_neg hseen]
    have hentered : (node :: before.visited).Nodup := List.nodup_cons.mpr ⟨hseen, hnodup⟩
    have hcard := hentered.length_le_card
    have hvisit : ∀ next search, search.visited.Nodup → node :: before.visited ⊆ search.visited →
        ∃ found after, seek ways goal fuel next search = some (found, after) ∧
          Answer ways goal [next] (Leads ways goal next) search found after := by
      intro next search hsearch hsubset
      have hlonger := (List.subperm_of_subset hentered hsubset).length_le
      rw [List.length_cons] at hlonger hcard
      exact ih next hsearch (by omega)
    obtain ⟨found, after, hafter, hanswer⟩ :=
      tryEach_answers ways goal (ways node) { before with visited := node :: before.visited }
        hentered hvisit
    refine ⟨found, after, hafter, ?_⟩
    cases hanswer with
    | found notes hfinds hnoted =>
      obtain ⟨route, hroute, rest, hleads, hnotes⟩ := hfinds
      obtain ⟨last, hlast, hway⟩ := hleads
      refine .found notes ⟨last, hlast, ?_⟩ hnoted
      rw [hnotes]
      exact .on hroute hway
    | missed hmissed =>
      have hself : node ∈ after.visited := hmissed.grown List.mem_cons_self
      refine .missed ⟨hmissed.noted, hmissed.nodup, ?_, by simpa using hself, ?_⟩
      · exact fun _ hmem => hmissed.grown (List.mem_cons_of_mem _ hmem)
      · intro other hmem hfresh
        by_cases hother : other = node
        · rw [hother]
          refine ⟨Bool.eq_false_of_not_eq_true hgoal, ?_⟩
          intro way hway
          exact hmissed.entered (List.mem_map_of_mem hway)
        · exact hmissed.closed other hmem (by simp [hother, hfresh])

/-- Searching from nothing entered finds a goal wherever there is a way to one, and what
it noted is noted along such a way. -/
theorem seek_iff {fuel : Nat} (node : α) (hfuel : Fintype.card α < fuel) :
    ∃ found after, seek ways goal fuel node ⟨[], []⟩ = some (found, after) ∧
      (found = true ↔ ∃ notes, Leads ways goal node notes) ∧
        (found = true → Leads ways goal node after.noted) := by
  obtain ⟨found, after, hafter, hanswer⟩ :=
    @seek_answers _ _ ways goal _ _ fuel node ⟨[], []⟩ List.nodup_nil
      (Nat.lt_of_le_of_lt (Nat.sub_le _ _) hfuel)
  refine ⟨found, after, hafter, ?_⟩
  cases hanswer with
  | found notes hfinds hnoted =>
    rw [List.nil_append] at hnoted
    rw [hnoted]
    exact ⟨⟨fun _ => ⟨notes, hfinds⟩, fun _ => rfl⟩, fun _ => hfinds⟩
  | missed hmissed =>
    refine ⟨⟨fun h => absurd h Bool.false_ne_true, ?_⟩, fun h => absurd h Bool.false_ne_true⟩
    intro hleads
    obtain ⟨notes, last, hlast, hway⟩ := hleads
    have hentered := hway.mem
      (fun node hmem => (hmissed.closed node hmem List.not_mem_nil).2)
      (hmissed.entered List.mem_cons_self)
    rw [(hmissed.closed last hentered List.not_mem_nil).1] at hlast
    exact hlast

end WindbgMcp.Library.Backtracking
