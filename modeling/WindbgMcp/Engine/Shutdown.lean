import WindbgMcp.Engine.Server

/-! Shutdown walks the roots of the registry and, under each of them, its
companions.  Every worker must be found that way, whatever order the registry's
operations came in. -/
namespace WindbgMcp.Engine
open Library

namespace Registry

def Reached (registry : Registry) (session : Session) : Prop :=
  session ∈ registry.owningWorkers ∨
    ∃ root ∈ registry.owningWorkers, session ∈ registry.companionsOf root.id

/-- No session that a trim would take out of a history has a companion that still
owns a worker. -/
def spares (registry : Registry) : Bool :=
  registry.all.all fun session =>
    !(registry.outgoing session.owner).contains session ||
      (registry.companionsOf session.id).all fun companion => !companion.child

end Registry

/-- The steps that keep every worker within reach: a trim spares the parents of
working companions, and a worker is not linked under a session that is itself
linked under another. -/
def Act.keepsReach (server : Server) : Act → Bool
  | .admits session hidden companion =>
    match server.registry.refusal session, server.registry.enroll session hidden companion with
    | none, .ok enrolled => enrolled.spares
    | _, _ => true
  | .link parent companion =>
    (server.registry.parents parent).isNone ||
      (server.registry.find companion).all fun session => !session.child
  | .trim => server.registry.spares
  | _ => true

namespace Registry

/-- A session that owns a worker and has a parent is filed under that parent, which
is a public root of this registry. -/
def Linked (registry : Registry) : Prop :=
  ∀ session ∈ registry.all, session.child = true → ∀ parent,
    registry.parents session.id = some parent →
      registry.hidden parent = false ∧ registry.parents parent = none ∧
        session.id ∈ registry.companions parent ∧ holds registry.all parent = true

theorem Linked.reached {registry : Registry} (hlinked : registry.Linked)
    (hdistinct : registry.Distinct) {session : Session} (hmem : session ∈ registry.all)
    (hchild : session.child = true) : registry.Reached session := by
  cases hparent : registry.parents session.id with
  | none =>
    apply Or.inl
    exact List.mem_filter.mpr ⟨hmem, by simp [hparent, hchild]⟩
  | some parent =>
    obtain ⟨_, hroot, hfiled, hholds⟩ := hlinked session hmem hchild parent hparent
    obtain ⟨root, hrootmem, rfl⟩ := holds_iff.mp hholds
    have hcompanion : session ∈ registry.companionsOf root.id :=
      List.mem_filterMap.mpr ⟨session.id, hfiled, find_of_mem hdistinct hmem⟩
    apply Or.inr
    refine ⟨root, List.mem_filter.mpr ⟨hrootmem, ?_⟩, hcompanion⟩
    have hany : (registry.companionsOf root.id).any Session.child = true :=
      List.any_eq_true.mpr ⟨session, hcompanion, hchild⟩
    simp [hroot, hany]

section Preserved
variable {registry : Registry}

theorem linked_link {linked : Registry} {parent companion : String}
    (hlinked : registry.Linked) (hdistinct : registry.Distinct)
    (hok : registry.linkCompanion parent companion = .ok linked)
    (hkeeps : registry.parents parent ≠ none →
      ∀ session, registry.find companion = some session → session.child = false) :
    linked.Linked := by
  obtain ⟨hpublic, hinternal, hparent, _, _, rfl⟩ := linkCompanion_ok hok
  have hdifferent : ∀ root, registry.hidden root = false → root ≠ companion := by
    intro root hroot heq
    rw [heq, hinternal] at hroot
    exact absurd hroot (by decide)
  intro session hmem hchild root hroot
  by_cases hsession : session.id = companion
  · have heq : parent = root := by
      simpa [hsession] using hroot
    subst heq
    have hnone : registry.parents parent = none := by
      by_contra hsome
      have hfind := hkeeps hsome session (hsession ▸ find_of_mem hdistinct hmem)
      rw [hchild] at hfind
      exact absurd hfind (by decide)
    refine ⟨hpublic, ?_, ?_, hparent⟩
    · simpa [Function.update_of_ne (hdifferent parent hpublic)] using hnone
    · simp [hsession]
  · have hbefore : registry.parents session.id = some root := by
      simpa [Function.update_of_ne hsession] using hroot
    obtain ⟨hhidden, hnone, hfiled, hholds⟩ := hlinked session hmem hchild root hbefore
    refine ⟨hhidden, ?_, ?_, hholds⟩
    · simpa [Function.update_of_ne (hdifferent root hhidden)] using hnone
    · by_cases hroot' : root = parent
      · subst hroot'
        simp [hfiled]
      · simpa [Function.update_of_ne hroot'] using hfiled

theorem linked_push {session : Session} (hidden : Bool) (hlinked : registry.Linked)
    (hfresh : ¬registry.Mentions session.id) : (registry.push session hidden).Linked := by
  intro other hmem hchild root hroot
  rcases List.mem_append.mp hmem with hold | hnew
  · obtain ⟨hhidden, hnone, hfiled, hholds⟩ := hlinked other hold hchild root hroot
    have hne : root ≠ session.id := by
      rintro rfl
      exact hfresh (Or.inl hholds)
    refine ⟨?_, hnone, hfiled, ?_⟩
    · cases hidden with
      | true => simpa [push, Function.update_of_ne hne] using hhidden
      | false => simpa [push] using hhidden
    · unfold holds at hholds ⊢
      simp only [push, List.any_append, hholds, Bool.true_or]
  · rw [List.mem_singleton.mp hnew] at hroot
    exact absurd (Or.inr (Option.isSome_iff_exists.mpr ⟨root, hroot⟩)) hfresh

theorem linked_reveal (id : String) (hlinked : registry.Linked) : (registry.reveal id).Linked := by
  intro session hmem hchild root hroot
  obtain ⟨hhidden, hnone, hfiled, hholds⟩ := hlinked session hmem hchild root hroot
  refine ⟨?_, hnone, hfiled, hholds⟩
  by_cases hid : root = id
  · simp [reveal, hid]
  · simpa [reveal, Function.update_of_ne hid] using hhidden

theorem linked_modify {id : String} {change : Session → Session}
    (hid : ∀ session, (change session).id = session.id)
    (hworker : ∀ session, (change session).child = true → session.child = true)
    (hlinked : registry.Linked) : (registry.modify id change).Linked := by
  intro session hmem hchild root hroot
  obtain ⟨before, hbefore, rfl⟩ := List.mem_map.mp hmem
  have hsame : (if before.id == id then change before else before).id = before.id := by
    split
    · exact hid before
    · rfl
  have howned : before.child = true := by
    split at hchild
    · exact hworker before hchild
    · exact hchild
  rw [hsame] at hroot ⊢
  rw [holds_modify hid]
  exact hlinked before hbefore howned root hroot

theorem spares_iff : registry.spares = true ↔ ∀ session ∈ registry.all,
    session ∈ registry.outgoing session.owner →
      ∀ companion ∈ registry.companionsOf session.id, companion.child = false := by
  simp [spares, imp_iff_not_or]

/-- The parent of a working companion is public, so the first part of a trim keeps
it, and its links with it; the second part keeps it where the trim spares it. -/
theorem linked_trim (hlinked : registry.Linked) (hdistinct : registry.Distinct)
    (hspares : registry.spares = true) : registry.trim.Linked := by
  intro session hmem hchild root hroot
  have hretained := trim_all_subset hmem
  have hall := (mem_retained.mp hretained).1
  obtain ⟨hbefore, hheld⟩ := Option.filter_eq_some_iff.mp hroot
  obtain ⟨hhidden, hnone, hfiled, hholds⟩ := hlinked session hall hchild root hbefore
  obtain ⟨parent, hparent, rfl⟩ := holds_iff.mp hholds
  rw [Bool.and_eq_true] at hheld
  have hcompanion : session ∈ registry.companionsOf parent.id :=
    List.mem_filterMap.mpr ⟨session.id, hfiled, find_of_mem hdistinct hall⟩
  have hstays : parent ∈ registry.trim.all := by
    apply mem_trim_of_not_outgoing
    · exact mem_retained.mpr ⟨hparent, Or.inl hhidden⟩
    · intro hout
      have hgone := spares_iff.mp hspares parent hparent hout session hcompanion
      rw [hchild] at hgone
      exact absurd hgone (by decide)
  refine ⟨?_, ?_, ?_, holds_iff.mpr ⟨parent, hstays, rfl⟩⟩
  · simp [trim, hhidden]
  · simp [trim, hnone]
  · simp only [trim, if_pos hheld.2]
    exact List.mem_filter.mpr ⟨hfiled, hheld.1⟩

theorem linked_enroll {enrolled : Registry} {session : Session} {hidden : Bool}
    {companion : Option String} (hfresh : ¬registry.Mentions session.id)
    (hlinked : registry.Linked) (hdistinct : registry.Distinct)
    (hok : registry.enroll session hidden companion = .ok enrolled) : enrolled.Linked := by
  have hpushed := linked_push hidden hlinked hfresh
  cases companion with
  | none =>
    cases hok
    exact hpushed
  | some companion =>
    apply linked_link hpushed (distinct_push hidden hdistinct hfresh) hok
    intro hsome
    exact absurd (Or.inr (Option.isSome_iff_ne_none.mpr hsome)) hfresh

end Preserved

end Registry

namespace Server

theorem linked_admits {server : Server} {session : Session} {hidden : Bool}
    {companion : Option String} (hids : server.Identified) (hlinked : server.registry.Linked)
    (hkeeps : (Act.admits session hidden companion).keepsReach server = true) :
    (server.step (.admits session hidden companion)).registry.Linked := by
  simp only [step]
  split
  · rename_i hspawned
    have hfresh := hids.fresh session.id hspawned
    simp only
    rcases server.registry.admitWithCompanion_cases hidden companion hfresh with
      heq | heq | ⟨enrolled, hadmitted, hok, heq⟩
    · rw [heq]
      exact hlinked
    · rw [heq]
      exact Registry.linked_reveal _ hlinked
    · rw [heq]
      simp only [Act.keepsReach, hadmitted, hok] at hkeeps
      apply Registry.linked_trim _ _ hkeeps
      · exact Registry.linked_enroll hfresh hlinked hids.distinct hok
      · exact Registry.distinct_enroll hfresh hids.distinct hok
  · exact hlinked

theorem linked_step {server : Server} (act : Act) (hids : server.Identified)
    (hlinked : server.registry.Linked) (hkeeps : act.keepsReach server = true) :
    (server.step act).registry.Linked := by
  cases act with
  | mint nanos => exact hlinked
  | admits session hidden companion => exact linked_admits hids hlinked hkeeps
  | link parent companion =>
    simp only [step]
    cases hok : server.registry.linkCompanion parent companion with
    | error why => exact hlinked
    | ok linked =>
      apply Registry.linked_link hlinked hids.distinct hok
      intro hsome session hfind
      simpa [Act.keepsReach, hsome, hfind] using hkeeps
  | reveal id => exact Registry.linked_reveal id hlinked
  | transition id now next =>
    exact Registry.linked_modify (fun _ => rfl) (fun _ hchild => hchild) hlinked
  | confirmRelease id =>
    refine Registry.linked_modify (fun session => ?_) (fun session hchild => ?_) hlinked
    · rfl
    · exact hchild
  | completeHandoff id =>
    refine Registry.linked_modify (fun session => ?_) (fun session hchild => ?_) hlinked
    · rfl
    · exact hchild
  | take id =>
    refine Registry.linked_modify (fun session => ?_) (fun session hchild => ?_) hlinked
    · rfl
    · exact absurd hchild Bool.false_ne_true
  | trim => exact Registry.linked_trim hlinked hids.distinct hkeeps

/-- In every run that spares the parents of working companions and hangs no worker
under a companion, shutdown reaches every worker of the registry it ends in.  No
trim removes a session that is live or owns a worker. -/
theorem workers_reached {acts : List Act}
    (hkeeps : ∀ visit ∈ visits step {} acts, visit.2.keepsReach visit.1 = true) :
    (∀ session ∈ (run step {} acts).registry.all, session.child = true →
      (run step {} acts).registry.Reached session) ∧
    ∀ (registry : Registry), ∀ session ∈ registry.all,
      session.isLive = true ∨ session.child = true → session ∈ registry.trim.all := by
  have hsound : (run step {} acts).Identified ∧ (run step {} acts).registry.Linked := by
    refine run_invariant (fun server : Server => server.Identified ∧ server.registry.Linked)
      (fun server (act : Act) => act.keepsReach server = true) ?_ ?_ hkeeps
    · intro server act hserver hact
      exact ⟨hserver.1.step act, linked_step act hserver.1 hserver.2 hact⟩
    · exact ⟨identified_start, fun _ hmem => absurd hmem List.not_mem_nil⟩
  constructor
  · intro session hmem hchild
    exact hsound.2.reached hsound.1.distinct hmem hchild
  · intro registry session hmem hheld
    apply Registry.mem_trim_of_isHeld hmem
    unfold Session.isHeld
    cases hheld with
    | inl hlive => rw [hlive, Bool.true_or]
    | inr hchild => rw [hchild, Bool.or_true]

section Example

def newSession (n : Nat) (kind : SessionKind) : Session where
  id := mintSessionId 0 n
  kind := kind
  what := ""
  pid := n
  created := 0
  standing := ⟨.opening, 0, {}⟩
  owner := ⟨"local", 0⟩

def opens (n : Nat) (kind : SessionKind) (companion : Option String) : List Act :=
  [.mint 0, .admits (newSession n kind) false companion]

def ends (n : Nat) : List Act :=
  [.confirmRelease (mintSessionId 0 n),
    .transition (mintSessionId 0 n) 0 fun _ claims =>
      (some (.closed "worker confirmed target release"), claims),
    .take (mintSessionId 0 n)]

/-- A composite session, and eleven dumps that are opened and ended under it.  Its
public half is then released, its controller not yet; and one more dump is opened. -/
def compositeReleased : List Act :=
  [.mint 0, .admits (newSession 1 .secureKernelKd) true none] ++
    opens 2 .kernel (some (mintSessionId 0 1)) ++
    (List.range 11).flatMap (fun k => opens (k + 3) .dump none ++ ends (k + 3)) ++ ends 2 ++
    opens 14 .dump none

/-- Up to the last open, nothing is dropped that a worker hangs under. -/
theorem workers_reached_before_eviction :
    ∃ session ∈ (run step {} (compositeReleased.dropLast)).registry.all,
      session.child = true ∧ (session ∈ (run step {} compositeReleased.dropLast).registry.trim.all) ∧
        (run step {} (compositeReleased.dropLast)).registry.Reached session := by
  have hkeeps : ∀ visit ∈ visits step {} compositeReleased.dropLast,
      visit.2.keepsReach visit.1 = true := by decide +kernel
  have hfound : ∃ session ∈ (run step {} (compositeReleased.dropLast)).registry.all,
      session.child = true := by decide +kernel
  obtain ⟨session, hmem, hchild⟩ := hfound
  obtain ⟨hreached, hkept⟩ := workers_reached hkeeps
  exact ⟨session, hmem, hchild, hkept _ session hmem (Or.inr hchild), hreached session hmem hchild⟩

end Example

/-- The trim in the last admission drops the composite's public half, so that the
walk misses the worker of its controller. -/
theorem controller_out_of_reach :
    ¬∀ acts, ∀ session ∈ (run step {} acts).registry.all, session.child = true →
      (run step {} acts).registry.Reached session := by
  intro h
  have hmissed : ∃ session ∈ (run step {} compositeReleased).registry.all,
      session.child = true ∧
        session ∉ (run step {} compositeReleased).registry.owningWorkers ∧
        ∀ root ∈ (run step {} compositeReleased).registry.owningWorkers,
          session ∉ (run step {} compositeReleased).registry.companionsOf root.id := by
    decide +kernel
  obtain ⟨session, hmem, hchild, hroot, hcompanion⟩ := hmissed
  cases h compositeReleased session hmem hchild with
  | inl hin => exact hroot hin
  | inr hin =>
    obtain ⟨root, hrootmem, hin⟩ := hin
    exact hcompanion root hrootmem hin

end Server

end WindbgMcp.Engine
