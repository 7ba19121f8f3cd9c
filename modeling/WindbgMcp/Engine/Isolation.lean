import WindbgMcp.Engine.Clients

/-! Clients are isolated in the registry: what one of them asks is answered from its
own sessions, and what it changes is its own. -/
namespace WindbgMcp.Engine
open Library

namespace Registry

/-- The two registries hold the same sessions of the client, with their states and
links, and the same of everything else that is kept for it. -/
structure Agrees (client : Client) (registry other : Registry) : Prop where
  sessions : registry.all.filter (fun session => session.owner == client) =
    other.all.filter fun session => session.owner == client
  hidden : ∀ session ∈ registry.all, session.owner = client →
    registry.hidden session.id = other.hidden session.id
  companions : ∀ session ∈ registry.all, session.owner = client →
    registry.companionsOf session.id = other.companionsOf session.id
  opening : registry.opening client = other.opening client
  revoked : registry.revoked client = other.revoked client
  symbolPaths : registry.symbolPaths client = other.symbolPaths client
  closing : registry.closing = other.closing

structure ChangesOnly (client : Client) (before after : Registry) : Prop where
  sessions : after.all.filter (fun session => session.owner != client) =
    before.all.filter fun session => session.owner != client
  opening : ∀ other, other ≠ client → after.opening other = before.opening other
  hidden : after.hidden = before.hidden
  companions : after.companions = before.companions
  parents : after.parents = before.parents
  revoked : after.revoked = before.revoked
  symbolPaths : after.symbolPaths = before.symbolPaths
  closing : after.closing = before.closing

/-- What the client can tell the two registries apart by: nothing. -/
structure Indistinguishable (client : Client) (registry other : Registry) : Prop where
  resolve : ∀ supplied, registry.resolve client supplied = other.resolve client supplied
  resolveForLiveBreak : ∀ supplied,
    registry.resolveForLiveBreak client supplied = other.resolveForLiveBreak client supplied
  resolveForTeardown : ∀ supplied,
    registry.resolveForTeardown client supplied = other.resolveForTeardown client supplied
  resolveForExecutionRead : ∀ supplied,
    registry.resolveForExecutionRead client supplied =
      other.resolveForExecutionRead client supplied
  snapshot : ∀ now, registry.snapshot client now = other.snapshot client now
  visibleSessionIds : registry.visibleSessionIds client = other.visibleSessionIds client
  liveCountFor : registry.liveCountFor client = other.liveCountFor client
  takeSlot : (registry.takeSlot client).1 = (other.takeSlot client).1 ∧
    (registry.takeSlot client).2.Agrees client (other.takeSlot client).2
  claimOverageVictim : ∀ keeping now, keeping.owner = client →
    (registry.claimOverageVictim keeping now).1 = (other.claimOverageVictim keeping now).1 ∧
      (registry.claimOverageVictim keeping now).2.Agrees client
        (other.claimOverageVictim keeping now).2
  outgoing : registry.outgoing client = other.outgoing client
  trim : registry.trim.all.filter (fun session => session.owner == client) =
    other.trim.all.filter fun session => session.owner == client

structure Confined (client : Client) (registry : Registry) : Prop where
  takeSlot : ChangesOnly client registry (registry.takeSlot client).2
  claimOverageVictim : ∀ keeping now, keeping.owner = client →
    ChangesOnly client registry (registry.claimOverageVictim keeping now).2
  foreign : ∀ session ∈ registry.all, session.owner ≠ client → ∀ admits,
    registry.resolveAdmitting client (some session.id) admits =
      .error (.stale (unknownHandle session.id))

section Agreement
variable {client : Client} {registry other : Registry}

theorem Agrees.mem_iff (h : registry.Agrees client other) {session : Session}
    (howner : session.owner = client) : session ∈ registry.all ↔ session ∈ other.all := by
  have hmem : session ∈ registry.all.filter (fun session => session.owner == client) ↔
      session ∈ other.all.filter fun session => session.owner == client := by
    rw [h.sessions]
  simpa [howner] using hmem

theorem Agrees.symm (h : registry.Agrees client other) : other.Agrees client registry where
  sessions := h.sessions.symm
  hidden := fun session hmem howner =>
    (h.hidden session ((h.mem_iff howner).mpr hmem) howner).symm
  companions := fun session hmem howner =>
    (h.companions session ((h.mem_iff howner).mpr hmem) howner).symm
  opening := h.opening.symm
  revoked := h.revoked.symm
  symbolPaths := h.symbolPaths.symm
  closing := h.closing.symm

/-- A filter that looks at the client's sessions only, through what agrees of them. -/
theorem Agrees.filter_eq {test test' : Session → Bool} (h : registry.Agrees client other)
    (htest : ∀ session ∈ registry.all, session.owner = client →
      test session = test' session) :
    registry.all.filter (fun session => session.owner == client && test session) =
      other.all.filter fun session => session.owner == client && test' session := by
  have hsplit : ∀ (sessions : List Session) (test : Session → Bool),
      sessions.filter (fun session => session.owner == client && test session) =
        (sessions.filter fun session => session.owner == client).filter test := by
    intro sessions test
    rw [List.filter_filter]
    apply List.filter_congr
    intro session _
    rw [Bool.and_comm]
  rw [hsplit, hsplit, ← h.sessions]
  apply List.filter_congr
  intro session hmem
  obtain ⟨hin, howner⟩ := List.mem_filter.mp hmem
  exact htest session hin (beq_iff_eq.mp howner)

theorem Agrees.publicOf (h : registry.Agrees client other) :
    registry.publicOf client = other.publicOf client := by
  apply h.filter_eq
  intro session hmem howner
  rw [h.hidden session hmem howner]

theorem Agrees.liveFor (h : registry.Agrees client other) :
    registry.liveFor client = other.liveFor client := by
  have hform : ∀ registry : Registry, registry.liveFor client = registry.all.filter fun session =>
      session.owner == client && (!registry.hidden session.id && session.isLive) := by
    intro registry
    unfold Registry.liveFor
    apply List.filter_congr
    intro session _
    rw [Bool.and_comm]
  rw [hform, hform]
  apply h.filter_eq
  intro session hmem howner
  rw [h.hidden session hmem howner]

theorem mem_liveFor {session : Session} (h : session ∈ registry.liveFor client) :
    session ∈ registry.all ∧ session.owner = client := by
  obtain ⟨hmem, htest⟩ := List.mem_filter.mp h
  rw [Bool.and_eq_true, beq_iff_eq] at htest
  exact ⟨hmem, htest.2⟩

theorem Agrees.treeBusy (h : registry.Agrees client other) {session : Session}
    (hmem : session ∈ registry.all) (howner : session.owner = client) :
    registry.treeBusy session = other.treeBusy session := by
  unfold Registry.treeBusy
  rw [h.companions session hmem howner]

theorem Agrees.current (h : registry.Agrees client other) :
    registry.current client = other.current client := by
  have hform : ∀ registry : Registry, registry.current client =
      (registry.all.filter fun session => session.owner == client &&
        (!registry.hidden session.id && session.state.acceptsDefault)).reverse.head? := by
    intro registry
    rw [← List.filter_reverse, List.head?_filter]
    unfold Registry.current
    congr 1
    funext session
    rw [Bool.and_comm]
  rw [hform, hform, h.filter_eq]
  intro session hmem howner
  rw [h.hidden session hmem howner]

theorem findVisible_of_own (hdistinct : registry.Distinct) {session : Session}
    (hmem : session ∈ registry.all) : registry.findVisible session.id =
      if registry.hidden session.id then none else some session := by
  unfold Registry.findVisible
  rw [find_of_mem hdistinct hmem]

theorem resolveAdmitting_foreign {want : String} (admits : Session → Bool)
    (hforeign : ∀ session, registry.findVisible want = some session → session.owner ≠ client) :
    registry.resolveAdmitting client (some want) admits =
      .error (.stale (unknownHandle want)) := by
  unfold Registry.resolveAdmitting
  cases hfind : registry.findVisible want with
  | none => simp [hfind]
  | some session => simp [hfind, hforeign session hfind]

theorem findVisible_mem {want : String} {session : Session}
    (h : registry.findVisible want = some session) :
    session ∈ registry.all ∧ session.id = want := by
  unfold Registry.findVisible at h
  split at h
  · cases h
  · exact find_some h

theorem Agrees.findVisible (h : registry.Agrees client other) (hdistinct : other.Distinct)
    {want : String} {session : Session} (hfind : registry.findVisible want = some session)
    (howner : session.owner = client) : other.findVisible want = some session := by
  obtain ⟨hmem, rfl⟩ := findVisible_mem hfind
  have hvisible : registry.hidden session.id = false := by
    unfold Registry.findVisible at hfind
    split at hfind
    · cases hfind
    · simpa using ‹¬registry.hidden session.id = true›
  rw [findVisible_of_own hdistinct ((h.mem_iff howner).mp hmem),
    ← h.hidden session hmem howner, hvisible]
  rfl

theorem Agrees.resolveAdmitting (h : registry.Agrees client other)
    (hdistinct : registry.Distinct) (hdistinct' : other.Distinct) (supplied : Option String)
    (admits : Session → Bool) :
    registry.resolveAdmitting client supplied admits =
      other.resolveAdmitting client supplied admits := by
  cases supplied with
  | none =>
    unfold Registry.resolveAdmitting
    rw [h.current]
  | some want =>
    by_cases hown : ∃ session, registry.findVisible want = some session ∧ session.owner = client
    · obtain ⟨session, hfind, howner⟩ := hown
      unfold Registry.resolveAdmitting
      simp only [hfind, h.findVisible hdistinct' hfind howner]
    · have hforeign : ∀ session, registry.findVisible want = some session →
          session.owner ≠ client := fun session hfind howner => hown ⟨session, hfind, howner⟩
      have hforeign' : ∀ session, other.findVisible want = some session →
          session.owner ≠ client := fun session hfind howner =>
        hown ⟨session, h.symm.findVisible hdistinct hfind howner, howner⟩
      rw [resolveAdmitting_foreign admits hforeign, resolveAdmitting_foreign admits hforeign']

theorem Agrees.snapshot (h : registry.Agrees client other) (now : Nat) :
    registry.snapshot client now = other.snapshot client now := by
  unfold Registry.snapshot
  rw [h.current, h.publicOf]

theorem mem_publicOf {session : Session} (h : session ∈ registry.publicOf client) :
    session ∈ registry.all ∧ session.owner = client := by
  obtain ⟨hmem, htest⟩ := List.mem_filter.mp h
  rw [Bool.and_eq_true, beq_iff_eq] at htest
  exact ⟨hmem, htest.1⟩

theorem Agrees.visibleSessionIds (h : registry.Agrees client other) :
    registry.visibleSessionIds client = other.visibleSessionIds client := by
  unfold Registry.visibleSessionIds
  rw [← h.publicOf]
  apply List.flatMap_congr
  intro session hmem
  obtain ⟨hin, howner⟩ := mem_publicOf hmem
  rw [h.companions session hin howner]

theorem Agrees.noRoom (h : registry.Agrees client other) (inFlight : Nat) :
    registry.noRoom (registry.liveFor client) inFlight =
      other.noRoom (registry.liveFor client) inFlight := by
  unfold Registry.noRoom
  have hlisted : ∀ session ∈ registry.liveFor client,
      registry.treeBusy session = other.treeBusy session := by
    intro session hmem
    obtain ⟨hin, howner⟩ := mem_liveFor hmem
    exact h.treeBusy hin howner
  simp only
  congr 3
  apply List.map_congr_left
  intro session hmem
  rw [hlisted session hmem]

theorem Agrees.takeSlot (h : registry.Agrees client other) :
    (registry.takeSlot client).1 = (other.takeSlot client).1 ∧
      (registry.takeSlot client).2.Agrees client (other.takeSlot client).2 := by
  have hreclaimable : (registry.liveFor client).countP (fun session => !registry.treeBusy session) =
      (registry.liveFor client).countP fun session => !other.treeBusy session := by
    apply List.countP_congr
    intro session hmem
    obtain ⟨hin, howner⟩ := mem_liveFor hmem
    rw [h.treeBusy hin howner]
  unfold Registry.takeSlot
  dsimp only
  rw [← h.closing, ← h.liveFor, ← h.opening, ← hreclaimable, h.noRoom]
  split
  · exact ⟨rfl, h⟩
  · split
    · exact ⟨rfl, h⟩
    · exact ⟨rfl, { h with opening := by simp, closing := rfl }⟩

theorem companionsOf_modify {id : String} {change : Session → Session}
    (hid : ∀ session, (change session).id = session.id) (parent : String) :
    (registry.modify id change).companionsOf parent = (registry.companionsOf parent).map
      fun session => if session.id == id then change session else session := by
  have hfind : ∀ want, (registry.modify id change).find want = (registry.find want).map
      fun session => if session.id == id then change session else session := by
    intro want
    unfold Registry.find Registry.modify
    rw [List.find?_map]
    congr 2
    funext session
    simp only [Function.comp_apply]
    split
    · rw [hid]
    · rfl
  unfold Registry.companionsOf
  rw [List.map_filterMap]
  congr 1
  funext want
  exact hfind want

theorem Agrees.modify {id : String} {change : Session → Session}
    (hid : ∀ session, (change session).id = session.id)
    (howner : ∀ session, (change session).owner = session.owner)
    (h : registry.Agrees client other) :
    (registry.modify id change).Agrees client (other.modify id change) := by
  have hsame : ∀ session : Session,
      (if session.id == id then change session else session).id = session.id ∧
        (if session.id == id then change session else session).owner = session.owner := by
    intro session
    split
    · exact ⟨hid session, howner session⟩
    · exact ⟨rfl, rfl⟩
  have hfilter : ∀ registry : Registry,
      (registry.modify id change).all.filter (fun session => session.owner == client) =
        (registry.all.filter fun session => session.owner == client).map
          fun session => if session.id == id then change session else session := by
    intro registry
    unfold Registry.modify
    rw [List.filter_map]
    congr 2
    funext session
    simp only [Function.comp_apply, (hsame session).2]
  refine { h with sessions := ?_, hidden := ?_, companions := ?_ }
  · rw [hfilter, hfilter, h.sessions]
  · intro session hmem hsession
    obtain ⟨before, hbefore, rfl⟩ := List.mem_map.mp hmem
    rw [(hsame before).2] at hsession
    rw [(hsame before).1]
    exact h.hidden before hbefore hsession
  · intro session hmem hsession
    obtain ⟨before, hbefore, rfl⟩ := List.mem_map.mp hmem
    rw [(hsame before).2] at hsession
    rw [(hsame before).1, companionsOf_modify hid, companionsOf_modify hid,
      h.companions before hbefore hsession]

theorem Agrees.idleVictim {keeping : Session} (h : registry.Agrees keeping.owner other) :
    registry.idleVictim keeping = other.idleVictim keeping := by
  unfold Registry.idleVictim
  rw [← h.liveFor, ← List.head?_filter, ← List.head?_filter]
  congr 1
  apply List.filter_congr
  intro session hmem
  obtain ⟨hin, howner⟩ := mem_liveFor hmem
  rw [h.treeBusy hin howner]

theorem Agrees.claimOverageVictim {keeping : Session} (h : registry.Agrees keeping.owner other)
    (now : Nat) :
    (registry.claimOverageVictim keeping now).1 = (other.claimOverageVictim keeping now).1 ∧
      (registry.claimOverageVictim keeping now).2.Agrees keeping.owner
        (other.claimOverageVictim keeping now).2 := by
  unfold Registry.claimOverageVictim
  rw [h.idleVictim, h.liveFor]
  split
  · exact ⟨rfl, h⟩
  · split
    · refine ⟨rfl, h.modify (fun session => ?_) (fun session => ?_)⟩
      · rfl
      · rfl
    · exact ⟨rfl, h⟩

theorem takeSlot_changesOnly : ChangesOnly client registry (registry.takeSlot client).2 := by
  have hsame : ChangesOnly client registry registry :=
    ⟨rfl, fun _ _ => rfl, rfl, rfl, rfl, rfl, rfl, rfl⟩
  unfold Registry.takeSlot
  dsimp only
  split
  · exact hsame
  · split
    · exact hsame
    · exact { hsame with opening := fun _ hother => Function.update_of_ne hother _ _ }

theorem claimOverageVictim_changesOnly (hdistinct : registry.Distinct) (keeping : Session)
    (now : Nat) :
    ChangesOnly keeping.owner registry (registry.claimOverageVictim keeping now).2 := by
  have hsame : ChangesOnly keeping.owner registry registry :=
    ⟨rfl, fun _ _ => rfl, rfl, rfl, rfl, rfl, rfl, rfl⟩
  unfold Registry.claimOverageVictim
  split
  · exact hsame
  · split
    · rename_i idle hidle
      obtain ⟨hin, howner⟩ := mem_liveFor (List.mem_of_find?_eq_some hidle)
      refine { hsame with sessions := ?_ }
      unfold Registry.modify
      rw [List.filter_map]
      have hfilter : registry.all.filter ((fun session => session.owner != keeping.owner) ∘
          fun session => if session.id == idle.id then
            session.setState now (.closed reclaimed) else session) =
          registry.all.filter fun session => session.owner != keeping.owner := by
        apply List.filter_congr
        intro session _
        simp only [Function.comp_apply]
        split <;> rfl
      dsimp only
      rw [hfilter]
      -- The victim is the only session of its handle, and it is the owner's.
      rw [← List.map_id (registry.all.filter fun session => session.owner != keeping.owner),
        List.map_map]
      apply List.map_congr_left
      intro session hsession
      obtain ⟨hmem, hforeign⟩ := List.mem_filter.mp hsession
      have hne : session.id ≠ idle.id := by
        intro heq
        have hsession := find_of_mem hdistinct hmem
        rw [heq, find_of_mem hdistinct hin] at hsession
        rw [← Option.some.inj hsession, howner] at hforeign
        exact absurd hforeign (by simp)
      simp [hne]
    · exact hsame

theorem Agrees.trim (h : registry.Agrees client other) :
    registry.trim.all.filter (fun session => session.owner == client) =
      other.trim.all.filter fun session => session.owner == client := by
  have hretained : registry.retained.filter (fun session => session.owner == client) =
      other.retained.filter fun session => session.owner == client := by
    unfold Registry.retained
    rw [List.filter_filter, List.filter_filter]
    apply h.filter_eq
    intro session hmem howner
    rw [h.hidden session hmem howner]
  rw [filter_owner_trim, filter_owner_trim, hretained]
  apply History.evict_congr
  intro session hmem
  obtain ⟨hin, howner⟩ := List.mem_filter.mp hmem
  simp only [h.symm.hidden session (mem_retained.mp hin).1 (beq_iff_eq.mp howner)]

/-- Two registries that agree on what is the client's are the same to it, and its
operations stay within what is its own, whatever the other clients hold. -/
theorem clients_isolated (hdistinct : registry.Distinct) (hdistinct' : other.Distinct)
    (h : registry.Agrees client other) :
    Indistinguishable client registry other ∧ Confined client registry := by
  constructor
  · exact {
      resolve := fun supplied => h.resolveAdmitting hdistinct hdistinct' supplied _
      resolveForLiveBreak := fun supplied => h.resolveAdmitting hdistinct hdistinct' supplied _
      resolveForTeardown := fun supplied => h.resolveAdmitting hdistinct hdistinct' supplied _
      resolveForExecutionRead := fun supplied =>
        h.resolveAdmitting hdistinct hdistinct' supplied _
      snapshot := h.snapshot
      visibleSessionIds := h.visibleSessionIds
      liveCountFor := congrArg List.length h.liveFor
      takeSlot := h.takeSlot
      claimOverageVictim := by
        rintro keeping now rfl
        exact h.claimOverageVictim now
      outgoing := by
        unfold Registry.outgoing Registry.settledOf
        rw [h.publicOf]
      trim := h.trim }
  · exact {
      takeSlot := takeSlot_changesOnly
      claimOverageVictim := by
        rintro keeping now rfl
        exact claimOverageVictim_changesOnly hdistinct keeping now
      foreign := by
        intro session hmem howner admits
        apply resolveAdmitting_foreign
        intro found hfound heq
        rw [findVisible_of_own hdistinct hmem] at hfound
        split at hfound
        · cases hfound
        · exact howner (Option.some.inj hfound ▸ heq) }

end Agreement

section Example

def sessionOf (n : Nat) (owner : Client) : Session where
  id := mintSessionId 0 n
  kind := .dump
  what := "memory.dmp"
  pid := n
  created := 0
  standing := ⟨.opened, 0, {}⟩
  delivered := true
  owner := owner

def shared : Registry where
  all := [sessionOf 1 ⟨"ci", 1⟩, sessionOf 2 ⟨"local", 0⟩, sessionOf 3 ⟨"ci", 1⟩]
  hidden := fun id => id == mintSessionId 0 3
  companions := fun id => if id == mintSessionId 0 1 then [mintSessionId 0 3] else []
  parents := fun id => if id == mintSessionId 0 3 then some (mintSessionId 0 1) else none

def alone : Registry where
  all := [sessionOf 2 ⟨"local", 0⟩]

/-- A client that shares the server sees what it would see alone. -/
theorem shared_like_alone :
    Indistinguishable ⟨"local", 0⟩ shared alone ∧ Confined ⟨"local", 0⟩ shared := by
  apply clients_isolated
  · unfold Distinct
    decide
  · unfold Distinct
    decide
  · exact {
      sessions := by decide
      hidden := by decide
      companions := by decide
      opening := rfl
      revoked := rfl
      symbolPaths := rfl
      closing := rfl }

end Example

end Registry

end WindbgMcp.Engine
