import Mathlib.Data.List.Nodup
import WindbgMcp.Engine.Registry
import WindbgMcp.Library.Run

/-! The server's run: handles are minted, workers are registered under them, and
the registry's operations come in any order. -/
namespace WindbgMcp.Engine
open Library

/-- The registry with the counter that mints handles, and the handles of workers
that are being started and are not registered yet. -/
structure Server where
  registry : Registry := {}
  sequence : Nat := 1
  spawned : List String := []

inductive Act
  | mint (nanos : Nat)
  | admits (session : Session) (hidden : Bool) (companion : Option String)
  | link (parent companion : String)
  | reveal (id : String)
  | transition (id : String) (now : Nat) (next : Proposal)
  | confirmRelease (id : String)
  | completeHandoff (id : String)
  | take (id : String)
  | trim

namespace Server

def onRegistry (server : Server) (registry : Registry) : Server := { server with registry }

def step (server : Server) : Act → Server
  | .mint nanos =>
    { server with
      sequence := server.sequence + 1
      spawned := mintSessionId nanos server.sequence :: server.spawned }
  | .admits session hidden companion =>
    if session.id ∈ server.spawned then
      { server with
        registry := (server.registry.admitWithCompanion session hidden companion).2
        spawned := server.spawned.erase session.id }
    else server
  | .link parent companion =>
    match server.registry.linkCompanion parent companion with
    | .ok linked => server.onRegistry linked
    | .error _ => server
  | .reveal id => server.onRegistry (server.registry.reveal id)
  | .transition id now next =>
    server.onRegistry (server.registry.modify id fun session => (session.transition now next).1)
  | .confirmRelease id =>
    server.onRegistry (server.registry.modify id fun session => { session with released := true })
  | .completeHandoff id =>
    server.onRegistry
      (server.registry.modify id fun session => { session with kernelHandoffComplete := true })
  | .take id =>
    server.onRegistry (server.registry.modify id fun session => { session with child := false })
  | .trim => server.onRegistry server.registry.trim

end Server

namespace Registry

def Distinct (registry : Registry) : Prop := (registry.all.map Session.id).Nodup

def Mentions (registry : Registry) (id : String) : Prop :=
  holds registry.all id = true ∨ (registry.parents id).isSome = true

section Lookup
variable {registry : Registry} {session : Session} {id : String}

theorem find_some (h : registry.find id = some session) : session ∈ registry.all ∧ session.id = id :=
  ⟨List.mem_of_find?_eq_some h, beq_iff_eq.mp (List.find?_some h :)⟩

theorem holds_of_find (h : (registry.find id).isSome = true) : holds registry.all id = true := by
  obtain ⟨session, hsession⟩ := Option.isSome_iff_exists.mp h
  exact holds_iff.mpr ⟨session, find_some hsession⟩

theorem find_of_mem (hdistinct : registry.Distinct) (hmem : session ∈ registry.all) :
    registry.find session.id = some session := by
  unfold find
  unfold Distinct at hdistinct
  generalize registry.all = sessions at hdistinct hmem
  induction sessions with
  | nil => exact absurd hmem List.not_mem_nil
  | cons first rest ih =>
    rw [List.map_cons, List.nodup_cons] at hdistinct
    cases hmem with
    | head => simp
    | tail _ hrest =>
      have hne : first.id ≠ session.id := fun heq =>
        hdistinct.1 (heq ▸ List.mem_map.mpr ⟨session, hrest, rfl⟩)
      rw [List.find?_cons_of_neg (by simpa using hne)]
      exact ih hdistinct.2 hrest

end Lookup

theorem linkCompanion_ok {registry linked : Registry} {parent companion : String}
    (h : registry.linkCompanion parent companion = .ok linked) :
    registry.hidden parent = false ∧ registry.hidden companion = true ∧
      holds registry.all parent = true ∧ holds registry.all companion = true ∧
      registry.parents companion = none ∧
      linked = { registry with
        parents := Function.update registry.parents companion (some parent)
        companions := Function.update registry.companions parent
          (registry.companions parent ++ [companion]) } := by
  unfold linkCompanion at h
  split at h
  · cases h
  · rename_i hhidden
    split at h
    · cases h
    · rename_i hfind
      split at h
      · cases h
      · rename_i hparents
        simp only [Bool.or_eq_true, Bool.not_eq_true', not_or, Bool.not_eq_true,
          Bool.not_eq_false, Option.isSome_eq_false_iff, Option.isNone_iff_eq_none] at hhidden hfind hparents
        exact ⟨hhidden.1, hhidden.2, holds_of_find (Option.isSome_iff_ne_none.mpr hfind.1),
          holds_of_find (Option.isSome_iff_ne_none.mpr hfind.2), hparents,
          (Except.ok.inj h).symm⟩

section Handles
variable {registry : Registry}

theorem holds_modify {id : String} {change : Session → Session}
    (hid : ∀ session, (change session).id = session.id) :
    holds (registry.modify id change).all = holds registry.all := by
  funext other
  unfold holds modify
  rw [List.any_map]
  apply congrArg (fun test => registry.all.any test)
  funext session
  simp only [Function.comp_apply]
  split
  · rw [hid]
  · rfl

theorem distinct_modify {id : String} {change : Session → Session}
    (hid : ∀ session, (change session).id = session.id) (hdistinct : registry.Distinct) :
    (registry.modify id change).Distinct := by
  unfold Distinct modify
  rw [List.map_map]
  have hsame : Session.id ∘ (fun session => if session.id == id then change session else session) =
      Session.id := by
    funext session
    simp only [Function.comp_apply]
    split
    · exact hid session
    · rfl
  rw [hsame]
  exact hdistinct

theorem distinct_trim (hdistinct : registry.Distinct) : registry.trim.Distinct := by
  apply List.Sublist.nodup _ hdistinct
  exact trim_all_sublist.map Session.id

theorem distinct_push {session : Session} (hidden : Bool) (hdistinct : registry.Distinct)
    (hfresh : ¬registry.Mentions session.id) : (registry.push session hidden).Distinct := by
  unfold Distinct push
  rw [List.map_append]
  apply List.Nodup.append hdistinct (List.nodup_singleton _)
  intro id hmem hnew
  rw [List.mem_singleton] at hnew
  obtain ⟨other, hother, rfl⟩ := List.mem_map.mp hmem
  exact hfresh (Or.inl (hnew ▸ holds_iff.mpr ⟨other, hother, rfl⟩))

theorem withdraw_push {session : Session} {hidden : Bool}
    (hfresh : ¬registry.Mentions session.id) :
    (registry.push session hidden).withdraw session.id = registry.reveal session.id := by
  have hall : (registry.all ++ [session]).filter (fun other => other.id != session.id) =
      registry.all := by
    have hnew : [session].filter (fun other => other.id != session.id) = [] := by simp
    rw [List.filter_append, hnew, List.append_nil]
    apply List.filter_eq_self.mpr
    intro other hother
    rw [bne_iff_ne]
    intro heq
    exact hfresh (Or.inl (holds_iff.mpr ⟨other, hother, heq⟩))
  unfold push withdraw reveal
  rw [hall]
  cases hidden <;> simp

theorem mentions_link {linked : Registry} {parent companion id : String}
    (hok : registry.linkCompanion parent companion = .ok linked) (h : linked.Mentions id) :
    registry.Mentions id := by
  obtain ⟨_, _, _, hholds, _, rfl⟩ := linkCompanion_ok hok
  cases h with
  | inl hin => exact Or.inl hin
  | inr hkey =>
    by_cases hid : id = companion
    · subst hid
      exact Or.inl hholds
    · apply Or.inr
      simpa [Function.update_of_ne hid] using hkey

theorem mentions_push {session : Session} {hidden : Bool} {id : String}
    (h : (registry.push session hidden).Mentions id) :
    registry.Mentions id ∨ id = session.id := by
  cases h with
  | inl hin =>
    obtain ⟨other, hmem, rfl⟩ := holds_iff.mp hin
    rcases List.mem_append.mp hmem with hold | hnew
    · exact Or.inl (Or.inl (holds_iff.mpr ⟨other, hold, rfl⟩))
    · exact Or.inr (by rw [List.mem_singleton.mp hnew])
  | inr hkey => exact Or.inl (Or.inr hkey)

theorem mentions_modify {id other : String} {change : Session → Session}
    (hid : ∀ session, (change session).id = session.id)
    (h : (registry.modify id change).Mentions other) : registry.Mentions other := by
  unfold Mentions at h
  rw [holds_modify hid] at h
  exact h

theorem mentions_trim {id : String} (h : registry.trim.Mentions id) : registry.Mentions id := by
  cases h with
  | inl hin =>
    obtain ⟨session, hmem, rfl⟩ := holds_iff.mp hin
    exact Or.inl (holds_iff.mpr ⟨session, (mem_retained.mp (trim_all_subset hmem)).1, rfl⟩)
  | inr hkey =>
    obtain ⟨parent, hparent⟩ := Option.isSome_iff_exists.mp hkey
    exact Or.inr (Option.isSome_iff_exists.mpr ⟨parent, (Option.filter_eq_some_iff.mp hparent).1⟩)

theorem enroll_all {enrolled : Registry} {session : Session} {hidden : Bool}
    {companion : Option String}
    (hok : registry.enroll session hidden companion = .ok enrolled) :
    enrolled.all = (registry.push session hidden).all := by
  cases companion with
  | none =>
    cases hok
    rfl
  | some companion =>
    obtain ⟨_, _, _, _, _, rfl⟩ := linkCompanion_ok hok
    rfl

theorem distinct_enroll {enrolled : Registry} {session : Session} {hidden : Bool}
    {companion : Option String} (hfresh : ¬registry.Mentions session.id)
    (hdistinct : registry.Distinct)
    (hok : registry.enroll session hidden companion = .ok enrolled) : enrolled.Distinct := by
  unfold Distinct
  rw [enroll_all hok]
  exact distinct_push hidden hdistinct hfresh

theorem mentions_enroll {enrolled : Registry} {session : Session} {hidden : Bool}
    {companion : Option String} {id : String}
    (hok : registry.enroll session hidden companion = .ok enrolled) (h : enrolled.Mentions id) :
    registry.Mentions id ∨ id = session.id := by
  cases companion with
  | none =>
    cases hok
    exact mentions_push h
  | some companion => exact mentions_push (mentions_link hok h)

/-- What an admission can leave: the registry as it was, that registry with one
hidden mark gone, or the trimmed registry with the session enrolled. -/
theorem admitWithCompanion_cases {session : Session} (hidden : Bool) (companion : Option String)
    (hfresh : ¬registry.Mentions session.id) :
    (registry.admitWithCompanion session hidden companion).2 = registry ∨
    (registry.admitWithCompanion session hidden companion).2 = registry.reveal session.id ∨
    ∃ enrolled, registry.refusal session = none ∧
      registry.enroll session hidden companion = .ok enrolled ∧
      (registry.admitWithCompanion session hidden companion).2 = enrolled.trim := by
  unfold admitWithCompanion
  cases hrefused : registry.refusal session with
  | some why => exact Or.inl rfl
  | none =>
    cases henroll : registry.enroll session hidden companion with
    | error why => exact Or.inr (Or.inl (withdraw_push hfresh))
    | ok enrolled => exact Or.inr (Or.inr ⟨enrolled, rfl, rfl, rfl⟩)

end Handles

end Registry

theorem mintSessionId_injective {nanos nanos' n n' : Nat}
    (h : mintSessionId nanos n = mintSessionId nanos' n') : n = n' := by
  have hdigit : ∀ m : Nat, ∀ c ∈ Nat.toDigits 10 m, (c != '-') = true := by
    intro m c hc
    have hdigit := Nat.isDigit_of_mem_toDigits (by decide) (by decide) hc
    rw [bne_iff_ne]
    rintro rfl
    exact absurd hdigit (by decide)
  -- The number is what stands behind the last dash.
  have hlast : ∀ nanos m : Nat, (mintSessionId nanos m).toList.reverse.takeWhile (· != '-') =
      (Nat.toDigits 10 m).reverse := by
    intro nanos m
    have hchars : (mintSessionId nanos m).toList =
        ("sess-" ++ Text.hexDigits nanos).toList ++ '-' :: Nat.toDigits 10 m := by
      simp [mintSessionId, Nat.repr, String.toList_append]
    rw [hchars, List.reverse_append, List.reverse_cons, List.append_assoc,
      List.takeWhile_append_of_pos]
    · simp
    · intro c hc
      exact hdigit m c (List.mem_reverse.mp hc)
  have heq := hlast nanos n
  rw [h, hlast] at heq
  have hdigits : Nat.toDigits 10 n' = Nat.toDigits 10 n := List.reverse_injective heq
  rw [← Nat.ofDigitChars_toDigits (n := n) (b := 10) (by decide) (by decide), ← hdigits,
    Nat.ofDigitChars_toDigits (by decide) (by decide)]

def Minted (sequence : Nat) (id : String) : Prop :=
  ∃ nanos n, n < sequence ∧ id = mintSessionId nanos n

theorem not_minted (nanos sequence : Nat) : ¬Minted sequence (mintSessionId nanos sequence) := by
  rintro ⟨nanos', n, hn, heq⟩
  have := mintSessionId_injective heq
  omega

namespace Server

/-- What every run keeps: the handles of this server are minted and distinct, and
one that is not registered yet is not known to the registry. -/
structure Identified (server : Server) : Prop where
  distinct : server.registry.Distinct
  spawnedMinted : ∀ id ∈ server.spawned, Minted server.sequence id
  spawnedDistinct : server.spawned.Nodup
  mentionedMinted : ∀ id, server.registry.Mentions id → Minted server.sequence id
  fresh : ∀ id ∈ server.spawned, ¬server.registry.Mentions id

namespace Identified
variable {server : Server}

theorem onRegistry {registry : Registry} (hids : server.Identified)
    (hdistinct : registry.Distinct)
    (hmentions : ∀ id, registry.Mentions id → server.registry.Mentions id) :
    (server.onRegistry registry).Identified where
  distinct := hdistinct
  spawnedMinted := hids.spawnedMinted
  spawnedDistinct := hids.spawnedDistinct
  mentionedMinted := fun id hid => hids.mentionedMinted id (hmentions id hid)
  fresh := fun id hid hmention => hids.fresh id hid (hmentions id hmention)

theorem mint (nanos : Nat) (hids : server.Identified) :
    (server.step (.mint nanos)).Identified where
  distinct := hids.distinct
  spawnedMinted := by
    intro id hid
    rcases List.mem_cons.mp hid with rfl | hold
    · exact ⟨nanos, server.sequence, Nat.lt_succ_self _, rfl⟩
    · obtain ⟨nanos', n, hn, heq⟩ := hids.spawnedMinted id hold
      exact ⟨nanos', n, Nat.lt_succ_of_lt hn, heq⟩
  spawnedDistinct := by
    apply List.nodup_cons.mpr
    exact ⟨fun hmem => not_minted _ _ (hids.spawnedMinted _ hmem), hids.spawnedDistinct⟩
  mentionedMinted := by
    intro id hid
    obtain ⟨nanos', n, hn, heq⟩ := hids.mentionedMinted id hid
    exact ⟨nanos', n, Nat.lt_succ_of_lt hn, heq⟩
  fresh := by
    intro id hid hmention
    rcases List.mem_cons.mp hid with rfl | hold
    · exact not_minted _ _ (hids.mentionedMinted _ hmention)
    · exact hids.fresh id hold hmention

theorem admitted {registry : Registry} {id : String} (hids : server.Identified)
    (hspawned : id ∈ server.spawned) (hdistinct : registry.Distinct)
    (hmentions : ∀ other, registry.Mentions other →
      server.registry.Mentions other ∨ other = id) :
    Identified { server with registry := registry, spawned := server.spawned.erase id } where
  distinct := hdistinct
  spawnedMinted := fun other hother => hids.spawnedMinted other (List.mem_of_mem_erase hother)
  spawnedDistinct := hids.spawnedDistinct.erase id
  mentionedMinted := by
    intro other hother
    cases hmentions other hother with
    | inl hbefore => exact hids.mentionedMinted other hbefore
    | inr heq => exact heq ▸ hids.spawnedMinted id hspawned
  fresh := by
    intro other hother hmention
    obtain ⟨hne, hmem⟩ := hids.spawnedDistinct.mem_erase_iff.mp hother
    cases hmentions other hmention with
    | inl hbefore => exact hids.fresh other hmem hbefore
    | inr heq => exact hne heq

theorem admits (session : Session) (hidden : Bool) (companion : Option String)
    (hids : server.Identified) : (server.step (.admits session hidden companion)).Identified := by
  simp only [step]
  split
  · rename_i hspawned
    have hfresh := hids.fresh session.id hspawned
    rcases server.registry.admitWithCompanion_cases hidden companion hfresh with
      heq | heq | ⟨enrolled, _, hok, heq⟩
    · rw [heq]
      exact hids.admitted hspawned hids.distinct fun _ => Or.inl
    · rw [heq]
      exact hids.admitted hspawned hids.distinct fun _ => Or.inl
    · rw [heq]
      apply hids.admitted hspawned
      · exact Registry.distinct_trim (Registry.distinct_enroll hfresh hids.distinct hok)
      · exact fun other hother => Registry.mentions_enroll hok (Registry.mentions_trim hother)
  · exact hids

theorem modify {id : String} {change : Session → Session}
    (hid : ∀ session, (change session).id = session.id) (hids : server.Identified) :
    (server.onRegistry (server.registry.modify id change)).Identified :=
  hids.onRegistry (Registry.distinct_modify hid hids.distinct)
    (fun _ => Registry.mentions_modify hid)

theorem step (act : Act) (hids : server.Identified) : (server.step act).Identified := by
  cases act with
  | mint nanos => exact hids.mint nanos
  | admits session hidden companion => exact hids.admits session hidden companion
  | link parent companion =>
    simp only [Server.step]
    cases hok : server.registry.linkCompanion parent companion with
    | error why => exact hids
    | ok linked =>
      have hdistinct : linked.Distinct := by
        obtain ⟨_, _, _, _, _, rfl⟩ := Registry.linkCompanion_ok hok
        exact hids.distinct
      exact hids.onRegistry hdistinct fun _ => Registry.mentions_link hok
  | reveal id => exact hids.onRegistry hids.distinct fun _ hmention => hmention
  | transition id now next => exact hids.modify fun _ => rfl
  | confirmRelease id =>
    apply hids.modify
    intro session
    rfl
  | completeHandoff id =>
    apply hids.modify
    intro session
    rfl
  | take id =>
    apply hids.modify
    intro session
    rfl
  | trim =>
    exact hids.onRegistry (Registry.distinct_trim hids.distinct) fun _ => Registry.mentions_trim

end Identified

theorem identified_start : Identified {} where
  distinct := List.nodup_nil
  spawnedMinted := fun _ hid => absurd hid List.not_mem_nil
  spawnedDistinct := List.nodup_nil
  mentionedMinted := by
    intro id hid
    simp [Registry.Mentions, Registry.holds] at hid
  fresh := fun _ hid => absurd hid List.not_mem_nil

end Server

end WindbgMcp.Engine
