import WindbgMcp.KdConn.Profiles

/-! What a name resolves to does not depend on the order its spellings are read in.  The
name a profile keeps and the connection of a name with several targets do depend on it;
what is left when both are forgotten is folded by an operation that commutes. -/
namespace WindbgMcp.KdConn
open WindbgMcp.Library
open WindbgMcp.Structured (KernelTarget ProfileFacts)

namespace Claim
variable {α : Type} [DecidableEq α]

theorem absorb_comm (claim other : Claim α) :
    (claim.absorb other).1 = (other.absorb claim).1 := by
  cases claim <;> cases other <;> simp only [absorb]
  rename_i kept value
  by_cases h : kept = value
  · rw [if_pos h, if_pos h.symm, h]
  · rw [if_neg h, if_neg (Ne.symm h)]

theorem absorb_assoc (claim other third : Claim α) :
    ((claim.absorb other).1.absorb third).1 = (claim.absorb (other.absorb third).1).1 := by
  cases claim <;> cases other <;> cases third <;> simp only [absorb]
  case unset.agreed.agreed kept value => by_cases h : kept = value <;> simp [h]
  case agreed.agreed.agreed first kept value =>
    by_cases h : first = kept
    · subst h
      by_cases h' : first = value <;> simp [h']
    · by_cases h' : kept = value
      · subst h'
        simp [h]
      · simp [h, h']
  case conflicted.agreed.agreed kept value => by_cases h : kept = value <;> simp [h]

theorem absorb_conflicted (claim : Claim α) :
    (claim.absorb conflicted).1 = conflicted ∧
      ((conflicted : Claim α).absorb claim).1 = conflicted := by
  refine ⟨rfl, ?_⟩
  cases claim <;> rfl

theorem absorb_right_comm (claim other third : Claim α) :
    ((claim.absorb other).1.absorb third).1 = ((claim.absorb third).1.absorb other).1 := by
  rw [absorb_assoc, absorb_comm other third, ← absorb_assoc]

end Claim

theorem Details.reconcile_right_comm (details other third : Details) :
    ((details.reconcile other).1.reconcile third).1 =
      ((details.reconcile third).1.reconcile other).1 := by
  simp only [Details.reconcile, Claim.absorb_right_comm details.role other.role,
    Claim.absorb_right_comm details.guest other.guest,
    Claim.absorb_right_comm details.note other.note]

theorem Details.reconcile_comm (details other : Details) :
    (details.reconcile other).1 = (other.reconcile details).1 := by
  simp only [Details.reconcile, Claim.absorb_comm details.role,
    Claim.absorb_comm details.guest, Claim.absorb_comm details.note]

inductive Standing
  | absent
  | usable (connection : Connection) (details : Details)
  | conflicting

def Standing.admits (entry : Entry) : Standing → Standing
  | absent => usable ⟨entry.connection⟩ entry.details
  | usable connection details =>
    if connection.raw = entry.connection then
      usable connection (details.reconcile entry.details).1
    else conflicting
  | conflicting => conflicting

theorem Standing.admits_same {connection : Connection} {entry : Entry} (details : Details)
    (h : connection.raw = entry.connection) :
    (usable connection details).admits entry =
      usable connection (details.reconcile entry.details).1 := if_pos h

theorem Standing.admits_differing {connection : Connection} {entry : Entry} (details : Details)
    (h : connection.raw ≠ entry.connection) :
    (usable connection details).admits entry = conflicting := if_neg h

theorem Standing.admits_comm (standing : Standing) (entry other : Entry) :
    (standing.admits entry).admits other = (standing.admits other).admits entry := by
  cases standing with
  | absent =>
    simp only [admits]
    by_cases h : entry.connection = other.connection
    · rw [if_pos h, if_pos h.symm, Details.reconcile_comm, h]
    · rw [if_neg h, if_neg (Ne.symm h)]
  | usable connection details =>
    by_cases h : connection.raw = entry.connection <;>
      by_cases h' : connection.raw = other.connection
    · rw [admits_same _ h, admits_same _ h', admits_same _ h', admits_same _ h,
        Details.reconcile_right_comm]
    · rw [admits_same _ h, admits_differing _ h', admits_differing _ h']
      rfl
    · rw [admits_differing _ h, admits_same _ h', admits_differing _ h]
      rfl
    · rw [admits_differing _ h, admits_differing _ h']
      rfl
  | conflicting => rfl

def Profile.standing (profile : Profile) : Standing :=
  if profile.conflicts.isEmpty then .usable profile.connection profile.details
  else .conflicting

namespace Profiles

def standing (profiles : Profiles) (key : String) : Standing :=
  (profiles.entries[key]?).elim .absent Profile.standing

/-- The entries `admit` does not turn away. -/
def admissible (named : String × Entry) : Bool :=
  isProfileName named.1 && isDialable named.2.connection

/-- What one entry does to the standing of the name `key`. -/
def admitStanding (key : String) (standing : Standing) (named : String × Entry) : Standing :=
  if admissible named ∧ normalize named.1 = key then standing.admits named.2 else standing

theorem admitStanding_comm (key : String) (standing : Standing)
    (named other : String × Entry) :
    admitStanding key (admitStanding key standing named) other =
      admitStanding key (admitStanding key standing other) named := by
  unfold admitStanding
  split <;> split <;> simp only [Standing.admits_comm]

/-- The profile `admit` leaves where it read `kept`. -/
def settled (source : Source) (named : String × Entry) : Option Profile → Option Profile
  | none => some ⟨named.1, ⟨named.2.connection⟩, named.2.details, source, named.2.complaints, []⟩
  | some kept =>
    if kept.source ≠ source then some kept
    else if kept.connection.raw ≠ named.2.connection then
      some { kept with conflicts := kept.conflicts ++ [named.1] }
    else
      some { kept with
        details := (kept.details.reconcile named.2.details).1
        ignored := kept.ignored ++
          (kept.details.reconcile named.2.details).2.map
            (disagreement named.1 kept.name source) ++ named.2.complaints }

theorem admits_entries (source : Source) (profiles : Profiles) (named : String × Entry)
    (key : String) :
    (admits source profiles named).entries[key]? =
      if admissible named ∧ normalize named.1 = key then
        settled source named profiles.entries[key]?
      else profiles.entries[key]? := by
  obtain ⟨name, entry⟩ := named
  simp only [admits, admissible]
  by_cases hname : isProfileName name
  swap
  · simp [hname]
  by_cases hdial : isDialable entry.connection
  swap
  · simp [hname, hdial]
  simp only [hname, hdial, Bool.not_true, Bool.and_false, Bool.false_eq_true, if_false, Bool.and_self, true_and]
  by_cases hkey : normalize name = key
  · subst hkey
    rw [if_pos rfl]
    cases hkept : profiles.entries[normalize name]? with
    | none => simp [settled]
    | some kept =>
      simp only [settled]
      split
      · exact hkept
      split <;> simp
  · rw [if_neg hkey]
    have hother (profile : Profile) :
        (profiles.entries.insert (normalize name) profile)[key]? = profiles.entries[key]? := by
      rw [Std.TreeMap.getElem?_insert, if_neg (by simpa using hkey)]
    cases profiles.entries[normalize name]? with
    | none => exact hother _
    | some kept =>
      simp only
      split
      · rfl
      split
      · exact hother _
      · exact hother _

/-- The profile of `key`, if there is one, is of this source. -/
def Of (source : Source) (key : String) (profiles : Profiles) : Prop :=
  ∀ profile ∈ profiles.entries[key]?, profile.source = source

theorem settled_source {source : Source} {named : String × Entry} {kept : Option Profile}
    (h : ∀ profile ∈ kept, profile.source = source) :
    ∀ profile ∈ settled source named kept, profile.source = source := by
  intro profile hprofile
  cases kept with
  | none =>
    cases Option.mem_some_iff.mp hprofile
    rfl
  | some kept =>
    have hkept : kept.source = source := h kept rfl
    simp only [settled, hkept, ne_eq, not_true_eq_false, if_false] at hprofile
    split at hprofile <;> cases Option.mem_some_iff.mp hprofile <;> rfl

theorem settled_standing {source : Source} {named : String × Entry} {kept : Option Profile}
    (h : ∀ profile ∈ kept, profile.source = source) :
    (settled source named kept).elim .absent Profile.standing =
      (kept.elim .absent Profile.standing).admits named.2 := by
  cases kept with
  | none => rfl
  | some kept =>
    have hkept : kept.source = source := h kept rfl
    simp only [settled, hkept, ne_eq, not_true_eq_false, if_false]
    by_cases hraw : kept.connection.raw = named.2.connection <;>
      cases hconflicts : kept.conflicts <;>
      simp [hraw, hconflicts, Profile.standing, Standing.admits]

theorem Of.admits {source : Source} {key : String} {profiles : Profiles}
    (h : profiles.Of source key) (named : String × Entry) :
    (admits source profiles named).Of source key := by
  unfold Of
  rw [admits_entries]
  split
  · exact settled_source h
  · exact h

theorem Of.admitAll {source : Source} {key : String} (entries : List (String × Entry)) :
    ∀ {profiles : Profiles}, profiles.Of source key →
      (admitAll source entries profiles).Of source key := by
  induction entries with
  | nil => exact fun h => h
  | cons named entries ih => exact fun h => ih (h.admits named)

theorem standing_admits {source : Source} {key : String} {profiles : Profiles}
    (h : profiles.Of source key) (named : String × Entry) :
    (admits source profiles named).standing key =
      admitStanding key (profiles.standing key) named := by
  unfold standing admitStanding
  rw [admits_entries]
  split
  · exact settled_standing h
  · rfl

theorem standing_admitAll {source : Source} {key : String} (entries : List (String × Entry)) :
    ∀ {profiles : Profiles}, profiles.Of source key →
      (admitAll source entries profiles).standing key =
        entries.foldl (admitStanding key) (profiles.standing key) := by
  induction entries with
  | nil => exact fun _ => rfl
  | cons named entries ih =>
    intro profiles h
    have hrest := ih (h.admits named)
    rw [standing_admits h] at hrest
    exact hrest

theorem standing_perm {source : Source} {key : String} {profiles shuffled : Profiles}
    {entries others : List (String × Entry)} (hperm : entries.Perm others)
    (h : profiles.Of source key) (h' : shuffled.Of source key)
    (heq : profiles.standing key = shuffled.standing key) :
    (admitAll source entries profiles).standing key =
      (admitAll source others shuffled).standing key := by
  rw [standing_admitAll entries h, standing_admitAll others h', heq]
  exact hperm.foldl_eq' (fun named _ other _ standing =>
    admitStanding_comm key standing named other) _

theorem admitAll_other {source : Source} {key : String} {profile : Profile}
    (hsource : profile.source ≠ source) (entries : List (String × Entry)) :
    ∀ profiles : Profiles, profiles.entries[key]? = some profile →
      (admitAll source entries profiles).entries[key]? = some profile := by
  induction entries with
  | nil => exact fun _ h => h
  | cons named entries ih =>
    intro profiles h
    apply ih
    rw [admits_entries, h]
    simp only [settled, ne_eq, hsource, not_false_eq_true, if_true, ite_self]

theorem admitAll_isSome {source : Source} {key : String} (entries : List (String × Entry)) :
    ∀ profiles : Profiles,
      (profiles.entries[key]?.isSome ∨
        ∃ named ∈ entries, admissible named ∧ normalize named.1 = key) →
      (admitAll source entries profiles).entries[key]?.isSome := by
  induction entries with
  | nil =>
    intro profiles h
    exact h.resolve_right (by simp)
  | cons named entries ih =>
    intro profiles h
    apply ih
    rw [admits_entries]
    by_cases hnamed : admissible named ∧ normalize named.1 = key
    · left
      rw [if_pos hnamed]
      cases profiles.entries[key]? with
      | none => rfl
      | some kept =>
        simp only [settled]
        split
        · rfl
        split <;> rfl
    · rw [if_neg hnamed]
      apply h.imp_right
      intro hlater
      obtain ⟨other, hmem, hother⟩ := hlater
      apply (List.mem_cons.mp hmem).elim
      · intro heq
        exact absurd (heq ▸ hother) hnamed
      · intro hmem
        exact ⟨other, hmem, hother⟩

theorem of_empty (source : Source) (key : String) (file : Option String) (notes : List String) :
    Of source key { empty file with notes } := by
  intro profile hprofile
  simp [empty] at hprofile

theorem standing_eq_absent {profiles : Profiles} {key : String} :
    profiles.standing key = .absent ↔ profiles.entries[key]? = none := by
  unfold standing
  cases profiles.entries[key]? with
  | none => simp
  | some profile =>
    simp only [Option.elim_some, Profile.standing]
    split <;> simp

theorem fromHost_of_env {file : Option String} {env : List (String × Entry)}
    {refusedEnv : List String} {key : String} {profile : Profile}
    (fromFile : List (String × Entry)) (refusedFile : List String)
    (h : (admitAll .env env { empty file with notes := refusedEnv }).entries[key]? = some profile) :
    profile.source = .env ∧
      (fromHost file env fromFile refusedEnv refusedFile).entries[key]? = some profile := by
  have hsource : profile.source = .env :=
    Of.admitAll env (of_empty .env key file refusedEnv) profile h
  refine ⟨hsource, ?_⟩
  have hother : profile.source ≠ .file := by
    rw [hsource]
    decide
  exact admitAll_other hother fromFile
    { admitAll .env env { empty file with notes := refusedEnv } with notes := _ } h

theorem standing_fromHost_perm {env env' fromFile fromFile' : List (String × Entry)}
    (henv : env.Perm env') (hfile : fromFile.Perm fromFile') (file : Option String)
    (refusedEnv refusedFile refusedEnv' refusedFile' : List String) (key : String) :
    (fromHost file env fromFile refusedEnv refusedFile).standing key =
      (fromHost file env' fromFile' refusedEnv' refusedFile').standing key := by
  have hbase := standing_perm henv (of_empty .env key file refusedEnv)
    (of_empty .env key file refusedEnv') rfl
  cases hkept : (admitAll .env env { empty file with notes := refusedEnv }).entries[key]? with
  | none =>
    have habsent := standing_eq_absent.mpr hkept
    have hkept' := standing_eq_absent.mp (hbase ▸ habsent)
    apply standing_perm hfile
    · intro profile hprofile
      exact absurd (hprofile.symm.trans hkept) (by simp)
    · intro profile hprofile
      exact absurd (hprofile.symm.trans hkept') (by simp)
    · exact hbase
  | some profile =>
    have hne : (admitAll .env env' { empty file with notes := refusedEnv' }).entries[key]? ≠ none := by
      intro hnone
      have habsent := hbase.trans (standing_eq_absent.mpr hnone)
      exact absurd (hkept.symm.trans (standing_eq_absent.mp habsent)) (by simp)
    obtain ⟨profile', hkept'⟩ := Option.ne_none_iff_exists'.mp hne
    have heq : Profile.standing profile = Profile.standing profile' := by
      unfold standing at hbase
      rwa [hkept, hkept'] at hbase
    unfold standing
    rw [(fromHost_of_env _ _ hkept).2, (fromHost_of_env _ _ hkept').2]
    exact heq

end Profiles

inductive Verdict
  | usable
  | unusable
  | conflicting
  deriving DecidableEq, Repr

/-- What a caller learns: whether the name can be used, and what it then stands for. -/
structure Outcome where
  verdict : Verdict
  connection : Option Connection := none
  role : Option KernelTarget := none
  guest : Option String := none
  note : Option String := none
  deriving DecidableEq

def outcome : Except Refusal Selected → Outcome
  | .ok selected =>
    { verdict := .usable
      connection := some selected.connection
      role := selected.facts.bind ProfileFacts.role
      guest := selected.facts.bind ProfileFacts.guest
      note := selected.facts.bind ProfileFacts.note }
  | .error (.conflicting _) => { verdict := .conflicting }
  | .error (.notAName _) | .error (.missing _) => { verdict := .unusable }

def Standing.outcome (scrub : String → String) : Standing → Outcome
  | absent => { verdict := .unusable }
  | conflicting => { verdict := .conflicting }
  | usable connection details =>
    { verdict := .usable
      connection := some connection
      role := details.role.known
      guest := details.reportedGuest scrub
      note := details.reportedNote scrub }

theorem outcome_resolve (scrub : String → String) (name : String) (profiles : Profiles) :
    outcome (resolve scrub name profiles) =
      if isProfileName name then (profiles.standing (normalize name)).outcome scrub
      else { verdict := .unusable } := by
  unfold resolve Profiles.standing Profiles.get
  cases isProfileName name with
  | false => rfl
  | true =>
    cases profiles.entries[normalize name]? with
    | none => rfl
    | some profile =>
      simp only [Bool.not_true, Bool.false_eq_true, if_false, if_true, Option.elim_some,
        Profile.standing]
      cases profile.conflicts with
      | nil => rfl
      | cons => rfl

def Profiles.AgreeOn (scrub : String → String) (name : String) (profiles other : Profiles) :
    Prop :=
  profiles.standing (normalize name) = other.standing (normalize name) ∧
    outcome (resolve scrub name profiles) = outcome (resolve scrub name other)

theorem Profiles.agreeOn_of_standing (scrub : String → String) {name : String}
    {profiles other : Profiles}
    (h : profiles.standing (normalize name) = other.standing (normalize name)) :
    AgreeOn scrub name profiles other := by
  refine ⟨h, ?_⟩
  rw [outcome_resolve, outcome_resolve, h]

/-- Profile resolution is free of the order its entries come in: within one source, and
for both sources of a host.  Merging claims commutes, associates and never leaves a
conflict; and a name the environment defines is what the environment made of it,
whatever the file holds. -/
theorem resolution_order_free (scrub : String → String) :
    (∀ (source : Source) (file : Option String) (entries others : List (String × Entry)),
      entries.Perm others → ∀ name,
        Profiles.AgreeOn scrub name (Profiles.admitAll source entries (Profiles.empty file))
          (Profiles.admitAll source others (Profiles.empty file))) ∧
    (∀ (file : Option String) (env env' fromFile fromFile' : List (String × Entry))
        (refusedEnv refusedFile : List String),
      env.Perm env' → fromFile.Perm fromFile' → ∀ name,
        Profiles.AgreeOn scrub name
          (Profiles.fromHost file env fromFile refusedEnv refusedFile)
          (Profiles.fromHost file env' fromFile' refusedEnv refusedFile)) ∧
    (∀ (α : Type) [DecidableEq α] (claim other third : Claim α),
      (claim.absorb other).1 = (other.absorb claim).1 ∧
        ((claim.absorb other).1.absorb third).1 = (claim.absorb (other.absorb third).1).1 ∧
        (claim.absorb .conflicted).1 = .conflicted ∧
        (Claim.conflicted.absorb claim).1 = .conflicted) ∧
    (∀ (file : Option String) (env fromFile : List (String × Entry))
        (refusedEnv refusedFile : List String) (name : String),
      (∃ named ∈ env, isProfileName named.1 ∧ isDialable named.2.connection ∧
        normalize named.1 = normalize name) →
      ∃ profile, profile.source = .env ∧
        (Profiles.fromHost file env [] refusedEnv refusedFile).get name = some profile ∧
        (Profiles.fromHost file env fromFile refusedEnv refusedFile).get name = some profile) := by
  refine ⟨?_, ?_, ?_, ?_⟩
  · intro source file entries others hperm name
    apply Profiles.agreeOn_of_standing
    exact Profiles.standing_perm hperm (Profiles.of_empty source _ file [])
      (Profiles.of_empty source _ file []) rfl
  · intro file env env' fromFile fromFile' refusedEnv refusedFile henv hfile name
    apply Profiles.agreeOn_of_standing
    exact Profiles.standing_fromHost_perm henv hfile file _ _ _ _ _
  · intro α _ claim other third
    exact ⟨claim.absorb_comm other, claim.absorb_assoc other third, claim.absorb_conflicted⟩
  · intro file env fromFile refusedEnv refusedFile name hdefined
    obtain ⟨named, hmem, hname, hdial, hkey⟩ := hdefined
    have hsome : (Profiles.admitAll .env env
        { Profiles.empty file with notes := refusedEnv }).entries[normalize name]?.isSome := by
      apply Profiles.admitAll_isSome
      exact Or.inr ⟨named, hmem, by simp [Profiles.admissible, hname, hdial], hkey⟩
    obtain ⟨profile, hprofile⟩ := Option.isSome_iff_exists.mp hsome
    have halone := Profiles.fromHost_of_env [] refusedFile hprofile
    have hboth := Profiles.fromHost_of_env fromFile refusedFile hprofile
    exact ⟨profile, halone.1, halone.2, hboth.2⟩

section Example

def threeSpellings : List (String × Entry) :=
  let entry (guest : String) : Entry :=
    { connection := "net:port=50000,key=1.2.3.4"
      details := { role := .agreed .hypervisor, guest := .agreed guest } }
  [("lab-hv", entry "lab"), ("lab_hv", entry "other"), ("LAB.hv", entry "lab")]

def otherTarget : List (String × Entry) :=
  [("lab-hv", { connection := "net:port=50001,key=1.2.3.4" })]

theorem resolution_order_free_threeSpellings :
    (Profiles.AgreeOn (fun text => text) "Lab-HV"
        (Profiles.admitAll .file threeSpellings (Profiles.empty none))
        (Profiles.admitAll .file threeSpellings.reverse (Profiles.empty none)) ∧
      outcome (resolve (fun text => text) "Lab-HV"
          (Profiles.admitAll .file threeSpellings (Profiles.empty none))) =
        { verdict := .usable
          connection := some ⟨"net:port=50000,key=1.2.3.4"⟩
          role := some .hypervisor }) ∧
    Profiles.AgreeOn (fun text => text) "lab-hv"
      (Profiles.fromHost none threeSpellings otherTarget [] [])
      (Profiles.fromHost none threeSpellings.reverse otherTarget [] []) ∧
    ∃ profile, profile.source = .env ∧
      (Profiles.fromHost none threeSpellings [] [] []).get "lab-hv" = some profile ∧
      (Profiles.fromHost none threeSpellings otherTarget [] []).get "lab-hv" = some profile := by
  have h := resolution_order_free (fun text => text)
  have hperm : threeSpellings.Perm threeSpellings.reverse := (List.reverse_perm _).symm
  refine ⟨⟨h.1 .file none _ _ hperm "Lab-HV", by decide +kernel⟩,
    h.2.1 none _ _ _ _ [] [] hperm (List.Perm.refl _) "lab-hv", ?_⟩
  apply h.2.2.2 none threeSpellings otherTarget [] [] "lab-hv"
  exact ⟨_, List.mem_cons_self, by decide +kernel, by decide +kernel, by decide +kernel⟩

end Example

end WindbgMcp.KdConn
