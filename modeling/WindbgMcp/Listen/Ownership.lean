import WindbgMcp.Listen.Front

/-! Whose MCP sessions a request can reach.  The table loses an id before the service
does, so ownership holds in the runs in which nobody presents another client's id in
between. -/
namespace WindbgMcp.Listen
open Engine (Client)
open Library

namespace Front

def Unsettled (front : Front) (client : Client) (id : String) : Prop :=
  ∃ n session ok delete, front.calls n = .answered client session (some id) ok delete

/-- No request presents another client's id between its mint and its settlement, or
between its expiry and its close; and a revoked entry is forgotten only when it records
nothing. -/
def Allowed (front : Front) : Act → Prop
  | .arrive _ client (some id) _ => ∀ owner, owner ≠ client →
    ¬ front.sweep.takes owner id ∧ ¬ front.Unsettled owner id
  | .finish => ∀ client, front.sweep = .closing client [] true →
    (front.lease.presence client).mcp = []
  | _ => True

def Separate (front : Front) : Prop :=
  ∀ id client other, front.lease.Records client id → front.lease.Records other id →
    client = other

/-- A request that carries an id the service holds is served only to the client the id
was minted for. -/
def ServesOwn (front : Front) : Act → Prop
  | .admits n => match front.calls n with
    | .checked client (some id) _ => (front.lease.admitOwn front.now client).2 = .serve →
      ∀ entry ∈ front.held, entry.1 = id → entry.2 = client
    | _ => True
  | _ => True

def Presents (front : Front) (client : Client) (id : String) : Prop :=
  id ∈ front.presented ∧ ∀ owner, (id, owner) ∈ front.held → owner = client

def Closed (front : Front) (id : String) : Prop :=
  id ∈ front.presented ∧ ∀ owner, (id, owner) ∉ front.held

def CallOwned (front : Front) : Call → Prop
  | .idle => True
  | .checked client session _ => ∀ id, session = some id → front.Presents client id
  | .admitted client session _ => ∀ id, session = some id → front.Presents client id
  | .answered client session minted ok delete =>
    (∀ id, Lease.settledSession session minted ok = some id → (id, client) ∈ front.minted) ∧
      ∀ id, session = some id → ok = true → delete = true → front.Closed id
  | .leaving _ id => front.Closed id

structure Owned (front : Front) : Prop where
  unique : ∀ id client other, (id, client) ∈ front.minted → (id, other) ∈ front.minted →
    client = other
  held : ∀ entry ∈ front.held, entry ∈ front.minted
  recorded : ∀ client id, front.lease.Records client id → (id, client) ∈ front.minted
  backed : ∀ id client, (id, client) ∈ front.held →
    front.lease.Records client id ∨ front.sweep.takes client id ∨ front.Unsettled client id
  calls : ∀ n, front.CallOwned (front.calls n)

theorem owned_new (grace : Nat) : (Front.new grace).Owned where
  unique := by simp [Front.new]
  held := by simp [Front.new]
  recorded := by simp [Front.new, Lease.new, Lease.Records]
  backed := by simp [Front.new]
  calls := by simp [Front.new, CallOwned]

theorem Owned.separate {front : Front} (h : front.Owned) : front.Separate := by
  intro id client other hclient hother
  exact h.unique id client other (h.recorded client id hclient) (h.recorded other id hother)

theorem Owned.servesOwn {front : Front} (h : front.Owned) (act : Act) : front.ServesOwn act := by
  unfold ServesOwn
  split
  · next n =>
    split
    · next client id delete hcall =>
      intro _ entry hentry hid
      have hpresents := h.calls n
      rw [hcall] at hpresents
      exact (hpresents id rfl).2 entry.2 (hid ▸ hentry)
    · trivial
  · trivial

/-- What a step may do to the ids known so far: mint new ones, which no request has
carried, and close held ones. -/
structure Follows (before after : Front) : Prop where
  minted : ∀ entry ∈ before.minted, entry ∈ after.minted
  presented : ∀ id ∈ before.presented, id ∈ after.presented
  held : ∀ entry ∈ after.held, entry.1 ∈ before.presented → entry ∈ before.held

section
variable {front after : Front}

theorem Follows.callOwned (hfollows : Follows front after) {call : Call}
    (h : front.CallOwned call) : after.CallOwned call := by
  have hpresents : ∀ client id, front.Presents client id → after.Presents client id := by
    intro client id h
    refine ⟨hfollows.presented id h.1, ?_⟩
    intro owner howner
    exact h.2 owner (hfollows.held _ howner h.1)
  have hclosed : ∀ id, front.Closed id → after.Closed id := by
    intro id h
    refine ⟨hfollows.presented id h.1, ?_⟩
    intro owner howner
    exact h.2 owner (hfollows.held _ howner h.1)
  cases call with
  | idle => trivial
  | checked client session delete => exact fun id hid => hpresents client id (h id hid)
  | admitted client session delete => exact fun id hid => hpresents client id (h id hid)
  | answered client session minted ok delete =>
    constructor
    · exact fun id hid => hfollows.minted _ (h.1 id hid)
    · exact fun id hid hok hdelete => hclosed id (h.2 id hid hok hdelete)
  | leaving client id => exact hclosed id h

theorem follows_of_eq (hminted : after.minted = front.minted)
    (hpresented : after.presented = front.presented) (hheld : after.held = front.held) :
    Follows front after where
  minted := by simp [hminted]
  presented := by simp [hpresented]
  held := fun entry hentry _ => hheld ▸ hentry

theorem calls_update (h : front.Owned) (hfollows : Follows front after) {n : Nat} {call : Call}
    (hcalls : after.calls = Function.update front.calls n call) (hcall : after.CallOwned call)
    (m : Nat) : after.CallOwned (after.calls m) := by
  rw [hcalls]
  by_cases hm : m = n
  · rw [hm, Function.update_self]
    exact hcall
  · rw [Function.update_of_ne hm]
    exact hfollows.callOwned (h.calls m)

theorem calls_kept (h : front.Owned) (hfollows : Follows front after)
    (hcalls : after.calls = front.calls) (m : Nat) : after.CallOwned (after.calls m) := by
  rw [hcalls]
  exact hfollows.callOwned (h.calls m)

theorem unsettled_update {n : Nat} {call : Call}
    (hcalls : after.calls = Function.update front.calls n call)
    {client : Client} {id : String}
    (hother : ∀ session ok delete, front.calls n ≠ .answered client session (some id) ok delete)
    (h : front.Unsettled client id) : after.Unsettled client id := by
  obtain ⟨m, session, ok, delete, hm⟩ := h
  refine ⟨m, session, ok, delete, ?_⟩
  have hne : m ≠ n := by
    intro heq
    exact hother session ok delete (heq ▸ hm)
  rw [hcalls, Function.update_of_ne hne]
  exact hm

theorem unsettled_kept (hcalls : after.calls = front.calls) {client : Client} {id : String}
    (h : front.Unsettled client id) : after.Unsettled client id := by
  unfold Unsettled at *
  rwa [hcalls]

theorem Owned.kept (h : front.Owned) (hheld : after.held = front.held)
    (hminted : after.minted = front.minted) (hpresented : after.presented = front.presented)
    (hsweep : after.sweep = front.sweep) (hcalls : after.calls = front.calls)
    (hrecords : ∀ client id, after.lease.Records client id ↔ front.lease.Records client id) :
    after.Owned where
  unique := hminted ▸ h.unique
  held := by rw [hheld, hminted]; exact h.held
  recorded := by
    intro client id hrecorded
    rw [hminted]
    exact h.recorded client id ((hrecords client id).mp hrecorded)
  backed := by
    intro id client hid
    rw [hheld] at hid
    rw [hrecords, hsweep]
    rcases h.backed id client hid with hrecorded | htaken | hunsettled
    · exact Or.inl hrecorded
    · exact Or.inr (Or.inl htaken)
    · exact Or.inr (Or.inr (unsettled_kept hcalls hunsettled))
  calls := calls_kept h (follows_of_eq hminted hpresented hheld) hcalls

theorem owned_admits (h : front.Owned) (n : Nat) : (front.step (.admits n)).Owned := by
  unfold step
  simp only
  split
  case h_2 => exact h
  case h_1 client session delete hcall =>
    have hpresents := h.calls n
    rw [hcall] at hpresents
    have hsame : ∀ c, Follows front (setCall
        { front with lease := (front.lease.admitOwn front.now client).1 } n c) :=
      fun c => follows_of_eq rfl rfl rfl
    refine ⟨h.unique, h.held, ?_, ?_, calls_update h (hsame _) rfl ?_⟩
    · intro owner id hrecorded
      exact h.recorded owner id ((Lease.records_admitOwn ..).mp hrecorded)
    · intro id owner hid
      rcases h.backed id owner hid with hrecorded | htaken | hunsettled
      · exact Or.inl ((Lease.records_admitOwn ..).mpr hrecorded)
      · exact Or.inr (Or.inl htaken)
      · refine Or.inr (Or.inr (unsettled_update rfl ?_ hunsettled))
        simp [hcall]
    · split
      · exact (hsame _).callOwned hpresents
      · trivial

theorem owned_arrive (h : front.Owned) {n : Nat} {client : Client} {session : Option String}
    {delete : Bool} (hallowed : front.Allowed (.arrive n client session delete)) :
    (front.step (.arrive n client session delete)).Owned := by
  unfold step
  simp only
  split
  case h_2 => exact h
  case h_1 hidle =>
    have hfollows : Follows front { front with presented := session.toList ++ front.presented } :=
      ⟨fun _ hentry => hentry, fun _ hid => List.mem_append_right _ hid,
        fun _ hentry _ => hentry⟩
    have hpresented : Owned { front with presented := session.toList ++ front.presented } :=
      ⟨h.unique, h.held, h.recorded, h.backed, calls_kept h hfollows rfl⟩
    split
    · exact hpresented
    · next hmine =>
      refine ⟨h.unique, h.held, h.recorded, ?_, calls_update hpresented
        (follows_of_eq rfl rfl rfl) rfl ?_⟩
      · intro id owner hid
        rcases h.backed id owner hid with hrecorded | htaken | hunsettled
        · exact Or.inl hrecorded
        · exact Or.inr (Or.inl htaken)
        · refine Or.inr (Or.inr (unsettled_update rfl ?_ hunsettled))
          simp [hidle]
      · intro id hid
        subst hid
        refine ⟨by simp [setCall], ?_⟩
        intro owner howner
        apply Decidable.byContradiction
        intro hne
        -- Held for somebody else: recorded, or in one of the two windows.
        have hwindow := hallowed owner hne
        rcases h.backed id owner howner with hrecorded | htaken | hunsettled
        · apply hmine
          exact (Lease.heldByAnother_iff ..).mpr ⟨owner, hne, hrecorded⟩
        · exact hwindow.1 htaken
        · exact hwindow.2 hunsettled

theorem answers_fresh {session minted : Option String} {ok : Bool}
    (h : front.answers session minted ok = true) {id : String} (hid : minted = some id) :
    id ∉ front.minted.map Prod.fst ∧ id ∉ front.presented := by
  unfold answers at h
  subst hid
  simp only [Option.all_some, Bool.and_eq_true, decide_eq_true_eq] at h
  exact h.1

theorem answers_holds {session minted : Option String} {ok : Bool}
    (h : front.answers session minted ok = true) (hok : ok = true) {id : String}
    (hid : session = some id) : ∃ owner, (id, owner) ∈ front.held := by
  unfold answers at h
  subst hid hok
  simp only [Option.all_some, Bool.and_eq_true, Bool.not_true, Bool.false_or,
    decide_eq_true_eq] at h
  obtain ⟨⟨_, owner⟩, hentry, rfl⟩ := List.mem_map.mp h.2
  exact ⟨owner, hentry⟩

theorem mem_minted_served {client : Client} {session minted : Option String} {ok delete : Bool}
    {entry : String × Client} :
    entry ∈ (front.served client session minted ok delete).minted ↔
      minted = some entry.1 ∧ entry.2 = client ∨ entry ∈ front.minted := by
  obtain ⟨id, owner⟩ := entry
  unfold served
  simp [eq_comm]

theorem mem_held_served {client : Client} {session minted : Option String} {ok delete : Bool}
    {entry : String × Client}
    (h : entry ∈ (front.served client session minted ok delete).held) :
    minted = some entry.1 ∧ entry.2 = client ∨
      entry ∈ front.held ∧ ¬ (ok = true ∧ delete = true ∧ session = some entry.1) := by
  unfold served at h
  simp only [List.mem_append] at h
  rcases h with hfresh | hold
  · obtain ⟨id, hid, rfl⟩ := List.mem_map.mp hfresh
    exact Or.inl ⟨Option.mem_toList.mp hid, rfl⟩
  · right
    split at hold
    · obtain ⟨hentry, hne⟩ := List.mem_filter.mp hold
      refine ⟨hentry, fun hgone => ?_⟩
      simp [hgone.2.2] at hne
    · next hnot =>
      refine ⟨hold, fun hgone => ?_⟩
      simp [hgone.1, hgone.2.1] at hnot

theorem served_follows {client : Client} {session minted : Option String} {ok delete : Bool}
    (hanswers : front.answers session minted ok = true) :
    Follows front (front.served client session minted ok delete) where
  minted := fun _ hentry => mem_minted_served.mpr (Or.inr hentry)
  presented := fun _ hid => hid
  held := by
    intro entry hentry hpresented
    rcases mem_held_served hentry with hfresh | hold
    · exact absurd hpresented (answers_fresh hanswers hfresh.1).2
    · exact hold.1

theorem minted_unique_served (h : front.Owned) {session minted : Option String} {ok : Bool}
    (hanswers : front.answers session minted ok = true) (client : Client) (delete : Bool)
    (id : String) (first second : Client)
    (hfirst : (id, first) ∈ (front.served client session minted ok delete).minted)
    (hsecond : (id, second) ∈ (front.served client session minted ok delete).minted) :
    first = second := by
  have hold : minted = some id → ∀ owner, (id, owner) ∉ front.minted := by
    intro hid owner howner
    exact (answers_fresh hanswers hid).1 (List.mem_map_of_mem howner)
  rcases mem_minted_served.mp hfirst with hnew | hfirst <;>
    rcases mem_minted_served.mp hsecond with hnew' | hsecond
  · exact hnew.2.trans hnew'.2.symm
  · exact absurd hsecond (hold hnew.1 second)
  · exact absurd hfirst (hold hnew'.1 first)
  · exact h.unique id first second hfirst hsecond

/-- An answer names an id of the caller's own: a new one, or the one it was admitted
with. -/
theorem callOwned_served (h : front.Owned) {client : Client}
    {session minted : Option String} {ok delete : Bool}
    (hpresents : ∀ id, session = some id → front.Presents client id)
    (hanswers : front.answers session minted ok = true) :
    (front.served client session minted ok delete).CallOwned
      (.answered client session minted ok delete) := by
  constructor
  · intro id hid
    rw [mem_minted_served]
    unfold Lease.settledSession at hid
    split at hid
    · exact Or.inl ⟨hid, rfl⟩
    · split at hid
      · next hok =>
        obtain ⟨owner, howner⟩ := answers_holds hanswers hok hid
        obtain rfl := (hpresents id hid).2 owner howner
        exact Or.inr (h.held _ howner)
      · cases hid
    · cases hid
  · intro id hid hok hdelete
    refine ⟨(hpresents id hid).1, ?_⟩
    intro owner howner
    rcases mem_held_served howner with hfresh | hold
    · exact (answers_fresh hanswers hfresh.1).2 (hpresents id hid).1
    · exact hold.2 ⟨hok, hdelete, hid⟩

theorem owned_handle (h : front.Owned) (n : Nat) (minted : Option String) (ok : Bool) :
    (front.step (.handle n minted ok)).Owned := by
  unfold step
  simp only
  split
  case h_2 => exact h
  case h_1 client session delete hcall =>
    split
    case isFalse => exact h
    case isTrue hanswers =>
      have hpresents := h.calls n
      rw [hcall] at hpresents
      have hfollows : Follows front (front.served client session minted ok delete) :=
        served_follows hanswers
      refine ⟨minted_unique_served h hanswers client delete, ?_, ?_, ?_, calls_update h
        ⟨hfollows.minted, hfollows.presented, hfollows.held⟩ rfl
        (callOwned_served h hpresents hanswers)⟩
      · intro entry hentry
        change entry ∈ (front.served client session minted ok delete).minted
        rw [mem_minted_served]
        rcases mem_held_served hentry with hfresh | hold
        · exact Or.inl hfresh
        · exact Or.inr (h.held entry hold.1)
      · intro owner id hrecorded
        exact hfollows.minted _ (h.recorded owner id hrecorded)
      · intro id owner hid
        rcases mem_held_served hid with hfresh | hold
        · refine Or.inr (Or.inr ⟨n, session, ok, delete, ?_⟩)
          obtain ⟨rfl, rfl⟩ := hfresh
          simp [setCall]
        · rcases h.backed id owner hold.1 with hrecorded | htaken | hunsettled
          · exact Or.inl hrecorded
          · exact Or.inr (Or.inl htaken)
          · refine Or.inr (Or.inr (unsettled_update rfl ?_ hunsettled))
            simp [hcall]

theorem owned_settle (h : front.Owned) (n : Nat) : (front.step (.settle n)).Owned := by
  unfold step
  simp only
  split
  case h_2 => exact h
  case h_1 client session minted ok delete hcall =>
    have hanswered := h.calls n
    rw [hcall] at hanswered
    refine ⟨h.unique, h.held, ?_, ?_, calls_update h (follows_of_eq rfl rfl rfl) rfl ?_⟩
    · intro owner id hrecorded
      rcases (Lease.records_settle ..).mp hrecorded with hold | ⟨rfl, hsettled⟩
      · exact h.recorded owner id hold
      · exact hanswered.1 id hsettled
    · intro id owner hid
      rcases h.backed id owner hid with hrecorded | htaken | hunsettled
      · exact Or.inl ((Lease.records_settle ..).mpr (Or.inl hrecorded))
      · exact Or.inr (Or.inl htaken)
      · -- The answer settled here is recorded, and every other one is still to be settled.
        by_cases hmine : owner = client ∧ minted = some id
        · refine Or.inl ((Lease.records_settle ..).mpr (Or.inr ⟨hmine.1, ?_⟩))
          simp [Lease.settledSession, hmine.2]
        · refine Or.inr (Or.inr (unsettled_update rfl ?_ hunsettled))
          intro _ _ _ heq
          rw [hcall] at heq
          simp only [Call.answered.injEq] at heq
          exact hmine ⟨heq.1.symm, heq.2.2.1⟩
    · split
      · next id =>
        split
        · next hleaves =>
          simp only [Bool.and_eq_true] at hleaves
          exact hanswered.2 id rfl hleaves.2 hleaves.1
        · trivial
      · trivial

theorem owned_leave (h : front.Owned) (n : Nat) : (front.step (.leave n)).Owned := by
  unfold step
  simp only
  split
  case h_2 => exact h
  case h_1 client gone hcall =>
    have hclosed := h.calls n
    rw [hcall] at hclosed
    refine ⟨h.unique, h.held, ?_, ?_, calls_update h (follows_of_eq rfl rfl rfl) rfl trivial⟩
    · intro owner id hrecorded
      exact h.recorded owner id ((Lease.records_released ..).mp hrecorded).1
    · intro id owner hid
      rcases h.backed id owner hid with hrecorded | htaken | hunsettled
      · refine Or.inl ((Lease.records_released ..).mpr ⟨hrecorded, ?_⟩)
        rintro ⟨-, rfl⟩
        exact hclosed.2 owner hid
      · exact Or.inr (Or.inl htaken)
      · refine Or.inr (Or.inr (unsettled_update rfl ?_ hunsettled))
        simp [hcall]

/-- The ids an expiry takes out of the table are the ones the sweep then has in hand. -/
theorem owned_expire (h : front.Owned) (client : Client) :
    (front.step (.expire client)).Owned := by
  unfold step
  simp only
  split
  case h_2 => exact h
  case h_1 hidle =>
    cases hasked : (front.lease.expiredFor front.now client).2 with
    | none =>
      exact h.kept rfl rfl rfl hidle.symm rfl (Lease.records_expiredFor_none _ _ _ hasked)
    | some expired =>
      have hrecords := Lease.records_expiredFor_some _ _ _ hasked
      refine ⟨h.unique, h.held, ?_, ?_, calls_kept h (follows_of_eq rfl rfl rfl) rfl⟩
      · intro owner id hrecorded
        exact h.recorded owner id ((hrecords owner id).mpr (Or.inl hrecorded))
      · intro id owner hid
        rcases h.backed id owner hid with hrecorded | htaken | hunsettled
        · rcases (hrecords owner id).mp hrecorded with hleft | htaken
          · exact Or.inl hleft
          · exact Or.inr (Or.inl htaken)
        · rw [hidle] at htaken
          exact htaken.elim
        · exact Or.inr (Or.inr hunsettled)

theorem owned_close (h : front.Owned) : (front.step .close).Owned := by
  unfold step
  simp only
  split
  case h_2 => exact h
  case h_1 client closed ids revoked hsweep =>
    have hfollows : Follows front { front with
        held := front.held.filter fun entry => entry.1 ≠ closed
        sweep := .closing client ids revoked } :=
      ⟨fun _ hentry => hentry, fun _ hid => hid, fun _ hentry _ => (List.mem_filter.mp hentry).1⟩
    refine ⟨h.unique, ?_, h.recorded, ?_, calls_kept h hfollows rfl⟩
    · intro entry hentry
      exact h.held entry (List.mem_filter.mp hentry).1
    · intro id owner hid
      obtain ⟨hentry, hne⟩ := List.mem_filter.mp hid
      have hne : id ≠ closed := by simpa using hne
      rcases h.backed id owner hentry with hrecorded | htaken | hunsettled
      · exact Or.inl hrecorded
      · rw [hsweep] at htaken
        refine Or.inr (Or.inl ⟨htaken.1, ?_⟩)
        exact (List.mem_cons.mp htaken.2).resolve_left hne
      · exact Or.inr (Or.inr hunsettled)

theorem owned_finish (h : front.Owned) (hallowed : front.Allowed .finish) :
    (front.step .finish).Owned := by
  unfold step
  simp only
  split
  case h_2 => exact h
  case h_1 client revoked hsweep =>
    have hrecords : ∀ owner id, (if revoked then front.lease.forget client
        else front.lease.releasedLeases client).Records owner id ↔
          front.lease.Records owner id := by
      intro owner id
      split
      · next hrevoked =>
        rw [Lease.records_forget]
        refine ⟨And.left, fun hrecorded => ⟨hrecorded, ?_⟩⟩
        rintro rfl
        unfold Lease.Records at hrecorded
        rw [hallowed owner (hrevoked ▸ hsweep)] at hrecorded
        cases hrecorded
      · exact Lease.records_releasedLeases ..
    refine ⟨h.unique, h.held, ?_, ?_, calls_kept h (follows_of_eq rfl rfl rfl) rfl⟩
    · intro owner id hrecorded
      exact h.recorded owner id ((hrecords owner id).mp hrecorded)
    · intro id owner hid
      rcases h.backed id owner hid with hrecorded | htaken | hunsettled
      · exact Or.inl ((hrecords owner id).mpr hrecorded)
      · rw [hsweep] at htaken
        cases htaken.2
      · exact Or.inr (Or.inr hunsettled)

theorem owned_releasedLeased (h : front.Owned) : (front.step .releasedLeased).Owned := by
  unfold step
  simp only
  split
  case h_2 => exact h
  case h_1 client ids revoked hsweep =>
    refine ⟨h.unique, h.held, h.recorded, ?_, calls_kept h (follows_of_eq rfl rfl rfl) rfl⟩
    intro id owner hid
    rcases h.backed id owner hid with hrecorded | htaken | hunsettled
    · exact Or.inl hrecorded
    · rw [hsweep] at htaken
      exact Or.inr (Or.inl htaken)
    · exact Or.inr (Or.inr hunsettled)

theorem owned_step {act : Act} (h : front.Owned) (hallowed : front.Allowed act) :
    (front.step act).Owned := by
  cases act with
  | tick elapsed => exact h.kept rfl rfl rfl rfl rfl (fun _ _ => Iff.rfl)
  | arrive n client session delete => exact owned_arrive h hallowed
  | admits n => exact owned_admits h n
  | handle n minted ok => exact owned_handle h n minted ok
  | settle n => exact owned_settle h n
  | leave n => exact owned_leave h n
  | revoke client => exact h.kept rfl rfl rfl rfl rfl (Lease.records_revoke _ _ _)
  | expire client => exact owned_expire h client
  | releasedLeased => exact owned_releasedLeased h
  | close => exact owned_close h
  | finish => exact owned_finish h hallowed

end

/-- In a run that stays out of the windows, no two clients have one id on record, and
every request with an id the service holds is served only to the client it was minted
for. -/
theorem sessions_served_to_owner {grace : Nat} {acts : List Act}
    (hallowed : ∀ visit ∈ visits step (new grace) acts, visit.1.Allowed visit.2) :
    (∀ visit ∈ visits step (new grace) acts, visit.1.Separate ∧ visit.1.ServesOwn visit.2) ∧
      (run step (new grace) acts).Separate := by
  have hstep : ∀ (front : Front) act, front.Owned → front.Allowed act → (front.step act).Owned :=
    fun _ _ => owned_step
  constructor
  · intro visit hvisit
    have howned : visit.1.Owned :=
      visits_invariant Owned Allowed hstep (owned_new grace) hallowed visit hvisit
    exact ⟨howned.separate, howned.servesOwn visit.2⟩
  · exact (run_invariant Owned Allowed hstep (owned_new grace) hallowed).separate

def alice : Client := ⟨"alice", 0⟩

def bob : Client := ⟨"bob", 0⟩

/-- `alice` opens an MCP session, goes quiet for its grace, and the sweep takes it. -/
def abandoned : List Act :=
  [.arrive 0 alice none false, .admits 0, .handle 0 (some "s") true, .settle 0, .tick 10,
    .expire alice]

/-- While the sweep waits for the debug sessions, `bob` presents the id. -/
def stolen : List Act := abandoned ++ [.arrive 1 bob (some "s") false, .admits 1]

/-- The sweep has closed the session in the service before `bob` presents the id. -/
def swept : List Act :=
  abandoned ++ [.releasedLeased, .close, .finish, .arrive 1 bob (some "s") false, .admits 1]

theorem session_served_to_another :
    ∃ visit ∈ visits step (new 10) stolen, ¬ visit.1.ServesOwn visit.2 := by
  refine ⟨(run step (new 10) (abandoned ++ [.arrive 1 bob (some "s") false]), .admits 1), ?_, ?_⟩
  · simp [stolen, visits_append, visits, run_concat]
  · intro h
    have hserved := h (by decide) ("s", alice) (by decide) rfl
    revert hserved
    decide

theorem sessions_served_to_owner_swept :
    (∀ visit ∈ visits step (new 10) swept, visit.1.Separate ∧ visit.1.ServesOwn visit.2) ∧
      (run step (new 10) swept).Separate := by
  apply sessions_served_to_owner
  intro visit hvisit
  simp only [swept, abandoned, List.cons_append, List.nil_append, visits, List.mem_cons,
    List.not_mem_nil, or_false] at hvisit
  rcases hvisit with rfl | rfl | rfl | rfl | rfl | rfl | rfl | rfl | rfl | rfl | rfl
  case inr.inr.inr.inr.inr.inr.inr.inr.inl =>
    intro client hsweep
    cases hsweep
  case inr.inr.inr.inr.inr.inr.inr.inr.inr.inl =>
    intro owner _
    refine ⟨id, ?_⟩
    rintro ⟨n, session, ok, delete, hanswered⟩
    cases n with
    | zero => cases hanswered
    | succ n => cases hanswered
  all_goals trivial

end Front

end WindbgMcp.Listen
