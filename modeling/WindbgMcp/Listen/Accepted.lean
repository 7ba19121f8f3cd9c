import WindbgMcp.Engine.Session
import WindbgMcp.Library.Run
import WindbgMcp.Listen.Credentials

/-! The credentials a listener is serving right now, replaceable while it runs, and the one
place a client's identity is minted.  The counter of incarnations is a number without a
bound: `next_replace` says how many it has handed out. -/
namespace WindbgMcp.Listen
open Engine (Client)
open Library

variable {Toolset : Type}

/-- One generation of the configuration: the tokens, and which holder of each name is current. -/
structure State (Toolset : Type) where
  credentials : Credentials Toolset
  incarnations : Table Nat
  /-- A name the credentials accept always has an incarnation. -/
  accepts : ∀ name, name ∈ incarnations ↔ name ∈ credentials.names

def State.clientFor (state : State Toolset) (token : String) : Option Client := do
  let name ← state.credentials.clientFor token
  let incarnation ← state.incarnations.lookup name
  return ⟨name, incarnation⟩

structure Change where
  added : List Client
  removed : List Client
  deriving DecidableEq, Repr

structure Accepted (Toolset : Type) where
  current : State Toolset
  /-- The next incarnation to hand out. -/
  next : Nat
  /-- Every incarnation in force has been handed out. -/
  minted : ∀ name, ∀ incarnation ∈ current.incarnations.lookup name, incarnation < next

structure Draft where
  incarnations : Table Nat
  added : List Client
  next : Nat

def Draft.draw (before : Table Nat) (draft : Draft) (name : String) : Draft :=
  match before.lookup name with
  | some existing => { draft with incarnations := draft.incarnations.insert name existing }
  | none =>
    { incarnations := draft.incarnations.insert name draft.next
      added := draft.added ++ [⟨name, draft.next⟩]
      next := draft.next + 1 }

/-- The draft of the names handled so far: the known ones keep their incarnation, the others
have one of their own from the counter. -/
structure Draft.Of (before : Table Nat) (start : Nat) (names : List String) (draft : Draft) :
    Prop where
  keys : ∀ name, name ∈ draft.incarnations ↔ name ∈ names
  kept : ∀ name ∈ names, name ∈ before → draft.incarnations.lookup name = before.lookup name
  added : ∀ client, client ∈ draft.added ↔
    client.incarnation ∈ draft.incarnations.lookup client.name ∧ client.name ∉ before
  fresh : ∀ client ∈ draft.added, start ≤ client.incarnation ∧ client.incarnation < draft.next
  counted : draft.next = start + draft.added.length
  distinct : (draft.added.map Client.name).Nodup

section Drawing
variable {before : Table Nat} {start : Nat} {names : List String} {draft : Draft}

theorem Draft.of_nil (before : Table Nat) (start : Nat) :
    Of before start [] { incarnations := ∅, added := [], next := start } := by
  constructor <;> simp

theorem Draft.Of.name_mem (h : Of before start names draft) {client : Client}
    (hclient : client ∈ draft.added) : client.name ∈ names := by
  have hlookup := ((h.added client).mp hclient).1
  rw [← h.keys, ← AList.lookup_isSome]
  exact Option.isSome_of_mem hlookup

theorem Draft.Of.draw (h : Of before start names draft) {name : String} (hname : name ∉ names) :
    Of before start (names ++ [name]) (draft.draw before name) := by
  have habsent : ∀ other ∈ names, other ≠ name := fun other hother hsame => hname (hsame ▸ hother)
  unfold Draft.draw
  split
  · next existing hexisting =>
    have hbefore : name ∈ before := AList.lookup_isSome.mp (by rw [hexisting]; rfl)
    constructor
    case keys =>
      intro other
      rw [AList.mem_insert, h.keys, List.mem_append, List.mem_singleton, or_comm]
    case kept =>
      intro other hother hmem
      dsimp only
      rcases List.mem_append.mp hother with hold | hnew
      · rw [AList.lookup_insert_ne (habsent other hold), h.kept other hold hmem]
      · obtain rfl := List.mem_singleton.mp hnew
        rw [AList.lookup_insert, hexisting]
    case added =>
      intro client
      dsimp only
      rw [h.added]
      apply and_congr_left
      intro hclient
      have hother : client.name ≠ name := fun hsame => hclient (hsame ▸ hbefore)
      rw [AList.lookup_insert_ne hother]
    case fresh => exact h.fresh
    case counted => exact h.counted
    case distinct => exact h.distinct
  · next hnew =>
    have hbefore : name ∉ before := AList.lookup_eq_none.mp hnew
    constructor
    case keys =>
      intro other
      rw [AList.mem_insert, h.keys, List.mem_append, List.mem_singleton, or_comm]
    case kept =>
      intro other hother hmem
      have hdiffers : other ≠ name := fun hsame => hbefore (hsame ▸ hmem)
      have hold : other ∈ names := by simpa [hdiffers] using hother
      rw [AList.lookup_insert_ne hdiffers, h.kept other hold hmem]
    case added =>
      rintro ⟨other, incarnation⟩
      dsimp only
      rw [List.mem_append, List.mem_singleton, h.added]
      by_cases hother : other = name
      · subst hother
        have hlookup : draft.incarnations.lookup other = none := by
          rw [AList.lookup_eq_none, h.keys]
          exact hname
        simp [hlookup, hbefore, eq_comm]
      · simp [AList.lookup_insert_ne hother, hother]
    case fresh =>
      intro client hclient
      dsimp only
      rcases List.mem_append.mp hclient with hold | hlast
      · have := h.fresh client hold
        omega
      · obtain rfl := List.mem_singleton.mp hlast
        have := h.counted
        dsimp only
        omega
    case counted =>
      dsimp only
      rw [List.length_append, List.length_singleton, h.counted]
      omega
    case distinct =>
      rw [List.map_append, List.map_singleton, List.nodup_append]
      refine ⟨h.distinct, by simp, ?_⟩
      intro other hother last hlast
      obtain ⟨client, hclient, rfl⟩ := List.mem_map.mp hother
      obtain rfl := List.mem_singleton.mp hlast
      exact habsent client.name (h.name_mem hclient)

theorem Draft.Of.foldl (h : Of before start names draft) {rest : List String}
    (hrest : (names ++ rest).Nodup) :
    Of before start (names ++ rest) (rest.foldl (Draft.draw before) draft) := by
  induction rest generalizing names draft with
  | nil => simpa using h
  | cons name rest ih =>
    have happend : names ++ name :: rest = names ++ [name] ++ rest := by simp
    rw [happend] at hrest ⊢
    have hname : name ∉ names := by
      intro hmem
      have hnodup := List.nodup_append.mp (List.nodup_append.mp hrest).1
      exact hnodup.2.2 name hmem name List.mem_cons_self rfl
    exact ih (h.draw hname) hrest

end Drawing

namespace Accepted

def draft (accepted : Accepted Toolset) (credentials : Credentials Toolset) : Draft :=
  credentials.names.foldl (Draft.draw accepted.current.incarnations)
    { incarnations := ∅, added := [], next := accepted.next }

theorem draft_of (accepted : Accepted Toolset) (credentials : Credentials Toolset) :
    Draft.Of accepted.current.incarnations accepted.next credentials.names
      (accepted.draft credentials) :=
  (Draft.of_nil accepted.current.incarnations accepted.next).foldl credentials.nodup_names

def removed (accepted : Accepted Toolset) (incarnations : Table Nat) : List Client :=
  (accepted.current.incarnations.entries.filter fun entry => entry.1 ∉ incarnations).map
    fun entry => ⟨entry.1, entry.2⟩

theorem draft_minted (accepted : Accepted Toolset) (credentials : Credentials Toolset)
    (name : String) : ∀ incarnation ∈ (accepted.draft credentials).incarnations.lookup name,
      incarnation < (accepted.draft credentials).next := by
  intro incarnation hmem
  have hdraft := accepted.draft_of credentials
  by_cases hbefore : name ∈ accepted.current.incarnations
  · have hname : name ∈ credentials.names := by
      rw [← hdraft.keys, ← AList.lookup_isSome]
      exact Option.isSome_of_mem hmem
    have hkept := hdraft.kept name hname hbefore
    have hold := accepted.minted name incarnation (hkept ▸ hmem)
    have hcounted := hdraft.counted
    omega
  · have hadded := (hdraft.added ⟨name, incarnation⟩).mpr ⟨hmem, hbefore⟩
    exact (hdraft.fresh _ hadded).2

def replace (accepted : Accepted Toolset) (credentials : Credentials Toolset) :
    Accepted Toolset × Change :=
  let draft := accepted.draft credentials
  ({ current :=
      { credentials
        incarnations := draft.incarnations
        accepts := (accepted.draft_of credentials).keys }
     next := draft.next
     minted := accepted.draft_minted credentials },
   { added := draft.added, removed := accepted.removed draft.incarnations })

def empty : Accepted Toolset where
  current := { credentials := default, incarnations := ∅, accepts := by simp }
  next := 1
  minted := by simp

def new (credentials : Credentials Toolset) : Accepted Toolset :=
  (empty.replace credentials).1

def step (accepted : Accepted Toolset) (credentials : Credentials Toolset) : Accepted Toolset :=
  (accepted.replace credentials).1

def clientFor (accepted : Accepted Toolset) (token : String) : Option Client :=
  accepted.current.clientFor token

def names (accepted : Accepted Toolset) : List String := accepted.current.credentials.names

def InForce (accepted : Accepted Toolset) (client : Client) : Prop :=
  client.incarnation ∈ accepted.current.incarnations.lookup client.name

section InForce
variable {accepted : Accepted Toolset} {client other : Client}

@[simp] theorem names_replace (credentials : Credentials Toolset) :
    (accepted.replace credentials).1.names = credentials.names := rfl

theorem InForce.name_mem (h : accepted.InForce client) : client.name ∈ accepted.names :=
  (accepted.current.accepts client.name).mp (AList.lookup_isSome.mp (Option.isSome_of_mem h))

theorem exists_inForce {name : String} (h : name ∈ accepted.names) :
    ∃ incarnation, accepted.InForce ⟨name, incarnation⟩ :=
  Option.isSome_iff_exists.mp
    (AList.lookup_isSome.mpr ((accepted.current.accepts name).mpr h))

theorem InForce.unique (h : accepted.InForce client) (hother : accepted.InForce other)
    (hname : client.name = other.name) : client = other := by
  obtain ⟨name, incarnation⟩ := client
  obtain ⟨otherName, otherIncarnation⟩ := other
  obtain rfl : name = otherName := hname
  exact congrArg (Client.mk name) (Option.mem_unique h hother)

theorem mem_added {credentials : Credentials Toolset} :
    client ∈ (accepted.replace credentials).2.added ↔
      (accepted.replace credentials).1.InForce client ∧ client.name ∉ accepted.names := by
  unfold names
  rw [← accepted.current.accepts]
  exact (accepted.draft_of credentials).added client

theorem inForce_replace_of_mem {credentials : Credentials Toolset}
    (hbefore : client.name ∈ accepted.names) (hafter : client.name ∈ credentials.names) :
    (accepted.replace credentials).1.InForce client ↔ accepted.InForce client := by
  unfold InForce replace
  dsimp only
  have hmem := (accepted.current.accepts client.name).mpr hbefore
  rw [(accepted.draft_of credentials).kept client.name hafter hmem]

theorem mem_removed {credentials : Credentials Toolset} :
    client ∈ (accepted.replace credentials).2.removed ↔
      accepted.InForce client ∧ client.name ∉ credentials.names := by
  obtain ⟨name, incarnation⟩ := client
  unfold InForce
  rw [← (accepted.draft_of credentials).keys, AList.mem_lookup_iff]
  simp only [replace, removed, List.mem_map, List.mem_filter, decide_eq_true_eq]
  constructor
  · rintro ⟨⟨_, _⟩, hentry, hsame⟩
    cases hsame
    exact hentry
  · intro hentry
    exact ⟨⟨name, incarnation⟩, hentry, rfl⟩

end InForce

/-- What a reload to a set keeps, hands out and takes away. -/
structure Swapped (before : Accepted Toolset) (credentials : Credentials Toolset)
    (after : Accepted Toolset) (change : Change) : Prop where
  served : after.current.credentials = credentials
  kept : ∀ name, (∃ client : Client, client.name = name ∧ before.InForce client ∧
    after.InForce client) ↔ name ∈ before.names ∧ name ∈ after.names
  added : ∀ client, client ∈ change.added ↔ after.InForce client ∧ ¬ before.InForce client
  removed : ∀ client, client ∈ change.removed ↔ before.InForce client ∧ ¬ after.InForce client
  addedNames : ∀ name, name ∈ change.added.map Client.name ↔
    name ∈ after.names ∧ name ∉ before.names
  removedNames : ∀ name, name ∈ change.removed.map Client.name ↔
    name ∈ before.names ∧ name ∉ after.names
  once : (change.added.map Client.name).Nodup ∧ (change.removed.map Client.name).Nodup

/-- Every token of the set resolves, to the one client in force under its name; and a client
in force answers to one token. -/
structure Resolves (accepted : Accepted Toolset) : Prop where
  resolved : ∀ token client, accepted.clientFor token = some client ↔
    accepted.current.credentials.clientFor token = some client.name ∧ accepted.InForce client
  configured : ∀ token, (accepted.clientFor token).isSome =
    (accepted.current.credentials.clientFor token).isSome
  holder : ∀ client other, accepted.InForce client → accepted.InForce other →
    client.name = other.name → client = other
  answers : ∀ client, accepted.InForce client → ∃! token, accepted.clientFor token = some client

theorem nodup_removed (accepted : Accepted Toolset) (incarnations : Table Nat) :
    ((accepted.removed incarnations).map Client.name).Nodup := by
  have hkeys := accepted.current.incarnations.nodupKeys
  unfold removed
  rw [List.map_map]
  exact (List.filter_sublist.map Sigma.fst).nodup hkeys

theorem swapped_replace (accepted : Accepted Toolset) (credentials : Credentials Toolset) :
    Swapped accepted credentials (accepted.replace credentials).1
      (accepted.replace credentials).2 := by
  constructor
  case served => rfl
  case kept =>
    intro name
    constructor
    · rintro ⟨client, rfl, hbefore, hafter⟩
      exact ⟨hbefore.name_mem, hafter.name_mem⟩
    · rintro ⟨hbefore, hafter⟩
      obtain ⟨incarnation, hforce⟩ := exists_inForce hbefore
      exact ⟨⟨name, incarnation⟩, rfl, hforce, (inForce_replace_of_mem hbefore hafter).mpr hforce⟩
  case added =>
    intro client
    rw [mem_added]
    apply and_congr_right
    intro hafter
    constructor
    · intro hname hbefore
      exact hname hbefore.name_mem
    · intro hbefore hname
      exact hbefore ((inForce_replace_of_mem hname hafter.name_mem).mp hafter)
  case removed =>
    intro client
    rw [mem_removed]
    apply and_congr_right
    intro hbefore
    constructor
    · intro hname hafter
      exact hname hafter.name_mem
    · intro hafter hname
      exact hafter ((inForce_replace_of_mem hbefore.name_mem hname).mpr hbefore)
  case addedNames =>
    intro name
    rw [List.mem_map]
    constructor
    · rintro ⟨client, hclient, rfl⟩
      have hadded := mem_added.mp hclient
      exact ⟨hadded.1.name_mem, hadded.2⟩
    · rintro ⟨hafter, hbefore⟩
      obtain ⟨incarnation, hforce⟩ := exists_inForce hafter
      exact ⟨⟨name, incarnation⟩, mem_added.mpr ⟨hforce, hbefore⟩, rfl⟩
  case removedNames =>
    intro name
    rw [List.mem_map]
    constructor
    · rintro ⟨client, hclient, rfl⟩
      have hremoved := mem_removed.mp hclient
      exact ⟨hremoved.1.name_mem, hremoved.2⟩
    · rintro ⟨hbefore, hafter⟩
      obtain ⟨incarnation, hforce⟩ := exists_inForce hbefore
      exact ⟨⟨name, incarnation⟩, mem_removed.mpr ⟨hforce, hafter⟩, rfl⟩
  case once =>
    exact ⟨(accepted.draft_of credentials).distinct, accepted.nodup_removed _⟩

theorem resolves (accepted : Accepted Toolset) : Resolves accepted := by
  have hresolved (token : String) (client : Client) : accepted.clientFor token = some client ↔
      accepted.current.credentials.clientFor token = some client.name ∧
        accepted.InForce client := by
    obtain ⟨name, incarnation⟩ := client
    unfold clientFor State.clientFor InForce
    simp only [Option.bind_eq_bind, Option.bind_eq_some_iff, Option.pure_def, Option.some.injEq,
      Option.mem_def]
    constructor
    · rintro ⟨_, hname, _, hincarnation, hsame⟩
      cases hsame
      exact ⟨hname, hincarnation⟩
    · rintro ⟨hname, hincarnation⟩
      exact ⟨name, hname, incarnation, hincarnation, rfl⟩
  constructor
  case resolved => exact hresolved
  case configured =>
    intro token
    rw [Bool.eq_iff_iff, Option.isSome_iff_exists, Option.isSome_iff_exists]
    constructor
    · rintro ⟨client, hclient⟩
      exact ⟨client.name, ((hresolved token client).mp hclient).1⟩
    · rintro ⟨name, hname⟩
      obtain ⟨incarnation, hforce⟩ := exists_inForce (Credentials.mem_names.mpr ⟨token, hname⟩)
      exact ⟨⟨name, incarnation⟩, (hresolved token _).mpr ⟨hname, hforce⟩⟩
  case holder =>
    intro client other hclient hother hname
    exact hclient.unique hother hname
  case answers =>
    intro client hclient
    obtain ⟨token, htoken⟩ := Credentials.mem_names.mp hclient.name_mem
    refine ⟨token, (hresolved token client).mpr ⟨htoken, hclient⟩, ?_⟩
    intro other hother
    exact Credentials.token_unique _ ((hresolved other client).mp hother).1 htoken

theorem next_replace (accepted : Accepted Toolset) (credentials : Credentials Toolset) :
    (accepted.replace credentials).1.next =
      accepted.next + (accepted.replace credentials).2.added.length :=
  (accepted.draft_of credentials).counted

theorem next_le_run (accepted : Accepted Toolset) (sets : List (Credentials Toolset)) :
    accepted.next ≤ (run step accepted sets).next := by
  induction sets generalizing accepted with
  | nil => exact Nat.le_refl _
  | cons credentials sets ih =>
    apply Nat.le_trans _ (ih (accepted.step credentials))
    unfold step
    rw [next_replace]
    omega

/-- Over any reloads: a name keeps its holder exactly where both sets have it, the change is
the two differences, a holder of a name that the last set did not have is numbered above every
holder there ever was, and the tokens resolve to the clients in force. -/
theorem identity_never_reused (first : Credentials Toolset) (sets : List (Credentials Toolset))
    (credentials : Credentials Toolset) :
    Swapped (run step (new first) sets) credentials
        (run step (new first) (sets ++ [credentials]))
        ((run step (new first) sets).replace credentials).2 ∧
      (∀ front, front <+: sets → ∀ client other,
        (run step (new first) (sets ++ [credentials])).InForce client →
          client.name ∉ (run step (new first) sets).names →
            (run step (new first) front).InForce other → other.incarnation < client.incarnation) ∧
      Resolves (run step (new first) sets) := by
  rw [run_concat]
  refine ⟨swapped_replace _ credentials, ?_, resolves _⟩
  rintro front ⟨back, rfl⟩ client other hclient hname hother
  have hfresh := ((draft_of _ credentials).fresh client (mem_added.mpr ⟨hclient, hname⟩)).1
  have hminted := (run step (new first) front).minted other.name other.incarnation hother
  have hle := next_le_run (run step (new first) front) back
  rw [run_append] at hfresh
  omega

end Accepted

end WindbgMcp.Listen
