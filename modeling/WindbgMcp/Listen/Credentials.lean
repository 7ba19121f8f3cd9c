import Mathlib.Data.List.AList
import Mathlib.Data.List.Sort
import WindbgMcp.Library.Fallible

/-! The tokens a listener accepts, and the client each one names.  A configured set is built
only where every client is one credential and every credential one client; what a tool
surface is, how its spec reads, and what the transport makes of a token are parameters. -/
namespace WindbgMcp.Listen

abbrev Table (Value : Type) : Type := AList fun _ : String => Value

/-- A tool-surface spec as it was written down, and where that was. -/
structure Spec where
  text : String
  source : String
  deriving DecidableEq, Repr

/-- One configured credential: the client it names, the token, and where it came from. -/
structure Configured where
  name : String
  token : String
  tools : Option Spec
  source : String
  deriving DecidableEq, Repr

/-- What the transport makes of a header value: building one from a text, and reading it back
as one. -/
structure Transport (Value : Type) where
  fromStr : String → Option Value
  toStr : Value → Option String

variable {Value : Type}

def isPresentable (transport : Transport Value) (token : String) : Bool :=
  (transport.fromStr token).any fun value => (transport.toStr value).isSome

/-- The tokens and the names of their clients, and the surfaces of the clients configured with
one of their own. -/
structure Credentials (Toolset : Type) where
  byToken : Table String
  surfaces : Table Toolset
  /-- Each client is one credential. -/
  names_nodup : (byToken.entries.map Sigma.snd).Nodup

variable {Toolset : Type}

namespace Credentials

instance : Inhabited (Credentials Toolset) where
  default := ⟨∅, ∅, by simp⟩

def clientFor (credentials : Credentials Toolset) (token : String) : Option String :=
  credentials.byToken.lookup token

def surfaceFor (credentials : Credentials Toolset) (name : String) : Option Toolset :=
  credentials.surfaces.lookup name

def names (credentials : Credentials Toolset) : List String :=
  (credentials.byToken.entries.map Sigma.snd).insertionSort (· ≤ ·)

@[simp] theorem names_default : (default : Credentials Toolset).names = [] := rfl

theorem nodup_names (credentials : Credentials Toolset) : credentials.names.Nodup :=
  (List.perm_insertionSort _ _).nodup_iff.mpr credentials.names_nodup

theorem mem_names {credentials : Credentials Toolset} {name : String} :
    name ∈ credentials.names ↔ ∃ token, credentials.clientFor token = some name := by
  unfold names clientFor
  rw [List.mem_insertionSort, List.mem_map]
  constructor
  · rintro ⟨⟨token, name⟩, hentry, rfl⟩
    exact ⟨token, AList.mem_lookup_iff.mpr hentry⟩
  · rintro ⟨token, hlookup⟩
    exact ⟨⟨token, name⟩, AList.mem_lookup_iff.mp hlookup, rfl⟩

theorem token_unique (credentials : Credentials Toolset) {token other name : String}
    (htoken : credentials.clientFor token = some name)
    (hother : credentials.clientFor other = some name) : token = other := by
  have hentry := AList.mem_lookup_iff.mp htoken
  have hentry' := AList.mem_lookup_iff.mp hother
  have hsame := List.inj_on_of_nodup_map credentials.names_nodup hentry hentry' rfl
  exact congrArg Sigma.fst hsame

end Credentials

def unpresentable (source : String) : String :=
  "the token in " ++ source ++ " cannot travel in an `Authorization` header, so nothing " ++
    "could ever authenticate with it: this server reads that header back as " ++
    "visible ASCII, which rules out a line break and anything outside it. It is " ++
    "not quoted here — this is printed at startup — and it is not repaired " ++
    "either, since a credential that is quietly not the one you wrote is exactly " ++
    "what this refuses."

def sameToken (source first name existing : String) : String :=
  source ++ " and " ++ first ++ " are the same token, configured for `" ++ name ++ "` and `" ++
    existing ++ "`. One credential cannot name two clients: sessions opened with it " ++
    "would belong to whichever name happened to win."

def twoTokens (name other source : String) : String :=
  "two different tokens are configured for the client `" ++ name ++ "` (" ++ other ++ " and " ++
    source ++ "). Each client is one credential: two would share every session, which " ++
    "is the isolation this is for, silently absent."

structure Building (Toolset : Type) extends Credentials Toolset where
  named : Table String
  named_iff : ∀ name, name ∈ named ↔ name ∈ byToken.entries.map Sigma.snd

namespace Building

instance : Inhabited (Building Toolset) where
  default := { toCredentials := default, named := ∅, named_iff := by simp [default] }

variable (transport : Transport Value) (parseFrom : String → String → Except String Toolset)

def surface (building : Building Toolset) (entry : Configured) : Except String (Table Toolset) :=
  match entry.tools with
  | none => .ok building.surfaces
  | some spec => (parseFrom spec.text spec.source).map (building.surfaces.insert entry.name ·)

def enter (building : Building Toolset) (entry : Configured) (surfaces : Table Toolset)
    (htoken : building.byToken.lookup entry.token = none)
    (hname : building.named.lookup entry.name = none) : Building Toolset where
  byToken := building.byToken.insert entry.token entry.name
  surfaces := surfaces
  named := building.named.insert entry.name entry.source
  names_nodup := by
    rw [AList.entries_insert_of_notMem (AList.lookup_eq_none.mp htoken), List.map_cons,
      List.nodup_cons, ← building.named_iff]
    exact ⟨AList.lookup_eq_none.mp hname, building.names_nodup⟩
  named_iff := by
    intro name
    rw [AList.entries_insert_of_notMem (AList.lookup_eq_none.mp htoken), List.map_cons,
      List.mem_cons, ← building.named_iff, AList.mem_insert]

def configure (building : Building Toolset) (entry : Configured) :
    Except String (Building Toolset) :=
  if isPresentable transport entry.token = false then .error (unpresentable entry.source)
  else match htoken : building.byToken.lookup entry.token with
    | some existing =>
      let first := (building.named.lookup existing).getD "another entry"
      .error (sameToken entry.source first entry.name existing)
    | none => match hname : building.named.lookup entry.name with
      | some other => .error (twoTokens entry.name other entry.source)
      | none => (building.surface parseFrom entry).map fun surfaces =>
        building.enter entry surfaces htoken hname

end Building

def Credentials.build (transport : Transport Value) (parseFrom : String → String → Except String Toolset)
    (configured : List Configured) : Except String (Credentials Toolset) :=
  (configured.foldlM (Building.configure transport parseFrom) default).map Building.toCredentials

section Build
variable {transport : Transport Value} {parseFrom : String → String → Except String Toolset}

structure Building.Fresh (building : Building Toolset) (entry : Configured) : Prop where
  token : building.byToken.lookup entry.token = none
  name : building.named.lookup entry.name = none

theorem Building.configure_eq_ok {building after : Building Toolset} {entry : Configured} :
    building.configure transport parseFrom entry = .ok after ↔
      isPresentable transport entry.token = true ∧ ∃ hfresh : building.Fresh entry, ∃ surfaces,
        building.surface parseFrom entry = .ok surfaces ∧
          building.enter entry surfaces hfresh.token hfresh.name = after := by
  unfold configure
  split
  · next hpresentable => simp [hpresentable]
  next hpresentable =>
  rw [Bool.not_eq_false] at hpresentable
  split
  · next existing htoken =>
    refine iff_of_false (by simp) ?_
    rintro ⟨-, hfresh, -⟩
    rw [hfresh.token] at htoken
    cases htoken
  next htoken =>
  split
  · next other hname =>
    refine iff_of_false (by simp) ?_
    rintro ⟨-, hfresh, -⟩
    rw [hfresh.name] at hname
    cases hname
  next hname =>
  have hfresh : building.Fresh entry := ⟨htoken, hname⟩
  cases building.surface parseFrom entry with
  | error message => simp [Except.map]
  | ok surfaces => simp [Except.map, hpresentable, hfresh]

theorem Building.clientFor_configure {building after : Building Toolset} {entry : Configured}
    (h : building.configure transport parseFrom entry = .ok after) (token : String) :
    after.clientFor token =
        (if token = entry.token then some entry.name else building.clientFor token) ∧
      building.clientFor entry.token = none := by
  obtain ⟨-, hfresh, surfaces, -, rfl⟩ := configure_eq_ok.mp h
  refine ⟨?_, hfresh.token⟩
  unfold Credentials.clientFor enter
  split
  · next hsame => rw [hsame, AList.lookup_insert]
  · next hdiffers => rw [AList.lookup_insert_ne hdiffers]

theorem Building.clientFor_foldlM {entries : List Configured} {building after : Building Toolset}
    (h : entries.foldlM (Building.configure transport parseFrom) building = .ok after)
    (token name : String) :
    after.clientFor token = some name ↔ building.clientFor token = some name ∨
      ∃ entry ∈ entries, entry.token = token ∧ entry.name = name := by
  induction entries generalizing building with
  | nil =>
    cases h
    simp
  | cons entry entries ih =>
    rw [List.foldlM_cons] at h
    obtain ⟨next, hentry, hrest⟩ := Library.bind_eq_ok.mp h
    obtain ⟨hnext, habsent⟩ := clientFor_configure hentry token
    rw [ih hrest, hnext]
    by_cases htoken : token = entry.token
    · subst htoken
      simp [habsent]
    · have hother : entry.token ≠ token := fun hsame => htoken hsame.symm
      simp [htoken, hother]

theorem Credentials.clientFor_build {configured : List Configured}
    {credentials : Credentials Toolset} (h : build transport parseFrom configured = .ok credentials)
    (token name : String) :
    credentials.clientFor token = some name ↔
      ∃ entry ∈ configured, entry.token = token ∧ entry.name = name := by
  unfold build at h
  cases hbuilt : configured.foldlM (Building.configure transport parseFrom) default with
  | error message => simp [hbuilt, Except.map] at h
  | ok built =>
    simp only [hbuilt, Except.map, Except.ok.injEq] at h
    subst h
    rw [Building.clientFor_foldlM hbuilt]
    simp [clientFor, default]

/-! ### What is accepted -/

/-- Every token can be presented, every surface reads, and each token and each client is
written once. -/
structure Admissible (transport : Transport Value)
    (parseFrom : String → String → Except String Toolset) (configured : List Configured) : Prop where
  presentable : ∀ entry ∈ configured, isPresentable transport entry.token = true
  readable : ∀ entry ∈ configured, ∀ spec ∈ entry.tools,
    ∃ surface, parseFrom spec.text spec.source = .ok surface
  tokens_nodup : (configured.map Configured.token).Nodup
  names_nodup : (configured.map Configured.name).Nodup

theorem Building.surface_isOk_iff {building : Building Toolset} {entry : Configured} :
    (∃ surfaces, building.surface parseFrom entry = .ok surfaces) ↔
      ∀ spec ∈ entry.tools, ∃ surface, parseFrom spec.text spec.source = .ok surface := by
  unfold surface
  cases entry.tools with
  | none => simp
  | some spec => cases hread : parseFrom spec.text spec.source <;> simp [Except.map, hread]

theorem Building.fresh_enter {building : Building Toolset} {entry : Configured}
    (hfresh : building.Fresh entry) (surfaces : Table Toolset) (other : Configured) :
    (building.enter entry surfaces hfresh.token hfresh.name).Fresh other ↔
      building.Fresh other ∧ other.token ≠ entry.token ∧ other.name ≠ entry.name := by
  constructor
  · rintro ⟨htoken, hname⟩
    unfold enter at htoken hname
    have hother : other.token ≠ entry.token := by
      intro hsame
      simp [hsame] at htoken
    have hdiffers : other.name ≠ entry.name := by
      intro hsame
      simp [hsame] at hname
    rw [AList.lookup_insert_ne hother] at htoken
    rw [AList.lookup_insert_ne hdiffers] at hname
    exact ⟨⟨htoken, hname⟩, hother, hdiffers⟩
  · rintro ⟨⟨htoken, hname⟩, hother, hdiffers⟩
    unfold enter
    exact ⟨by rw [AList.lookup_insert_ne hother, htoken],
      by rw [AList.lookup_insert_ne hdiffers, hname]⟩

theorem admissible_nil : Admissible transport parseFrom [] where
  presentable := List.forall_mem_nil _
  readable := List.forall_mem_nil _
  tokens_nodup := .nil
  names_nodup := .nil

theorem admissible_cons {entry : Configured} {entries : List Configured} :
    Admissible transport parseFrom (entry :: entries) ↔
      (isPresentable transport entry.token = true ∧
        ∀ spec ∈ entry.tools, ∃ surface, parseFrom spec.text spec.source = .ok surface) ∧
      Admissible transport parseFrom entries ∧
      ∀ other ∈ entries, other.token ≠ entry.token ∧ other.name ≠ entry.name := by
  constructor
  · rintro ⟨hpresentable, hreadable, htokens, hnames⟩
    rw [List.forall_mem_cons] at hpresentable hreadable
    rw [List.map_cons, List.nodup_cons] at htokens hnames
    refine ⟨⟨hpresentable.1, hreadable.1⟩, ⟨hpresentable.2, hreadable.2, htokens.2, hnames.2⟩,
      fun other hother => ⟨fun hsame => htokens.1 ?_, fun hsame => hnames.1 ?_⟩⟩
    · exact hsame ▸ List.mem_map_of_mem hother
    · exact hsame ▸ List.mem_map_of_mem hother
  · rintro ⟨⟨hpresentable, hreadable⟩, hrest, hapart⟩
    constructor
    · exact List.forall_mem_cons.mpr ⟨hpresentable, hrest.presentable⟩
    · exact List.forall_mem_cons.mpr ⟨hreadable, hrest.readable⟩
    · refine List.nodup_cons.mpr ⟨fun hmem => ?_, hrest.tokens_nodup⟩
      obtain ⟨other, hother, hsame⟩ := List.mem_map.mp hmem
      exact (hapart other hother).1 hsame
    · refine List.nodup_cons.mpr ⟨fun hmem => ?_, hrest.names_nodup⟩
      obtain ⟨other, hother, hsame⟩ := List.mem_map.mp hmem
      exact (hapart other hother).2 hsame

theorem Building.foldlM_isOk_iff {entries : List Configured} {building : Building Toolset} :
    (∃ after, entries.foldlM (Building.configure transport parseFrom) building = .ok after) ↔
      Admissible transport parseFrom entries ∧ ∀ entry ∈ entries, building.Fresh entry := by
  induction entries generalizing building with
  | nil => exact iff_of_true ⟨building, rfl⟩ ⟨admissible_nil, List.forall_mem_nil _⟩
  | cons entry entries ih =>
    rw [List.foldlM_cons, admissible_cons, List.forall_mem_cons]
    constructor
    · rintro ⟨after, hafter⟩
      obtain ⟨next, hentry, hnext⟩ := Library.bind_eq_ok.mp hafter
      obtain ⟨hpresentable, hfresh, surfaces, hsurfaces, rfl⟩ := configure_eq_ok.mp hentry
      obtain ⟨hrest, hothers⟩ := ih.mp ⟨after, hnext⟩
      have hreadable := surface_isOk_iff.mp ⟨surfaces, hsurfaces⟩
      refine ⟨⟨⟨hpresentable, hreadable⟩, hrest, fun other hother => ?_⟩, hfresh,
        fun other hother => ?_⟩
      · exact ((fresh_enter hfresh surfaces other).mp (hothers other hother)).2
      · exact ((fresh_enter hfresh surfaces other).mp (hothers other hother)).1
    · rintro ⟨⟨⟨hpresentable, hreadable⟩, hrest, hapart⟩, hfresh, hothers⟩
      obtain ⟨surfaces, hsurfaces⟩ :
          ∃ surfaces, building.surface parseFrom entry = .ok surfaces :=
        surface_isOk_iff.mpr hreadable
      rw [configure_eq_ok.mpr ⟨hpresentable, hfresh, surfaces, hsurfaces, rfl⟩]
      exact ih.mpr ⟨hrest, fun other hother =>
        (fresh_enter hfresh surfaces other).mpr ⟨hothers other hother, hapart other hother⟩⟩

/-- Only the entry's own name may come by a surface. -/
theorem Building.lookup_surface {building : Building Toolset} {entry : Configured}
    {surfaces : Table Toolset} (h : building.surface parseFrom entry = .ok surfaces)
    (habsent : building.surfaces.lookup entry.name = none) :
    (∀ surface, surfaces.lookup entry.name = some surface ↔
      ∃ spec ∈ entry.tools, parseFrom spec.text spec.source = .ok surface) ∧
      ∀ other ≠ entry.name, surfaces.lookup other = building.surfaces.lookup other := by
  unfold Building.surface at h
  cases htools : entry.tools with
  | none =>
    rw [htools] at h
    cases h
    simp [habsent]
  | some spec =>
    rw [htools] at h
    cases hread : parseFrom spec.text spec.source with
    | error message => simp [hread, Except.map] at h
    | ok read =>
      simp only [hread, Except.map, Except.ok.injEq] at h
      subst h
      refine ⟨fun surface => by simp [hread], fun other hother => ?_⟩
      exact AList.lookup_insert_ne hother

/-- The surface of a name is the one that an entry of that name configures. -/
theorem Building.surfaces_foldlM {entries : List Configured} {building after : Building Toolset}
    (h : entries.foldlM (Building.configure transport parseFrom) building = .ok after)
    (hnamed : ∀ name, building.named.lookup name = none → building.surfaces.lookup name = none)
    (name : String) (surface : Toolset) :
    after.surfaces.lookup name = some surface ↔ building.surfaces.lookup name = some surface ∨
      ∃ entry ∈ entries, entry.name = name ∧
        ∃ spec ∈ entry.tools, parseFrom spec.text spec.source = .ok surface := by
  induction entries generalizing building with
  | nil =>
    cases h
    simp
  | cons entry entries ih =>
    rw [List.foldlM_cons] at h
    obtain ⟨next, hentry, hrest⟩ := Library.bind_eq_ok.mp h
    obtain ⟨-, hfresh, surfaces, hsurfaces, rfl⟩ := configure_eq_ok.mp hentry
    obtain ⟨hsame, hothers⟩ := lookup_surface hsurfaces (hnamed _ hfresh.name)
    rw [ih hrest]
    · unfold enter
      by_cases hname : name = entry.name
      · subst hname
        simp [hsame, hnamed _ hfresh.name]
      · have hdiffers : entry.name ≠ name := fun hsame => hname hsame.symm
        simp [hothers name hname, hdiffers]
    · intro other hother
      unfold enter at hother ⊢
      have hdiffers : other ≠ entry.name := by
        intro hsame
        simp [hsame] at hother
      rw [AList.lookup_insert_ne hdiffers] at hother
      simp only
      rw [hothers other hdiffers, hnamed other hother]

/-- A configuration is accepted just when it is admissible, and then a token names the client
of the entry that configures it, with the surface of that entry, and nothing else is served. -/
theorem Credentials.build_exact (transport : Transport Value) (parseFrom : String → String → Except String Toolset)
    (configured : List Configured) :
    match build transport parseFrom configured with
    | .error _ => ¬ Admissible transport parseFrom configured
    | .ok credentials => Admissible transport parseFrom configured ∧
        (∀ token name, credentials.clientFor token = some name ↔
          ∃ entry ∈ configured, entry.token = token ∧ entry.name = name) ∧
        ∀ name surface, credentials.surfaceFor name = some surface ↔
          ∃ entry ∈ configured, entry.name = name ∧
            ∃ spec ∈ entry.tools, parseFrom spec.text spec.source = .ok surface := by
  have hadmissible := @Building.foldlM_isOk_iff _ _ transport parseFrom configured default
  have hfresh : ∀ entry ∈ configured, (default : Building Toolset).Fresh entry :=
    fun _ _ => ⟨rfl, rfl⟩
  cases hbuilt : configured.foldlM (Building.configure transport parseFrom) default with
  | error message =>
    simp only [build, hbuilt, Except.map]
    intro h
    obtain ⟨after, hafter⟩ := hadmissible.mpr ⟨h, hfresh⟩
    rw [hbuilt] at hafter
    cases hafter
  | ok built =>
    have hclients : build transport parseFrom configured = .ok built.toCredentials := by
      simp [build, hbuilt, Except.map]
    have hsurfaces := Building.surfaces_foldlM hbuilt fun _ _ => rfl
    rw [hclients]
    refine ⟨(hadmissible.mp ⟨built, hbuilt⟩).1, clientFor_build hclients, fun name surface => ?_⟩
    unfold surfaceFor
    rw [hsurfaces]
    simp [default]

end Build

end WindbgMcp.Listen
