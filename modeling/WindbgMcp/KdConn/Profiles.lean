import WindbgMcp.KdConn.Connection
import WindbgMcp.Structured

/-! Kernel connection profiles (`kdconn.rs`): the entries of the environment and of the
profile file, merged by normalized name, and the lookup of one name. -/
namespace WindbgMcp.KdConn
open WindbgMcp.Library
open WindbgMcp.Structured (KernelTarget ProfileFacts)

/-- One of a profile's claims, folded over every spelling of its name. -/
inductive Claim (α : Type)
  | unset
  | agreed (value : α)
  | conflicted
  deriving DecidableEq, Repr

namespace Claim
variable {α : Type}

def absorb [DecidableEq α] (claim : Claim α) : Claim α → Claim α × Bool
  | unset => (claim, false)
  | conflicted => (conflicted, decide (claim ≠ conflicted))
  | agreed value =>
    match claim with
    | conflicted => (conflicted, false)
    | unset => (agreed value, false)
    | agreed kept => if kept = value then (agreed kept, false) else (conflicted, true)

def known : Claim α → Option α
  | agreed value => some value
  | unset | conflicted => none

end Claim

structure Details where
  role : Claim KernelTarget := .unset
  guest : Claim String := .unset
  note : Claim String := .unset
  deriving DecidableEq, Repr

namespace Details

/-- A second spelling that reaches the same target; answers the fields that had to be
dropped. -/
def reconcile (details other : Details) : Details × List String :=
  let (role, roleLost) := details.role.absorb other.role
  let (guest, guestLost) := details.guest.absorb other.guest
  let (note, noteLost) := details.note.absorb other.note
  (⟨role, guest, note⟩,
    [("role", roleLost), ("guest", guestLost), ("note", noteLost)].filterMap
      fun (field, lost) => if lost then some field else none)

def isEmpty (details : Details) : Bool :=
  details.role.known.isNone && details.guest.known.isNone && details.note.known.isNone

section Rendered

/- `scrub` masks the secrets this server was handed.  They are a set, filled when an
entry is read and complete before anything here is rendered. -/
variable (scrub : String → String)

def reportedGuest (details : Details) : Option String := details.guest.known.map scrub

def reportedNote (details : Details) : Option String := details.note.known.map scrub

def described (details : Details) : Option String :=
  let parts :=
    (details.role.known.map KernelTarget.label).toList ++
    ((details.reportedGuest scrub).map fun guest => "guest \"" ++ guest ++ "\"").toList ++
    ((details.reportedNote scrub).map fun note => "\"" ++ note ++ "\"").toList
  if parts.isEmpty then none else some (String.intercalate ", " parts)

end Rendered

end Details

/-- One configured entry as its source wrote it.  A complaint costs the field it is
about and never the profile. -/
structure Entry where
  connection : String
  details : Details := {}
  complaints : List String := []

inductive Source
  | env
  | file
  deriving DecidableEq, Repr

def Source.label : Source → String
  | .env => "the environment"
  | .file => "the profile file"

/-- Keyed by its normalized name; `name` is the spelling read first. -/
structure Profile where
  name : String
  connection : Connection
  details : Details
  source : Source
  ignored : List String
  conflicts : List String

def Profile.facts (scrub : String → String) (profile : Profile) : ProfileFacts where
  name := profile.name
  role := profile.details.role.known
  guest := profile.details.reportedGuest scrub
  note := profile.details.reportedNote scrub
  ignored := profile.ignored.map scrub

def nameLimit : Nat := 64

def isProfileName (name : String) : Bool :=
  !name.isEmpty && decide (name.utf8ByteSize ≤ nameLimit) &&
    name.toList.all fun c => c.isAlphanum || c == '-' || c == '_' || c == '.'

def isDialable (connection : String) : Bool :=
  !connection.isEmpty && !connection.toList.any isAmbiguous

def normalize (name : String) : String :=
  String.ofList (name.toList.map fun c => if c.isAlphanum then c.toLower else '_')

structure Profiles where
  entries : Std.TreeMap String Profile
  notes : List String
  file : Option String

namespace Profiles

def empty (file : Option String) : Profiles := ⟨∅, [], file⟩

def get (profiles : Profiles) (name : String) : Option Profile :=
  profiles.entries[normalize name]?

def notDialable (name : String) (source : Source) : String :=
  "profile `" ++ name ++ "` in " ++ source.label ++
    " was skipped: its connection string contains a space or a control character between " ++
    "its parameters, which no connection string does — parameters are separated by commas. " ++
    "A missing comma is the usual cause."

def notAName (source : Source) : String :=
  "an entry in " ++ source.label ++
    " was skipped: its name is not one (letters, digits, `-`, `_` or `.`, up to " ++
    toString nameLimit ++ " characters). It is not repeated here, because the usual cause is " ++
    "an entry written the wrong way round — which would make the name a connection string."

def complained (name : String) (source : Source) (complaint : String) : String :=
  "profile `" ++ name ++ "` in " ++ source.label ++ ": " ++ complaint

def differentTargets (name kept : String) (source : Source) : String :=
  "`" ++ name ++ "` and `" ++ kept ++ "` in " ++ source.label ++
    " are one name once `-`, `_` and `.` are treated alike, but name different targets, so " ++
    "neither can be used until one is renamed or removed."

def disagreement (name kept : String) (source : Source) (field : String) : String :=
  "`" ++ name ++ "` and `" ++ kept ++ "` in " ++ source.label ++
    " are one name and reach the same target, but disagree about `" ++ field ++
    "`, so that field was dropped rather than settled as whichever was read first. Rename " ++
    "or remove one of them."

/-- Takes one configured entry, or records why it could not. -/
def admits (source : Source) (profiles : Profiles) (named : String × Entry) : Profiles :=
  let (name, entry) := named
  if isProfileName name && !isDialable entry.connection then
    { profiles with notes := profiles.notes ++ [notDialable name source] }
  else if !isProfileName name then
    { profiles with notes := profiles.notes ++ [notAName source] }
  else
    let notes := profiles.notes ++ entry.complaints.map (complained name source)
    match profiles.entries[normalize name]? with
    | some kept =>
      -- An override replaces: nothing of the other source is merged in.
      if kept.source ≠ source then { profiles with notes }
      else if kept.connection.raw ≠ entry.connection then
        { profiles with
          entries := profiles.entries.insert (normalize name)
            { kept with conflicts := kept.conflicts ++ [name] }
          notes := notes ++ [differentTargets name kept.name source] }
      else
        let (details, lost) := kept.details.reconcile entry.details
        let why := lost.map (disagreement name kept.name source)
        { profiles with
          entries := profiles.entries.insert (normalize name)
            { kept with details, ignored := kept.ignored ++ why ++ entry.complaints }
          notes := notes ++ why }
    | none =>
      { profiles with
        entries := profiles.entries.insert (normalize name)
          { name
            connection := ⟨entry.connection⟩
            details := entry.details
            source
            ignored := entry.complaints
            conflicts := [] }
        notes }

def admitAll (source : Source) (entries : List (String × Entry)) (profiles : Profiles) :
    Profiles :=
  entries.foldl (admits source) profiles

/-- The environment first, then the file.  `refused` are the entries that could not be
read at all; a file that could not be read is one refusal and no entries. -/
def fromHost (file : Option String) (env fromFile : List (String × Entry))
    (refusedEnv refusedFile : List String) : Profiles :=
  let profiles := { empty file with notes := refusedEnv }
  let profiles := admitAll .env env profiles
  admitAll .file fromFile { profiles with notes := profiles.notes ++ refusedFile }

def names (profiles : Profiles) : List String := profiles.entries.values.map Profile.name

section Rendered
variable (scrub : String → String)

def listed (profiles : Profiles) : String :=
  if profiles.entries.isEmpty then "No profiles are configured on this host."
  else if profiles.entries.values.all fun profile => profile.details.isEmpty then
    "Configured profiles: " ++ String.intercalate ", " profiles.names ++ "."
  else
    let described := profiles.entries.values.map fun profile =>
      match profile.details.described scrub with
      | some detail => profile.name ++ " (" ++ detail ++ ")"
      | none => profile.name
    "Configured profiles: " ++ String.intercalate "; " described ++ "."

def howToConfigure (profiles : Profiles) : String :=
  let file :=
    match profiles.file with
    | some path =>
      "or from a JSON object in " ++ path ++ " mapping each name to its connection string — " ++
        "or to `\x7b \"connection\": …, \"role\": \"windows\"|\"hypervisor\", \"guest\": " ++
        "\"<machine>\" \x7d` where it is worth recording what that endpoint reaches and which " ++
        "machine it shares with another profile"
    | none => "or from a JSON file named by WINDBG_MCP_PROFILES"
  let notes :=
    if profiles.notes.isEmpty then ""
    else
      "\n\nThe configuration was read with problems, which may be why the profile you want is " ++
        "missing:\n- " ++ String.intercalate "\n- " (profiles.notes.map scrub)
  "Profiles are resolved by this server, on this host: from `WINDBG_MCP_PROFILE_<NAME>` in its " ++
    "environment " ++ file ++ ". Names are matched case-insensitively, with `-` and `_` " ++
    "equivalent.\n\nThis server cannot add one, but the user can, and asking them for that " ++
    "beats asking for a connection string — every later attach then names it, and the key " ++
    "stays on this host. **The file is the one to ask for now**: it is re-read on every " ++
    "attach, so adding `\x7b \"<name>\": \"net:port=<n>,key=<w.x.y.z>\" \x7d` to it works " ++
    "immediately. A `WINDBG_MCP_PROFILE_<NAME>` variable is read from *this process's* " ++
    "environment, which was fixed when it started — setting one in a shell now changes " ++
    "nothing until this server is restarted, so that route is for the MCP client's server " ++
    "definition rather than for right now." ++ notes

end Rendered

end Profiles

structure Selected where
  connection : Connection
  label : String
  facts : Option ProfileFacts

/-- Why a name resolves to nothing, with the text the caller is told. -/
inductive Refusal
  | notAName (text : String)
  | conflicting (text : String)
  | missing (text : String)

def onceEach (profile : Profile) : String :=
  String.intercalate ", " ((profile.name :: profile.conflicts).map fun name => "`" ++ name ++ "`")

def resolve (scrub : String → String) (name : String) (profiles : Profiles) :
    Except Refusal Selected :=
  if !isProfileName name then
    .error <| .notAName <|
      "`profile` must be the *name* of a connection configured on this host — letters, " ++
        "digits, `-`, `_` or `.`, e.g. \"ctf-vm\" — and the value given is not one. If it was " ++
        "a connection string, pass it as `connection` instead. " ++ profiles.listed scrub
  else
    match profiles.get name with
    | some profile =>
      if !profile.conflicts.isEmpty then
        .error <| .conflicting <|
          "the profile named `" ++ name ++ "` is configured more than once, for different " ++
            "targets: " ++ onceEach profile ++ ". Those are one name to this server, which " ++
            "treats `-`, `_` and `.` alike and ignores case, so it cannot tell which was meant " ++
            "— and dialling the wrong one would open a session on the wrong machine. Ask the " ++
            "user to rename or remove all but one; the others here are usable in the meantime. " ++
            profiles.listed scrub
      else
        .ok
          { label := "profile \"" ++ profile.name ++ "\" (" ++ profile.connection.display ++ ")"
            facts := some (profile.facts scrub)
            connection := profile.connection }
    | none =>
      .error <| .missing <|
        "no kernel connection profile named `" ++ name ++ "` is configured on this host. " ++
          profiles.listed scrub ++ " " ++ profiles.howToConfigure scrub

end WindbgMcp.KdConn
