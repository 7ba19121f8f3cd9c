import WindbgMcp.Library.Fallible
import WindbgMcp.Library.LittleEndian

/-! A security descriptor in target memory: its two identifiers and its two access control
lists, read within the sizes that they give of themselves. -/
namespace WindbgMcp.SecurityDescriptor

open Library

inductive SdError where
  | unreadable (address : UInt64) (length : Nat)
  | malformed (reason : String)
deriving DecidableEq, Repr

def maxAces : Nat := 1024
def maxAclBytes : Nat := 64 * 1024
def maxSubauthorities : Nat := 15

def seDaclPresent : Nat := 0x0004
def seSaclPresent : Nat := 0x0010
def seSelfRelative : Nat := 0x8000

structure Sid where
  text : String
  name : Option String
deriving DecidableEq, Repr

inductive AceKind where
  | allow
  | deny
  | audit
  | label
  | scopedPolicy
  | other (aceType : UInt8)
deriving DecidableEq, Repr

def AceKind.carriesSid : AceKind → Bool
  | .other _ => false
  | _ => true

structure Ace where
  kind : AceKind
  aceType : UInt8
  flags : UInt8
  mask : Nat
  conditional : Bool
  callback : Bool
  sid : Option Sid
deriving DecidableEq, Repr

structure Acl where
  revision : UInt8
  aceCount : Nat
  aces : List Ace
deriving DecidableEq, Repr

structure Descriptor where
  revision : UInt8
  control : Nat
  owner : Option Sid
  group : Option Sid
  dacl : Option Acl
  sacl : Option Acl
deriving DecidableEq, Repr

abbrev Reader := UInt64 → Nat → Option (List UInt8)

def readExactly (read : Reader) (address : UInt64) (length : Nat) :
    Except SdError (List UInt8) :=
  match read address length with
  | none => .error (.unreadable address length)
  | some bytes => if bytes.length < length then .error (.unreadable address length) else .ok bytes

def wellKnownSids : List ((Nat × List Nat) × String) :=
  [((0, [0]), "NULL"), ((1, [0]), "Everyone"), ((2, [0]), "LOCAL"), ((3, [0]), "CREATOR OWNER"),
    ((3, [1]), "CREATOR GROUP"), ((5, [1]), "DIALUP"), ((5, [2]), "NETWORK"), ((5, [3]), "BATCH"),
    ((5, [4]), "INTERACTIVE"), ((5, [6]), "SERVICE"), ((5, [7]), "ANONYMOUS LOGON"),
    ((5, [11]), "Authenticated Users"), ((5, [12]), "RESTRICTED"),
    ((5, [13]), "TERMINAL SERVER USER"), ((5, [14]), "REMOTE INTERACTIVE LOGON"),
    ((5, [15]), "This Organization"), ((5, [18]), "SYSTEM"), ((5, [19]), "LOCAL SERVICE"),
    ((5, [20]), "NETWORK SERVICE"), ((5, [33]), "WRITE RESTRICTED"), ((5, [113]), "Local account"),
    ((5, [114]), "Local account and member of Administrators group"),
    ((5, [32, 544]), "Administrators"), ((5, [32, 545]), "Users"), ((5, [32, 546]), "Guests"),
    ((5, [32, 547]), "Power Users"), ((5, [32, 551]), "Backup Operators"),
    ((5, [32, 555]), "Remote Desktop Users"), ((5, [32, 559]), "Performance Log Users"),
    ((5, [32, 568]), "IIS_IUSRS"), ((5, [32, 573]), "Event Log Readers"),
    ((15, [2, 1]), "ALL APPLICATION PACKAGES"),
    ((15, [2, 2]), "ALL RESTRICTED APPLICATION PACKAGES"),
    ((16, [0]), "Untrusted Mandatory Level"), ((16, [4096]), "Low Mandatory Level"),
    ((16, [8192]), "Medium Mandatory Level"), ((16, [8448]), "Medium Plus Mandatory Level"),
    ((16, [12288]), "High Mandatory Level"), ((16, [16384]), "System Mandatory Level")]

def wellKnown (authority : Nat) (subs : List Nat) : Option String :=
  (wellKnownSids.find? fun entry => entry.1 == (authority, subs)).map (·.2)

def sidText (revision authority : Nat) (subs : List Nat) : String :=
  "S-" ++ toString revision ++ "-" ++ toString authority ++
    String.join (subs.map fun sub => "-" ++ toString sub)

def sidFrom (bytes : List UInt8) : Except SdError Sid := do
  insist (8 ≤ bytes.length) (.malformed "a SID is too short to carry its own header")
  let revision := bytes.getD 0 0
  insist (revision = 1) (.malformed "a SID's revision is not 1")
  let count := (bytes.getD 1 0).toNat
  insist (count ≤ maxSubauthorities)
    (.malformed "a SID claims more sub-authorities than a SID has")
  insist (8 + count * 4 ≤ bytes.length)
    (.malformed "a SID is shorter than the sub-authorities it claims")
  -- the identifier authority is big-endian, alone among these fields
  let authority := ((bytes.drop 2).take 6).foldl (fun value byte => value <<< 8 ||| byte.toNat) 0
  let subs := (List.range count).map fun index => LittleEndian.slice bytes (8 + index * 4) 4
  .ok ⟨sidText revision.toNat authority subs, wellKnown authority subs⟩

def readSid (read : Reader) (address : UInt64) : Except SdError Sid := do
  let header ← readExactly read address 8
  let count := (header.getD 1 0).toNat
  insist (count ≤ maxSubauthorities)
    (.malformed "a SID claims more sub-authorities than a SID has")
  let bytes ← readExactly read address (8 + count * 4)
  sidFrom bytes

def conditionalAceSignature : List UInt8 := [0x61, 0x72, 0x74, 0x78]

def AceKind.ofType (aceType : UInt8) : AceKind :=
  if aceType = 0x00 ∨ aceType = 0x09 then .allow
  else if aceType = 0x01 ∨ aceType = 0x0a then .deny
  else if aceType = 0x02 ∨ aceType = 0x0d then .audit
  else if aceType = 0x11 then .label
  else if aceType = 0x13 then .scopedPolicy
  else .other aceType

/-- Whether the application data behind the principal of a callback entry opens with the
signature of a conditional expression. -/
def isConditional (aceType : UInt8) (body : List UInt8) : Bool :=
  (aceType == 0x09 || aceType == 0x0a || aceType == 0x0d) &&
    (body[9]?).any fun count =>
      let start := 16 + 4 * count.toNat
      decide (start + 4 ≤ body.length) && (body.drop start).take 4 == conditionalAceSignature

def readAce (aceType flags : UInt8) (body : List UInt8) : Except SdError Ace := do
  let callback := decide (0x09 ≤ aceType) && decide (aceType ≤ 0x10)
  let kind := AceKind.ofType aceType
  insist (8 ≤ body.length) (.malformed "an ACE is too short to carry an access mask")
  let mask := LittleEndian.slice body 4 4
  let sid := if kind.carriesSid then (sidFrom (body.drop 8)).toOption else none
  .ok ⟨kind, aceType, flags, mask, isConditional aceType body, callback, sid⟩

/-- The entries from `cursor` on, at most `count` of them. -/
def readAces (bytes : List UInt8) (size : Nat) : Nat → Nat → Except SdError (List Ace)
  | 0, _ => .ok []
  | count + 1, cursor =>
    -- the header may say more entries than the size holds; what was read stands
    if size < cursor + 4 then .ok []
    else do
      let aceType := bytes.getD cursor 0
      let flags := bytes.getD (cursor + 1) 0
      let aceSize := LittleEndian.slice bytes (cursor + 2) 2
      insist (4 ≤ aceSize ∧ cursor + aceSize ≤ size)
        (.malformed "an ACE's size runs past the end of its ACL")
      let ace ← readAce aceType flags ((bytes.drop cursor).take aceSize)
      let aces ← readAces bytes size count (cursor + aceSize)
      .ok (ace :: aces)

def readAcl (read : Reader) (address : UInt64) : Except SdError Acl := do
  let header ← readExactly read address 8
  let revision := header.getD 0 0
  let size := LittleEndian.slice header 2 2
  let aceCount := LittleEndian.slice header 4 2
  insist (8 ≤ size ∧ size ≤ maxAclBytes)
    (.malformed "the ACL's size is not a size an access control list has")
  insist (aceCount ≤ maxAces)
    (.malformed "the ACL claims more entries than an access control list plausibly has")
  let bytes ← readExactly read address size
  let aces ← readAces bytes size aceCount 8
  .ok ⟨revision, aceCount, aces⟩

def sidAt (read : Reader) (address : UInt64) (offset : Nat) : Except SdError (Option Sid) :=
  if offset = 0 then .ok none else some <$> readSid read (address + UInt64.ofNat offset)

/-- The list that a control bit says is there.  With the bit set, offset zero is a list that
is present and absent. -/
def aclAt (read : Reader) (address : UInt64) (control present offset : Nat) :
    Except SdError (Option Acl) :=
  if control &&& present ≠ 0 ∧ offset ≠ 0 then
    some <$> readAcl read (address + UInt64.ofNat offset)
  else .ok none

def readDescriptor (read : Reader) (address : UInt64) : Except SdError Descriptor := do
  let header ← readExactly read address 20
  let revision := header.getD 0 0
  insist (revision = 1) (.malformed "the security descriptor's revision is not 1")
  let control := LittleEndian.slice header 2 2
  insist (control &&& seSelfRelative ≠ 0)
    (.malformed "the security descriptor is not self-relative, so its fields are pointers rather than offsets and this cannot read them")
  let owner ← sidAt read address (LittleEndian.slice header 4 4)
  let group ← sidAt read address (LittleEndian.slice header 8 4)
  let dacl ← aclAt read address control seDaclPresent (LittleEndian.slice header 16 4)
  let sacl ← aclAt read address control seSaclPresent (LittleEndian.slice header 12 4)
  .ok ⟨revision, control, owner, group, dacl, sacl⟩

end WindbgMcp.SecurityDescriptor
