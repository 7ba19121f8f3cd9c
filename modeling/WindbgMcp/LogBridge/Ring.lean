import WindbgMcp.Library.Run
import WindbgMcp.Library.Utf8

/-! The ring of log records (`logbridge.rs`) and a caller that pages through it with
the cursor of each answer. -/
namespace WindbgMcp.LogBridge
open WindbgMcp.Library

inductive Level
  | error
  | warn
  | info
  | debug
  | trace
  deriving DecidableEq, Repr

def Level.rank : Level → Nat
  | .error => 0
  | .warn => 1
  | .info => 2
  | .debug => 3
  | .trace => 4

structure Entry where
  seq : Nat
  atMs : Nat
  level : Level
  target : String
  session : Option String
  message : String
  deriving DecidableEq, Repr

def messageLimit : Nat := 4096

def clip (message : String) : String :=
  let full := Utf8.byteLen message.toList
  if full ≤ messageLimit then message
  else
    String.ofList (Utf8.truncate message.toList messageLimit) ++
      "… (" ++ toString full ++ " bytes in all)"

structure Record where
  level : Level
  atMs : Nat
  target : String
  session : Option String
  message : String

def Record.entry (record : Record) (seq : Nat) : Entry :=
  ⟨seq, record.atMs, record.level, record.target, record.session, clip record.message⟩

structure Query where
  session : Option String
  level : Level
  since : Option Nat
  limit : Nat
  /-- The session ids the caller owns; `none` is everything. -/
  visible : Option (List String)

structure Tail where
  entries : List Entry
  matched : Nat
  nextSince : Nat
  held : Nat
  capacity : Nat
  oldestSeq : Option Nat
  deriving DecidableEq, Repr

structure Ring where
  entries : List Entry
  nextSeq : Nat
  capacity : Nat

namespace Ring

def new (capacity : Nat) : Ring := ⟨[], 0, capacity⟩

def evicted (ring : Ring) : Option Entry :=
  if ring.entries.length = ring.capacity then ring.entries.head? else none

def file (ring : Ring) (record : Record) : Ring :=
  let kept := if ring.entries.length = ring.capacity then ring.entries.tail else ring.entries
  ⟨kept ++ [record.entry ring.nextSeq], ring.nextSeq + 1, ring.capacity⟩

end Ring

/-- A record about someone else's session is not the caller's to read; one about no
session is everyone's. -/
def mayRead (visible : Option (List String)) (session : Option String) : Bool :=
  match visible, session with
  | some mine, some about => mine.any (· == about)
  | _, _ => true

def Query.sees (query : Query) (entry : Entry) : Bool := mayRead query.visible entry.session

def Query.wants (query : Query) (entry : Entry) : Bool :=
  decide (entry.level.rank ≤ query.level.rank) &&
    match query.session with
    | some wanted => entry.session == some wanted
    | none => true

def Query.isNew (query : Query) (entry : Entry) : Bool :=
  match query.since with
  | some since => decide (since ≤ entry.seq)
  | none => true

def Ring.tail (ring : Ring) (query : Query) : Tail :=
  let visible := ring.entries.filter query.sees
  let matching := visible.filter fun entry => query.isNew entry && query.wants entry
  let start := matching.length - query.limit
  { entries := matching.drop start
    matched := matching.length
    -- One past the newest record the caller can see, or the cursor it came with.
    nextSince :=
      match visible.getLast? with
      | some entry => entry.seq + 1
      | none => query.since.getD 0
    held := visible.length
    capacity := ring.capacity
    oldestSeq := visible.head?.map Entry.seq }

structure Filter where
  session : Option String
  level : Level
  visible : Option (List String)

def Filter.query (filter : Filter) (since : Option Nat) (limit : Nat) : Query :=
  ⟨filter.session, filter.level, since, limit, filter.visible⟩

def Filter.accepts (filter : Filter) (entry : Entry) : Bool :=
  (filter.query none 0).sees entry && (filter.query none 0).wants entry

inductive Call
  | file (record : Record)
  | tail (limit : Nat)

/-- The ring, the cursor the caller would pass next, and the answers it has had. -/
structure Paging where
  ring : Ring
  since : Option Nat
  pages : List Tail

namespace Paging

def start (capacity : Nat) : Paging := ⟨Ring.new capacity, none, []⟩

def step (filter : Filter) (paging : Paging) : Call → Paging
  | .file record => { paging with ring := paging.ring.file record }
  | .tail limit =>
    let page := paging.ring.tail (filter.query paging.since limit)
    { paging with since := some page.nextSince, pages := paging.pages ++ [page] }

def listed (paging : Paging) : List Entry := paging.pages.flatMap Tail.entries

def Ample (filter : Filter) (paging : Paging) : Call → Prop
  | .file _ => True
  | .tail limit => (paging.ring.tail (filter.query paging.since limit)).matched ≤ limit

instance (filter : Filter) (paging : Paging) : (call : Call) → Decidable (Ample filter paging call)
  | .file _ => inferInstanceAs (Decidable True)
  | .tail limit => inferInstanceAs
    (Decidable ((paging.ring.tail (filter.query paging.since limit)).matched ≤ limit))

end Paging

def Call.record? : Call → Option Record
  | .file record => some record
  | .tail _ => none

def filed (calls : List Call) : List Entry :=
  (calls.filterMap Call.record?).mapIdx fun seq record => record.entry seq

end WindbgMcp.LogBridge
