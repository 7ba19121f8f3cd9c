import WindbgMcp.KdConn.Masked
import WindbgMcp.Record.Transcript

/-! Which remembered secrets a transcript can hold: none in a string that was scrubbed,
and those that stand in the texts that are recorded as they are. -/
namespace WindbgMcp.Record
open WindbgMcp.Library

namespace Host
variable (host : Host)

def Clean (text : String) : Prop :=
  ∀ secret ∈ host.known, ¬secret.value.toList <:+: text.toList

mutual
def shownNames : Value → List String
  | .array items => shownItemNames items
  | .object members => shownMemberNames members
  | _ => []

def shownItemNames : List Value → List String
  | [] => []
  | item :: rest => shownNames item ++ shownItemNames rest

def shownMemberNames : List (String × Value) → List String
  | [] => []
  | (name, value) :: rest =>
    name :: ((if KdConn.isSecretName name then [] else shownNames value) ++
      shownMemberNames rest)
end

def recordedNames (value : Value) : List String :=
  if (host.droppedBytes (host.scrubbed value)).isSome then ["transcript_dropped_bytes"]
  else shownNames value

def stepWords (block : String) (step : BatchStepInfo) : List String :=
  (if step.changes.isSome then ["batch_step", (host.capped (stepAt block step)).text] else []) ++
  if step.result = .unmet then [(host.capped (stepAt block step)).text] else []

/-- The words and sentences that the derived events of a tool put around the strings of
its answer. -/
def derivedWords (tool : String) (data : Value) : List String :=
  if tool ∈ resuming then []
  else if tool = "run_to_address" then
    match host.reads.runTo data with
    | none => []
    | some run => [run.verdict.name]
  else if tool = "set_breakpoint" ∨ tool = "ioctl_trace" then
    match host.reads.breakpointSet data with
    | none => []
    | some set =>
      "breakpoint" :: (host.capped (host.breakpointDetail set)).text ::
        set.replaced.map fun id => (host.capped (replacedDetail set id)).text
  else if tool = "debug_batch" then
    match host.reads.batch data with
    | none => []
    | some report =>
      report.steps.flatMap (host.stepWords "steps") ++
        report.always.flatMap (host.stepWords "always") ++
        [report.outcome.name, report.rollback.name, report.after.name]
  else []

variable {host}

theorem clean_of_prefix {text other : String} (h : host.Clean text)
    (hfront : other.toList <+: text.toList) : host.Clean other := by
  intro secret hsecret hoccurs
  exact h secret hsecret (hoccurs.trans hfront.isInfix)

theorem clean_empty : host.Clean "" := by
  intro secret _ hoccurs
  exact secret.toList_ne_nil (List.infix_nil.mp hoccurs)

theorem capped_isPrefix (text : String) : (host.capped text).text.toList <+: text.toList := by
  unfold capped Capped.of
  dsimp only
  split
  case isTrue => exact List.prefix_refl _
  case isFalse =>
    obtain ⟨dropped, hsplit, _⟩ := Utf8.truncate_spec text.toList host.limit
    rw [String.toList_ofList]
    exact ⟨dropped, hsplit.symm⟩

theorem clean_capped {text : String} (h : host.Clean text) :
    host.Clean (host.capped text).text :=
  clean_of_prefix h (capped_isPrefix text)

theorem clean_scrub (hspared : KdConn.Spared host.known) (text : String) :
    host.Clean (host.scrub text) :=
  hspared.not_infix_scrubbedText host.isAlphanumeric text

theorem clean_mask (hspared : KdConn.Spared host.known) : host.Clean KdConn.mask :=
  fun secret hsecret => (hspared secret hsecret).2.2

mutual
theorem clean_leaves (hspared : KdConn.Spared host.known) :
    (value : Value) → ∀ leaf ∈ (host.scrubbed value).leaves, host.Clean leaf
  | .string text => by
    intro leaf hleaf
    rw [List.mem_singleton.mp hleaf]
    exact clean_scrub hspared text
  | .array items => clean_itemLeaves hspared items
  | .object members => clean_memberLeaves hspared members
  | .null => by simp [scrubbed, Value.leaves]
  | .bool _ => by simp [scrubbed, Value.leaves]
  | .number _ => by simp [scrubbed, Value.leaves]

theorem clean_itemLeaves (hspared : KdConn.Spared host.known) :
    (items : List Value) → ∀ leaf ∈ Value.itemLeaves (host.scrubbedItems items), host.Clean leaf
  | [] => by simp [scrubbedItems, Value.itemLeaves]
  | item :: rest => by
    intro leaf hleaf
    rcases List.mem_append.mp hleaf with hitem | hrest
    · exact clean_leaves hspared item leaf hitem
    · exact clean_itemLeaves hspared rest leaf hrest

theorem clean_memberLeaves (hspared : KdConn.Spared host.known) :
    (members : List (String × Value)) →
      ∀ leaf ∈ Value.memberLeaves (host.scrubbedMembers members), host.Clean leaf
  | [] => by simp [scrubbedMembers, Value.memberLeaves]
  | (name, value) :: rest => by
    intro leaf hleaf
    rcases List.mem_append.mp hleaf with hvalue | hrest
    · split at hvalue
      case isTrue =>
        rw [List.mem_singleton.mp hvalue]
        exact clean_mask hspared
      case isFalse => exact clean_leaves hspared value leaf hvalue
    · exact clean_memberLeaves hspared rest leaf hrest
end

mutual
theorem names_scrubbed : (value : Value) → (host.scrubbed value).names = shownNames value
  | .string _ => rfl
  | .array items => names_scrubbedItems items
  | .object members => names_scrubbedMembers members
  | .null => rfl
  | .bool _ => rfl
  | .number _ => rfl

theorem names_scrubbedItems : (items : List Value) →
    Value.itemNames (host.scrubbedItems items) = shownItemNames items
  | [] => rfl
  | item :: rest => by
    rw [scrubbedItems, Value.itemNames, shownItemNames, names_scrubbed item,
      names_scrubbedItems rest]

theorem names_scrubbedMembers : (members : List (String × Value)) →
    Value.memberNames (host.scrubbedMembers members) = shownMemberNames members
  | [] => rfl
  | (name, value) :: rest => by
    rw [scrubbedMembers, Value.memberNames, shownMemberNames, names_scrubbedMembers rest]
    split
    · rfl
    · rw [names_scrubbed value]
end

theorem clean_payload_iff (hspared : KdConn.Spared host.known) (value : Value) :
    (∀ text ∈ (host.payload (host.scrubbed value)).strings, host.Clean text) ↔
      ∀ name ∈ host.recordedNames value, host.Clean name := by
  unfold payload recordedNames Value.strings
  cases hdropped : host.droppedBytes (host.scrubbed value) with
  | some size => simp [Value.leaves, Value.memberLeaves, Value.names, Value.memberNames]
  | none =>
    simp only [Option.isSome_none, Bool.false_eq_true, if_false, List.mem_append]
    rw [names_scrubbed]
    constructor
    · intro h name hname
      exact h name (Or.inr hname)
    · intro h text htext
      rcases htext with hleaf | hname
      · exact clean_leaves hspared value text hleaf
      · exact h text hname

def AllClean (host : Host) (texts : List String) : Prop := ∀ text ∈ texts, host.Clean text

section Lists
variable {text : String} {texts others : List String}

@[simp] theorem allClean_nil : host.AllClean [] := by
  intro text htext
  cases htext

@[simp] theorem allClean_cons :
    host.AllClean (text :: texts) ↔ host.Clean text ∧ host.AllClean texts := by
  unfold AllClean
  rw [List.forall_mem_cons]

@[simp] theorem allClean_append :
    host.AllClean (texts ++ others) ↔ host.AllClean texts ∧ host.AllClean others := by
  unfold AllClean
  rw [List.forall_mem_append]

theorem allClean_flatMap {α : Type} {items : List α} {f : α → List String} :
    host.AllClean (items.flatMap f) ↔ ∀ item ∈ items, host.AllClean (f item) := by
  unfold AllClean
  constructor
  · intro h item hitem text htext
    exact h text (List.mem_flatMap.mpr ⟨item, hitem, htext⟩)
  · intro h text htext
    obtain ⟨item, hitem, hmem⟩ := List.mem_flatMap.mp htext
    exact h item hitem text hmem

end Lists

def stringsOf (events : List Event) : List String := events.flatMap Event.strings

section Derived
variable {call : Call} {data : Value} {request : Nat} {session : Option String}

theorem clean_step_iff (hsession : host.AllClean session.toList) {block : String}
    {step : BatchStepInfo} (hstep : host.AllClean step.strings) :
    host.AllClean (stringsOf (host.stepEvents request session block step)) ↔
      host.AllClean (host.stepWords block step) := by
  unfold BatchStepInfo.strings at hstep
  rw [allClean_cons, allClean_append] at hstep
  obtain ⟨_, hdetail, hchanges⟩ := hstep
  have hshown : host.Clean (host.capped (step.detail.getD "")).text := by
    apply clean_capped
    cases hsome : step.detail with
    | none => exact clean_empty
    | some detail =>
      rw [hsome] at hdetail
      exact hdetail detail List.mem_cons_self
  unfold stepEvents stepWords stringsOf
  cases hsome : step.changes with
  | none =>
    by_cases hunmet : step.result = .unmet
    · simp [hunmet, Event.strings, hsession, hshown]
    · simp [hunmet]
  | some changes =>
    have hchange : host.Clean (host.capped changes).text := by
      rw [hsome] at hchanges
      exact clean_capped (hchanges changes List.mem_cons_self)
    by_cases hunmet : step.result = .unmet
    · simp [hunmet, Event.strings, hsession, hshown, hchange]
    · simp [hunmet, Event.strings, hsession, hchange]

theorem stringsOf_flatMap {α : Type} (items : List α) (f : α → List Event) :
    stringsOf (items.flatMap f) = items.flatMap fun item => stringsOf (f item) := by
  unfold stringsOf
  rw [List.flatMap_assoc]

theorem stringsOf_append (events later : List Event) :
    stringsOf (events ++ later) = stringsOf events ++ stringsOf later :=
  List.flatMap_append

theorem and_implied_iff {word detail some rest : Prop} :
    (word ∧ detail) ∧ (some → word) ∧ rest ↔ word ∧ detail ∧ rest :=
  ⟨fun ⟨⟨hword, hdetail⟩, _, hrest⟩ => ⟨hword, hdetail, hrest⟩,
    fun ⟨hword, hdetail, hrest⟩ => ⟨⟨hword, hdetail⟩, fun _ => hword, hrest⟩⟩

/-- With its leaves and its session clean, what a derived event can leak is what it is
put together with. -/
theorem clean_derived_iff (hdata : host.AllClean data.leaves)
    (hsession : host.AllClean (host.session call).toList) :
    host.AllClean (stringsOf (host.derived call data)) ↔
      host.AllClean (host.derivedWords call.tool data) := by
  unfold derived derivedWords
  dsimp only
  split
  case isTrue =>
    cases hread : host.reads.stop data with
    | none => simp [stringsOf]
    | some stop =>
      have hstop : host.AllClean stop.strings :=
        fun text htext => hdata text (host.reads.stop_leaves data stop hread text htext)
      unfold StopReport.strings at hstop
      rw [allClean_cons] at hstop
      simp [stringsOf, Event.strings, hsession, hstop]
  case isFalse =>
    split
    case isTrue =>
      cases hread : host.reads.runTo data with
      | none => simp [stringsOf]
      | some run =>
        have hrun : host.AllClean run.strings :=
          fun text htext => hdata text (host.reads.runTo_leaves data run hread text htext)
        unfold RunToReport.strings at hrun
        rw [allClean_cons] at hrun
        simp [stringsOf, Event.strings, hsession, hrun]
    case isFalse =>
      split
      case isTrue =>
        cases host.reads.breakpointSet data with
        | none => simp [stringsOf]
        | some set =>
          have hreplaced : host.AllClean (stringsOf (set.replaced.map fun id =>
              .mutation call.request (host.session call) "breakpoint"
                (host.capped (replacedDetail set id)) none)) ↔
              (set.replaced ≠ [] → host.Clean "breakpoint") ∧
                host.AllClean (set.replaced.map fun id =>
                  (host.capped (replacedDetail set id)).text) := by
            induction set.replaced with
            | nil => simp [stringsOf]
            | cons id replaced ih =>
              have hcons : ∀ (event : Event) (events : List Event),
                  stringsOf (event :: events) = event.strings ++ stringsOf events :=
                fun _ _ => List.flatMap_cons
              rw [List.map_cons, hcons, allClean_append, ih]
              simp only [Event.strings, allClean_cons, hsession, Option.toList_none,
                List.map_nil, List.append_nil, List.map_cons]
              simp
              exact and_implied_iff
          have hcons : ∀ (event : Event) (events : List Event),
              stringsOf (event :: events) = event.strings ++ stringsOf events :=
            fun _ _ => List.flatMap_cons
          rw [hcons, allClean_append, hreplaced]
          simp [Event.strings, hsession]
          exact and_implied_iff
      case isFalse =>
        split
        case isTrue =>
          unfold batchEvents
          cases hread : host.reads.batch data with
          | none => simp [stringsOf]
          | some report =>
            have hsteps : ∀ step ∈ report.steps ++ report.always, host.AllClean step.strings :=
              fun step hstep text htext =>
                hdata text (host.reads.batch_leaves data report hread step hstep text htext)
            have hblock : ∀ (block : String) (steps : List BatchStepInfo),
                (∀ step ∈ steps, host.AllClean step.strings) →
                (host.AllClean (stringsOf (steps.flatMap
                    (host.stepEvents call.request (host.session call) block))) ↔
                  host.AllClean (steps.flatMap (host.stepWords block))) := by
              intro block steps hclean
              rw [stringsOf_flatMap, allClean_flatMap, allClean_flatMap]
              apply forall₂_congr
              intro step hstep
              exact clean_step_iff hsession (hclean step hstep)
            dsimp only
            rw [stringsOf_append, stringsOf_append, allClean_append, allClean_append,
              hblock "steps" _ fun step hstep => hsteps step (List.mem_append_left _ hstep),
              hblock "always" _ fun step hstep => hsteps step (List.mem_append_right _ hstep)]
            simp [stringsOf, Event.strings, hsession]
            constructor
            · rintro ⟨⟨hwords, halways⟩, houtcome, hafter, hrollback⟩
              exact ⟨hwords, halways, houtcome, hrollback, hafter⟩
            · rintro ⟨hwords, halways, houtcome, hrollback, hafter⟩
              exact ⟨⟨hwords, halways⟩, houtcome, hafter, hrollback⟩
        case isFalse => simp [stringsOf]

end Derived
theorem clean_requestSession (hspared : KdConn.Spared host.known) (args : Option Value) :
    host.AllClean (host.requestSession args).toList := by
  unfold requestSession
  cases (args.bind (Value.get · "session_id")).bind Value.asStr with
  | none => exact allClean_nil
  | some id =>
    rw [Option.map_some, Option.toList_some, allClean_cons]
    exact ⟨clean_capped (clean_scrub hspared id), allClean_nil⟩

theorem clean_session_iff (hspared : KdConn.Spared host.known) (call : Call) :
    host.AllClean (host.session call).toList ↔ ∀ session ∈ call.routed, host.Clean session := by
  unfold session
  cases call.routed with
  | none => simp [clean_requestSession hspared]
  | some session => simp

/-- The ceiling takes strings out of a line and puts in the name of the event alone. -/
theorem clean_write (lineLength : Event → Nat) {event : Event}
    (hevent : host.AllClean event.strings) (hkind : host.Clean event.kind) :
    host.AllClean (host.write lineLength event).strings := by
  unfold write
  split
  · exact allClean_cons.mpr ⟨hkind, allClean_nil⟩
  · exact hevent

/-- A secret that a tool call puts into the transcript stands in a text that is recorded
without being scrubbed: the tool's name, the session the call was routed to, a member name
of the arguments or of the data, or the words of a derived event. -/
theorem recorded_clean_iff (host : Host)
    (hspared : ∀ secret ∈ host.known, '<' ∉ secret.value.toList ∧ '>' ∉ secret.value.toList ∧
      ¬secret.value.toList <:+: KdConn.mask.toList) (call : Call) :
    (∀ event ∈ host.written call, ∀ text ∈ event.strings, host.Clean text) ↔
      host.Clean call.tool ∧ (∀ session ∈ call.routed, host.Clean session) ∧
      (∀ args ∈ call.args, ∀ name ∈ host.recordedNames args, host.Clean name) ∧
      ∀ data ∈ call.data, (∀ name ∈ host.recordedNames data, host.Clean name) ∧
        ∀ word ∈ host.derivedWords call.tool (host.scrubbed data), host.Clean word := by
  have hargs := clean_payload_iff hspared
  have hderived : ∀ data, host.AllClean (host.session call).toList →
      (host.AllClean (stringsOf (host.derived call (host.scrubbed data))) ↔
        host.AllClean (host.derivedWords call.tool (host.scrubbed data))) :=
    fun data hsession => clean_derived_iff (clean_leaves hspared data) hsession
  have htext := clean_capped (clean_scrub hspared call.text)
  have hrequest : host.AllClean (host.toolRequest call).strings ↔ host.Clean call.tool ∧
      ∀ args ∈ call.args, ∀ name ∈ host.recordedNames args, host.Clean name := by
    unfold toolRequest Event.strings
    rw [allClean_cons, allClean_append]
    simp only [clean_requestSession hspared, true_and]
    cases call.args with
    | none => simp
    | some args =>
      simp only [Option.map_some, Option.toList_some, List.flatMap_singleton, Option.mem_some_iff,
        forall_eq']
      rw [← hargs]
      rfl
  have hresult : host.AllClean (stringsOf (host.toolResult call)) ↔ host.Clean call.tool ∧
      (∀ session ∈ call.routed, host.Clean session) ∧
      ∀ data ∈ call.data, (∀ name ∈ host.recordedNames data, host.Clean name) ∧
        ∀ word ∈ host.derivedWords call.tool (host.scrubbed data), host.Clean word := by
    unfold toolResult stringsOf
    dsimp only
    rw [List.flatMap_cons, allClean_append, Event.strings, allClean_cons, allClean_cons,
      allClean_append, ← clean_session_iff hspared call]
    simp only [htext, true_and]
    rw [and_assoc, and_assoc]
    apply and_congr_right
    intro _
    apply and_congr_right
    intro hsession
    cases call.data with
    | none => simp
    | some data =>
      simp only [Option.map_some, Option.toList_some, List.flatMap_singleton, Option.mem_some_iff,
        forall_eq']
      rw [← hargs]
      exact and_congr_right fun _ => hderived data hsession
  have hwritten : (∀ event ∈ host.written call, ∀ text ∈ event.strings, host.Clean text) ↔
      host.AllClean (host.toolRequest call).strings ∧
        host.AllClean (stringsOf (host.toolResult call)) := by
    unfold written
    rw [List.forall_mem_cons, stringsOf, allClean_flatMap]
    rfl
  rw [hwritten, hrequest, hresult]
  constructor
  · rintro ⟨⟨htool, hnames⟩, _, hsession, hdata⟩
    exact ⟨htool, hsession, hnames, hdata⟩
  · rintro ⟨htool, hsession, hnames, hdata⟩
    exact ⟨⟨htool, hnames⟩, htool, hsession, hdata⟩

end Host

def unread : Reads where
  stop _ := none
  runTo _ := none
  breakpointSet _ := none
  batch _ := none
  category _ := none
  stop_leaves := by simp
  runTo_leaves := by simp
  batch_leaves := by simp

def keyed : Host where
  isAlphanumeric := Char.isAlphanum
  known := KdConn.nestedKeys
  limit := 0
  rendered _ := some 18
  quoted := id
  reads := unread

def misplaced : Call where
  request := 1
  tool := "execute"
  args := some (.object [("1.2.3.4", .null)])
  routed := none
  isError := true
  elapsedMs := 0
  text := "missing field command"
  data := none

theorem keyed_spared : ∀ secret ∈ keyed.known, '<' ∉ secret.value.toList ∧
    '>' ∉ secret.value.toList ∧ ¬secret.value.toList <:+: KdConn.mask.toList :=
  KdConn.nestedKeys_spared

def placed : Call :=
  { misplaced with args := some (.object [("command", .string "key=1.2.3.4")]) }

theorem keyed_clean {text : String}
    (h : KdConn.nestedKeys.all (fun secret =>
      (Text.splitAtFirst secret.value.toList text.toList).isNone) = true) :
    keyed.Clean text := by
  intro secret hsecret
  apply Text.splitAtFirst_isNone_iff.mp
  exact Option.isNone_iff_eq_none.mp (List.all_eq_true.mp h secret hsecret)

theorem recorded_clean_iff_placed : keyed.written placed ≠ [] ∧
    ∀ event ∈ keyed.written placed, ∀ text ∈ event.strings, keyed.Clean text := by
  refine ⟨List.cons_ne_nil _ _, ?_⟩
  exact (Host.recorded_clean_iff keyed keyed_spared placed).mpr
    ⟨keyed_clean (by decide), by simp [placed, misplaced], by
      simp only [placed, Option.mem_some_iff, forall_eq', Host.recordedNames, Host.droppedBytes,
        keyed, Host.shownNames, Host.shownMemberNames]
      simp
      exact keyed_clean (by decide), by simp [placed, misplaced]⟩

/-- The member's name is written as it came. -/
theorem key_recorded :
    ¬∀ (host : Host), (∀ secret ∈ host.known, '<' ∉ secret.value.toList ∧
        '>' ∉ secret.value.toList ∧ ¬secret.value.toList <:+: KdConn.mask.toList) →
      ∀ (call : Call), ∀ event ∈ host.written call, ∀ text ∈ event.strings,
        host.Clean text := by
  intro hclaim
  have hclean := hclaim keyed keyed_spared misplaced (keyed.toolRequest misplaced)
    List.mem_cons_self "1.2.3.4" (by simp [Host.toolRequest, misplaced, Event.strings,
      Host.payload, Host.droppedBytes, keyed, Value.strings, Value.names, Value.memberNames,
      Host.scrubbed, Host.scrubbedMembers])
  exact hclean _ List.mem_cons_self (List.infix_refl _)

end WindbgMcp.Record
