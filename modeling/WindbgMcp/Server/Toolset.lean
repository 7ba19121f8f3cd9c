import Mathlib.Data.Finset.Union
import WindbgMcp.Library.Fallible
import WindbgMcp.Library.Splitting

/-! The tool surface a comma-separated spec selects (`toolset.rs`): what its entries name, together
and in whatever order, with the session group. -/
namespace WindbgMcp.Server
open Library

def all : String := "all"

def always : String := "session"

structure Group where
  name : String
  tools : List String
  /-- A group the default surface leaves out. -/
  extra : Bool
  deriving DecidableEq, Repr

def groups : List Group :=
  [ { name := always, extra := false
      tools :=
        ["open_dump", "open_trace", "attach_kernel", "attach_kernel_local", "attach_process",
         "launch", "end_session", "session_status", "server_log", "interrupt"] },
    { name := "inspect", extra := false
      tools :=
        ["registers", "current_location", "backtrace", "disassemble", "read_memory", "modules",
         "threads", "execute", "dx", "set_symbol_path"] },
    { name := "exec", extra := false
      tools :=
        ["go", "step_over", "step_into", "run_to_address", "set_breakpoint", "breakpoints",
         "clear_breakpoints", "continue_async", "wait_for_stop", "break_in"] },
    { name := "ttd", extra := false
      tools :=
        ["record_trace", "index_trace", "goto_position", "reverse_go", "step_back",
         "step_over_back", "ttd_calls", "ttd_memory", "ttd_events"] },
    { name := "ioctl", extra := false
      tools :=
        ["decode_ioctl", "driver_object", "device_object", "irp_stack", "ioctl_trace",
         "reachable_from_dispatch", "driver_hazards", "xrefs_to", "ioctl_map", "device_security",
         "driver_surface"] },
    { name := "allocator", extra := false
      tools :=
        ["pool_find_tag", "pool_chunk", "pool_census", "pool_diagnostics", "pool_trace",
         "pool_trace_read", "heap_list", "heap_allocations", "heap_chunk", "heap_census",
         "heap_diagnostics", "walk_memory"] },
    { name := "crash", extra := false
      tools :=
        ["crash_triage", "exception_triage", "decode_error_reporting"] },
    { name := "batch", extra := false
      tools :=
        ["debug_batch"] },
    { name := "securekernel", extra := true
      tools :=
        ["open_sk_capture", "sk_modules", "sk_read_memory", "sk_symbol", "open_sk_live_control",
         "open_sk_kd", "open_sk_debugger", "sk_live_arm", "sk_live_wait", "sk_live_break",
         "sk_live_registers", "sk_live_read_memory", "sk_live_write_memory", "sk_live_step",
         "sk_live_continue_to_breakpoints", "sk_live_continue_to_software_breakpoints",
         "sk_live_continue", "sk_service_trace", "sk_service_trace_read", "sk_call_trace",
         "sk_call_trace_read", "hv_transition_trace", "hv_transition_trace_read"] } ]

structure Toolset where
  included : Option (Finset String)
  deriving DecidableEq

namespace Toolset

structure Reading where
  included : Finset String := ∅
  namedAnything : Bool := false
  everything : Bool := false
  deriving DecidableEq

def all : Toolset := ⟨none⟩

def vocabulary : String :=
  "Groups: " ++ String.intercalate ", " (groups.map Group.name) ++ " (or `" ++ Server.all ++
    "`, or any tool's own name); `" ++ always ++ "` is always included."

def default : Toolset :=
  ⟨some ((groups.filter fun group => !group.extra).flatMap Group.tools).toFinset⟩

def entries (spec : String) : List String :=
  ((Text.split (· == ',') spec).map Text.trim).filter fun entry => !entry.isEmpty

/-- One entry.  `all` is noted and not returned on, so that every entry behind it is read too. -/
def take (source : String) (reading : Reading) (entry : String) : Except String Reading :=
  let reading := { reading with namedAnything := true }
  if entry = Server.all then .ok { reading with everything := true }
  else
    match groups.find? fun group => group.name == entry with
    | some group => .ok { reading with included := reading.included ∪ group.tools.toFinset }
    | none =>
      match (groups.flatMap Group.tools).find? fun tool => tool == entry with
      | some tool => .ok { reading with included := insert tool reading.included }
      | none =>
        .error (source ++ ": `" ++ entry ++ "` is neither a group nor a tool. " ++ vocabulary)

def session : Finset String :=
  match groups.find? fun group => group.name == always with
  | some group => group.tools.toFinset
  | none => ∅

def parseFrom (spec source : String) : Except String Toolset := do
  let reading ← (entries spec).foldlM (take source) {}
  if !reading.namedAnything then throw (source ++ " selects nothing. " ++ vocabulary)
  if reading.everything then return all
  return ⟨some (reading.included ∪ session)⟩

def includes (toolset : Toolset) (name : String) : Bool :=
  match toolset.included with
  | none => true
  | some included => decide (name ∈ included)

def «exists» (name : String) : Bool := (groups.flatMap Group.tools).any fun tool => tool == name

/-! ## What an entry names -/

def Known (entry : String) : Prop :=
  entry = Server.all ∨ (∃ group ∈ groups, group.name = entry) ∨
    ∃ group ∈ groups, entry ∈ group.tools

def Names (entry tool : String) : Prop :=
  ∃ group ∈ groups, tool ∈ group.tools ∧ (group.name = entry ∨ tool = entry)

def toolsOf (entry : String) : Finset String :=
  (groups.flatMap fun group => group.tools.filter fun tool =>
    group.name == entry || tool == entry).toFinset

theorem mem_toolsOf {entry tool : String} : tool ∈ toolsOf entry ↔ Names entry tool := by
  simp [toolsOf, Names]

theorem groups_distinct : (groups.map Group.name).Nodup := by decide +kernel

theorem groups_apart : ∀ group ∈ groups, ∀ other ∈ groups,
    other.name ∉ group.tools ∧ Server.all ∉ group.tools ∧ group.name ≠ Server.all := by
  decide +kernel

theorem toolsOf_group {group : Group} (h : group ∈ groups) :
    toolsOf group.name = group.tools.toFinset := by
  ext tool
  rw [mem_toolsOf, List.mem_toFinset]
  constructor
  · rintro ⟨other, hother, htool, hname | rfl⟩
    · rwa [← List.inj_on_of_nodup_map groups_distinct hother h hname]
    · exact absurd htool (groups_apart other hother group h).1
  · exact fun htool => ⟨group, h, htool, .inl rfl⟩

theorem toolsOf_tool {group : Group} {tool : String} (h : group ∈ groups)
    (htool : tool ∈ group.tools) : toolsOf tool = {tool} := by
  ext other
  rw [mem_toolsOf, Finset.mem_singleton]
  constructor
  · rintro ⟨named, hnamed, hother, hname | hsame⟩
    · exact absurd (hname ▸ htool) (groups_apart group h named hnamed).1
    · exact hsame
  · rintro rfl
    exact ⟨group, h, htool, .inr rfl⟩

theorem toolsOf_all : toolsOf Server.all = ∅ := by
  rw [Finset.eq_empty_iff_forall_notMem]
  intro tool htool
  obtain ⟨group, hgroup, hmem, hname | rfl⟩ := mem_toolsOf.mp htool
  · exact (groups_apart group hgroup group hgroup).2.2 hname
  · exact (groups_apart group hgroup group hgroup).2.1 hmem

theorem session_eq : session = toolsOf always := by
  unfold session
  cases hfind : groups.find? fun group => group.name == always with
  | none => exact absurd hfind (by decide +kernel)
  | some group =>
    have hname : group.name = always :=
      beq_iff_eq.mp (@List.find?_some _ (fun group : Group => group.name == always) _ _ hfind)
    rw [← hname, toolsOf_group (List.mem_of_find?_eq_some hfind)]

/-! ## Reading the entries -/

def Reading.add (reading : Reading) (entry : String) : Reading where
  included := reading.included ∪ toolsOf entry
  namedAnything := true
  everything := reading.everything || entry == Server.all

theorem take_eq_ok {source entry : String} {reading after : Reading} :
    take source reading entry = .ok after ↔ Known entry ∧ reading.add entry = after := by
  unfold take Reading.add
  dsimp only
  by_cases hall : entry = Server.all
  · rw [if_pos hall, hall, toolsOf_all, Finset.union_empty, beq_self_eq_true, Bool.or_true,
      Except.ok.injEq]
    exact (and_iff_right (.inl rfl)).symm
  rw [if_neg hall, beq_false_of_ne hall, Bool.or_false]
  cases hgroup : groups.find? fun group => group.name == entry with
  | some group =>
    have hmem := List.mem_of_find?_eq_some hgroup
    obtain rfl : group.name = entry :=
      beq_iff_eq.mp (@List.find?_some _ (fun group : Group => group.name == entry) _ _ hgroup)
    dsimp only
    rw [toolsOf_group hmem, Except.ok.injEq]
    exact (and_iff_right (.inr (.inl ⟨group, hmem, rfl⟩))).symm
  | none =>
    dsimp only
    cases htool : (groups.flatMap Group.tools).find? fun tool => tool == entry with
    | some tool =>
      obtain rfl : tool = entry :=
        beq_iff_eq.mp (@List.find?_some _ (fun tool : String => tool == entry) _ _ htool)
      obtain ⟨group, hgroup, hmem⟩ := List.mem_flatMap.mp (List.mem_of_find?_eq_some htool)
      dsimp only
      rw [toolsOf_tool hgroup hmem, Except.ok.injEq, Finset.union_comm, ← Finset.insert_eq]
      exact (and_iff_right (.inr (.inr ⟨group, hgroup, hmem⟩))).symm
    | none =>
      refine iff_of_false nofun ?_
      rintro ⟨hknown | ⟨group, hmem, hname⟩ | ⟨group, hmem, hname⟩, -⟩
      · exact hall hknown
      · exact absurd (beq_iff_eq.mpr hname) (List.find?_eq_none.mp hgroup group hmem)
      · exact absurd (beq_self_eq_true entry) (List.find?_eq_none.mp htool entry
          (List.mem_flatMap.mpr ⟨group, hmem, hname⟩))

theorem takes_eq_ok {source : String} {words : List String} : ∀ {reading after : Reading},
    words.foldlM (take source) reading = .ok after ↔
      (∀ entry ∈ words, Known entry) ∧ words.foldl Reading.add reading = after := by
  induction words with
  | nil =>
    intro reading after
    rw [and_iff_right (List.forall_mem_nil _)]
    exact ⟨Except.ok.inj, congrArg Except.ok⟩
  | cons word words ih =>
    intro reading after
    rw [List.foldlM_cons, bind_eq_ok, List.forall_mem_cons, List.foldl_cons]
    constructor
    · rintro ⟨middle, hword, hwords⟩
      obtain ⟨hknown, rfl⟩ := take_eq_ok.mp hword
      obtain ⟨hrest, hafter⟩ := ih.mp hwords
      exact ⟨⟨hknown, hrest⟩, hafter⟩
    · rintro ⟨⟨hknown, hrest⟩, hafter⟩
      exact ⟨_, take_eq_ok.mpr ⟨hknown, rfl⟩, ih.mpr ⟨hrest, hafter⟩⟩

theorem foldl_add_included {words : List String} {tool : String} : ∀ {reading : Reading},
    tool ∈ (words.foldl Reading.add reading).included ↔
      tool ∈ reading.included ∨ ∃ entry ∈ words, Names entry tool := by
  induction words with
  | nil => simp
  | cons word words ih =>
    intro reading
    rw [List.foldl_cons, ih, Reading.add, Finset.mem_union, mem_toolsOf, or_assoc,
      List.exists_mem_cons_iff]

theorem foldl_add_namedAnything {words : List String} : ∀ {reading : Reading},
    (words.foldl Reading.add reading).namedAnything =
      (reading.namedAnything || !words.isEmpty) := by
  induction words with
  | nil => simp
  | cons word words ih =>
    intro reading
    rw [List.foldl_cons, ih, Reading.add, Bool.true_or, List.isEmpty_cons, Bool.not_false,
      Bool.or_true]

theorem foldl_add_everything {words : List String} : ∀ {reading : Reading},
    (words.foldl Reading.add reading).everything =
      (reading.everything || words.contains Server.all) := by
  induction words with
  | nil => simp
  | cons word words ih =>
    intro reading
    rw [List.foldl_cons, ih, Reading.add, List.contains_cons, Bool.or_assoc, BEq.comm]

/-! ## A spec -/

def selected (words : List String) : Toolset :=
  if Server.all ∈ words then all else ⟨some ((words.foldl Reading.add {}).included ∪ session)⟩

theorem parseFrom_eq_ok {spec source : String} {toolset : Toolset} :
    parseFrom spec source = .ok toolset ↔
      entries spec ≠ [] ∧ (∀ entry ∈ entries spec, Known entry) ∧
        selected (entries spec) = toolset := by
  unfold parseFrom selected
  simp only [bind_eq_ok, takes_eq_ok]
  constructor
  · rintro ⟨reading, ⟨hknown, rfl⟩, h⟩
    rw [foldl_add_namedAnything, foldl_add_everything] at h
    cases hentries : (entries spec).isEmpty with
    | true =>
      rw [hentries] at h
      cases h
    | false =>
      rw [hentries] at h
      refine ⟨List.isEmpty_eq_false_iff.mp hentries, hknown, ?_⟩
      by_cases hall : Server.all ∈ entries spec
      · rw [if_pos hall]
        rw [List.contains_iff_mem.mpr hall] at h
        exact Except.ok.inj h
      · rw [if_neg hall]
        rw [Bool.eq_false_iff.mpr fun h => hall (List.contains_iff_mem.mp h)] at h
        exact Except.ok.inj h
  · rintro ⟨hentries, hknown, rfl⟩
    refine ⟨_, ⟨hknown, rfl⟩, ?_⟩
    rw [foldl_add_namedAnything, foldl_add_everything, List.isEmpty_eq_false_iff.mpr hentries]
    by_cases hall : Server.all ∈ entries spec
    · rw [if_pos hall, List.contains_iff_mem.mpr hall]
      rfl
    · rw [if_neg hall, Bool.eq_false_iff.mpr fun h => hall (List.contains_iff_mem.mp h)]
      rfl

theorem isOk_parseFrom_iff {spec source : String} : (parseFrom spec source).isOk = true ↔
    entries spec ≠ [] ∧ ∀ entry ∈ entries spec, Known entry := by
  cases h : parseFrom spec source with
  | error why =>
    refine iff_of_false Bool.false_ne_true fun hentries => ?_
    rw [parseFrom_eq_ok.mpr ⟨hentries.1, hentries.2, rfl⟩] at h
    cases h
  | ok toolset =>
    have hentries := parseFrom_eq_ok.mp h
    exact iff_of_true rfl ⟨hentries.1, hentries.2.1⟩

theorem entries_append (spec other : String) :
    entries (spec ++ "," ++ other) = entries spec ++ entries other := by
  unfold entries Text.split
  have hcomma : ",".toList = [','] := by decide
  rw [String.toList_append, String.toList_append, List.append_assoc, hcomma,
    List.singleton_append, Text.splitChars_mark (by rfl), List.map_append, List.map_append,
    List.filter_append]

theorem selected_includes {words : List String} {tool : String} :
    (selected words).includes tool = true ↔
      Server.all ∈ words ∨ (∃ entry ∈ words, Names entry tool) ∨ Names always tool := by
  unfold selected
  split
  · next hall => exact iff_of_true rfl (.inl hall)
  · next hall =>
    rw [or_iff_right hall, includes, decide_eq_true_iff, Finset.mem_union, foldl_add_included,
      session_eq, mem_toolsOf, or_iff_right (Finset.notMem_empty tool)]

theorem selected_eq_all {words : List String} : selected words = all ↔ Server.all ∈ words := by
  unfold selected
  split
  · next hall => exact iff_of_true rfl hall
  · next hall => exact iff_of_false nofun hall

theorem selected_congr {words others : List String} (h : ∀ word, word ∈ words ↔ word ∈ others) :
    selected words = selected others := by
  unfold selected
  simp only [h]
  split
  · rfl
  · congr 3
    ext tool
    simp only [foldl_add_included, h]

/-- Specs compose by union: a spec parses just when it has entries and each of them is known; one
of two halves does just when each half names nothing or parses and one of them names something;
the order and the repetition of the entries do not matter; and what is served is what the entries
name with the session group, or everything just when one of them is `all`. -/
theorem specs_compose (spec other source source' source'' : String) :
    ((parseFrom spec source).isOk = true ↔
      entries spec ≠ [] ∧ ∀ entry ∈ entries spec, Known entry) ∧
    ((parseFrom (spec ++ "," ++ other) source).isOk = true ↔
      ((parseFrom spec source').isOk = true ∨ entries spec = []) ∧
        ((parseFrom other source'').isOk = true ∨ entries other = []) ∧
        (entries spec ≠ [] ∨ entries other ≠ [])) ∧
    ((∀ entry, entry ∈ entries spec ↔ entry ∈ entries other) → ∀ toolset,
      parseFrom spec source = .ok toolset ↔ parseFrom other source' = .ok toolset) ∧
    ∀ toolset, parseFrom spec source = .ok toolset →
      (∀ tool, toolset.includes tool = true ↔
        Server.all ∈ entries spec ∨ (∃ entry ∈ entries spec, Names entry tool) ∨
          Names always tool) ∧
      (toolset = all ↔ Server.all ∈ entries spec) := by
  refine ⟨isOk_parseFrom_iff, ?_, ?_, ?_⟩
  · simp only [isOk_parseFrom_iff, entries_append, List.forall_mem_append]
    constructor
    · rintro ⟨hnamed, hspec, hother⟩
      refine ⟨?_, ?_, ?_⟩
      · exact (eq_or_ne (entries spec) []).symm.imp_left fun hne => ⟨hne, hspec⟩
      · exact (eq_or_ne (entries other) []).symm.imp_left fun hne => ⟨hne, hother⟩
      · by_contra hnone
        push Not at hnone
        rw [hnone.1, hnone.2] at hnamed
        exact hnamed rfl
    · rintro ⟨hspec, hother, hnamed⟩
      refine ⟨?_, ?_, ?_⟩
      · intro hnil
        obtain ⟨hleft, hright⟩ := List.append_eq_nil_iff.mp hnil
        exact hnamed.elim (fun h => h hleft) fun h => h hright
      · rcases hspec with h | hnil
        · exact h.2
        · rw [hnil]
          exact List.forall_mem_nil _
      · rcases hother with h | hnil
        · exact h.2
        · rw [hnil]
          exact List.forall_mem_nil _
  · intro hsame toolset
    have hempty : entries spec = [] ↔ entries other = [] := by
      simp only [List.eq_nil_iff_forall_not_mem, hsame]
    rw [parseFrom_eq_ok, parseFrom_eq_ok, selected_congr hsame]
    simp only [ne_eq, hempty, hsame]
  · intro toolset h
    obtain ⟨-, -, rfl⟩ := parseFrom_eq_ok.mp h
    exact ⟨fun tool => selected_includes, selected_eq_all⟩

/-- Two halves, with an empty entry and a repeated one between them. -/
theorem specs_compose_two :
    (parseFrom "ttd,, dx,ttd" "").isOk = true ∧
      ∀ toolset, parseFrom "ttd,, dx,ttd" "" = .ok toolset →
        parseFrom "dx,ttd" "" = .ok toolset ∧ toolset.includes "ttd_calls" = true ∧
          toolset.includes "launch" = true ∧ toolset.includes "registers" = false ∧
          toolset ≠ all := by
  have hentries : entries "ttd,, dx,ttd" = ["ttd", "dx", "ttd"] := by decide +kernel
  have hother : entries "dx,ttd" = ["dx", "ttd"] := by decide +kernel
  obtain ⟨hparses, -, hsame, hserves⟩ := specs_compose "ttd,, dx,ttd" "dx,ttd" "" "" ""
  constructor
  · refine hparses.mpr ⟨by simp [hentries], ?_⟩
    rw [hentries]
    unfold Known
    decide +kernel
  intro toolset h
  obtain ⟨hincludes, hall⟩ := hserves toolset h
  rw [hentries] at hincludes hall
  refine ⟨(hsame ?_ toolset).mp h, (hincludes _).mpr ?_, (hincludes _).mpr ?_, ?_, ?_⟩
  · simp [hentries, hother, or_comm, or_left_comm]
  · exact .inr (.inl ⟨"ttd", List.mem_cons_self, mem_toolsOf.mp (by decide +kernel)⟩)
  · exact .inr (.inr (mem_toolsOf.mp (by decide +kernel)))
  · rw [Bool.eq_false_iff, ne_eq, hincludes]
    simp only [← mem_toolsOf]
    decide +kernel
  · rw [ne_eq, hall]
    decide +kernel

example : (parseFrom "all,ttdd" "").isOk = false ∧ (parseFrom "ttdd,all" "").isOk = false := by
  decide +kernel

end Toolset

end WindbgMcp.Server
