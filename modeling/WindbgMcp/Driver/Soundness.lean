import WindbgMcp.Driver.Walk
import WindbgMcp.Driver.Reachability

/-! A `reachable` verdict rests on a concrete path: listing by listing, along flow
edges only, from where the seed's walk began to the target. -/
namespace WindbgMcp.Driver

open Library Program

/-! ## Reconstructing a path -/

/-- The chain of parents from the seed to a token, with nothing missing in it. -/
inductive Reconstructs (parent : Parents) : Option Nat → List Hop → Prop where
  | seed : Reconstructs parent none []
  | hop {token : Nat} {found : Parent} {hops : List Hop} (h : parent.lookup token = some found)
      (hcaller : Reconstructs parent found.caller hops) :
      Reconstructs parent (some token) (hops ++ [⟨found.site, found.kind, token⟩])

section

variable {parent : Parents} {token : Option Nat} {hops : List Hop}

theorem Reconstructs.loop_eq (h : Reconstructs parent token hops) {fuel : Nat}
    (hfuel : hops.length < fuel) (walked : List Hop) :
    reconstructLoop parent fuel token walked = some (walked ++ hops.reverse) := by
  induction h generalizing fuel walked with
  | seed =>
    obtain ⟨fuel, rfl⟩ := Nat.exists_eq_succ_of_ne_zero (Nat.ne_of_gt hfuel)
    simp [reconstructLoop]
  | hop hfound hcaller ih =>
    obtain ⟨fuel, rfl⟩ := Nat.exists_eq_succ_of_ne_zero (Nat.ne_of_gt (Nat.zero_lt_of_lt hfuel))
    rw [List.length_append, List.length_singleton] at hfuel
    simp only [reconstructLoop, hfound]
    rw [ih (by omega)]
    simp

theorem Reconstructs.reconstruct_eq (h : Reconstructs parent token hops)
    (hlength : hops.length ≤ parent.length) : reconstruct parent token = .done hops := by
  rw [reconstruct, h.loop_eq (Nat.lt_succ_of_le hlength)]
  simp

theorem Reconstructs.add (h : Reconstructs parent token hops) {fresh : Nat} {entry : Parent}
    (hfresh : parent.lookup fresh = none) :
    Reconstructs ((fresh, entry) :: parent) token hops := by
  induction h with
  | seed => exact .seed
  | hop hfound hcaller ih =>
    refine .hop ?_ ih
    rename_i other found hops
    have hne : (other == fresh) = false := by
      rw [beq_eq_false_iff_ne]
      rintro rfl
      rw [hfresh] at hfound
      cases hfound
    rw [List.lookup_cons, hne]
    exact hfound

end

/-! ## The path so far -/

/-- The segment's listing is what the disassembler gave for `arg`, its tables what
the resolver gave for this function, and its start one of its instructions. -/
structure Listed (trace : Trace) (arg : String) (segment : Segment) : Prop where
  listing : ⟨.uf arg, some segment.listing⟩ ∈ trace
  tables : segment.tables = .default ∨ ∃ block : List Instruction,
    ⟨.resolveJump block, segment.tables⟩ ∈ trace ∧
      block.head?.map (·.address) = segment.listing.head?.map (·.address)
  boundary : ∃ insn ∈ segment.listing, insn.address = segment.start

/-- The hops lead from the seed's listing to a segment: each leaves its segment by an
edge of an instruction reachable there, and enters the next at its target. -/
inductive Leads (trace : Trace) (seed : String) (start : Nat) : List Hop → Segment → Prop where
  | seed {segment : Segment} (h : Listed trace seed segment) (hstart : segment.start = start) :
      Leads trace seed start [] segment
  | hop {hops : List Hop} {segment next : Segment} {edge : Edge}
      (h : Leads trace seed start hops segment) (hleaves : segment.Leaves edge)
      (hlisted : Listed trace (Text.hex edge.target) next) (hstart : next.start = edge.target) :
      Leads trace seed start (hops ++ [⟨edge.site, edge.kind, edge.target⟩]) next

section

variable {front back : Trace} {seed : String} {start : Nat} {hops : List Hop} {segment : Segment}

theorem Listed.later {arg : String} (h : Listed front arg segment) :
    Listed (front ++ back) arg segment := by
  refine ⟨List.mem_append_left _ h.listing, ?_, h.boundary⟩
  rcases h.tables with hdefault | ⟨block, hblock, hentry⟩
  · exact Or.inl hdefault
  · exact Or.inr ⟨block, List.mem_append_left _ hblock, hentry⟩

theorem Leads.later (h : Leads front seed start hops segment) :
    Leads (front ++ back) seed start hops segment := by
  induction h with
  | seed h hstart => exact .seed h.later hstart
  | hop h hleaves hlisted hstart ih => exact .hop ih hleaves hlisted.later hstart

end

def Resolved (trace : Trace) (entry : Nat) (tables : JumpTables) : Prop :=
  ∃ block : List Instruction, ⟨.resolveJump block, tables⟩ ∈ trace ∧
    block.head?.map (·.address) = some entry

/-- The parents lead from the seed to a segment, and reconstructing them gives the
hops on the way. -/
structure Arrived (trace : Trace) (seed : String) (search : Search) (token : Option Nat)
    (segment : Segment) (start : Nat) (hops : List Hop) : Prop where
  seedStart : search.report.seedStart = some start
  reconstructs : Reconstructs search.parent token hops
  length : hops.length ≤ search.parent.length
  leads : Leads trace seed start hops segment

structure Walked (question : Question) (search : Search) (trace : Trace) : Prop where
  tables : ∀ entry tables, search.tablesByFn.lookup entry = some tables → Resolved trace entry tables
  enqueued : ∀ token found, search.parent.lookup token = some found → token ∈ search.enqueued
  parents : ∀ token found, search.parent.lookup token = some found →
    ∃ start hops segment, Arrived trace question.seed search found.caller segment start hops ∧
      hops.length < search.parent.length ∧ segment.Leaves ⟨found.site, token, found.kind⟩
  queue : ∀ work ∈ search.queue, ∃ token, work.token = some token ∧
    work.arg = Text.hex token ∧ (search.parent.lookup token).isSome
  unfinished : search.report.verdictReachable = false

section

variable {question : Question} {search after : Search} {trace front back : Trace} {seed : String}
  {token : Option Nat} {segment : Segment} {start depth : Nat} {hops : List Hop} {edge : Edge}

theorem Arrived.later (h : Arrived front seed search token segment start hops) :
    Arrived (front ++ back) seed search token segment start hops :=
  ⟨h.seedStart, h.reconstructs, h.length, h.leads.later⟩

theorem Walked.later (h : Walked question search front) : Walked question search (front ++ back) := by
  refine ⟨?_, h.enqueued, ?_, h.queue, h.unfinished⟩
  · intro entry tables hmem
    obtain ⟨block, hblock, hentry⟩ := h.tables entry tables hmem
    exact ⟨block, List.mem_append_left _ hblock, hentry⟩
  · intro token found hfound
    obtain ⟨start, hops, segment, harrived, hlength, hleaves⟩ := h.parents token found hfound
    exact ⟨start, hops, segment, harrived.later, hlength, hleaves⟩

structure Frame (search after : Search) : Prop where
  enqueued : after.enqueued = search.enqueued
  parent : after.parent = search.parent
  queue : after.queue = search.queue
  seedStart : after.report.seedStart = search.report.seedStart
  funcsExplored : after.report.funcsExplored = search.report.funcsExplored
  verdict : after.report.verdictReachable = search.report.verdictReachable

theorem Frame.arrived (h : Frame search after)
    (harrived : Arrived trace seed search token segment start hops) :
    Arrived trace seed after token segment start hops := by
  refine ⟨h.seedStart.trans harrived.seedStart, ?_, ?_, harrived.leads⟩
  · rw [h.parent]
    exact harrived.reconstructs
  · rw [h.parent]
    exact harrived.length

theorem Frame.walked (h : Frame search after) (hwalked : Walked question search trace)
    (htables : ∀ entry tables, after.tablesByFn.lookup entry = some tables → Resolved trace entry tables) :
    Walked question after trace := by
  refine ⟨htables, ?_, ?_, ?_, h.verdict.trans hwalked.unfinished⟩
  · rw [h.parent, h.enqueued]
    exact hwalked.enqueued
  · intro token found hfound
    rw [h.parent] at hfound ⊢
    obtain ⟨start, hops, segment, harrived, hrest⟩ := hwalked.parents token found hfound
    exact ⟨start, hops, segment, h.arrived harrived, hrest⟩
  · rw [h.parent, h.queue]
    exact hwalked.queue

/-- Scheduling an edge that leaves the segment keeps what is known of the walk. -/
theorem Walked.schedule (h : Walked question search trace)
    (harrived : Arrived trace question.seed search token segment start hops)
    (hleaves : segment.Leaves edge) :
    Walked question (search.schedule token depth edge) trace ∧
      Arrived trace question.seed (search.schedule token depth edge) token segment start hops := by
  rw [Search.schedule]
  split
  · exact ⟨h, harrived⟩
  rename_i hnew
  have hfresh : search.parent.lookup edge.target = none := by
    by_contra hsome
    obtain ⟨found, hfound⟩ := Option.ne_none_iff_exists'.mp hsome
    exact hnew (h.enqueued edge.target found hfound)
  have hgrown {other : Option Nat} {piece : Segment} {first : Nat} {route : List Hop}
      (h : Arrived trace question.seed search other piece first route) :
      Arrived trace question.seed
        { search with
          enqueued := edge.target :: search.enqueued
          parent := (edge.target, ⟨token, edge.site, edge.kind⟩) :: search.parent
          queue := search.queue ++ [⟨Text.hex edge.target, some edge.target, depth + 1⟩] }
        other piece first route :=
    ⟨h.seedStart, h.reconstructs.add hfresh, Nat.le_succ_of_le h.length, h.leads⟩
  have hlookup (other : Nat) (hne : other ≠ edge.target) :
      ((edge.target, (⟨token, edge.site, edge.kind⟩ : Parent)) :: search.parent).lookup other =
        search.parent.lookup other := by
    rw [List.lookup_cons, beq_eq_false_iff_ne.mpr hne]
  refine ⟨⟨h.tables, ?_, ?_, ?_, h.unfinished⟩, hgrown harrived⟩
  · intro other found hfound
    by_cases hother : other = edge.target
    · rw [hother]
      exact List.mem_cons_self
    · rw [hlookup other hother] at hfound
      exact List.mem_cons_of_mem _ (h.enqueued other found hfound)
  · intro other found hfound
    by_cases hother : other = edge.target
    · subst hother
      obtain rfl : (⟨token, edge.site, edge.kind⟩ : Parent) = found := by
        simpa using hfound
      exact ⟨start, hops, segment, hgrown harrived, Nat.lt_succ_of_le harrived.length, hleaves⟩
    · rw [hlookup other hother] at hfound
      obtain ⟨first, route, piece, hbefore, hlength, hpiece⟩ := h.parents other found hfound
      exact ⟨first, route, piece, hgrown hbefore, Nat.lt_succ_of_lt hlength, hpiece⟩
  · intro work hwork
    rcases List.mem_append.mp hwork with hwork | hwork
    · obtain ⟨other, htoken, harg, hsome⟩ := h.queue work hwork
      refine ⟨other, htoken, harg, ?_⟩
      have hne : other ≠ edge.target := by
        rintro rfl
        rw [hfresh] at hsome
        cases hsome
      rw [hlookup other hne]
      exact hsome
    · rw [List.mem_singleton.mp hwork]
      exact ⟨edge.target, rfl, rfl, by simp⟩

theorem Walked.scheduleAll {edges : List Edge} (h : Walked question search trace)
    (harrived : Arrived trace question.seed search token segment start hops)
    (hleaves : ∀ edge ∈ edges, segment.Leaves edge) :
    Walked question (edges.foldl (Search.schedule token depth) search) trace := by
  induction edges generalizing search with
  | nil => exact h
  | cons edge edges ih =>
    obtain ⟨hwalked, harrived⟩ := h.schedule harrived (hleaves edge List.mem_cons_self)
    exact ih hwalked harrived fun other hother => hleaves other (List.mem_cons_of_mem _ hother)

theorem scheduleAll_report (edges : List Edge) (search : Search) :
    (edges.foldl (Search.schedule token depth) search).report = search.report := by
  induction edges generalizing search with
  | nil => rfl
  | cons edge edges ih =>
    rw [List.foldl_cons, ih, Search.schedule]
    split <;> rfl

end

/-! ## The parts of a turn -/

section

variable {block : List Instruction} {entry start desired : Nat} {probe : FnWalk}
  {search : Search} {token : Option Nat} {trace before : Trace}

theorem runs_lastPoll {report : Report} {result : Except Fault Report}
    (h : Runs (lastPoll report) trace result) :
    ∃ halted, result = .ok { report with halted } := by
  rw [lastPoll] at h
  split at h
  · rename_i why hhalted
    obtain ⟨-, rfl⟩ := runs_done_iff.mp h
    exact ⟨some why, by rw [← hhalted]⟩
  · rw [halt_bind, runs_ask_iff] at h
    obtain ⟨halted, rest, -, h⟩ := h
    obtain ⟨-, rfl⟩ := runs_done_iff.mp h
    exact ⟨halted, rfl⟩

theorem runs_probeFrom {result : Except Fault (Option (Nat × FnWalk))}
    (hentry : block.head?.map (·.address) = some entry)
    (h : Runs (probeFrom block entry desired token) trace result) :
    trace = [] ∧ ∃ probed, result = .ok probed ∧ ∀ start walk, probed = some (start, walk) →
      walkFunction block start .default = some walk ∧ (token.isSome → start = desired) := by
  have hfirst : (walkFunction block entry .default).isSome := by
    obtain ⟨first, hhead, rfl⟩ := Option.map_eq_some_iff.mp hentry
    exact (walkFunction_isSome_iff _ _ _).mpr ⟨first, List.mem_of_head? hhead, rfl⟩
  rw [probeFrom] at h
  split at h
  · rename_i walk hwalk
    obtain ⟨rfl, rfl⟩ := runs_done_iff.mp h
    refine ⟨rfl, _, rfl, ?_⟩
    rintro start other ⟨⟩
    exact ⟨hwalk, fun _ => rfl⟩
  split at h
  · obtain ⟨rfl, rfl⟩ := runs_done_iff.mp h
    exact ⟨rfl, none, rfl, by simp⟩
  rename_i hseed
  split at h
  · rename_i walk hwalk
    obtain ⟨rfl, rfl⟩ := runs_done_iff.mp h
    refine ⟨rfl, _, rfl, ?_⟩
    rintro start other ⟨⟩
    exact ⟨hwalk, fun hsome => absurd hsome hseed⟩
  · rename_i hnone
    rw [hnone] at hfirst
    cases hfirst

theorem runs_tablesOf {result : Except Fault (JumpTables × Search)}
    (hentry : block.head?.map (·.address) = some entry)
    (hresolved : ∀ entry tables, search.tablesByFn.lookup entry = some tables →
      Resolved before entry tables)
    (h : Runs (tablesOf block entry search) trace result) :
    ∃ tables after, result = .ok (tables, after) ∧ Resolved (before ++ trace) entry tables ∧
      (∀ entry tables, after.tablesByFn.lookup entry = some tables →
        Resolved (before ++ trace) entry tables) ∧
      Frame search after := by
  have hlater (entry : Nat) (tables : JumpTables)
      (hmem : search.tablesByFn.lookup entry = some tables) :
      Resolved (before ++ trace) entry tables := by
    obtain ⟨block, hblock, hentry⟩ := hresolved entry tables hmem
    exact ⟨block, List.mem_append_left _ hblock, hentry⟩
  rw [tablesOf] at h
  split at h
  · rename_i tables hlookup
    obtain ⟨rfl, rfl⟩ := runs_done_iff.mp h
    exact ⟨tables, search, rfl, hlater entry tables hlookup, hlater,
      ⟨rfl, rfl, rfl, rfl, rfl, rfl⟩⟩
  · rw [resolveJump_bind, runs_ask_iff] at h
    obtain ⟨resolved, rest, rfl, h⟩ := h
    obtain ⟨rfl, rfl⟩ := runs_done_iff.mp h
    have hnow : Resolved (before ++ [⟨.resolveJump block, resolved⟩]) entry resolved :=
      ⟨block, by simp, hentry⟩
    refine ⟨resolved, _, rfl, hnow, ?_, ⟨rfl, rfl, rfl, rfl, rfl, rfl⟩⟩
    intro other tables hmem
    by_cases hother : other = entry
    · subst hother
      obtain rfl : resolved = tables := by simpa using hmem
      exact hnow
    · rw [List.lookup_cons, beq_eq_false_iff_ne.mpr hother] at hmem
      exact hlater other tables hmem

theorem runs_finalWalk {result : Except Fault (FnWalk × Search)}
    (hentry : block.head?.map (·.address) = some entry)
    (hprobe : walkFunction block start .default = some probe)
    (hresolved : ∀ entry tables, search.tablesByFn.lookup entry = some tables →
      Resolved before entry tables)
    (h : Runs (finalWalk block entry start probe search) trace result) :
    ∃ walk after tables, result = .ok (walk, after) ∧ walkFunction block start tables = some walk ∧
      (tables = .default ∨ Resolved (before ++ trace) entry tables) ∧
      (∀ entry tables, after.tablesByFn.lookup entry = some tables →
        Resolved (before ++ trace) entry tables) ∧ Frame search after := by
  rw [finalWalk] at h
  split at h
  · obtain ⟨rfl, rfl⟩ := runs_done_iff.mp h
    rw [List.append_nil]
    exact ⟨probe, search, .default, rfl, hprobe, Or.inl rfl, hresolved,
      ⟨rfl, rfl, rfl, rfl, rfl, rfl⟩⟩
  rcases runs_bind_iff.mp h with ⟨payload, rfl, htables⟩ |
    ⟨⟨tables, after⟩, front, back, rfl, htables, h⟩
  · obtain ⟨_, _, hresult, -⟩ := runs_tablesOf hentry hresolved htables
    cases hresult
  obtain ⟨_, _, hresult, htables, hafter, hframe⟩ :=
    runs_tablesOf hentry hresolved htables
  cases hresult
  -- whether a walk can start here does not depend on the tables
  have hboundary : (walkFunction block start tables).isSome := by
    rw [walkFunction_isSome_iff, ← walkFunction_isSome_iff block start .default, hprobe]
    rfl
  obtain ⟨walk, hwalk⟩ := Option.isSome_iff_exists.mp hboundary
  simp only [hwalk, pure_eq, runs_done_iff] at h
  obtain ⟨rfl, rfl⟩ := h
  rw [List.append_nil]
  refine ⟨walk, _, tables, rfl, hwalk, Or.inr htables, hafter, ?_⟩
  exact ⟨hframe.enqueued, hframe.parent, hframe.queue, hframe.seedStart, hframe.funcsExplored,
    hframe.verdict⟩

theorem runs_succeed {seed : String} {segment : Segment} {hops : List Hop} {report : Report}
    {result : Except Fault Report}
    (harrived : Arrived before seed search token segment start hops)
    (h : Runs (succeed search.parent token entry report) trace result) :
    ∃ halted, result = .ok { report with
      verdictReachable := true, containingFn := some entry, path := hops, halted } := by
  rw [succeed, harrived.reconstructs.reconstruct_eq harrived.length, done_bind] at h
  exact runs_lastPoll h

end

/-! ## A turn -/

def ConcretePath (question : Question) (trace : Trace) (report : Report) : Prop :=
  ∃ start segment, report.seedStart = some start ∧
    Leads trace question.seed start report.path segment ∧
    segment.ReachesAddress question.target

/-- Work that can be on the queue: the seed before anything else, and then targets
whose parents are known. -/
def Enterable (question : Question) (search : Search) (work : Work) : Prop :=
  work.token = none ∧ work.arg = question.seed ∧ search.parent = [] ∨
    ∃ token, work.token = some token ∧ work.arg = Text.hex token ∧
      (search.parent.lookup token).isSome

section

variable {question : Question} {search : Search} {work : Work} {block : List Instruction}
  {entry start : Nat} {trace before : Trace}

theorem enter_funcsExplored (entry start : Nat) (work : Work) (search : Search) :
    (search.enter entry start work).report.funcsExplored = search.report.funcsExplored + 1 := by
  simp only [Search.enter]
  split <;> rfl

theorem Walked.enter (h : Walked question search before) (hwork : Enterable question search work) :
    Walked question (search.enter entry start work) before := by
  refine ⟨h.tables, h.enqueued, ?_, h.queue, ?_⟩
  · intro token found hfound
    rcases hwork with ⟨-, -, hparent⟩ | ⟨other, htoken, -⟩
    · change search.parent.lookup token = some found at hfound
      rw [hparent] at hfound
      cases hfound
    · obtain ⟨first, hops, segment, harrived, hrest⟩ := h.parents token found hfound
      refine ⟨first, hops, segment, ⟨?_, harrived.reconstructs, harrived.length, harrived.leads⟩,
        hrest⟩
      simp only [Search.enter, htoken]
      exact harrived.seedStart
  · have hunfinished := h.unfinished
    simp only [Search.enter]
    split <;> exact hunfinished

theorem Walked.arrived (h : Walked question search before) (entry : Nat)
    (hwork : Enterable question search work)
    (hstart : work.token.isSome → some start = work.token) {segment : Segment}
    (hlisted : Listed (before ++ trace) work.arg segment) (hsegment : segment.start = start) :
    ∃ first hops, Arrived (before ++ trace) question.seed (search.enter entry start work)
      work.token segment first hops := by
  rcases hwork with ⟨htoken, harg, -⟩ | ⟨token, htoken, harg, hsome⟩
  · refine ⟨start, [], ⟨?_, ?_, Nat.zero_le _, .seed (harg ▸ hlisted) hsegment⟩⟩
    · simp [Search.enter, htoken]
    · rw [htoken]
      exact .seed
  · obtain ⟨found, hfound⟩ := Option.isSome_iff_exists.mp hsome
    obtain ⟨first, hops, caller, harrived, hlength, hleaves⟩ := h.parents token found hfound
    have htarget : start = token := by
      have heq := hstart (by rw [htoken]; rfl)
      rw [htoken] at heq
      exact Option.some.inj heq
    refine ⟨first, hops ++ [⟨found.site, found.kind, token⟩], ⟨?_, ?_, ?_, ?_⟩⟩
    · simp only [Search.enter, htoken]
      exact harrived.seedStart
    · rw [htoken]
      exact .hop hfound harrived.reconstructs
    · rw [List.length_append, List.length_singleton]
      exact hlength
    · exact .hop harrived.leads.later hleaves (harg ▸ hlisted) (hsegment.trans htarget)

/-- A search that arrived at a segment in which the target is reachable reports the
path to it. -/
theorem runs_succeed_concrete {token : Option Nat} {segment : Segment} {first : Nat}
    {hops : List Hop} {report : Report} {front rest : Trace}
    {result : Except Fault (Search ⊕ Report)}
    (h : Runs (do
      let report ← succeed search.parent token entry report
      pure (.inr report) : Walker (Search ⊕ Report)) rest result)
    (harrived : Arrived front question.seed search token segment first hops)
    (hreport : report.seedStart = search.report.seedStart)
    (htarget : segment.ReachesAddress question.target) :
    ∃ report, result = .ok (.inr report) ∧ ConcretePath question (front ++ rest) report := by
  rcases runs_bind_iff.mp h with ⟨payload, rfl, hsucceed⟩ |
    ⟨found, polled, last, rfl, hsucceed, h⟩
  · obtain ⟨_, hresult⟩ := runs_succeed harrived hsucceed
    cases hresult
  obtain ⟨halted, hresult⟩ := runs_succeed harrived hsucceed
  cases hresult
  obtain ⟨rfl, rfl⟩ := runs_done_iff.mp h
  exact ⟨_, rfl, first, segment, hreport.trans harrived.seedStart, harrived.leads.later, htarget⟩

theorem listed_of_walk {tables used : JumpTables} {walk : FnWalk}
    (huf : ⟨.uf work.arg, some block⟩ ∈ trace)
    (hentry : block.head?.map (·.address) = some entry)
    (hwalk : walkFunction block start used = some walk)
    (htables : tables = .default ∨ Resolved trace entry tables) :
    Listed trace work.arg ⟨block, tables, start⟩ := by
  refine ⟨huf, ?_, ?_⟩
  · rcases htables with hdefault | ⟨other, hother, hsame⟩
    · exact Or.inl hdefault
    · exact Or.inr ⟨other, hother, hsame.trans hentry.symm⟩
  · rw [← walkFunction_isSome_iff block start used, hwalk]
    rfl

def ListingSound (question : Question) (search : Search) (trace : Trace)
    (result : Except Fault (Search ⊕ Report)) : Prop :=
  ∃ outcome, result = .ok outcome ∧
    (∀ after, outcome = .inl after → Walked question after trace ∧
      (after = search ∨ after.report.funcsExplored = search.report.funcsExplored + 1)) ∧
    (∀ report, outcome = .inr report → ConcretePath question trace report)

theorem listingSound_of_search {after : Search} {result : Except Fault (Search ⊕ Report)}
    (h : Runs (pure (.inl after) : Walker (Search ⊕ Report)) trace result)
    (hwalked : Walked question after before)
    (hexplored : after = search ∨
      after.report.funcsExplored = search.report.funcsExplored + 1) :
    ListingSound question search (before ++ trace) result := by
  obtain ⟨rfl, rfl⟩ := runs_done_iff.mp h
  refine ⟨_, rfl, ?_, by simp⟩
  rintro next ⟨⟩
  exact ⟨hwalked.later, hexplored⟩

theorem listingSound_of_report {report : Report} (hconcrete : ConcretePath question trace report) :
    ListingSound question search trace (.ok (.inr report)) := by
  refine ⟨_, rfl, by simp, ?_⟩
  rintro other ⟨⟩
  exact hconcrete

theorem runs_exploreListing {result : Except Fault (Search ⊕ Report)}
    (hwalked : Walked question search before) (hwork : Enterable question search work)
    (huf : ⟨.uf work.arg, some block⟩ ∈ before)
    (hentry : block.head?.map (·.address) = some entry)
    (h : Runs (exploreListing question block entry work search) trace result) :
    ListingSound question search (before ++ trace) result := by
  rw [exploreListing] at h
  rcases runs_bind_iff.mp h with ⟨payload, rfl, hprobed⟩ | ⟨probed, front, rest, rfl, hprobed, h⟩
  · obtain ⟨-, _, hresult, -⟩ := runs_probeFrom hentry hprobed
    cases hresult
  obtain ⟨rfl, _, hresult, hprobe⟩ := runs_probeFrom hentry hprobed
  cases hresult
  rw [List.nil_append]
  cases probed with
  | none => exact listingSound_of_search h hwalked (Or.inl rfl)
  | some probed =>
    obtain ⟨startUsed, probe⟩ := probed
    obtain ⟨hprobe, hstart⟩ := hprobe startUsed probe rfl
    simp only at h
    split at h
    · exact listingSound_of_search h hwalked (Or.inl rfl)
    have htoken : work.token.isSome → some startUsed = work.token := by
      intro hsome
      obtain ⟨token, htoken⟩ := Option.isSome_iff_exists.mp hsome
      rw [hstart hsome, htoken]
      rfl
    have hentered : Walked question (search.enter entry startUsed work) before :=
      hwalked.enter hwork
    split at h
    · rename_i htarget
      have huf : ⟨.uf work.arg, some block⟩ ∈ before ++ [] := List.mem_append_left _ huf
      obtain ⟨first, hops, harrived⟩ := hwalked.arrived entry hwork htoken
        (listed_of_walk huf hentry hprobe (Or.inl rfl)) rfl
      rw [List.append_nil] at harrived
      obtain ⟨report, rfl, hconcrete⟩ := runs_succeed_concrete h harrived rfl
        ((walkFunction_sound hprobe).1 _ htarget)
      exact listingSound_of_report hconcrete
    rcases runs_bind_iff.mp h with ⟨payload, rfl, hfinal⟩ |
      ⟨⟨walk, after⟩, front, back, rfl, hfinal, h⟩
    · obtain ⟨_, _, _, hresult, -⟩ := runs_finalWalk hentry hprobe hentered.tables hfinal
      cases hresult
    obtain ⟨_, _, tables, hresult, hwalk, htables, hafter, hframe⟩ :=
      runs_finalWalk hentry hprobe hentered.tables hfinal
    cases hresult
    obtain ⟨first, hops, harrived⟩ := hwalked.arrived entry hwork htoken
      (listed_of_walk (List.mem_append_left front huf) hentry hwalk htables) rfl
    replace harrived := hframe.arrived harrived
    rw [← List.append_assoc]
    simp only at h
    split at h
    · rename_i htarget
      obtain ⟨report, rfl, hconcrete⟩ := runs_succeed_concrete h harrived rfl
        ((walkFunction_sound hwalk).1 _ htarget)
      exact listingSound_of_report hconcrete
    · -- what is added to the report is none of the walk's concern
      have hsame : Frame after { after with
          report := { after.report with
            blind := after.report.blind + walk.blind
            unresolvedJumps := after.report.unresolvedJumps ∪ walk.unresolvedJumps } } :=
        ⟨rfl, rfl, rfl, rfl, rfl, rfl⟩
      refine listingSound_of_search h (Walked.scheduleAll
        (hsame.walked (hframe.walked hentered.later hafter) hafter) (hsame.arrived harrived)
        (walkFunction_sound hwalk).2) (Or.inr ?_)
      rw [scheduleAll_report]
      exact hframe.funcsExplored.trans (enter_funcsExplored _ _ _ _)

def Underway (question : Question) (search : Search) (trace : Trace) : Prop :=
  search = question.initial ∨ Walked question search trace

theorem Underway.unfinished (h : Underway question search trace) :
    search.report.verdictReachable = false := by
  rcases h with rfl | h
  · rfl
  · exact h.unfinished

theorem Underway.pop (h : Underway question search trace) {queue : List Work}
    (hqueue : search.queue = work :: queue) :
    Walked question { search with queue } trace ∧ Enterable question { search with queue } work := by
  rcases h with rfl | h
  · obtain ⟨rfl, rfl⟩ := List.cons.inj hqueue
    refine ⟨⟨?_, ?_, ?_, by simp, rfl⟩, Or.inl ⟨rfl, rfl, rfl⟩⟩ <;> simp [Question.initial]
  · refine ⟨⟨h.tables, h.enqueued, ?_, ?_, h.unfinished⟩, Or.inr (h.queue work ?_)⟩
    · intro token found hfound
      obtain ⟨start, hops, segment, harrived, hrest⟩ := h.parents token found hfound
      exact ⟨start, hops, segment, ⟨harrived.seedStart, harrived.reconstructs, harrived.length,
        harrived.leads⟩, hrest⟩
    · intro other hother
      exact h.queue other (by rw [hqueue]; exact List.mem_cons_of_mem _ hother)
    · rw [hqueue]
      exact List.mem_cons_self

def TurnSound (question : Question) (search : Search) (trace : Trace)
    (result : Except Fault (Search ⊕ Report)) : Prop :=
  ∃ outcome, result = .ok outcome ∧
    (∀ after, outcome = .inl after → Search.Below question.maxFunctions after search ∧
      Underway question after trace) ∧
    (∀ report, outcome = .inr report → report.verdictReachable = true →
      ConcretePath question trace report)

theorem turnSound_of_lastPoll {report : Report} {rest : Trace}
    {result : Except Fault (Search ⊕ Report)}
    (h : Runs (do
      let report ← lastPoll report
      pure (.inr report) : Walker (Search ⊕ Report)) rest result)
    (hreport : report.verdictReachable = false) :
    TurnSound question search trace result := by
  rcases runs_bind_iff.mp h with ⟨payload, rfl, hpoll⟩ | ⟨last, polled, back, rfl, hpoll, h⟩
  · obtain ⟨_, hresult⟩ := runs_lastPoll hpoll
    cases hresult
  obtain ⟨halted, hresult⟩ := runs_lastPoll hpoll
  cases hresult
  obtain ⟨-, rfl⟩ := runs_done_iff.mp h
  refine ⟨_, rfl, by simp, ?_⟩
  rintro other ⟨⟩ hverdict
  rw [hreport] at hverdict
  cases hverdict

theorem runs_turn {result : Except Fault (Search ⊕ Report)}
    (hunderway : Underway question search before) (h : Runs (turn question search) trace result) :
    TurnSound question search (before ++ trace) result := by
  rw [turn] at h
  split at h
  · exact turnSound_of_lastPoll h hunderway.unfinished
  rename_i work queue hqueue
  obtain ⟨hwalked, hwork⟩ := hunderway.pop hqueue
  -- work that is taken off the queue and comes to nothing
  have hshorter (after : Search) (hafter : after.queue = queue)
      (hexplored : after.report.funcsExplored = search.report.funcsExplored) :
      Search.Below question.maxFunctions after search := by
    refine Or.inr ⟨by rw [hexplored], ?_⟩
    rw [hafter, hqueue]
    exact Nat.lt_succ_self _
  have hdropped (rest : Trace) (later : Trace)
      (h : Runs (pure (.inl { search with queue }) : Walker (Search ⊕ Report)) rest result) :
      TurnSound question search (before ++ later) result := by
    obtain ⟨-, rfl⟩ := runs_done_iff.mp h
    refine ⟨_, rfl, ?_, by simp⟩
    rintro after ⟨⟩
    exact ⟨hshorter _ rfl rfl, Or.inr hwalked.later⟩
  rw [halt_bind, runs_ask_iff] at h
  obtain ⟨halted, rest, rfl, h⟩ := h
  split at h
  · exact turnSound_of_lastPoll h hunderway.unfinished
  split at h
  · obtain ⟨rfl, rfl⟩ := runs_done_iff.mp h
    refine ⟨_, rfl, ?_, by simp⟩
    rintro after ⟨⟩
    refine ⟨hshorter _ rfl rfl, Or.inr (Frame.walked ?_ hwalked.later hwalked.later.tables)⟩
    exact ⟨rfl, rfl, rfl, rfl, rfl, rfl⟩
  rename_i hbounds
  rw [uf_bind, runs_ask_iff] at h
  obtain ⟨listing, rest, rfl, h⟩ := h
  split at h
  · exact hdropped _ _ h
  rename_i block
  split at h
  · exact hdropped _ _ h
  rename_i first hfirst
  have hentry : block.head?.map (·.address) = some first.address := by
    rw [hfirst]
    rfl
  have hasked : Walked question { search with queue }
      (before ++ [⟨.halt, none⟩, ⟨.uf work.arg, some block⟩]) := hwalked.later
  obtain ⟨outcome, rfl, hafter, hreport⟩ :=
    runs_exploreListing hasked hwork (by simp) hentry h
  rw [List.append_assoc] at hafter hreport
  refine ⟨outcome, rfl, ?_, fun report hfound _ => hreport report hfound⟩
  intro after hnext
  obtain ⟨hnext, rfl | hexplored⟩ := hafter after hnext
  · exact ⟨hshorter _ rfl rfl, Or.inr hnext⟩
  · refine ⟨Or.inl ?_, Or.inr hnext⟩
    change after.report.funcsExplored = search.report.funcsExplored + 1 at hexplored
    have hbound : ¬ question.maxFunctions ≤ search.report.funcsExplored :=
      fun hle => hbounds (Or.inl hle)
    omega

end

/-- Whatever the disassembler, the resolver and the poll answer, the walk returns a
report, and a `reachable` verdict rests on a concrete path from the reported start. -/
theorem reachability_sound {σ : Type} (host : σ → (asked : Query) → asked.Answer × σ) (state : σ)
    (question : Question) :
    ∃ report, (execute host state (reachability question)).result = .ok report ∧
      (report.verdictReachable = true →
        ConcretePath question (execute host state (reachability question)).trace report) := by
  have hruns := runs_execute host state (reachability question)
  refine runs_loop (Underway question)
    (fun report trace => report.verdictReachable = true → ConcretePath question trace report)
    ?_ [] (Or.inl rfl) hruns
  intro search before trace result hunderway hturn
  exact runs_turn hunderway hturn

/-- A dispatch routine whose second instruction calls the routine at `0x2000`. -/
def dispatchImage (state : Unit) : (asked : Query) → asked.Answer × Unit
  | .uf "drv!Dispatch" =>
    (some [⟨0x1000, .fallthrough⟩, ⟨0x1004, .call (some 0x2000)⟩, ⟨0x1009, .ret⟩], state)
  | .uf "0x2000" => (some [⟨0x2000, .fallthrough⟩, ⟨0x2004, .ret⟩], state)
  | .uf _ => (none, state)
  | .resolveJump _ => (.default, state)
  | .halt => (none, state)

def dispatchQuestion : Question := ⟨"drv!Dispatch", none, 0x2004, 64, 8⟩

def dispatchScheduled : Search :=
  { dispatchQuestion.initial with
    visited := [0x1000]
    enqueued := [0x2000]
    parent := [(0x2000, ⟨none, 0x1004, .call⟩)]
    queue := [⟨"0x2000", some 0x2000, 1⟩]
    report :=
      { dispatchQuestion.initial.report with
        fromEntry := some 0x1000
        seedStart := some 0x1000
        funcsExplored := 1 } }

def dispatchReport : Report :=
  { dispatchScheduled.report with
    verdictReachable := true
    containingFn := some 0x2000
    path := [⟨0x1004, .call, 0x2000⟩]
    funcsExplored := 2
    maxDepthSeen := 1 }

theorem dispatchQuestion_reachable :
    ConcretePath dispatchQuestion
      (execute dispatchImage () (reachability dispatchQuestion)).trace dispatchReport := by
  have hfirst : (execute dispatchImage () (turn dispatchQuestion dispatchQuestion.initial)).result =
      .ok (.inl dispatchScheduled) := by
    decide +kernel
  have hsecond : (execute dispatchImage () (turn dispatchQuestion dispatchScheduled)).result =
      .ok (.inr dispatchReport) := by
    decide +kernel
  have hresult : (execute dispatchImage () (reachability dispatchQuestion)).result =
      .ok dispatchReport := by
    rw [reachability, execute_loop_next dispatchImage hfirst (by decide)]
    exact execute_loop_done dispatchImage hsecond
  obtain ⟨report, hreport, hsound⟩ := reachability_sound dispatchImage () dispatchQuestion
  obtain rfl := Except.ok.inj (hresult.symm.trans hreport)
  exact hsound rfl

end WindbgMcp.Driver
