import WindbgMcp.Driver.Coverage
import WindbgMcp.Driver.Soundness

/-! What one turn of the walk can do with the work it takes: run into a bound, drop
the work, or enter a listing and schedule the edges out of it. -/
namespace WindbgMcp.Driver

open Library Program

def Question.startIn (question : Question) (token : Option Nat) (listing : List Instruction) :
    Option Nat :=
  match listing.head? with
  | none => none
  | some first =>
    let desired := (token.or question.seedStart).getD first.address
    if ∃ insn ∈ listing, insn.address = desired then some desired
    else if token.isSome then none
    else some first.address

/-- The tables a listing is walked with from `start`: those of its function, if the
walk without any ends at an indirect jump. -/
def Search.tablesFor (search : Search) (listing : List Instruction) (start : Nat) : JumpTables :=
  match walkFunction listing start .default, listing.head? with
  | some probe, some first =>
    if probe.unresolvedJumps.isEmpty then .default
    else (search.tablesByFn.lookup first.address).getD .default
  | _, _ => .default

/-- A search that is about to schedule the edges of the listing it entered. -/
structure Entered (question : Question) (search : Search) (work : Work) (queue : List Work)
    (listing : List Instruction) (start : Nat) (walk : FnWalk) (mid : Search) : Prop where
  walks : walkFunction listing start (mid.tablesFor listing start) = some walk
  target : question.target ∉ walk.reachable
  visited : mid.visited = start :: search.visited
  enqueued : mid.enqueued = search.enqueued
  queue : mid.queue = queue
  seedStart : mid.report.seedStart =
    if work.token.isNone then some start else search.report.seedStart
  bound : mid.report.boundHit = false → search.report.boundHit = false

def Happening.isUf : Happening → Bool
  | ⟨.uf _, _⟩ => true
  | _ => false

/-- What a turn that goes on can have done: run into a bound, dropped the work, or
entered a listing. -/
inductive Goes (question : Question) (search : Search) (work : Work) (queue : List Work) :
    Trace → Search → Prop where
  | bounded : Goes question search work queue [⟨.halt, none⟩]
      { search with queue := queue, report := { search.report with boundHit := true } }
  | dropped {answer : Option (List Instruction)}
      (why : ∀ start, answer.bind (question.startIn work.token) = some start →
        start ∈ search.visited) :
      Goes question search work queue [⟨.halt, none⟩, ⟨.uf work.arg, answer⟩]
        { search with queue := queue }
  | entered {listing : List Instruction} {start : Nat} {walk : FnWalk} {mid : Search}
      {rest : Trace} (hstart : question.startIn work.token listing = some start)
      (hfresh : start ∉ search.visited) (hrest : ∀ event ∈ rest, event.isUf = false)
      (hmid : Entered question search work queue listing start walk mid) :
      Goes question search work queue (⟨.halt, none⟩ :: ⟨.uf work.arg, some listing⟩ :: rest)
        (walk.external.foldl (Search.schedule work.token work.depth) mid)

section

variable {question : Question} {search after : Search} {work : Work} {queue : List Work}
  {listing : List Instruction} {entry start : Nat} {events : Trace}

theorem runs_bind_ok {α β : Type} {program : Walker α} {next : α → Walker β} {value : β}
    (h : Runs (program >>= next) events (.ok value)) :
    ∃ found front rest, events = front ++ rest ∧ Runs program front (.ok found) ∧
      Runs (next found) rest (.ok value) := by
  rcases runs_bind_iff.mp h with ⟨payload, hresult, -⟩ | ⟨found, front, rest, heq, hfirst, hrest⟩
  · cases hresult
  · exact ⟨found, front, rest, heq, hfirst, hrest⟩

theorem startIn_of_head {first : Instruction} {token : Option Nat}
    (hhead : listing.head? = some first) {probed : Option (Nat × FnWalk)}
    (h : Runs (probeFrom listing first.address
      ((token.or question.seedStart).getD first.address) token) events (.ok probed)) :
    events = [] ∧ probed = (question.startIn token listing).bind fun start =>
      (walkFunction listing start .default).map fun walk => (start, walk) := by
  have hentry : (walkFunction listing first.address .default).isSome := by
    rw [walkFunction_isSome_iff]
    exact ⟨first, List.mem_of_head? hhead, rfl⟩
  unfold Question.startIn
  rw [hhead]
  dsimp only
  rw [probeFrom] at h
  split at h
  case h_1 walk hwalk =>
    obtain ⟨rfl, hprobed⟩ := runs_done_iff.mp h
    have hboundary := (walkFunction_isSome_iff listing _ .default).mp (by rw [hwalk]; rfl)
    rw [if_pos hboundary, Option.bind_some, hwalk]
    exact ⟨rfl, Except.ok.inj hprobed⟩
  case h_2 hnone =>
    have hboundary : ¬∃ insn ∈ listing,
        insn.address = (token.or question.seedStart).getD first.address := by
      rw [← walkFunction_isSome_iff listing _ .default, hnone]
      exact Bool.false_ne_true
    rw [if_neg hboundary]
    split at h
    case isTrue htoken =>
      obtain ⟨rfl, hprobed⟩ := runs_done_iff.mp h
      rw [if_pos htoken]
      exact ⟨rfl, Except.ok.inj hprobed⟩
    case isFalse htoken =>
      obtain ⟨walk, hwalk⟩ := Option.isSome_iff_exists.mp hentry
      rw [hwalk] at h
      obtain ⟨rfl, hprobed⟩ := runs_done_iff.mp h
      rw [if_neg htoken, Option.bind_some, hwalk]
      exact ⟨rfl, Except.ok.inj hprobed⟩

theorem walkFunction_of_startIn {token : Option Nat}
    (h : question.startIn token listing = some start) :
    ∃ first probe, listing.head? = some first ∧
      walkFunction listing start .default = some probe := by
  unfold Question.startIn at h
  split at h
  · cases h
  case h_2 first hhead =>
    dsimp only at h
    split at h
    case isTrue hboundary =>
      obtain rfl := Option.some.inj h
      obtain ⟨probe, hprobe⟩ := Option.isSome_iff_exists.mp
        ((walkFunction_isSome_iff listing _ .default).mpr hboundary)
      exact ⟨first, probe, hhead, hprobe⟩
    case isFalse =>
      split at h
      · cases h
      · obtain rfl := Option.some.inj h
        obtain ⟨probe, hprobe⟩ := Option.isSome_iff_exists.mp
          ((walkFunction_isSome_iff listing first.address .default).mpr
            ⟨first, List.mem_of_head? hhead, rfl⟩)
        exact ⟨first, probe, hhead, hprobe⟩

/-- The final walk is the one with the tables of the function, and asks for no listing. -/
theorem runs_finalWalk_ok {first : Instruction} {probe walk : FnWalk}
    (hhead : listing.head? = some first)
    (hprobe : walkFunction listing start .default = some probe)
    (h : Runs (finalWalk listing first.address start probe search) events (.ok (walk, after))) :
    walkFunction listing start (after.tablesFor listing start) = some walk ∧
    (∀ event ∈ events, event.isUf = false) ∧
    after.visited = search.visited ∧ after.enqueued = search.enqueued ∧
    after.queue = search.queue ∧ after.report.seedStart = search.report.seedStart ∧
    (after.report.boundHit = false → search.report.boundHit = false) := by
  have htables : ∀ other : Search, other.tablesFor listing start =
      if probe.unresolvedJumps.isEmpty then .default
      else (other.tablesByFn.lookup first.address).getD .default := by
    intro other
    unfold Search.tablesFor
    rw [hprobe, hhead]
  rw [htables]
  rw [finalWalk] at h
  split at h
  case isTrue hempty =>
    obtain ⟨rfl, hresult⟩ := runs_done_iff.mp h
    obtain ⟨rfl, rfl⟩ := Prod.mk.inj (Except.ok.inj hresult)
    rw [if_pos hempty]
    exact ⟨hprobe, by simp, rfl, rfl, rfl, rfl, id⟩
  case isFalse hempty =>
    rw [if_neg hempty]
    obtain ⟨⟨tables, resolved⟩, front, rest, rfl, hfirst, h⟩ := runs_bind_ok h
    have hresolved : resolved.tablesByFn.lookup first.address = some tables ∧
        (∀ event ∈ front, event.isUf = false) ∧
        (resolved.visited = search.visited ∧ resolved.enqueued = search.enqueued ∧
          resolved.queue = search.queue ∧ resolved.report = search.report) := by
      rw [tablesOf] at hfirst
      split at hfirst
      case h_1 already hlookup =>
        obtain ⟨rfl, hresult⟩ := runs_done_iff.mp hfirst
        obtain ⟨rfl, rfl⟩ := Prod.mk.inj (Except.ok.inj hresult)
        exact ⟨hlookup, by simp, rfl, rfl, rfl, rfl⟩
      case h_2 =>
        rw [resolveJump_bind, runs_ask_iff] at hfirst
        obtain ⟨answer, last, rfl, hfirst⟩ := hfirst
        obtain ⟨rfl, hresult⟩ := runs_done_iff.mp hfirst
        obtain ⟨rfl, rfl⟩ := Prod.mk.inj (Except.ok.inj hresult)
        refine ⟨by simp, ?_, rfl, rfl, rfl, rfl⟩
        intro event hevent
        rw [List.mem_singleton.mp hevent]
        rfl
    obtain ⟨hlookup, hfront, hvisited, henqueued, hqueue, hreport⟩ := hresolved
    dsimp only at h
    split at h
    case h_2 => cases runs_unwind_iff.mp h |>.2
    case h_1 found hwalk =>
      obtain ⟨rfl, hresult⟩ := runs_done_iff.mp h
      obtain ⟨rfl, rfl⟩ := Prod.mk.inj (Except.ok.inj hresult)
      rw [List.append_nil]
      refine ⟨?_, hfront, hvisited, henqueued, hqueue, ?_, ?_⟩
      · rw [hlookup]
        exact hwalk
      · dsimp only [Report.merge]
        rw [hreport]
      · dsimp only [Report.merge]
        rw [hreport]
        intro hbound
        exact (Bool.or_eq_false_iff.mp hbound).1

theorem runs_turn_next (hqueue : search.queue = work :: queue)
    (h : Runs (turn question search) events (.ok (.inl after))) :
    Goes question search work queue events after := by
  rw [turn, hqueue] at h
  dsimp only at h
  rw [halt_bind, runs_ask_iff] at h
  obtain ⟨halted, rest, rfl, h⟩ := h
  split at h
  case h_1 =>
    obtain ⟨report, front, last, -, -, h⟩ := runs_bind_ok h
    cases (runs_done_iff.mp h).2
  case h_2 =>
  split at h
  case isTrue =>
    obtain ⟨rfl, hresult⟩ := runs_done_iff.mp h
    obtain rfl := Sum.inl.inj (Except.ok.inj hresult)
    exact .bounded
  case isFalse =>
  rw [uf_bind, runs_ask_iff] at h
  obtain ⟨answer, rest, rfl, h⟩ := h
  split at h
  case h_1 =>
    obtain ⟨rfl, hresult⟩ := runs_done_iff.mp h
    obtain rfl := Sum.inl.inj (Except.ok.inj hresult)
    exact .dropped (fun start hstart => by cases hstart)
  case h_2 listing =>
  split at h
  case h_1 hempty =>
    obtain ⟨rfl, hresult⟩ := runs_done_iff.mp h
    obtain rfl := Sum.inl.inj (Except.ok.inj hresult)
    refine .dropped fun start hstart => ?_
    unfold Question.startIn at hstart
    rw [Option.bind_some, hempty] at hstart
    cases hstart
  case h_2 first hhead =>
  rw [exploreListing] at h
  obtain ⟨probed, front, later, hsplit, hrun, hnext⟩ := runs_bind_ok h
  clear h
  obtain ⟨rfl, hprobed⟩ := startIn_of_head hhead hrun
  rw [List.nil_append] at hsplit
  subst hsplit
  cases hstart : question.startIn work.token listing with
  | none =>
    rw [hstart] at hprobed
    rw [hprobed] at hnext
    obtain ⟨rfl, hresult⟩ := runs_done_iff.mp hnext
    obtain rfl := Sum.inl.inj (Except.ok.inj hresult)
    refine .dropped fun start hsome => ?_
    rw [Option.bind_some, hstart] at hsome
    cases hsome
  | some start =>
    obtain ⟨-, probe, -, hprobe⟩ := walkFunction_of_startIn hstart
    rw [hstart, Option.bind_some, hprobe] at hprobed
    rw [hprobed] at hnext
    dsimp only [Option.map_some] at hnext
    split at hnext
    case isTrue hvisited =>
      obtain ⟨rfl, hresult⟩ := runs_done_iff.mp hnext
      obtain rfl := Sum.inl.inj (Except.ok.inj hresult)
      refine .dropped fun other hother => ?_
      rw [Option.bind_some, hstart] at hother
      obtain rfl := Option.some.inj hother
      exact hvisited
    case isFalse hfresh =>
    split at hnext
    case isTrue =>
      obtain ⟨report, front, last, -, -, hreport⟩ := runs_bind_ok hnext
      cases (runs_done_iff.mp hreport).2
    case isFalse =>
    obtain ⟨⟨walk, mid⟩, resolving, last, hsplit, hfinal, hlast⟩ := runs_bind_ok hnext
    clear hnext
    obtain ⟨hwalk, hfront, hvisited, henqueued, hqueue, hseed, hbound⟩ :=
      runs_finalWalk_ok hhead hprobe hfinal
    dsimp only at hlast
    split at hlast
    case isTrue =>
      obtain ⟨report, front, last, -, -, hreport⟩ := runs_bind_ok hlast
      cases (runs_done_iff.mp hreport).2
    case isFalse htarget =>
    obtain ⟨rfl, hresult⟩ := runs_done_iff.mp hlast
    obtain rfl := Sum.inl.inj (Except.ok.inj hresult)
    rw [List.append_nil] at hsplit
    rw [hsplit]
    refine .entered hstart hfresh hfront ⟨hwalk, htarget, hvisited, henqueued, hqueue, ?_, ?_⟩
    · dsimp only
      rw [hseed]
      unfold Search.enter
      dsimp only
      split <;> rfl
    · intro hclear
      have hentered := hbound hclear
      unfold Search.enter at hentered
      dsimp only at hentered
      split at hentered <;> exact hentered

theorem scheduleAll_adds (token : Option Nat) (depth : Nat) (edges : List Edge) :
    ∀ search : Search, ∃ added : List Nat,
      (edges.foldl (Search.schedule token depth) search).queue =
        search.queue ++ added.map (fun target => ⟨Text.hex target, some target, depth + 1⟩) ∧
      added.Nodup ∧ (∀ target ∈ added, target ∉ search.enqueued) ∧
      (∀ target, target ∈ (edges.foldl (Search.schedule token depth) search).enqueued ↔
        target ∈ search.enqueued ∨ target ∈ added) ∧
      (∀ target, target ∈ search.enqueued ∨ target ∈ added ↔
        target ∈ search.enqueued ∨ ∃ edge ∈ edges, edge.target = target) ∧
      (edges.foldl (Search.schedule token depth) search).visited = search.visited ∧
      (edges.foldl (Search.schedule token depth) search).tablesByFn = search.tablesByFn := by
  induction edges with
  | nil =>
    intro search
    exact ⟨[], by simp, List.nodup_nil, by simp, by simp, by simp, rfl, rfl⟩
  | cons edge edges ih =>
    intro search
    rw [List.foldl_cons]
    obtain ⟨added, hqueue, hnodup, hfresh, hmem, hsource, hvisited, htables⟩ :=
      ih (search.schedule token depth edge)
    by_cases hknown : edge.target ∈ search.enqueued
    · have hsame : search.schedule token depth edge = search := by
        unfold Search.schedule
        rw [if_pos hknown]
      rw [hsame] at hqueue hfresh hmem hsource hvisited htables ⊢
      refine ⟨added, hqueue, hnodup, hfresh, hmem, ?_, hvisited, htables⟩
      intro target
      rw [hsource target]
      grind
    · have hnew : search.schedule token depth edge = { search with
          enqueued := edge.target :: search.enqueued
          parent := (edge.target, ⟨token, edge.site, edge.kind⟩) :: search.parent
          queue := search.queue ++ [⟨Text.hex edge.target, some edge.target, depth + 1⟩] } := by
        unfold Search.schedule
        rw [if_neg hknown]
      rw [hnew] at hqueue hfresh hmem hsource hvisited htables ⊢
      dsimp only at hqueue hfresh hmem hsource hvisited htables ⊢
      refine ⟨edge.target :: added, ?_, ?_, ?_, ?_, ?_, hvisited, htables⟩
      · rw [hqueue, List.append_assoc]
        rfl
      · refine List.nodup_cons.mpr ⟨?_, hnodup⟩
        intro hadded
        exact hfresh edge.target hadded List.mem_cons_self
      · intro target htarget
        rcases List.mem_cons.mp htarget with rfl | htarget
        · exact hknown
        · exact fun hold => hfresh target htarget (List.mem_cons_of_mem _ hold)
      · intro target
        rw [hmem target]
        grind
      · intro target
        have := hsource target
        grind

/-- A work item of the queue that asks for a discovered target is used if the answer
has an instruction there. -/
theorem startIn_token {target : Nat} :
    (question.startIn (some target) listing = some target ↔
      ∃ insn ∈ listing, insn.address = target) ∧
    ∀ start, question.startIn (some target) listing = some start → start = target := by
  unfold Question.startIn
  split
  case h_1 hempty =>
    rw [List.head?_eq_none_iff.mp hempty]
    simp
  case h_2 first hhead =>
    dsimp only [Option.some_or, Option.getD_some]
    by_cases hboundary : ∃ insn ∈ listing, insn.address = target
    · rw [if_pos hboundary]
      simpa using hboundary
    · rw [if_neg hboundary]
      simpa using hboundary

end
end WindbgMcp.Driver
