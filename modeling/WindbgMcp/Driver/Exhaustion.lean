import WindbgMcp.Driver.Turns

/-! What a walk that ends without a verdict has explored: the listings it walked,
whether each edge out of them was followed into one, and when that fails. -/
namespace WindbgMcp.Driver

open Library Program

/-! ## The listings a run walks -/

def listingIn (events : Trace) : Option (List Instruction) :=
  events.findSome? fun
    | ⟨.uf _, answer⟩ => answer
    | ⟨_, _⟩ => none

def Search.entered (search after : Search) (events : Trace) : List Segment :=
  match after.visited with
  | [] => []
  | start :: earlier =>
    if earlier = search.visited then
      (listingIn events).toList.map fun listing =>
        ⟨listing, after.tablesFor listing start, start⟩
    else []

/-- The turns of a run up to a search, with the listings they walked in order. -/
inductive Turns (question : Question) : Trace → Search → List Segment → Prop where
  | start : Turns question [] question.initial []
  | next {before events : Trace} {search after : Search} {walked : List Segment}
      (hbefore : Turns question before search walked)
      (hturn : Runs (turn question search) events (.ok (.inl after))) :
      Turns question (before ++ events) after (walked ++ search.entered after events)

/-- A run that ended with a report walked these listings; the last turn enters none
that the report does not have a verdict from. -/
def Walks (question : Question) (trace : Trace) (report : Report) (walked : List Segment) : Prop :=
  ∃ before events search, trace = before ++ events ∧ Turns question before search walked ∧
    Runs (turn question search) events (.ok (.inr report))

/-- Addresses reached from where the seed's walk began, along edges within a walked
listing and edges followed from one into another. -/
inductive Arrives (walked : List Segment) (start : Nat) : Segment → Nat → Prop where
  | seed {segment : Segment} (hwalked : segment ∈ walked) (hstart : segment.start = start) :
      Arrives walked start segment start
  | within {segment : Segment} {i j : Fin segment.listing.length}
      (h : Arrives walked start segment (segment.listing.get i).address)
      (hi : segment.Explores i) (hedge : FlowEdge segment.listing segment.tables i j) :
      Arrives walked start segment (segment.listing.get j).address
  | into {segment next : Segment} {i : Fin segment.listing.length} {edge : Edge}
      (h : Arrives walked start segment (segment.listing.get i).address)
      (hi : segment.Explores i) (hedge : Exits segment.listing segment.tables i edge)
      (hnext : next ∈ walked) (hstart : next.start = edge.target) :
      Arrives walked start next edge.target

/-- The reachable call graph was fully explored: every direct or resolved edge of an
explored instruction leads to an explored one of the same listing or into a listing
that was walked from its target, and the question's target is not reached. -/
structure Exhausted (question : Question) (walked : List Segment) (report : Report) : Prop where
  within : ∀ segment ∈ walked, ∀ i, segment.Explores i →
    ∀ j, FlowEdge segment.listing segment.tables i j →
      ∃ k, segment.Explores k ∧ (segment.listing.get k).address = (segment.listing.get j).address
  followed : ∀ segment ∈ walked, ∀ i, segment.Explores i →
    ∀ edge, Exits segment.listing segment.tables i edge →
      ∃ next ∈ walked, next.start = edge.target
  unreached : ∀ start segment, report.seedStart = some start →
    ¬Arrives walked start segment question.target

structure Report.Clean (report : Report) : Prop where
  verdict : report.verdictReachable = false
  bound : report.boundHit = false
  halted : report.halted = none
  blind : report.blind = 0
  jumps : report.unresolvedJumps = []

/-- The listing asked for a discovered target has an instruction there, or the target
is where the seed's own walk begins. -/
def CalleesDisassemble (question : Question) (trace : Trace) : Prop :=
  ∀ seedListing rest, trace = ⟨.halt, none⟩ :: ⟨.uf question.seed, seedListing⟩ :: rest →
    ∀ target answer, ⟨.uf (Text.hex target), answer⟩ ∈ rest →
      seedListing.bind (question.startIn none) = some target ∨
        ∃ listing, answer = some listing ∧ ∃ insn ∈ listing, insn.address = target

/-! ## What is known between two turns -/

def ufAnswers (trace : Trace) : List (String × Option (List Instruction)) :=
  trace.filterMap fun
    | ⟨.uf arg, answer⟩ => some (arg, answer)
    | ⟨_, _⟩ => none

/-- After the seed was taken: `asked` are the targets whose listings were asked for
since, with the answers. -/
structure Accounted (question : Question) (rest : Trace) (seedStart : Option Nat)
    (search : Search) (walked : List Segment)
    (asked : List (Nat × Option (List Instruction))) : Prop where
  seed : search.report.seedStart = seedStart
  seedVisited : ∀ start, seedStart = some start → start ∈ search.visited
  visited : ∀ address, address ∈ search.visited ↔ ∃ segment ∈ walked, segment.start = address
  origin : ∀ segment ∈ walked, seedStart = some segment.start ∨
    segment.start ∈ asked.map Prod.fst
  scheduled : ∀ target, target ∈ search.enqueued ↔
    target ∈ asked.map Prod.fst ∨ target ∈ search.queue.filterMap Work.token
  once : (asked.map Prod.fst ++ search.queue.filterMap Work.token).Nodup
  queue : ∀ work ∈ search.queue, ∃ target, work.token = some target ∧ work.arg = Text.hex target
  answers : ufAnswers rest = asked.map fun entry => (Text.hex entry.1, entry.2)
  reached : ∀ entry ∈ asked, (∃ segment ∈ walked, segment.start = entry.1) ↔
    seedStart = some entry.1 ∨
      ∃ listing, entry.2 = some listing ∧ ∃ insn ∈ listing, insn.address = entry.1
  walk : ∀ segment ∈ walked, ∃ walk,
    walkFunction segment.listing segment.start segment.tables = some walk ∧
      question.target ∉ walk.reachable
  edges : ∀ target, target ∈ search.enqueued ↔ ∃ segment ∈ walked, ∃ i edge,
    segment.Explores i ∧ Exits segment.listing segment.tables i edge ∧ edge.target = target

def OnCourse (question : Question) (trace : Trace) (search : Search) (walked : List Segment) :
    Prop :=
  (trace = [] ∧ search = question.initial ∧ walked = []) ∨
    ∃ seedListing rest asked, trace = ⟨.halt, none⟩ :: ⟨.uf question.seed, seedListing⟩ :: rest ∧
      Accounted question rest (seedListing.bind (question.startIn none)) search walked asked

section

variable {question : Question} {search after mid : Search} {walked : List Segment}
  {before events rest : Trace} {seedStart : Option Nat}
  {asked : List (Nat × Option (List Instruction))} {work : Work} {queue : List Work}
  {listing : List Instruction} {start : Nat} {walk : FnWalk}

theorem entered_of_same (search : Search) (queue : List Work) (events : Trace) :
    search.entered { search with queue := queue } events = [] := by
  unfold Search.entered
  dsimp only
  split
  case h_1 => rfl
  case h_2 start earlier hvisited =>
    rw [if_neg]
    intro heq
    have hlength := congrArg List.length heq
    rw [hvisited, List.length_cons] at hlength
    omega

theorem entered_of_grown (h : after.visited = start :: search.visited)
    (hlisting : listingIn events = some listing) :
    search.entered after events = [⟨listing, after.tablesFor listing start, start⟩] := by
  unfold Search.entered
  rw [h, hlisting]
  simp

theorem ufAnswers_of_none (h : ∀ event ∈ rest, event.isUf = false) : ufAnswers rest = [] := by
  apply List.filterMap_eq_nil_iff.mpr
  intro event hevent
  have hnone := h event hevent
  obtain ⟨asked, answer⟩ := event
  cases asked with
  | uf arg => cases hnone
  | resolveJump block => rfl
  | halt => rfl

theorem tablesFor_eq {other : Search} (h : other.tablesByFn = search.tablesByFn)
    (listing : List Instruction) (start : Nat) :
    other.tablesFor listing start = search.tablesFor listing start := by
  unfold Search.tablesFor
  rw [h]

theorem exists_external_iff
    (h : walkFunction listing start (search.tablesFor listing start) = some walk) (target : Nat) :
    (∃ edge ∈ walk.external, edge.target = target) ↔
      ∃ i edge, Segment.Explores ⟨listing, search.tablesFor listing start, start⟩ i ∧
        Exits listing (search.tablesFor listing start) i edge ∧ edge.target = target := by
  have hcovers := (walkFunction_covers h).2.1
  constructor
  · rintro ⟨edge, hedge, htarget⟩
    obtain ⟨i, hi, hexits⟩ := (hcovers edge).mp hedge
    exact ⟨i, edge, hi, hexits, htarget⟩
  · rintro ⟨i, edge, hi, hexits, htarget⟩
    exact ⟨edge, (hcovers edge).mpr ⟨i, hi, hexits⟩, htarget⟩

theorem Accounted.dropped (h : Accounted question rest seedStart search walked asked)
    (hqueue : search.queue = work :: queue) {answer : Option (List Instruction)}
    (hwhy : ∀ start, answer.bind (question.startIn work.token) = some start →
      start ∈ search.visited) :
    ∃ target, Accounted question (rest ++ [⟨.halt, none⟩, ⟨.uf work.arg, answer⟩]) seedStart
      { search with queue := queue } walked (asked ++ [(target, answer)]) := by
  obtain ⟨target, htoken, harg⟩ := h.queue work (by rw [hqueue]; exact List.mem_cons_self)
  have htokens : search.queue.filterMap Work.token = target :: queue.filterMap Work.token := by
    rw [hqueue, List.filterMap_cons, htoken]
  have honce := h.once
  rw [htokens] at honce
  have hfresh : target ∉ asked.map Prod.fst := by
    intro hmem
    exact (List.disjoint_of_nodup_append honce) hmem List.mem_cons_self
  refine ⟨target, h.seed, h.seedVisited, h.visited, ?_, ?_, ?_, ?_, ?_, ?_, h.walk, h.edges⟩
  · intro segment hsegment
    rcases h.origin segment hsegment with hseed | hasked
    · exact .inl hseed
    · right
      rw [List.map_append]
      exact List.mem_append_left _ hasked
  · intro other
    rw [h.scheduled other, htokens]
    simp only [List.map_append, List.mem_append, List.mem_cons, List.map_cons, List.map_nil,
      List.not_mem_nil, or_false]
    tauto
  · rw [List.map_append, List.append_assoc]
    exact honce
  · intro other hother
    exact h.queue other (by rw [hqueue]; exact List.mem_cons_of_mem _ hother)
  · have hanswers := h.answers
    unfold ufAnswers at hanswers ⊢
    rw [List.filterMap_append, hanswers, List.map_append, harg]
    rfl
  · intro entry hentry
    rcases List.mem_append.mp hentry with hold | hnew
    · exact h.reached entry hold
    · rw [List.mem_singleton.mp hnew]
      constructor
      · rintro ⟨segment, hsegment, hstart⟩
        rcases h.origin segment hsegment with hseed | hasked
        · rw [hstart] at hseed
          exact .inl hseed
        · rw [hstart] at hasked
          exact absurd hasked hfresh
      · rintro (hseed | ⟨listing, hlisting, hboundary⟩)
        · exact (h.visited target).mp (h.seedVisited target hseed)
        · apply (h.visited target).mp
          apply hwhy
          rw [show answer = some listing from hlisting, Option.bind_some, htoken]
          exact startIn_token.1.mpr hboundary

theorem Accounted.entered (h : Accounted question rest seedStart search walked asked)
    (hqueue : search.queue = work :: queue) {resolving : Trace}
    (hstart : question.startIn work.token listing = some start)
    (hresolving : ∀ event ∈ resolving, event.isUf = false)
    (hmid : Entered question search work queue listing start walk mid) :
    ∃ target, Accounted question
      (rest ++ (⟨.halt, none⟩ :: ⟨.uf work.arg, some listing⟩ :: resolving)) seedStart
      (walk.external.foldl (Search.schedule work.token work.depth) mid)
      (walked ++ [⟨listing, mid.tablesFor listing start, start⟩])
      (asked ++ [(target, some listing)]) := by
  obtain ⟨target, htoken, harg⟩ := h.queue work (by rw [hqueue]; exact List.mem_cons_self)
  rw [htoken] at hstart
  obtain rfl := startIn_token.2 start hstart
  have hboundary := startIn_token.1.mp hstart
  have htokens : search.queue.filterMap Work.token = start :: queue.filterMap Work.token := by
    rw [hqueue, List.filterMap_cons, htoken]
  have honce := h.once
  rw [htokens] at honce
  obtain ⟨added, haddedQueue, haddedNodup, haddedFresh, henqueued, hsource, hvisited, htables⟩ :=
    scheduleAll_adds work.token work.depth walk.external mid
  rw [hmid.queue] at haddedQueue
  rw [hmid.enqueued] at haddedFresh henqueued hsource
  rw [hmid.visited] at hvisited
  have haddedTokens : (walk.external.foldl (Search.schedule work.token work.depth) mid).queue.filterMap
      Work.token = queue.filterMap Work.token ++ added := by
    rw [haddedQueue, List.filterMap_append, List.filterMap_map]
    congr 1
    exact List.filterMap_some
  refine ⟨start, ?_, ?_, ?_, ?_, ?_, ?_, ?_, ?_, ?_, ?_, ?_⟩
  · rw [scheduleAll_report, hmid.seedStart, htoken]
    exact h.seed
  · intro first hfirst
    rw [hvisited]
    exact List.mem_cons_of_mem _ (h.seedVisited first hfirst)
  · intro address
    rw [hvisited, List.mem_cons, h.visited address]
    simp only [List.mem_append, List.mem_singleton]
    constructor
    · rintro (rfl | ⟨segment, hsegment, haddress⟩)
      · exact ⟨_, .inr rfl, rfl⟩
      · exact ⟨segment, .inl hsegment, haddress⟩
    · rintro ⟨segment, hsegment | rfl, haddress⟩
      · exact .inr ⟨segment, hsegment, haddress⟩
      · exact .inl haddress.symm
  · intro segment hsegment
    rw [List.map_append]
    rcases List.mem_append.mp hsegment with hold | hnew
    · rcases h.origin segment hold with hseed | hasked
      · exact .inl hseed
      · exact .inr (List.mem_append_left _ hasked)
    · right
      rw [List.mem_singleton.mp hnew]
      exact List.mem_append_right _ (List.mem_singleton_self _)
  · intro other
    rw [henqueued other, h.scheduled other, htokens, haddedTokens]
    simp only [List.map_append, List.mem_append, List.mem_cons, List.map_cons, List.map_nil,
      List.not_mem_nil, or_false]
    tauto
  · rw [haddedTokens, List.map_append, ← List.append_assoc]
    rw [List.nodup_append']
    refine ⟨?_, haddedNodup, ?_⟩
    · rw [List.append_assoc]
      exact honce
    · intro other hold hnew
      apply haddedFresh other hnew
      rw [h.scheduled other, htokens]
      simp only [List.mem_append, List.mem_cons, List.map_cons, List.map_nil,
        List.not_mem_nil, or_false] at hold ⊢
      tauto
  · intro other hother
    rw [haddedQueue] at hother
    rcases List.mem_append.mp hother with hold | hnew
    · exact h.queue other (by rw [hqueue]; exact List.mem_cons_of_mem _ hold)
    · obtain ⟨target, -, rfl⟩ := List.mem_map.mp hnew
      exact ⟨target, rfl, rfl⟩
  · have hanswers := h.answers
    have hnone := ufAnswers_of_none hresolving
    unfold ufAnswers at hanswers hnone ⊢
    rw [List.filterMap_append, hanswers, List.map_append, harg]
    simp only [List.filterMap_cons, hnone]
    rfl
  · intro entry hentry
    rcases List.mem_append.mp hentry with hold | hnew
    · -- no other target is entered from this one's work
      have hne : start ≠ entry.1 := by
        rintro rfl
        exact (List.disjoint_of_nodup_append honce) (List.mem_map_of_mem hold) List.mem_cons_self
      rw [← h.reached entry hold]
      simp only [List.mem_append, List.mem_singleton]
      constructor
      · rintro ⟨segment, hsegment | rfl, hsame⟩
        · exact ⟨segment, hsegment, hsame⟩
        · exact absurd hsame hne
      · rintro ⟨segment, hsegment, hsame⟩
        exact ⟨segment, .inl hsegment, hsame⟩
    · rw [List.mem_singleton.mp hnew]
      constructor
      · exact fun _ => .inr ⟨listing, rfl, hboundary⟩
      · exact fun _ => ⟨_, List.mem_append_right _ (List.mem_singleton_self _), rfl⟩
  · intro segment hsegment
    rcases List.mem_append.mp hsegment with hold | hnew
    · exact h.walk segment hold
    · rw [List.mem_singleton.mp hnew]
      exact ⟨walk, hmid.walks, hmid.target⟩
  · intro other
    rw [henqueued other, hsource other, h.edges other, exists_external_iff hmid.walks]
    simp only [List.mem_append, List.mem_singleton]
    constructor
    · rintro (⟨segment, hsegment, hedge⟩ | hedge)
      · exact ⟨segment, .inl hsegment, hedge⟩
      · exact ⟨_, .inr rfl, hedge⟩
    · rintro ⟨segment, hsegment | rfl, hedge⟩
      · exact .inl ⟨segment, hsegment, hedge⟩
      · exact .inr hedge

theorem Accounted.seeded {resolving : Trace}
    (hresolving : ∀ event ∈ resolving, event.isUf = false)
    (hmid : Entered question question.initial ⟨question.seed, none, 0⟩ [] listing start walk mid) :
    Accounted question resolving (some start)
      (walk.external.foldl (Search.schedule none 0) mid)
      [⟨listing, mid.tablesFor listing start, start⟩] [] := by
  obtain ⟨added, haddedQueue, haddedNodup, haddedFresh, henqueued, hsource, hvisited, htables⟩ :=
    scheduleAll_adds none 0 walk.external mid
  rw [hmid.queue, List.nil_append] at haddedQueue
  rw [hmid.enqueued] at henqueued hsource
  rw [hmid.visited] at hvisited
  have hinitial : question.initial.enqueued = [] := rfl
  have haddedTokens : (walk.external.foldl (Search.schedule none 0) mid).queue.filterMap
      Work.token = added := by
    rw [haddedQueue, List.filterMap_map]
    exact List.filterMap_some
  refine ⟨?_, ?_, ?_, ?_, ?_, ?_, ?_, ?_, ?_, ?_, ?_⟩
  · rw [scheduleAll_report, hmid.seedStart]
    rfl
  · intro first hfirst
    rw [hvisited, Option.some.inj hfirst]
    exact List.mem_cons_self
  · intro address
    rw [hvisited]
    have hnone : question.initial.visited = [] := rfl
    simp only [hnone, List.mem_singleton, exists_eq_left]
    exact eq_comm
  · intro segment hsegment
    rw [List.mem_singleton.mp hsegment]
    exact .inl rfl
  · intro target
    rw [henqueued target, haddedTokens, hinitial]
    simp
  · rw [haddedTokens]
    exact haddedNodup
  · intro other hother
    rw [haddedQueue] at hother
    obtain ⟨target, -, rfl⟩ := List.mem_map.mp hother
    exact ⟨target, rfl, rfl⟩
  · exact ufAnswers_of_none hresolving
  · intro entry hentry
    cases hentry
  · intro segment hsegment
    rw [List.mem_singleton.mp hsegment]
    exact ⟨walk, hmid.walks, hmid.target⟩
  · intro target
    rw [henqueued target, hsource target, exists_external_iff hmid.walks, hinitial]
    simp

theorem Accounted.unseeded (question : Question) :
    Accounted question [] none { question.initial with queue := [] } [] [] := by
  constructor <;> simp [ufAnswers, Question.initial]

theorem OnCourse.next (h : OnCourse question before search walked)
    (hturn : Runs (turn question search) events (.ok (.inl after)))
    (hbound : after.report.boundHit = false) :
    OnCourse question (before ++ events) after (walked ++ search.entered after events) := by
  right
  rcases h with ⟨rfl, rfl, rfl⟩ | ⟨seedListing, rest, asked, rfl, haccounted⟩
  · rw [List.nil_append, List.nil_append]
    have hgoes := runs_turn_next (rfl : question.initial.queue = ⟨question.seed, none, 0⟩ :: [])
      hturn
    cases hgoes with
    | bounded => cases hbound
    | @dropped answer hwhy =>
      have hnone : answer.bind (question.startIn none) = none := by
        cases hstart : answer.bind (question.startIn none) with
        | none => rfl
        | some start => exact absurd (hwhy start hstart) List.not_mem_nil
      refine ⟨answer, [], [], rfl, ?_⟩
      rw [hnone, entered_of_same]
      exact Accounted.unseeded question
    | @entered listing start walk mid resolving hstart hfresh hresolving hmid =>
      obtain ⟨-, -, -, -, -, -, hvisited, htables⟩ :=
        scheduleAll_adds none 0 walk.external mid
      refine ⟨some listing, resolving, [], rfl, ?_⟩
      rw [entered_of_grown (hvisited.trans hmid.visited) rfl, Option.bind_some, hstart,
        tablesFor_eq htables]
      exact Accounted.seeded hresolving hmid
  · cases hqueue : search.queue with
    | nil =>
      rw [turn, hqueue] at hturn
      obtain ⟨report, front, last, -, -, hreport⟩ := runs_bind_ok hturn
      cases (runs_done_iff.mp hreport).2
    | cons work queue =>
      have hgoes := runs_turn_next hqueue hturn
      cases hgoes with
      | bounded => cases hbound
      | dropped hwhy =>
        obtain ⟨target, hdropped⟩ := haccounted.dropped hqueue hwhy
        rw [entered_of_same, List.append_nil]
        exact ⟨seedListing, _, _, rfl, hdropped⟩
      | @entered listing start walk mid resolving hstart hfresh hresolving hmid =>
        obtain ⟨-, -, -, -, -, -, hvisited, htables⟩ :=
          scheduleAll_adds work.token work.depth walk.external mid
        obtain ⟨target, hentered⟩ := haccounted.entered hqueue hstart hresolving hmid
        rw [entered_of_grown (hvisited.trans hmid.visited) rfl, tablesFor_eq htables]
        exact ⟨seedListing, _, _, rfl, hentered⟩

theorem runs_turn_bound (hturn : Runs (turn question search) events (.ok (.inl after)))
    (hbound : after.report.boundHit = false) : search.report.boundHit = false := by
  cases hqueue : search.queue with
  | nil =>
    rw [turn, hqueue] at hturn
    obtain ⟨report, front, last, -, -, hreport⟩ := runs_bind_ok hturn
    cases (runs_done_iff.mp hreport).2
  | cons work queue =>
    have hgoes := runs_turn_next hqueue hturn
    cases hgoes with
    | bounded => cases hbound
    | dropped hwhy => exact hbound
    | entered hstart hfresh hresolving hmid =>
      rw [scheduleAll_report] at hbound
      exact hmid.bound hbound

theorem Turns.onCourse (h : Turns question before search walked)
    (hbound : search.report.boundHit = false) : OnCourse question before search walked := by
  induction h with
  | start => exact .inl ⟨rfl, rfl, rfl⟩
  | next hbefore hturn ih => exact (ih (runs_turn_bound hturn hbound)).next hturn hbound

theorem runs_lastPoll_events {report last : Report}
    (h : Runs (lastPoll report) events (.ok last)) : ∀ event ∈ events, event.isUf = false := by
  rw [lastPoll] at h
  split at h
  · obtain ⟨rfl, -⟩ := runs_done_iff.mp h
    simp
  · rw [halt_bind, runs_ask_iff] at h
    obtain ⟨halted, rest, rfl, h⟩ := h
    obtain ⟨rfl, -⟩ := runs_done_iff.mp h
    intro event hevent
    rw [List.mem_singleton.mp hevent]
    rfl

theorem runs_succeed_verdict {parent : Parents} {token : Option Nat} {entry : Nat}
    {report last : Report} (h : Runs (succeed parent token entry report) events (.ok last)) :
    last.verdictReachable = true := by
  rw [succeed] at h
  obtain ⟨path, front, rest, -, -, hpoll⟩ := runs_bind_ok h
  obtain ⟨halted, hresult⟩ := runs_lastPoll hpoll
  obtain rfl := Except.ok.inj hresult
  rfl

/-- A walk that ends without a verdict and without a halt has emptied its queue. -/
theorem runs_turn_clean {report : Report}
    (hturn : Runs (turn question search) events (.ok (.inr report)))
    (hverdict : report.verdictReachable = false) (hhalted : report.halted = none) :
    search.queue = [] ∧ report.seedStart = search.report.seedStart ∧
      report.boundHit = search.report.boundHit ∧ ∀ event ∈ events, event.isUf = false := by
  rw [turn] at hturn
  split at hturn
  case h_1 hqueue =>
    obtain ⟨last, front, rest, rfl, hpoll, hrest⟩ := runs_bind_ok hturn
    obtain ⟨rfl, hreport⟩ := runs_done_iff.mp hrest
    obtain rfl := Sum.inr.inj (Except.ok.inj hreport)
    rw [List.append_nil]
    obtain ⟨halted, hresult⟩ := runs_lastPoll hpoll
    obtain rfl := Except.ok.inj hresult
    exact ⟨hqueue, rfl, rfl, runs_lastPoll_events hpoll⟩
  case h_2 work queue hqueue =>
    exfalso
    dsimp only at hturn
    rw [halt_bind, runs_ask_iff] at hturn
    obtain ⟨answer, rest, rfl, hturn⟩ := hturn
    split at hturn
    case h_1 why =>
      obtain ⟨last, front, rest, rfl, hpoll, hrest⟩ := runs_bind_ok hturn
      obtain ⟨rfl, hreport⟩ := runs_done_iff.mp hrest
      obtain rfl := Sum.inr.inj (Except.ok.inj hreport)
      rw [lastPoll] at hpoll
      obtain ⟨-, hpolled⟩ := runs_done_iff.mp hpoll
      obtain rfl := Except.ok.inj hpolled
      cases hhalted
    case h_2 =>
    split at hturn
    case isTrue => cases (runs_done_iff.mp hturn).2
    case isFalse =>
    rw [uf_bind, runs_ask_iff] at hturn
    obtain ⟨listing, rest, rfl, hturn⟩ := hturn
    split at hturn
    case h_1 => cases (runs_done_iff.mp hturn).2
    case h_2 =>
    split at hturn
    case h_1 => cases (runs_done_iff.mp hturn).2
    case h_2 =>
    rw [exploreListing] at hturn
    obtain ⟨probed, front, later, -, -, hprobed⟩ := runs_bind_ok hturn
    split at hprobed
    case h_1 => cases (runs_done_iff.mp hprobed).2
    case h_2 =>
    split at hprobed
    case isTrue => cases (runs_done_iff.mp hprobed).2
    case isFalse =>
    dsimp only at hprobed
    split at hprobed
    case isTrue =>
      obtain ⟨found, front, last, -, hsucceed, hdone⟩ := runs_bind_ok hprobed
      obtain ⟨-, hreport⟩ := runs_done_iff.mp hdone
      obtain rfl := Sum.inr.inj (Except.ok.inj hreport)
      rw [runs_succeed_verdict hsucceed] at hverdict
      cases hverdict
    case isFalse =>
    obtain ⟨⟨walk, final⟩, front, last, -, -, hwalked⟩ := runs_bind_ok hprobed
    dsimp only at hwalked
    split at hwalked
    case isTrue =>
      obtain ⟨found, front, last, -, hsucceed, hdone⟩ := runs_bind_ok hwalked
      obtain ⟨-, hreport⟩ := runs_done_iff.mp hdone
      obtain rfl := Sum.inr.inj (Except.ok.inj hreport)
      rw [runs_succeed_verdict hsucceed] at hverdict
      cases hverdict
    case isFalse => cases (runs_done_iff.mp hwalked).2

theorem Accounted.explored (h : Accounted question rest seedStart search walked asked)
    {segment : Segment} {address : Nat} (harrives : Arrives walked start segment address) :
    segment ∈ walked ∧
      ∃ i, segment.Explores i ∧ (segment.listing.get i).address = address := by
  have hbegin : ∀ segment ∈ walked,
      ∃ i, segment.Explores i ∧ (segment.listing.get i).address = segment.start := by
    intro segment hsegment
    obtain ⟨walk, hwalk, -⟩ := h.walk segment hsegment
    have hcovers := walkFunction_covers hwalk
    exact (hcovers.1 segment.start).mp hcovers.2.2.1
  induction harrives with
  | seed hwalked hstart =>
    refine ⟨hwalked, ?_⟩
    rw [← hstart]
    exact hbegin _ hwalked
  | within _ hi hedge ih =>
    refine ⟨ih.1, ?_⟩
    obtain ⟨walk, hwalk, -⟩ := h.walk _ ih.1
    have hcovers := walkFunction_covers hwalk
    exact (hcovers.1 _).mp (hcovers.2.2.2 _ hi _ hedge)
  | into _ hi hedge hnext hstart _ =>
    refine ⟨hnext, ?_⟩
    rw [← hstart]
    exact hbegin _ hnext

end

theorem reachability_walks {σ : Type} (host : σ → (asked : Query) → asked.Answer × σ) (state : σ)
    (question : Question) :
    ∃ report, (execute host state (reachability question)).result = .ok report ∧
      ∃ walked, Walks question (execute host state (reachability question)).trace report walked := by
  have hruns := runs_execute host state (reachability question)
  refine runs_loop
    (fun search trace => Underway question search trace ∧
      ∃ walked, Turns question trace search walked)
    (fun report trace => ∃ walked, Walks question trace report walked)
    ?_ [] ⟨.inl rfl, [], .start⟩ hruns
  intro search before trace result ⟨hunderway, walked, hturns⟩ hturn
  obtain ⟨outcome, rfl, hnext, -⟩ := runs_turn hunderway hturn
  refine ⟨outcome, rfl, ?_, ?_⟩
  · rintro after rfl
    obtain ⟨hbelow, hafter⟩ := hnext after rfl
    exact ⟨hbelow, hafter, _, .next hturns hturn⟩
  · rintro report rfl
    exact ⟨walked, before, trace, search, rfl, hturns, hturn⟩

theorem Walks.exhausted_iff {question : Question} {trace : Trace} {report : Report}
    {walked : List Segment} (h : Walks question trace report walked) (hclean : report.Clean) :
    Exhausted question walked report ↔ CalleesDisassemble question trace := by
  obtain ⟨before, events, search, rfl, hturns, hturn⟩ := h
  obtain ⟨hqueue, hseed, hbound, hevents⟩ :=
    runs_turn_clean hturn hclean.verdict hclean.halted
  rw [hclean.bound] at hbound
  rcases hturns.onCourse hbound.symm with ⟨-, rfl, -⟩ | ⟨seedListing, rest, asked, rfl, haccounted⟩
  · cases hqueue
  have hasked : ∀ target, target ∈ search.enqueued ↔ target ∈ asked.map Prod.fst := by
    intro target
    rw [haccounted.scheduled target, hqueue]
    simp
  have hanswered : ∀ target answer, ⟨.uf (Text.hex target), answer⟩ ∈ rest ++ events ↔
      (target, answer) ∈ asked := by
    intro target answer
    have hanswers := haccounted.answers
    have hmem : ⟨.uf (Text.hex target), answer⟩ ∈ rest ++ events ↔
        (Text.hex target, answer) ∈ ufAnswers (rest ++ events) := by
      unfold ufAnswers
      rw [List.mem_filterMap]
      constructor
      · exact fun h => ⟨_, h, rfl⟩
      · rintro ⟨⟨query, found⟩, hevent, hsome⟩
        cases query with
        | uf arg =>
          obtain ⟨rfl, rfl⟩ := Prod.mk.inj (Option.some.inj hsome)
          exact hevent
        | resolveJump block => cases hsome
        | halt => cases hsome
    have hnone := ufAnswers_of_none hevents
    unfold ufAnswers at hmem hanswers hnone
    rw [hmem, List.filterMap_append, hnone, List.append_nil, hanswers, List.mem_map]
    constructor
    · rintro ⟨entry, hentry, heq⟩
      obtain ⟨harg, rfl⟩ := Prod.mk.inj heq
      rw [← Text.hex_injective harg]
      exact hentry
    · exact fun h => ⟨_, h, rfl⟩
  constructor
  · intro hexhausted listing later heq target answer hmem
    obtain ⟨-, hrest⟩ := List.cons.inj heq
    obtain ⟨hlisting, hlater⟩ := List.cons.inj hrest
    obtain rfl : seedListing = listing := by
      injection hlisting
    obtain rfl : rest ++ events = later := hlater
    have hentry := (hanswered target answer).mp hmem
    apply (haccounted.reached _ hentry).mp
    obtain ⟨segment, hsegment, i, edge, hi, hexits, rfl⟩ :=
      (haccounted.edges target).mp ((hasked target).mpr (List.mem_map_of_mem hentry))
    exact hexhausted.followed segment hsegment i hi edge hexits
  · intro hcallees
    refine ⟨?_, ?_, ?_⟩
    · intro segment hsegment i hi j hedge
      obtain ⟨walk, hwalk, -⟩ := haccounted.walk segment hsegment
      have hcovers := walkFunction_covers hwalk
      exact (hcovers.1 _).mp (hcovers.2.2.2 i hi j hedge)
    · intro segment hsegment i hi edge hexits
      have henqueued := (haccounted.edges edge.target).mpr
        ⟨segment, hsegment, i, edge, hi, hexits, rfl⟩
      obtain ⟨⟨target, answer⟩, hentry, htarget⟩ :=
        List.mem_map.mp ((hasked edge.target).mp henqueued)
      obtain rfl : target = edge.target := htarget
      have hcallee := hcallees seedListing (rest ++ events) rfl edge.target answer
        ((hanswered _ _).mpr hentry)
      exact (haccounted.reached _ hentry).mpr hcallee
    · intro start segment _ harrives
      obtain ⟨hsegment, i, hi, haddress⟩ := haccounted.explored harrives
      obtain ⟨walk, hwalk, htarget⟩ := haccounted.walk segment hsegment
      exact htarget (((walkFunction_covers hwalk).1 _).mpr ⟨i, hi, haddress⟩)

/-- A report that claims a full exploration is right exactly when every listing asked
for a discovered target could be entered there. -/
theorem clean_report_exhausted_iff {σ : Type} (host : σ → (asked : Query) → asked.Answer × σ)
    (state : σ) (question : Question) (report : Report)
    (hreport : (execute host state (reachability question)).result = .ok report)
    (hclean : report.Clean) :
    (∃ walked, Walks question (execute host state (reachability question)).trace report walked) ∧
    ∀ walked, Walks question (execute host state (reachability question)).trace report walked →
      (Exhausted question walked report ↔
        CalleesDisassemble question (execute host state (reachability question)).trace) := by
  constructor
  · obtain ⟨found, hfound, walked, hwalks⟩ := reachability_walks host state question
    obtain rfl := Except.ok.inj (hreport.symm.trans hfound)
    exact ⟨walked, hwalks⟩
  · intro walked hwalks
    exact hwalks.exhausted_iff hclean

def elsewhereQuestion : Question := { dispatchQuestion with target := 0x3000 }

def elsewhereReport : Report :=
  { dispatchScheduled.report with target := 0x3000, funcsExplored := 2, maxDepthSeen := 1 }

theorem elsewhere_run :
    (execute dispatchImage () (reachability elsewhereQuestion)).result = .ok elsewhereReport ∧
      (execute dispatchImage () (reachability elsewhereQuestion)).trace =
        [⟨.halt, none⟩, ⟨.uf "drv!Dispatch",
          some [⟨0x1000, .fallthrough⟩, ⟨0x1004, .call (some 0x2000)⟩, ⟨0x1009, .ret⟩]⟩,
          ⟨.halt, none⟩, ⟨.uf (Text.hex 0x2000), some [⟨0x2000, .fallthrough⟩, ⟨0x2004, .ret⟩]⟩,
          ⟨.halt, none⟩] := by
  let first : Search := { dispatchScheduled with
    report := { dispatchScheduled.report with target := 0x3000 } }
  let second : Search := { first with
    visited := [0x2000, 0x1000], queue := [], report := elsewhereReport }
  have hfirst : (execute dispatchImage () (turn elsewhereQuestion elsewhereQuestion.initial)).result =
      .ok (.inl first) := by
    decide +kernel
  have hsecond : (execute dispatchImage () (turn elsewhereQuestion first)).result =
      .ok (.inl second) := by
    decide +kernel
  have hthird : (execute dispatchImage () (turn elsewhereQuestion second)).result =
      .ok (.inr elsewhereReport) := by
    decide +kernel
  constructor
  · rw [reachability, execute_loop_next dispatchImage hfirst (by decide +kernel),
      execute_loop_next dispatchImage hsecond (by decide +kernel)]
    exact execute_loop_done dispatchImage hthird
  · rw [reachability, execute_loop_next_trace dispatchImage hfirst (by decide +kernel),
      execute_loop_next_trace dispatchImage hsecond (by decide +kernel),
      execute_loop_done_trace dispatchImage hthird]
    decide +kernel

theorem elsewhere_exhausted :
    ∃ walked, Walks elsewhereQuestion
      (execute dispatchImage () (reachability elsewhereQuestion)).trace elsewhereReport walked ∧
        Exhausted elsewhereQuestion walked elsewhereReport := by
  obtain ⟨⟨walked, hwalks⟩, hiff⟩ := clean_report_exhausted_iff dispatchImage () elsewhereQuestion
    elsewhereReport elsewhere_run.1 ⟨rfl, rfl, rfl, rfl, rfl⟩
  refine ⟨walked, hwalks, (hiff walked hwalks).mpr ?_⟩
  rw [elsewhere_run.2]
  intro seedListing rest heq target answer hmem
  right
  obtain ⟨-, hrest⟩ := List.cons.inj heq
  obtain ⟨-, rfl⟩ := List.cons.inj hrest
  simp only [List.mem_cons, List.not_mem_nil, or_false, Event.mk.injEq, reduceCtorEq, false_and,
    false_or, Query.uf.injEq] at hmem
  obtain ⟨harg, hanswer⟩ := hmem
  obtain rfl := Text.hex_injective harg
  refine ⟨_, eq_of_heq hanswer, ?_⟩
  decide +kernel

/-! ## A callee that does not disassemble -/

def pagedOutImage (state : Unit) : (asked : Query) → asked.Answer × Unit
  | .uf "0x2000" => (none, state)
  | asked => dispatchImage state asked

def pagedOutReport : Report := dispatchScheduled.report

theorem pagedOut_run :
    (execute pagedOutImage () (reachability dispatchQuestion)).result = .ok pagedOutReport ∧
      (execute pagedOutImage () (reachability dispatchQuestion)).trace =
        [⟨.halt, none⟩, ⟨.uf "drv!Dispatch",
          some [⟨0x1000, .fallthrough⟩, ⟨0x1004, .call (some 0x2000)⟩, ⟨0x1009, .ret⟩]⟩,
          ⟨.halt, none⟩, ⟨.uf "0x2000", none⟩, ⟨.halt, none⟩] := by
  have hfirst : (execute pagedOutImage () (turn dispatchQuestion dispatchQuestion.initial)).result =
      .ok (.inl dispatchScheduled) := by
    decide +kernel
  have hsecond : (execute pagedOutImage () (turn dispatchQuestion dispatchScheduled)).result =
      .ok (.inl { dispatchScheduled with queue := [] }) := by
    decide +kernel
  have hthird : (execute pagedOutImage ()
      (turn dispatchQuestion { dispatchScheduled with queue := [] })).result =
        .ok (.inr pagedOutReport) := by
    decide +kernel
  constructor
  · rw [reachability, execute_loop_next pagedOutImage hfirst (by decide),
      execute_loop_next pagedOutImage hsecond (by decide)]
    exact execute_loop_done pagedOutImage hthird
  · rw [reachability, execute_loop_next_trace pagedOutImage hfirst (by decide),
      execute_loop_next_trace pagedOutImage hsecond (by decide),
      execute_loop_done_trace pagedOutImage hthird]
    decide +kernel

/-- The report is clean and the callee behind the hole was not explored. -/
theorem pagedOut_not_exhausted :
    (execute pagedOutImage () (reachability dispatchQuestion)).result = .ok pagedOutReport ∧
      pagedOutReport.Clean ∧
      (∃ walked, Walks dispatchQuestion
        (execute pagedOutImage () (reachability dispatchQuestion)).trace pagedOutReport walked) ∧
      ∀ walked, Walks dispatchQuestion
        (execute pagedOutImage () (reachability dispatchQuestion)).trace pagedOutReport walked →
          ¬Exhausted dispatchQuestion walked pagedOutReport := by
  have hclean : pagedOutReport.Clean := ⟨rfl, rfl, rfl, rfl, rfl⟩
  refine ⟨pagedOut_run.1, hclean, ?_, ?_⟩
  · obtain ⟨report, hreport, hwalks⟩ := reachability_walks pagedOutImage () dispatchQuestion
    obtain rfl := Except.ok.inj (pagedOut_run.1.symm.trans hreport)
    exact hwalks
  · intro walked hwalks hexhausted
    have hcallees := (hwalks.exhausted_iff hclean).mp hexhausted
    rw [pagedOut_run.2] at hcallees
    have hhole : (⟨.uf (Text.hex 0x2000), none⟩ : Happening) ∈
        ([⟨.halt, none⟩, ⟨.uf "0x2000", none⟩, ⟨.halt, none⟩] : Trace) := by
      decide +kernel
    rcases hcallees _ _ rfl 0x2000 none hhole with hseed | ⟨listing, hlisting, -⟩
    · exact absurd hseed (by decide +kernel)
    · cases hlisting

end WindbgMcp.Driver
