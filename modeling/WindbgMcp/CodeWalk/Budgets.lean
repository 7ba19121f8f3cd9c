import WindbgMcp.CodeWalk.Accounting

/-! The budgets of the walk: the bytes it decodes, the rows it records, and whether it says
so where one of them ran out.  A turn that closes a run and records a range behind it adds two
rows behind one check; and a request that the byte budget has shortened may come back empty,
which reads as code that does not decode. -/
namespace WindbgMcp.CodeWalk
open WindbgMcp.Library WindbgMcp.Library.Program
open WindbgMcp.Walk (Halt)

namespace Cursor

def closedRows (cursor : Cursor) : Nat :=
  cursor.covered.rows + if cursor.run.any (0 < ·.2) then 1 else 0

def Short (stop : Nat) (cursor : Cursor) : Prop :=
  cursor.budget < min cursor.window (stop - cursor.position)

def Retries (stop : Nat) (cursor : Cursor) : Prop :=
  cursor.retrying = false ∧ max cursor.restOfPage maxInstruction < cursor.want stop

def more (extra : Nat) (cursor : Cursor) : Cursor := { cursor with budget := cursor.budget + extra }

end Cursor

section Turn
variable {σ : Type} (host : σ → (query : Query) → Answer query × σ) (stop : Nat)

/-- The turn asks for a window: it is not halted, and there are bytes and rows left. -/
def Asks (turn : σ × Cursor) : Prop :=
  turn.2.position < stop ∧ (host turn.1 .halt).1 = none ∧ 0 < turn.2.budget ∧
    turn.2.covered.rows < maxRanges

def answer (turn : σ × Cursor) : Option (List Instruction) :=
  (host (host turn.1 .halt).2 (.decode turn.2.position (turn.2.want stop))).1

def Emptied (turn : σ × Cursor) : Prop :=
  Asks host stop turn ∧ answer host stop turn = some []

def Records (turn : σ × Cursor) : Prop :=
  Asks host stop turn ∧
    (answer host stop turn = some [] ∨
      (answer host stop turn = none ∧ ¬ turn.2.Retries stop))

def Overflows (turn : σ × Cursor) : Prop :=
  Records host stop turn ∧ maxRanges ≤ turn.2.closedRows

/-- What a turn comes to against the host. -/
inductive Took (name : String) (turn : σ × Cursor) : Cursor ⊕ Ended → Prop
  | walked (h : stop ≤ turn.2.position) : Took name turn (.inr ⟨turn.2, false⟩)
  | halted (h : ¬ Asks host stop turn) (why : Halt) :
    Took name turn (.inr ⟨turn.2.haltedBy name why, true⟩)
  | capped (h : ¬ Asks host stop turn) : Took name turn (.inr ⟨turn.2.capped name, true⟩)
  | retry (hasks : Asks host stop turn) (hanswer : answer host stop turn = none)
      (hretries : turn.2.Retries stop) :
    Took name turn (.inl { turn.2 with
      retryingUntil := some (saturatingAdd turn.2.position (turn.2.want stop)) })
  | skipped (hasks : Asks host stop turn) (hanswer : answer host stop turn = none)
      (hretries : ¬ turn.2.Retries stop) :
    Took name turn (.inl (turn.2.skip name (turn.2.want stop)))
  | emptied (hasks : Asks host stop turn) (hanswer : answer host stop turn = some []) :
    Took name turn (.inr ⟨turn.2.abandon name stop, false⟩)
  | advanced (hasks : Asks host stop turn) (block : List Instruction) (hblock : block ≠ [])
      (hanswer : answer host stop turn = some block)
      (hwithin : blockEnd turn.2.position block ≤ turn.2.position + turn.2.want stop) :
    Took name turn (.inl (turn.2.advance (turn.2.want stop) (blockEnd turn.2.position block)))

end Turn

section Took
variable {σ : Type} {host : σ → (query : Query) → Answer query × σ} {stop : Nat} {name : String}

theorem execute_visitAll (block : List Instruction) (state : σ) :
    (execute host state (visitAll name block)).result = .ok () := by
  induction block generalizing state with
  | nil => rfl
  | cons instruction block ih => exact ih _

theorem execute_takeBlock {turn : σ × Cursor} {block : List Instruction} (hblock : block ≠ [])
    (hasks : Asks host stop turn) (hanswer : answer host stop turn = some block)
    (hwhole : WholeBlock turn.2.position (turn.2.want stop) (some block)) (hstop : stop ≤ u64Max)
    (state : σ) :
    ∃ outcome, (execute host state
        (takeBlock name stop turn.2 block (block.getLast hblock))).result = .ok outcome ∧
      Took host stop name turn outcome := by
  have hend := hwhole.1.last hblock
  have hbounds := hwhole.1.bounds _ (List.getLast_mem hblock)
  have hwant := want_le turn.2 stop
  have hposition := hasks.1
  have hle := hwhole.2
  have hnext : saturatingAdd (block.getLast hblock).address
      (instructionLen (block.getLast hblock)) = blockEnd turn.2.position block := by
    rw [saturatingAdd_of_le (by omega), hend]
  unfold takeBlock
  rw [execute_bind_ok host _ (execute_visitAll block state)]
  dsimp only
  rw [hnext, if_neg (by omega)]
  exact ⟨_, rfl, .advanced hasks block hblock hanswer hle⟩

theorem execute_windowTurn
    (hdecoder : ∀ state address want,
      WholeBlock address want (host state (.decode address want)).1)
    (hstop : stop ≤ u64Max) (state : σ) (cursor : Cursor) :
    ∃ outcome, (execute host state (windowTurn name stop cursor)).result = .ok outcome ∧
      Took host stop name (state, cursor) outcome := by
  unfold windowTurn
  by_cases hposition : cursor.position < stop
  swap
  · rw [if_neg hposition]
    exact ⟨_, rfl, .walked (Nat.not_lt.mp hposition)⟩
  rw [if_pos hposition]
  simp only [execute]
  cases hpoll : (host state .halt).1 with
  | some why =>
    refine ⟨_, rfl, .halted ?_ why⟩
    rintro ⟨-, hnone, -⟩
    cases hpoll.symm.trans hnone
  | none =>
    dsimp only
    split
    · next hbudget =>
      refine ⟨_, rfl, .capped ?_⟩
      rintro ⟨-, -, hleft, -⟩
      dsimp only at hleft
      omega
    · next hbudget =>
      split
      · next hrows =>
        refine ⟨_, rfl, .capped ?_⟩
        rintro ⟨-, -, -, hleft⟩
        dsimp only at hleft
        omega
      · next hrows =>
        have hasks : Asks host stop (state, cursor) := ⟨hposition, hpoll,
          Nat.pos_of_ne_zero hbudget, Nat.lt_of_not_le hrows⟩
        have hwhole := hdecoder (host state .halt).2 cursor.position (cursor.want stop)
        simp only [execute]
        cases hanswer :
          (host (host state .halt).2 (.decode cursor.position (cursor.want stop))).1 with
        | none =>
          dsimp only
          split
          · next hretry =>
            simp only [Bool.and_eq_true, Bool.not_eq_true', decide_eq_true_eq] at hretry
            exact ⟨_, rfl, .retry hasks hanswer hretry⟩
          · next hretry =>
            simp only [Bool.and_eq_true, Bool.not_eq_true', decide_eq_true_eq] at hretry
            exact ⟨_, rfl, .skipped hasks hanswer hretry⟩
        | some block =>
          rw [hanswer] at hwhole
          cases block with
          | nil => exact ⟨_, rfl, .emptied hasks hanswer⟩
          | cons first rest =>
            exact execute_takeBlock (List.cons_ne_nil first rest) hasks hanswer hwhole hstop _

end Took

section Windows
variable {σ : Type} (host : σ → (query : Query) → Answer query × σ)

theorem left_wf (stop : Nat) :
    WellFounded fun next cursor : Cursor => next.left stop < cursor.left stop :=
  InvImage.wf (Cursor.left stop) Nat.lt_wfRel.wf

def windowTurns (name : String) (stop : Nat) (state : σ) (cursor : Cursor) : List (σ × Cursor) :=
  turns host (fun next cursor : Cursor => next.left stop < cursor.left stop)
    (left_wf stop) (windowTurn name stop) state cursor

variable {host} {name : String} {stop : Nat}

theorem windows_rule
    (hdecoder : ∀ state address want,
      WholeBlock address want (host state (.decode address want)).1)
    (hstop : stop ≤ u64Max)
    (motive : σ → Cursor → Execution Answer Unit Ended σ → List (σ × Cursor) → Prop)
    (hdone : ∀ state cursor ended,
      (execute host state (windowTurn name stop cursor)).result = .ok (.inr ended) →
      Took host stop name (state, cursor) (.inr ended) →
      motive state cursor ⟨.ok ended, (execute host state (windowTurn name stop cursor)).trace,
        (execute host state (windowTurn name stop cursor)).state⟩ [(state, cursor)])
    (hnext : ∀ state cursor next,
      (execute host state (windowTurn name stop cursor)).result = .ok (.inl next) →
      Took host stop name (state, cursor) (.inl next) →
      let after := (execute host state (windowTurn name stop cursor)).state
      let rest := execute host after (walkWindows name stop next)
      motive after next rest (windowTurns host name stop after next) →
      motive state cursor { rest with
        trace := (execute host state (windowTurn name stop cursor)).trace ++ rest.trace }
        ((state, cursor) :: windowTurns host name stop after next))
    (state : σ) (cursor : Cursor) :
    motive state cursor (execute host state (walkWindows name stop cursor))
      (windowTurns host name stop state cursor) := by
  have htook (state : σ) (cursor : Cursor) (outcome : Cursor ⊕ Ended)
      (hresult : (execute host state (windowTurn name stop cursor)).result = .ok outcome) :
      Took host stop name (state, cursor) outcome := by
    obtain ⟨found, hfound, htook⟩ := @execute_windowTurn σ host stop name hdecoder hstop state
      cursor
    obtain rfl := Except.ok.inj (hfound.symm.trans hresult)
    exact htook
  unfold walkWindows windowTurns
  apply execute_loop_rule host motive
  · intro state cursor
    obtain ⟨outcome, hresult, hturned⟩ := windowTurn_runs
      (runs_execute host state (windowTurn name stop cursor))
    exact ⟨outcome, hresult, fun next hnext => hturned.left_lt hstop hnext⟩
  · intro state cursor ended hresult
    exact hdone state cursor ended hresult (htook state cursor _ hresult)
  · intro state cursor next hresult
    exact hnext state cursor next hresult (htook state cursor _ hresult)

end Windows

/-! ## Rows -/

namespace Cursor

theorem close_rows (cursor : Cursor) (name : String) :
    (cursor.close name).covered.rows = cursor.closedRows := by
  unfold close closedRows
  split
  · next start bytes hrun =>
    split
    · next hbytes =>
      simp [hrun, hbytes, Covered.rows]
      omega
    · next hbytes => simp [hrun, hbytes]
  · next hrun => simp [hrun]

theorem closedRows_of_run_none {cursor : Cursor} (h : cursor.run = none) :
    cursor.closedRows = cursor.covered.rows := by
  simp [closedRows, h]

theorem haltedBy_closedRows (cursor : Cursor) (name : String) (why : Halt) :
    (cursor.haltedBy name why).closedRows = cursor.closedRows := by
  have hrun : (cursor.haltedBy name why).run = none := close_run _ name
  rw [closedRows_of_run_none hrun, haltedBy_covered, ← close_rows cursor name]
  rfl

theorem capped_closedRows (cursor : Cursor) (name : String) :
    (cursor.capped name).closedRows = cursor.closedRows := by
  have hrun : (cursor.capped name).run = none := close_run _ name
  rw [closedRows_of_run_none hrun, capped_covered, ← close_rows cursor name]
  rfl

theorem miss_rows (covered : Covered) (range : Scanned) :
    (covered.miss range).rows = covered.rows + 1 := by
  unfold Covered.miss Covered.rows
  rw [List.length_append, List.length_singleton, Nat.add_assoc]

theorem skip_closedRows (cursor : Cursor) (name : String) (want : Nat) :
    (cursor.skip name want).closedRows = cursor.closedRows + 1 := by
  have hrun : (cursor.skip name want).run = none := close_run cursor name
  rw [closedRows_of_run_none hrun, ← close_rows cursor name]
  exact miss_rows _ _

theorem abandon_closedRows (cursor : Cursor) (name : String) (stop : Nat) :
    (cursor.abandon name stop).closedRows = cursor.closedRows + 1 := by
  have hrun : (cursor.abandon name stop).run = none := close_run cursor name
  rw [closedRows_of_run_none hrun, ← close_rows cursor name]
  exact miss_rows _ _

theorem advance_closedRows (cursor : Cursor) (want next : Nat) :
    cursor.closedRows ≤ (cursor.advance want next).closedRows ∧
      (cursor.advance want next).closedRows ≤ cursor.covered.rows + 1 := by
  unfold closedRows advance
  dsimp only
  cases cursor.run with
  | none =>
    simp only [Option.any_none, Bool.false_eq_true, if_false]
    split <;> omega
  | some run =>
    simp only [Option.any_some, decide_eq_true_eq]
    split <;> split <;> omega

end Cursor

def cursorAfter : Cursor ⊕ Ended → Cursor := Sum.elim id Ended.cursor

section Rows
variable {σ : Type} {host : σ → (query : Query) → Answer query × σ} {stop : Nat} {name : String}

/-- A turn never takes a row back, and goes beyond the rows just when it overflows them. -/
theorem Took.closedRows {turn : σ × Cursor} {outcome : Cursor ⊕ Ended}
    (h : Took host stop name turn outcome) :
    turn.2.closedRows ≤ (cursorAfter outcome).closedRows ∧
      (turn.2.closedRows ≤ maxRanges →
        ((cursorAfter outcome).closedRows ≤ maxRanges ↔ ¬ Overflows host stop turn)) := by
  cases h with
  | walked hposition =>
    refine ⟨Nat.le_refl _, fun hrows => iff_of_true hrows ?_⟩
    rintro ⟨⟨hasks, -⟩, -⟩
    exact absurd hasks.1 (Nat.not_lt.mpr hposition)
  | halted hasks why =>
    dsimp only [cursorAfter, Sum.elim_inr]
    rw [Cursor.haltedBy_closedRows]
    exact ⟨Nat.le_refl _, fun hrows => iff_of_true hrows fun hover => hasks hover.1.1⟩
  | capped hasks =>
    dsimp only [cursorAfter, Sum.elim_inr]
    rw [Cursor.capped_closedRows]
    exact ⟨Nat.le_refl _, fun hrows => iff_of_true hrows fun hover => hasks hover.1.1⟩
  | retry hasks hanswer hretries =>
    refine ⟨Nat.le_refl _, fun hrows => iff_of_true hrows ?_⟩
    rintro ⟨⟨-, hrecords⟩, -⟩
    rw [hanswer] at hrecords
    simp [hretries] at hrecords
  | skipped hasks hanswer hretries =>
    have hrecords : Records host stop turn := ⟨hasks, .inr ⟨hanswer, hretries⟩⟩
    dsimp only [cursorAfter, Sum.elim_inl, id]
    rw [Cursor.skip_closedRows]
    unfold Overflows
    simp only [hrecords, true_and]
    omega
  | emptied hasks hanswer =>
    have hrecords : Records host stop turn := ⟨hasks, .inl hanswer⟩
    dsimp only [cursorAfter, Sum.elim_inr]
    rw [Cursor.abandon_closedRows]
    unfold Overflows
    simp only [hrecords, true_and]
    omega
  | advanced hasks block hblock hanswer hwithin =>
    obtain ⟨hkept, hbound⟩ := turn.2.advance_closedRows (turn.2.want stop)
      (blockEnd turn.2.position block)
    refine ⟨hkept, fun hrows => iff_of_true (Nat.le_trans hbound hasks.2.2.2) ?_⟩
    rintro ⟨⟨-, hrecords⟩, -⟩
    rw [hanswer] at hrecords
    simp [hblock] at hrecords

theorem windows_rows
    (hdecoder : ∀ state address want,
      WholeBlock address want (host state (.decode address want)).1)
    (hstop : stop ≤ u64Max) (state : σ) (cursor : Cursor) :
    ∃ ended, (execute host state (walkWindows name stop cursor)).result = .ok ended ∧
      cursor.closedRows ≤ ended.cursor.closedRows ∧
      (cursor.closedRows ≤ maxRanges → (ended.cursor.closedRows ≤ maxRanges ↔
        ∀ turn ∈ windowTurns host name stop state cursor, ¬ Overflows host stop turn)) := by
  apply windows_rule hdecoder hstop fun _ cursor execution turns =>
    ∃ ended, execution.result = .ok ended ∧ cursor.closedRows ≤ ended.cursor.closedRows ∧
      (cursor.closedRows ≤ maxRanges → (ended.cursor.closedRows ≤ maxRanges ↔
        ∀ turn ∈ turns, ¬ Overflows host stop turn))
  · intro state cursor ended _ htook
    obtain ⟨hle, hiff⟩ := htook.closedRows
    refine ⟨ended, rfl, hle, ?_⟩
    simpa [cursorAfter] using hiff
  · rintro state cursor next - htook after rest ⟨ended, hended, hlater, hrest⟩
    obtain ⟨hle, hiff⟩ := htook.closedRows
    replace hle : cursor.closedRows ≤ next.closedRows := hle
    replace hiff : cursor.closedRows ≤ maxRanges →
      (next.closedRows ≤ maxRanges ↔ ¬ Overflows host stop (state, cursor)) := hiff
    refine ⟨ended, hended, Nat.le_trans hle hlater, fun hrows => ?_⟩
    rw [List.forall_mem_cons, ← hiff hrows]
    constructor
    · intro hlast
      have hnext := Nat.le_trans hlater hlast
      exact ⟨hnext, (hrest hnext).mp hlast⟩
    · rintro ⟨hnext, hkept⟩
      exact (hrest hnext).mpr hkept

end Rows

/-! ## Bytes -/

def eventBytes : Event Answer → Nat
  | ⟨.decode _ _, some block⟩ => (block.map instructionLen).sum
  | ⟨.decode _ _, none⟩ | ⟨.halt, _⟩ | ⟨.visit _, _⟩ => 0

def decodedBytes (trace : List (Event Answer)) : Nat := (trace.map eventBytes).sum

theorem decodedBytes_append (front back : List (Event Answer)) :
    decodedBytes (front ++ back) = decodedBytes front + decodedBytes back := by
  simp [decodedBytes]

theorem decodedBytes_visits (name : String) (block : List Instruction) :
    decodedBytes (block.map fun instruction => ⟨.visit (.atInstruction instruction name), ()⟩) =
      0 := by
  simp [decodedBytes, eventBytes, Function.comp_def]

@[simp] theorem decodedBytes_visit (step : Step) (trace : List (Event Answer)) :
    decodedBytes (⟨.visit step, ()⟩ :: trace) = decodedBytes trace := by
  simp [decodedBytes, eventBytes]

theorem close_budget (cursor : Cursor) (name : String) :
    (cursor.close name).budget = cursor.budget := by
  unfold Cursor.close
  split
  · split <;> rfl
  · rfl

theorem want_le_budget (cursor : Cursor) (stop : Nat) : cursor.want stop ≤ cursor.budget := by
  unfold Cursor.want
  omega

section Bytes
variable {stop : Nat} {name : String}

theorem Turned.bytes {cursor : Cursor} {trace : List (Event Answer)} {outcome : Cursor ⊕ Ended}
    (h : Turned name stop cursor trace outcome) (hstop : stop ≤ u64Max)
    (hwhole : ∀ event ∈ trace, Whole event) :
    decodedBytes trace + (cursorAfter outcome).budget ≤ cursor.budget := by
  have hwant := want_le cursor stop
  have hbudget := want_le_budget cursor stop
  cases h with
  | walked => exact Nat.le_of_eq (Nat.zero_add _)
  | halted why =>
    apply Nat.le_of_eq
    rw [show (cursorAfter (.inr ⟨cursor.haltedBy name why, true⟩)).budget = cursor.budget from
      close_budget _ name]
    simp [decodedBytes, eventBytes]
  | capped =>
    apply Nat.le_of_eq
    rw [show (cursorAfter (.inr ⟨cursor.capped name, true⟩)).budget = cursor.budget from
      close_budget _ name]
    simp [decodedBytes, eventBytes]
  | retry => simp [decodedBytes, eventBytes, cursorAfter]
  | skipped =>
    have hspent : (cursorAfter (.inl (cursor.skip name (cursor.want stop)))).budget =
        cursor.budget - cursor.want stop :=
      congrArg (· - cursor.want stop) (close_budget cursor name)
    rw [hspent]
    simp [decodedBytes, eventBytes]
  | emptied =>
    apply Nat.le_of_eq
    rw [show (cursorAfter (.inr ⟨cursor.abandon name stop, false⟩)).budget = cursor.budget from
      close_budget _ name]
    simp [decodedBytes, eventBytes]
  | stuck block hblock hposition hnext =>
    -- whole instructions advance
    have hanswer : WholeBlock cursor.position (cursor.want stop) (some block) :=
      hwhole ⟨.decode cursor.position (cursor.want stop), some block⟩ (by simp)
    have hend := hanswer.1.last hblock
    have hbounds := hanswer.1.bounds _ (List.getLast_mem hblock)
    have hle := hanswer.2
    rw [saturatingAdd_of_le (by omega)] at hnext
    omega
  | advanced block hblock hposition _ hnext =>
    have hanswer : WholeBlock cursor.position (cursor.want stop) (some block) :=
      hwhole ⟨.decode cursor.position (cursor.want stop), some block⟩ (by simp)
    have hend := hanswer.1.last hblock
    have hle := hanswer.2
    have hbytes : decodedBytes (⟨.halt, none⟩ :: ⟨.decode cursor.position (cursor.want stop),
        some block⟩ ::
          block.map fun instruction => ⟨.visit (.atInstruction instruction name), ()⟩) =
        (block.map instructionLen).sum := by
      have hvisits := decodedBytes_visits name block
      unfold decodedBytes at hvisits ⊢
      rw [List.map_cons, List.map_cons, List.sum_cons, List.sum_cons, hvisits]
      simp [eventBytes]
    rw [hbytes, saturatingAdd_of_le (by omega), hend]
    unfold blockEnd at hle ⊢
    dsimp only [cursorAfter, Sum.elim_inl, id, Cursor.advance]
    omega

variable {σ : Type} {host : σ → (query : Query) → Answer query × σ}

theorem turn_bytes
    (hdecoder : ∀ state address want,
      WholeBlock address want (host state (.decode address want)).1)
    (hstop : stop ≤ u64Max) {state : σ} {cursor : Cursor} {outcome : Cursor ⊕ Ended}
    (h : (execute host state (windowTurn name stop cursor)).result = .ok outcome) :
    decodedBytes (execute host state (windowTurn name stop cursor)).trace +
      (cursorAfter outcome).budget ≤ cursor.budget := by
  obtain ⟨found, hfound, hturned⟩ := windowTurn_runs
    (runs_execute host state (windowTurn name stop cursor))
  obtain rfl := Except.ok.inj (hfound.symm.trans h)
  exact hturned.bytes hstop (execute_whole hdecoder state _)

theorem windows_bytes
    (hdecoder : ∀ state address want,
      WholeBlock address want (host state (.decode address want)).1)
    (hstop : stop ≤ u64Max) (state : σ) (cursor : Cursor) :
    ∀ ended, (execute host state (walkWindows name stop cursor)).result = .ok ended →
      decodedBytes (execute host state (walkWindows name stop cursor)).trace +
        ended.cursor.budget ≤ cursor.budget := by
  apply windows_rule hdecoder hstop fun _ cursor execution _ =>
    ∀ ended, execution.result = .ok ended →
      decodedBytes execution.trace + ended.cursor.budget ≤ cursor.budget
  · rintro state cursor ended hresult _ _ ⟨⟩
    exact turn_bytes hdecoder hstop hresult
  · intro state cursor next hresult _ after rest hrest ended hended
    have hturn := turn_bytes hdecoder hstop hresult
    have hlater := hrest ended hended
    replace hturn : decodedBytes (execute host state (windowTurn name stop cursor)).trace +
      next.budget ≤ cursor.budget := hturn
    dsimp only
    rw [decodedBytes_append]
    omega

end Bytes

/-! ## More bytes to spend -/

namespace Cursor
variable {stop extra : Nat} {cursor : Cursor}

theorem more_close (cursor : Cursor) (extra : Nat) (name : String) :
    (cursor.more extra).close name = (cursor.close name).more extra := by
  unfold close
  simp only [more]
  split
  · split <;> rfl
  · rfl

theorem more_haltedBy (name : String) (why : Halt) :
    (cursor.more extra).haltedBy name why = (cursor.haltedBy name why).more extra :=
  more_close { cursor with covered := { cursor.covered with halted := some why } } extra name

theorem more_capped (name : String) :
    (cursor.more extra).capped name = (cursor.capped name).more extra :=
  more_close { cursor with covered := { cursor.covered with capHit := true } } extra name

theorem more_want (h : ¬ cursor.Short stop) (extra : Nat) :
    (cursor.more extra).want stop = cursor.want stop := by
  have hwindow : (cursor.more extra).window = cursor.window := rfl
  unfold Short at h
  unfold want
  rw [hwindow]
  dsimp only [more]
  omega

theorem more_skip {want : Nat} (h : want ≤ cursor.budget) (name : String) :
    (cursor.more extra).skip name want = (cursor.skip name want).more extra := by
  have hbudget : (cursor.close name).budget + extra - want =
      (cursor.close name).budget - want + extra := by
    rw [close_budget]
    omega
  unfold skip
  rw [more_close]
  simp only [more, hbudget]

theorem more_abandon (name : String) :
    (cursor.more extra).abandon name stop = (cursor.abandon name stop).more extra := by
  unfold abandon
  rw [more_close]
  rfl

theorem more_advance {want next : Nat} (h : want ≤ cursor.budget) :
    (cursor.more extra).advance want next = (cursor.advance want next).more extra := by
  have hbudget : cursor.budget + extra - min (next - cursor.position) want =
      cursor.budget - min (next - cursor.position) want + extra := by
    omega
  simp only [advance, more, hbudget]

theorem budget_pos_of_not_short (hposition : cursor.position < stop) (h : ¬ cursor.Short stop) :
    0 < cursor.budget := by
  by_contra hzero
  have hwindow : 0 < cursor.window := by
    unfold window
    split
    · split
      · simp only [page]
        omega
      · next hlong =>
        simp only [maxInstruction] at hlong
        omega
    · decide
  unfold Short at h
  omega

end Cursor

def Ended.more (extra : Nat) (ended : Ended) : Ended :=
  { ended with cursor := ended.cursor.more extra }

def outcomeMore (extra : Nat) : Cursor ⊕ Ended → Cursor ⊕ Ended :=
  Sum.map (Cursor.more extra) (Ended.more extra)

section More
variable {stop : Nat} {name : String} {cursor : Cursor}

theorem takeBlock_more (hshort : ¬ cursor.Short stop) (extra : Nat) (block : List Instruction)
    (last : Instruction) :
    takeBlock name stop (cursor.more extra) block last =
      takeBlock name stop cursor block last >>= fun outcome =>
        .done (outcomeMore extra outcome) := by
  have hposition : (cursor.more extra).position = cursor.position := rfl
  unfold takeBlock
  rw [bind_assoc]
  congr 1
  funext _
  dsimp only
  rw [hposition, cursor.more_want hshort]
  split
  · rw [Cursor.more_abandon]
    rfl
  · rw [Cursor.more_advance (want_le_budget cursor stop)]
    rfl

/-- A turn whose request the budget does not shorten is the same with more bytes. -/
theorem windowTurn_more (hshort : ¬ cursor.Short stop) (extra : Nat) :
    windowTurn name stop (cursor.more extra) =
      windowTurn name stop cursor >>= fun outcome => .done (outcomeMore extra outcome) := by
  have hposition : (cursor.more extra).position = cursor.position := rfl
  have hcovered : (cursor.more extra).covered = cursor.covered := rfl
  have hretrying : (cursor.more extra).retrying = cursor.retrying := rfl
  have hpage : (cursor.more extra).restOfPage = cursor.restOfPage := rfl
  unfold windowTurn
  rw [hposition, hcovered, hretrying, hpage, cursor.more_want hshort]
  by_cases hinside : cursor.position < stop
  · have hbudget := cursor.budget_pos_of_not_short hinside hshort
    have hmore : (cursor.more extra).budget ≠ 0 := by
      dsimp only [Cursor.more]
      omega
    rw [if_pos hinside, if_pos hinside, if_neg hmore, if_neg (Nat.pos_iff_ne_zero.mp hbudget)]
    rw [ask_bind]
    congr 1
    funext halted
    cases halted with
    | some why =>
      dsimp only
      rw [Cursor.more_haltedBy]
      rfl
    | none =>
      dsimp only
      split
      · rw [Cursor.more_capped]
        rfl
      · rw [ask_bind]
        congr 1
        funext decoded
        cases decoded with
        | none =>
          dsimp only
          split
          · rfl
          · rw [Cursor.more_skip (want_le_budget cursor stop)]
            rfl
        | some block =>
          cases block with
          | nil =>
            dsimp only
            rw [Cursor.more_abandon]
            rfl
          | cons first rest => exact takeBlock_more hshort extra _ _
  · rw [if_neg hinside, if_neg hinside]
    rfl

variable {σ : Type} {host : σ → (query : Query) → Answer query × σ}

theorem execute_windowTurn_more (hshort : ¬ cursor.Short stop) (extra : Nat) {state : σ}
    {outcome : Cursor ⊕ Ended}
    (h : (execute host state (windowTurn name stop cursor)).result = .ok outcome) :
    execute host state (windowTurn name stop (cursor.more extra)) =
      ⟨.ok (outcomeMore extra outcome), (execute host state (windowTurn name stop cursor)).trace,
        (execute host state (windowTurn name stop cursor)).state⟩ := by
  rw [windowTurn_more hshort, execute_bind host _ h]
  simp only [execute, List.append_nil]

theorem Took.behind {turn : σ × Cursor} {next : Cursor}
    (h : Took host stop name turn (.inl next)) (hstop : stop ≤ u64Max)
    (hbehind : turn.2.budget < stop - turn.2.position) :
    next.budget < stop - next.position := by
  have hwant := want_le turn.2 stop
  have hbudget := want_le_budget turn.2 stop
  cases h with
  | retry => exact hbehind
  | skipped =>
    have hmoved : (turn.2.skip name (turn.2.want stop)).position =
        turn.2.position + turn.2.want stop := by
      simp only [Cursor.skip, close_position, saturatingAdd]
      omega
    have hspent : (turn.2.skip name (turn.2.want stop)).budget =
        turn.2.budget - turn.2.want stop :=
      congrArg (· - turn.2.want stop) (close_budget turn.2 name)
    rw [hmoved, hspent]
    omega
  | advanced hasks block hblock hanswer hwithin =>
    have hle : turn.2.position ≤ blockEnd turn.2.position block := Nat.le_add_right _ _
    dsimp only [Cursor.advance]
    omega

/-- Once the budget is behind what is left of the section, the section ends with the walk
stopped or with an empty answer. -/
theorem windows_short
    (hdecoder : ∀ state address want,
      WholeBlock address want (host state (.decode address want)).1)
    (hstop : stop ≤ u64Max) (state : σ) (cursor : Cursor)
    (hbehind : cursor.budget < stop - cursor.position) :
    ∀ ended, (execute host state (walkWindows name stop cursor)).result = .ok ended →
      ended.stopped = true ∨
        ∃ turn ∈ windowTurns host name stop state cursor, Emptied host stop turn := by
  revert hbehind
  apply windows_rule hdecoder hstop fun _ cursor execution turns =>
    cursor.budget < stop - cursor.position → ∀ ended, execution.result = .ok ended →
      ended.stopped = true ∨ ∃ turn ∈ turns, Emptied host stop turn
  · rintro state cursor ended hresult htook hbehind _ ⟨⟩
    cases htook with
    | walked hposition =>
      dsimp only at hposition
      omega
    | halted | capped => exact .inl rfl
    | emptied hasks hanswer => exact .inr ⟨_, List.mem_singleton_self _, hasks, hanswer⟩
  · intro state cursor next _ htook after rest hrest hbehind ended hended
    have hkept : next.budget < stop - next.position := htook.behind hstop hbehind
    rcases hrest hkept ended hended with hstopped | ⟨turn, hturn, hemptied⟩
    · exact .inl hstopped
    · exact .inr ⟨turn, List.mem_cons_of_mem _ hturn, hemptied⟩

def NoneEmptied (host : σ → (query : Query) → Answer query × σ) (stop : Nat)
    (turns : List (σ × Cursor)) : Prop :=
  (∃ turn ∈ turns, turn.2.Short stop) → ∀ turn ∈ turns, ¬ Emptied host stop turn

theorem walkWindows_left (hstop : stop ≤ u64Max) {state : σ} {next : Cursor}
    (h : (execute host state (windowTurn name stop cursor)).result = .ok (.inl next)) :
    next.left stop < cursor.left stop := by
  obtain ⟨found, hfound, hturned⟩ := windowTurn_runs
    (runs_execute host state (windowTurn name stop cursor))
  obtain rfl := Except.ok.inj (hfound.symm.trans h)
  exact hturned.left_lt hstop rfl

theorem windows_more
    (hdecoder : ∀ state address want,
      WholeBlock address want (host state (.decode address want)).1)
    (hstop : stop ≤ u64Max) (extra : Nat) (state : σ) (cursor : Cursor)
    (hkept : NoneEmptied host stop (windowTurns host name stop state cursor)) :
    ∀ ended, (execute host state (walkWindows name stop cursor)).result = .ok ended →
      ended.stopped = false →
      execute host state (walkWindows name stop (cursor.more extra)) =
        ⟨.ok (ended.more extra), (execute host state (walkWindows name stop cursor)).trace,
          (execute host state (walkWindows name stop cursor)).state⟩ := by
  revert hkept
  apply windows_rule hdecoder hstop fun state cursor execution turns =>
    NoneEmptied host stop turns → ∀ ended, execution.result = .ok ended →
      ended.stopped = false →
      execute host state (walkWindows name stop (cursor.more extra)) =
        ⟨.ok (ended.more extra), execution.trace, execution.state⟩
  · rintro state cursor ended hresult htook hkept _ ⟨⟩ hgoes
    have hshort : ¬ cursor.Short stop := by
      intro hshort
      cases htook with
      | walked hposition =>
        unfold Cursor.Short at hshort
        dsimp only at hposition
        omega
      | halted | capped => cases hgoes
      | emptied hasks hanswer =>
        exact hkept ⟨_, List.mem_singleton_self _, hshort⟩ _ (List.mem_singleton_self _)
          ⟨hasks, hanswer⟩
    have hmore := execute_windowTurn_more hshort extra hresult
    unfold walkWindows
    rw [execute_loop_of_value host (congrArg Execution.result hmore), hmore]
  · intro state cursor next hresult htook after rest hrest hkept ended hended hgoes
    have hlater : NoneEmptied host stop (windowTurns host name stop after next) := by
      rintro ⟨turn, hturn, hshort⟩ other hother
      exact hkept ⟨turn, List.mem_cons_of_mem _ hturn, hshort⟩ other
        (List.mem_cons_of_mem _ hother)
    have hshort : ¬ cursor.Short stop := by
      intro hshort
      have hbehind : cursor.budget < stop - cursor.position :=
        Nat.lt_of_lt_of_le hshort (Nat.min_le_right _ _)
      rcases windows_short hdecoder hstop after next (htook.behind hstop hbehind) ended hended with
        hstopped | ⟨turn, hturn, hemptied⟩
      · rw [hgoes] at hstopped
        cases hstopped
      · exact hkept ⟨_, List.mem_cons_self, hshort⟩ turn (List.mem_cons_of_mem _ hturn) hemptied
    have hmore := @execute_windowTurn_more stop name cursor σ host hshort extra state _ hresult
    have hlower : next.left stop < cursor.left stop := walkWindows_left hstop hresult
    have hleft : (next.more extra).left stop < (cursor.more extra).left stop := hlower
    unfold walkWindows
    rw [execute_loop_of_next host (congrArg Execution.result hmore) hleft, hmore]
    have hsame := hrest hlater ended hended hgoes
    unfold walkWindows at hsame
    dsimp only
    rw [hsame]

theorem windows_stopped
    (hdecoder : ∀ state address want,
      WholeBlock address want (host state (.decode address want)).1)
    (hstop : stop ≤ u64Max) (state : σ) (cursor : Cursor) :
    ∀ ended, (execute host state (walkWindows name stop cursor)).result = .ok ended →
      ended.stopped = true → ended.cursor.run = none ∧ ¬ ended.cursor.covered.complete := by
  apply windows_rule hdecoder hstop fun _ _ execution _ =>
    ∀ ended, execution.result = .ok ended → ended.stopped = true →
      ended.cursor.run = none ∧ ¬ ended.cursor.covered.complete
  · rintro state cursor ended - htook _ ⟨⟩ hstopped
    cases htook with
    | walked | emptied => cases hstopped
    | halted hasks why =>
      refine ⟨close_run _ name, ?_⟩
      rw [haltedBy_covered]
      exact fun hcomplete => absurd hcomplete.1 (by simp)
    | capped hasks =>
      refine ⟨close_run _ name, ?_⟩
      rw [capped_covered]
      exact fun hcomplete => absurd hcomplete.2 (by simp)
  · intro state cursor next _ _ after rest hrest ended hended hstopped
    exact hrest ended hended hstopped

end More

/-! ## The sections -/

section Sections
variable {σ : Type} (host : σ → (query : Query) → Answer query × σ) (image : Image)
  (checkedVa : Nat → Nat → Option Nat)

def enter (entry : Section) (start : Nat) (walked : Walked) : Cursor where
  covered := (clamp image checkedVa entry start walked.covered).2
  budget := walked.budget
  position := max start walked.past

/-- The turns of the walk by section, each with the section's end. -/
def walkTurns : List Section → Walked → σ → List (Nat × List (σ × Cursor))
  | [], _, _ => []
  | entry :: rest, walked, state =>
    if walked.covered.rows ≥ maxRanges then []
    else
      match checkedVa entry.rva 0 with
      | none => walkTurns rest { walked with covered := outside image entry walked.covered } state
      | some start =>
        let stop := (clamp image checkedVa entry start walked.covered).1
        let cursor := enter image checkedVa entry start walked
        let visited := (host state (.visit .breaks)).2
        let execution := execute host visited (walkWindows entry.name stop cursor)
        (stop, windowTurns host entry.name stop visited cursor) ::
          match execution.result with
          | .error _ => []
          | .ok ended =>
            if ended.stopped then []
            else
              let cursor := ended.cursor.close entry.name
              walkTurns rest ⟨cursor.covered, cursor.budget, max walked.past stop⟩ execution.state

def walkCodeWithin (budget : Nat) : Walking Covered :=
  walkSections image checkedVa
    (image.codeSections.mergeSort fun entry other => decide (entry.rva ≤ other.rva))
    ⟨{}, budget, 0⟩

def codeTurns (state : σ) : List (Nat × List (σ × Cursor)) :=
  walkTurns host image checkedVa
    (image.codeSections.mergeSort fun entry other => decide (entry.rva ≤ other.rva))
    ⟨{}, maxScanBytes, 0⟩ state

variable {host image checkedVa}

def goOn (image : Image) (checkedVa : Nat → Nat → Option Nat) (entry : Section)
    (rest : List Section) (walked : Walked) (stop : Nat) (ended : Ended) : Walking Covered :=
  if ended.stopped then .done ended.cursor.covered
  else
    let cursor := ended.cursor.close entry.name
    walkSections image checkedVa rest ⟨cursor.covered, cursor.budget, max walked.past stop⟩

theorem execute_walkSections_inside {entry : Section} {rest : List Section} {walked : Walked}
    {start : Nat} {state : σ} {ended : Ended} (hrows : walked.covered.rows < maxRanges)
    (hstart : checkedVa entry.rva 0 = some start)
    (hended : (execute host (host state (.visit .breaks)).2
      (walkWindows entry.name (clamp image checkedVa entry start walked.covered).1
        (enter image checkedVa entry start walked))).result = .ok ended) :
    execute host state (walkSections image checkedVa (entry :: rest) walked) =
      let section_ := execute host (host state (.visit .breaks)).2
        (walkWindows entry.name (clamp image checkedVa entry start walked.covered).1
          (enter image checkedVa entry start walked))
      let last := execute host section_.state (goOn image checkedVa entry rest walked
        (clamp image checkedVa entry start walked.covered).1 ended)
      { last with trace := ⟨.visit .breaks, ()⟩ :: (section_.trace ++ last.trace) } := by
  rw [walkSections, if_neg (Nat.not_le.mpr hrows), hstart]
  dsimp only
  rw [execute]
  unfold enter at hended ⊢
  rw [execute_bind host _ hended]
  rfl

theorem walkTurns_inside {entry : Section} {rest : List Section} {walked : Walked}
    {start : Nat} {state : σ} {ended : Ended} (hrows : walked.covered.rows < maxRanges)
    (hstart : checkedVa entry.rva 0 = some start)
    (hended : (execute host (host state (.visit .breaks)).2
      (walkWindows entry.name (clamp image checkedVa entry start walked.covered).1
        (enter image checkedVa entry start walked))).result = .ok ended) :
    walkTurns host image checkedVa (entry :: rest) walked state =
      let stop := (clamp image checkedVa entry start walked.covered).1
      let cursor := enter image checkedVa entry start walked
      let visited := (host state (.visit .breaks)).2
      (stop, windowTurns host entry.name stop visited cursor) ::
        if ended.stopped then []
        else
          let last := ended.cursor.close entry.name
          walkTurns host image checkedVa rest ⟨last.covered, last.budget, max walked.past stop⟩
            (execute host visited (walkWindows entry.name stop cursor)).state := by
  rw [walkTurns, if_neg (Nat.not_le.mpr hrows), hstart]
  dsimp only
  rw [hended]

/-- What the walk of the sections makes of its budgets. -/
structure Budgeted (host : σ → (query : Query) → Answer query × σ) (image : Image)
    (checkedVa : Nat → Nat → Option Nat) (rest : List Section) (walked : Walked) (state : σ)
    (covered : Covered) : Prop where
  result : (execute host state (walkSections image checkedVa rest walked)).result = .ok covered
  grows : walked.covered.rows ≤ covered.rows
  rows : walked.covered.rows ≤ maxRanges → (covered.rows ≤ maxRanges ↔
    ∀ group ∈ walkTurns host image checkedVa rest walked state, ∀ turn ∈ group.2,
      ¬ Overflows host group.1 turn)
  bytes : decodedBytes (execute host state (walkSections image checkedVa rest walked)).trace ≤
    walked.budget
  same : covered.complete → (∀ group ∈ walkTurns host image checkedVa rest walked state,
    NoneEmptied host group.1 group.2) → ∀ extra,
      (execute host state (walkSections image checkedVa rest
        { walked with budget := walked.budget + extra })).trace =
      (execute host state (walkSections image checkedVa rest walked)).trace

theorem clamp_rows (entry : Section) (start : Nat) (covered : Covered) :
    covered.rows ≤ (clamp image checkedVa entry start covered).2.rows ∧
      (clamp image checkedVa entry start covered).2.rows ≤ covered.rows + 1 := by
  unfold clamp
  split
  · dsimp only
    omega
  · dsimp only
    rw [Cursor.miss_rows]
    omega

variable (hchecked : ChecksVa image checkedVa)
  (hdecoder : ∀ state address want,
    WholeBlock address want (host state (.decode address want)).1)
include hchecked hdecoder

theorem Budgeted.inside {entry : Section} {rest : List Section} {walked : Walked} {start : Nat}
    {state : σ} (hrows : walked.covered.rows < maxRanges)
    (hstart : checkedVa entry.rva 0 = some start)
    (hrest : ∀ walked state, ∃ covered,
      Budgeted host image checkedVa rest walked state covered) :
    ∃ covered, Budgeted host image checkedVa (entry :: rest) walked state covered := by
  have hspan := clamp_span hchecked hstart walked.covered
  have hstop : (clamp image checkedVa entry start walked.covered).1 ≤ u64Max :=
    Nat.le_trans (hspan 0).2.1 (Nat.min_le_right _ _)
  have hclamp := @clamp_rows image checkedVa entry start walked.covered
  have henter : (enter image checkedVa entry start walked).closedRows =
      (clamp image checkedVa entry start walked.covered).2.rows :=
    Cursor.closedRows_of_run_none rfl
  obtain ⟨ended, hended, hgrows, hover⟩ := @windows_rows σ host _ entry.name hdecoder hstop
    (host state (.visit .breaks)).2 (enter image checkedVa entry start walked)
  have hbytes := windows_bytes hdecoder hstop _ _ ended hended
  have hhalted := windows_stopped hdecoder hstop _ _ ended hended
  have hmore (extra : Nat) (hkept : NoneEmptied host _ (windowTurns host entry.name _ _ _)) :=
    windows_more hdecoder hstop extra _ _ hkept ended hended
  have hexecute := @execute_walkSections_inside σ host image checkedVa entry rest walked start state
    ended hrows hstart hended
  have hturns := @walkTurns_inside σ host image checkedVa entry rest walked start state ended
    hrows hstart hended
  have hlonger (extra : Nat) (hkept : NoneEmptied host _ (windowTurns host entry.name _ _ _))
      (hgoes : ended.stopped = false) :=
    @execute_walkSections_inside σ host image checkedVa entry rest
      { walked with budget := walked.budget + extra } start state (ended.more extra) hrows hstart
      (congrArg Execution.result (hmore extra hkept hgoes))
  simp only [show ∀ extra, enter image checkedVa entry start { walked with
      budget := walked.budget + extra } = (enter image checkedVa entry start walked).more extra from
    fun _ => rfl] at hlonger
  dsimp only at hexecute hturns hlonger
  generalize hwalk : execute host (host state (.visit .breaks)).2 (walkWindows entry.name
    (clamp image checkedVa entry start walked.covered).1 (enter image checkedVa entry start walked))
    = walk at *
  cases hstopped : ended.stopped with
  | true =>
    obtain ⟨hnone, hpartial⟩ := hhalted hstopped
    have hclosed := Cursor.closedRows_of_run_none hnone
    simp only [goOn, hstopped, if_true, execute, List.append_nil] at hexecute hturns
    refine ⟨ended.cursor.covered, ?_, ?_, ?_, ?_, ?_⟩
    · rw [hexecute]
    · omega
    · intro _
      rw [hturns, List.forall_mem_singleton, ← hover (by omega), hclosed]
    · rw [hexecute]
      dsimp only
      rw [decodedBytes_visit]
      exact Nat.le_trans (Nat.le_add_right _ _) hbytes
    · exact fun hcomplete => absurd hcomplete hpartial
  | false =>
    have hclosed := ended.cursor.close_rows entry.name
    have hbudget := close_budget ended.cursor entry.name
    simp only [goOn, hstopped, Bool.false_eq_true, if_false] at hexecute hturns
    obtain ⟨covered, hcovered⟩ := hrest ⟨(ended.cursor.close entry.name).covered,
      (ended.cursor.close entry.name).budget,
      max walked.past (clamp image checkedVa entry start walked.covered).1⟩ walk.state
    have hlater := hcovered.grows
    refine ⟨covered, ?_, ?_, ?_, ?_, ?_⟩
    · rw [hexecute]
      exact hcovered.result
    · dsimp only at hlater
      omega
    · intro _
      have hboth := hcovered.rows
      dsimp only at hlater hboth
      rw [hturns, List.forall_mem_cons]
      dsimp only
      rw [← hover (by omega), ← hclosed]
      constructor
      · intro hle
        have hbefore := Nat.le_trans hlater hle
        exact ⟨hbefore, (hboth hbefore).mp hle⟩
      · rintro ⟨hbefore, hkept⟩
        exact (hboth hbefore).mpr hkept
    · have hleft := hcovered.bytes
      dsimp only at hleft
      replace hbytes : decodedBytes walk.trace + ended.cursor.budget ≤ walked.budget := hbytes
      rw [hexecute]
      dsimp only
      rw [decodedBytes_visit, decodedBytes_append]
      omega
    · intro hcomplete hkept extra
      rw [hturns, List.forall_mem_cons] at hkept
      have hrun := hlonger extra hkept.1 hstopped
      have hnext := hcovered.same hcomplete hkept.2 extra
      have hgoOn : goOn image checkedVa entry rest { walked with budget := walked.budget + extra }
          (clamp image checkedVa entry start walked.covered).1 (ended.more extra) =
          walkSections image checkedVa rest
            ⟨(ended.cursor.close entry.name).covered,
              (ended.cursor.close entry.name).budget + extra,
              max walked.past (clamp image checkedVa entry start walked.covered).1⟩ := by
        have hgoes : (ended.more extra).stopped = false := hstopped
        have hclose : (ended.more extra).cursor.close entry.name =
            (ended.cursor.close entry.name).more extra := Cursor.more_close _ _ _
        simp only [goOn, hgoes, hclose, Bool.false_eq_true, if_false]
        rfl
      rw [hmore extra hkept.1 hstopped, hgoOn] at hrun
      rw [hexecute, hrun]
      dsimp only
      rw [hnext]

theorem walkSections_budgeted (rest : List Section) :
    ∀ walked state, ∃ covered, Budgeted host image checkedVa rest walked state covered := by
  induction rest with
  | nil =>
    intro walked state
    refine ⟨walked.covered, rfl, Nat.le_refl _, fun hrows => iff_of_true hrows ?_,
      Nat.zero_le _, fun _ _ _ => rfl⟩
    intro group hgroup
    cases hgroup
  | cons entry rest ih =>
    intro walked state
    by_cases hrows : walked.covered.rows < maxRanges
    · cases hstart : checkedVa entry.rva 0 with
      | none =>
        have hmiss := Cursor.miss_rows walked.covered
          ⟨entry.name, saturatingAdd image.base image.sizeOfImage, entry.virtualSize⟩
        have hskip (budget : Nat) : walkSections image checkedVa (entry :: rest)
            { walked with budget := budget } = walkSections image checkedVa rest
              { walked with covered := outside image entry walked.covered, budget := budget } := by
          rw [walkSections, if_neg (Nat.not_le.mpr hrows), hstart]
        have hturns : walkTurns host image checkedVa (entry :: rest) walked state =
            walkTurns host image checkedVa rest
              { walked with covered := outside image entry walked.covered } state := by
          rw [walkTurns, if_neg (Nat.not_le.mpr hrows), hstart]
        obtain ⟨covered, hcovered⟩ := ih
          { walked with covered := outside image entry walked.covered } state
        refine ⟨covered, ?_, ?_, ?_, ?_, ?_⟩
        · rw [hskip walked.budget]
          exact hcovered.result
        · have hgrows := hcovered.grows
          unfold outside at hgrows
          dsimp only at hgrows
          omega
        · intro _
          rw [hturns]
          apply hcovered.rows
          unfold outside
          dsimp only
          omega
        · rw [hskip walked.budget]
          exact hcovered.bytes
        · intro hcomplete hkept extra
          rw [hskip, hskip walked.budget]
          rw [hturns] at hkept
          exact hcovered.same hcomplete hkept extra
      | some start => exact Budgeted.inside hchecked hdecoder hrows hstart ih
    · have hfull (budget : Nat) : walkSections image checkedVa (entry :: rest)
          { walked with budget := budget } = .done { walked.covered with capHit := true } := by
        rw [walkSections, if_pos (Nat.not_lt.mp hrows)]
      have hturns : walkTurns host image checkedVa (entry :: rest) walked state = [] := by
        rw [walkTurns, if_pos (Nat.not_lt.mp hrows)]
      refine ⟨{ walked.covered with capHit := true }, ?_, Nat.le_refl _, ?_, ?_, ?_⟩
      · rw [hfull walked.budget]
        rfl
      · intro hle
        refine iff_of_true hle ?_
        rw [hturns]
        exact fun _ hgroup => absurd hgroup List.not_mem_nil
      · rw [hfull walked.budget]
        exact Nat.zero_le _
      · intro hcomplete
        exact absurd hcomplete.2 (by simp)

end Sections

def LeftByBudget {σ : Type} (host : σ → (query : Query) → Answer query × σ) (image : Image)
    (checkedVa : Nat → Nat → Option Nat) (state : σ) (address : Nat) : Prop :=
  ¬ Decoded (execute host state (walkCode image checkedVa)).trace address ∧
    ∃ extra, Decoded (execute host state
      (walkCodeWithin image checkedVa (maxScanBytes + extra))).trace address

/-- The budgets are kept, and where one of them ran out the answer says so. -/
structure Honoured {σ : Type} (host : σ → (query : Query) → Answer query × σ) (image : Image)
    (checkedVa : Nat → Nat → Option Nat) (state : σ) (covered : Covered) : Prop where
  bytes : decodedBytes (execute host state (walkCode image checkedVa)).trace ≤ maxScanBytes
  rows : covered.rows ≤ maxRanges
  leftOut : ∀ address, image.InCode address → covered.count address = 0 →
    covered.halted ≠ none ∨ covered.capHit = true
  leftByBudget : ∀ address, image.InCode address →
    LeftByBudget host image checkedVa state address →
    covered.halted ≠ none ∨ covered.capHit = true

theorem not_complete_iff {covered : Covered} :
    ¬ covered.complete ↔ covered.halted ≠ none ∨ covered.capHit = true := by
  unfold Covered.complete
  rw [Decidable.not_and_iff_or_not, Bool.not_eq_false]

/-- The budgets of the walk.  The rows are kept just when no turn records a range where closing
its open run uses them up; and where no section comes back empty behind a request that the byte
budget shortened, everything else is kept and told. -/
theorem walkCode_budgets {image : Image} {checkedVa : Nat → Nat → Option Nat}
    (hchecked : ChecksVa image checkedVa) {σ : Type}
    (host : σ → (query : Query) → Answer query × σ)
    (hdecoder : ∀ state address want,
      WholeBlock address want (host state (.decode address want)).1)
    (state : σ) :
    ∃ covered, (execute host state (walkCode image checkedVa)).result = .ok covered ∧
      (Honoured host image checkedVa state covered →
        ∀ group ∈ codeTurns host image checkedVa state, ∀ turn ∈ group.2,
          ¬ Overflows host group.1 turn) ∧
      ((∀ group ∈ codeTurns host image checkedVa state,
          (∀ turn ∈ group.2, ¬ Overflows host group.1 turn) ∧
            NoneEmptied host group.1 group.2) →
        Honoured host image checkedVa state covered) := by
  obtain ⟨covered, hbudgeted⟩ := walkSections_budgeted hchecked hdecoder
    (image.codeSections.mergeSort fun entry other => decide (entry.rva ≤ other.rva))
    ⟨{}, maxScanBytes, 0⟩ state
  have hrows := hbudgeted.rows (Nat.zero_le _)
  refine ⟨covered, hbudgeted.result, fun h => hrows.mp h.rows, ?_⟩
  intro hkept
  constructor
  case bytes => exact hbudgeted.bytes
  case rows => exact hrows.mpr fun group hgroup => (hkept group hgroup).1
  case leftOut =>
    intro address hcode hcount
    rw [← not_complete_iff]
    intro hcomplete
    obtain ⟨told, hresult, htold⟩ := walkSections_runs hchecked
      (runs_execute host state (walkCode image checkedVa)) (codeSections_sorted image)
      fun _ => between_start image _
    obtain rfl := Except.ok.inj (hbudgeted.result.symm.trans hresult)
    obtain ⟨entry, hentry, hin⟩ := hcode
    have hone := (htold (execute_whole hdecoder state _)).2 hcomplete address hin.2.2
      (Or.inr ⟨entry, (List.mergeSort_perm _ _).mem_iff.mpr hentry, hin⟩)
    omega
  case leftByBudget =>
    rintro address - ⟨hundecoded, extra, hdecoded⟩
    rw [← not_complete_iff]
    intro hcomplete
    apply hundecoded
    have hsame := hbudgeted.same hcomplete (fun group hgroup => (hkept group hgroup).2) extra
    unfold walkCode
    rw [← hsame]
    exact hdecoded

section Example

theorem nop_whole (address want : Nat) (h : 0 < want) :
    WholeBlock address want (some [⟨address, "90"⟩]) := by
  have hlength : instructionLen ⟨address, "90"⟩ = 1 := by
    have hbytes : "90".utf8ByteSize = 2 := by decide
    simp only [instructionLen, hbytes]
  refine ⟨⟨rfl, by omega, trivial⟩, ?_⟩
  simp only [blockEnd, List.map_cons, List.map_nil, List.sum_cons, List.sum_nil, hlength]
  omega

def nopHost (_ : Unit) : (query : Query) → Answer query × Unit
  | .halt => (none, ())
  | .visit _ => ((), ())
  | .decode address want => (if 0 < want then some [⟨address, "90"⟩] else none, ())

theorem nopHost_whole (state : Unit) (address want : Nat) :
    WholeBlock address want (nopHost state (.decode address want)).1 := by
  simp only [nopHost]
  split
  · next hwant => exact nop_whole address want hwant
  · trivial

theorem nopHost_answers {stop : Nat} {turn : Unit × Cursor} (h : Asks nopHost stop turn) :
    answer nopHost stop turn = some [⟨turn.2.position, "90"⟩] :=
  if_pos (want_pos h.1 h.2.2.1)

/-- A section past the end of its image, where every byte decodes. -/
theorem walkCode_budgets_oversized :
    ∃ covered, (execute nopHost () (walkCode exampleImage exampleCheckedVa)).result =
        .ok covered ∧
      Honoured nopHost exampleImage exampleCheckedVa () covered := by
  obtain ⟨covered, hresult, -, hkept⟩ :=
    walkCode_budgets exampleCheckedVa_checks nopHost nopHost_whole ()
  refine ⟨covered, hresult, hkept fun group _ => ⟨?_, ?_⟩⟩
  · rintro turn - ⟨⟨hasks, hanswer⟩, -⟩
    rw [nopHost_answers hasks] at hanswer
    rcases hanswer with hempty | ⟨hnone, -⟩
    · cases hempty
    · cases hnone
  · rintro - turn - ⟨hasks, hanswer⟩
    rw [nopHost_answers hasks] at hanswer
    cases hanswer

def crowd : Nat → Nat → List Section
  | rva, 0 => [⟨"last", rva, 2⟩]
  | rva, count + 1 => ⟨"gap", rva, 1⟩ :: crowd (rva + 1) count

def crowdedImage : Image where
  base := 0x10000
  sizeOfImage := 0x2000
  codeSections := crowd 0 255

def crowdedHost (_ : Unit) : (query : Query) → Answer query × Unit
  | .halt => (none, ())
  | .visit _ => ((), ())
  | .decode address want =>
    (if address = 0x100ff ∧ 0 < want then some [⟨address, "90"⟩] else none, ())

theorem crowdedHost_whole (state : Unit) (address want : Nat) :
    WholeBlock address want (crowdedHost state (.decode address want)).1 := by
  simp only [crowdedHost]
  split
  · next hwant => exact nop_whole address want hwant.2
  · trivial

theorem crowdedImage_checks : ChecksVa crowdedImage exampleCheckedVa where
  address := exampleCheckedVa_checks.address
  inside := exampleCheckedVa_checks.inside

theorem le_of_mem_crowd {rva count : Nat} {entry : Section} (h : entry ∈ crowd rva count) :
    rva ≤ entry.rva := by
  induction count generalizing rva with
  | zero =>
    obtain rfl := List.mem_singleton.mp h
    exact Nat.le_refl _
  | succ count ih =>
    rcases List.mem_cons.mp h with rfl | hlater
    · exact Nat.le_refl _
    · exact Nat.le_of_succ_le (ih hlater)

theorem crowd_sorted (rva count : Nat) :
    (crowd rva count).Pairwise fun entry other => decide (entry.rva ≤ other.rva) = true := by
  induction count generalizing rva with
  | zero => exact List.pairwise_singleton _ _
  | succ count ih =>
    refine List.pairwise_cons.mpr ⟨?_, ih (rva + 1)⟩
    intro other hother
    exact decide_eq_true (Nat.le_of_succ_le (le_of_mem_crowd hother))

theorem crowded_skip (state : Unit) (name : String) (cursor : Cursor) (stop : Nat)
    (hposition : cursor.position + 1 = stop) (haddress : cursor.position ≠ 0x100ff)
    (hbudget : 0 < cursor.budget) (hrows : cursor.covered.rows < maxRanges)
    (hfresh : cursor.retryingUntil = none) :
    (execute crowdedHost state (windowTurn name stop cursor)).result =
      .ok (.inl (cursor.skip name 1)) := by
  have hwant : cursor.want stop = 1 := by
    have hwindow : cursor.window = windowBytes := by simp [Cursor.window, Cursor.retrying, hfresh]
    have hbytes : windowBytes = 65536 := rfl
    unfold Cursor.want
    omega
  have hlong : maxInstruction ≠ 0 := by decide
  unfold windowTurn
  rw [if_pos (by omega)]
  simp only [execute, crowdedHost]
  rw [if_neg (by omega), if_neg (by omega)]
  simp [execute, crowdedHost, hwant, haddress, hlong]

theorem crowded_advance (state : Unit) (cursor : Cursor) (hposition : cursor.position = 0x100ff)
    (hbudget : 1 < cursor.budget) (hrows : cursor.covered.rows < maxRanges)
    (hfresh : cursor.retryingUntil = none) :
    (execute crowdedHost state (windowTurn "last" 0x10101 cursor)).result =
      .ok (.inl (cursor.advance 2 0x10100)) := by
  have hwant : cursor.want 0x10101 = 2 := by
    have hwindow : cursor.window = windowBytes := by simp [Cursor.window, Cursor.retrying, hfresh]
    have hbytes : windowBytes = 65536 := rfl
    unfold Cursor.want
    omega
  have hinside : cursor.position < 0x10101 := by omega
  have hleft : 0 < cursor.budget := by omega
  have hasks : Asks crowdedHost 0x10101 (state, cursor) := ⟨hinside, rfl, hleft, hrows⟩
  have hanswer : answer crowdedHost 0x10101 (state, cursor) = some [⟨0x100ff, "90"⟩] := by
    simp [answer, crowdedHost, hwant, hposition]
  obtain ⟨outcome, hresult, htook⟩ := @execute_windowTurn Unit crowdedHost 0x10101 "last"
    crowdedHost_whole (by decide) state cursor
  rw [hresult]
  cases htook with
  | walked h => exact absurd hasks.1 (Nat.not_lt.mpr h)
  | halted h => exact absurd hasks h
  | capped h => exact absurd hasks h
  | retry _ h => cases hanswer.symm.trans h
  | skipped _ h => cases hanswer.symm.trans h
  | emptied _ h => cases hanswer.symm.trans h
  | advanced _ block _ h _ =>
    obtain rfl := Option.some.inj (hanswer.symm.trans h)
    have hend : blockEnd cursor.position [⟨0x100ff, "90"⟩] = 0x10100 := by
      rw [hposition]
      decide
    dsimp only
    rw [hend, hwant]

theorem crowded_walked (state : Unit) {name : String} {stop : Nat} {cursor : Cursor}
    (h : stop ≤ cursor.position) :
    (execute crowdedHost state (windowTurn name stop cursor)).result =
      .ok (.inr ⟨cursor, false⟩) := by
  unfold windowTurn
  rw [if_neg (Nat.not_lt.mpr h)]
  rfl

theorem crowded_gap (state : Unit) (cursor : Cursor) (stop : Nat)
    (hposition : cursor.position + 1 = stop) (hstop : stop ≤ 0x100ff)
    (hbudget : 0 < cursor.budget) (hrows : cursor.covered.rows < maxRanges)
    (hfresh : cursor.retryingUntil = none) :
    (execute crowdedHost state (walkWindows "gap" stop cursor)).result =
      .ok ⟨cursor.skip "gap" 1, false⟩ := by
  have hlimit : stop ≤ u64Max := Nat.le_trans hstop (by decide)
  have hskip := crowded_skip state "gap" cursor stop hposition (by omega) hbudget hrows hfresh
  have hmoved : (cursor.skip "gap" 1).position = stop := by
    simp only [Cursor.skip, close_position, saturatingAdd]
    omega
  unfold walkWindows
  rw [execute_loop_next crowdedHost hskip (walkWindows_left hlimit hskip)]
  exact execute_loop_done crowdedHost (crowded_walked _ (Nat.le_of_eq hmoved.symm))

theorem crowded_last (state : Unit) (cursor : Cursor) (hposition : cursor.position = 0x100ff)
    (hbudget : 1 < cursor.budget) (hrows : cursor.covered.rows < maxRanges)
    (hfresh : cursor.retryingUntil = none) :
    (execute crowdedHost state (walkWindows "last" 0x10101 cursor)).result =
      .ok ⟨(cursor.advance 2 0x10100).skip "last" 1, false⟩ := by
  have hlimit : 0x10101 ≤ u64Max := by decide
  have hadvance := crowded_advance state cursor hposition hbudget hrows hfresh
  have hleft : 0 < (cursor.advance 2 0x10100).budget := by
    simp only [Cursor.advance, hposition]
    omega
  have hskip := crowded_skip (execute crowdedHost state (windowTurn "last" 0x10101 cursor)).state
    "last" (cursor.advance 2 0x10100) 0x10101 rfl (show (0x10100 : Nat) ≠ 0x100ff by decide)
    hleft hrows hfresh
  have hmoved : ((cursor.advance 2 0x10100).skip "last" 1).position = 0x10101 := by
    have hnext : (cursor.advance 2 0x10100).position = 0x10100 := rfl
    simp only [Cursor.skip, close_position, hnext]
    decide
  unfold walkWindows
  rw [execute_loop_next crowdedHost hadvance (walkWindows_left hlimit hadvance),
    execute_loop_next crowdedHost hskip (walkWindows_left hlimit hskip)]
  exact execute_loop_done crowdedHost (crowded_walked _ (Nat.le_of_eq hmoved.symm))

theorem crowded_clamp {entry : Section} (h : entry.rva + entry.virtualSize ≤ 0x2000)
    (covered : Covered) :
    exampleCheckedVa entry.rva 0 = some (0x10000 + entry.rva) ∧
      clamp crowdedImage exampleCheckedVa entry (0x10000 + entry.rva) covered =
        (0x10000 + entry.rva + entry.virtualSize, covered) := by
  have hspan : exampleCheckedVa entry.rva entry.virtualSize = some (0x10000 + entry.rva) :=
    if_pos h
  refine ⟨if_pos (by omega), ?_⟩
  unfold clamp
  rw [hspan]
  dsimp only
  rw [saturatingAdd_of_le (by simp only [u64Max]; omega)]

theorem crowded_pass {entry : Section} {rest : List Section} {walked : Walked} {cursor : Cursor}
    (state : Unit) (hrows : walked.covered.rows < maxRanges)
    (hfits : entry.rva + entry.virtualSize ≤ 0x2000)
    (hended : (execute crowdedHost () (walkWindows entry.name
      (0x10000 + entry.rva + entry.virtualSize) ⟨walked.covered, walked.budget,
        max (0x10000 + entry.rva) walked.past, none, none⟩)).result = .ok ⟨cursor, false⟩) :
    (execute crowdedHost state
      (walkSections crowdedImage exampleCheckedVa (entry :: rest) walked)).result =
        (execute crowdedHost () (walkSections crowdedImage exampleCheckedVa rest
          ⟨(cursor.close entry.name).covered, (cursor.close entry.name).budget,
            max walked.past (0x10000 + entry.rva + entry.virtualSize)⟩)).result := by
  obtain ⟨hstart, hclamp⟩ := crowded_clamp hfits walked.covered
  have hentered : (execute crowdedHost (crowdedHost state (.visit .breaks)).2 (walkWindows
      entry.name (clamp crowdedImage exampleCheckedVa entry (0x10000 + entry.rva) walked.covered).1
      (enter crowdedImage exampleCheckedVa entry (0x10000 + entry.rva) walked))).result =
        .ok ⟨cursor, false⟩ := by
    rw [enter, hclamp]
    exact hended
  rw [execute_walkSections_inside hrows hstart hentered, goOn, hclamp]
  rfl

theorem crowd_rows (count : Nat) : ∀ (rva : Nat) (walked : Walked) (state : Unit),
    rva + count = 255 → walked.covered.rows = rva → walked.past ≤ 0x10000 + rva →
    count + 2 ≤ walked.budget →
    ∃ covered, (execute crowdedHost state (walkSections crowdedImage exampleCheckedVa
      (crowd rva count) walked)).result = .ok covered ∧ covered.rows = maxRanges + 1 := by
  induction count with
  | zero =>
    intro rva walked state hrva hrows hpast hbudget
    obtain rfl : rva = 255 := hrva
    have hfew : walked.covered.rows < maxRanges := by
      simp only [maxRanges]
      omega
    have hlast := crowded_last ()
      ⟨walked.covered, walked.budget, max (0x10000 + 255) walked.past, none, none⟩
      (Nat.max_eq_left hpast) hbudget hfew rfl
    have hpass := @crowded_pass ⟨"last", 255, 2⟩ [] walked _ state hfew (by decide) hlast
    rw [crowd, hpass]
    refine ⟨_, rfl, ?_⟩
    rw [Cursor.close_rows, Cursor.skip_closedRows]
    simp [Cursor.closedRows, Cursor.advance, hrows, hpast, maxRanges]
  | succ count ih =>
    intro rva walked state hrva hrows hpast hbudget
    have hfew : walked.covered.rows < maxRanges := by
      simp only [maxRanges]
      omega
    have hgap := crowded_gap ()
      ⟨walked.covered, walked.budget, max (0x10000 + rva) walked.past, none, none⟩
      (0x10000 + rva + 1) (by rw [Nat.max_eq_left hpast]) (by omega) (by dsimp only; omega) hfew rfl
    have hpass := @crowded_pass ⟨"gap", rva, 1⟩ (crowd (rva + 1) count) walked _ state hfew
      (by dsimp only; omega) hgap
    rw [crowd, hpass]
    apply ih
    · omega
    · rw [Cursor.close_rows, Cursor.skip_closedRows]
      simp [Cursor.closedRows, hrows]
    · exact Nat.max_le.mpr ⟨by omega, by dsimp only; omega⟩
    · rw [close_budget]
      simp only [Cursor.skip, close_budget]
      omega

theorem rows_exceeded :
    ¬ ∀ (image : Image) (checkedVa : Nat → Nat → Option Nat), ChecksVa image checkedVa →
      ∀ host : Unit → (query : Query) → Answer query × Unit,
        (∀ state address want, WholeBlock address want (host state (.decode address want)).1) →
        ∃ covered, (execute host () (walkCode image checkedVa)).result = .ok covered ∧
          Honoured host image checkedVa () covered := by
  intro hall
  obtain ⟨covered, hresult, hhonoured⟩ := hall crowdedImage exampleCheckedVa crowdedImage_checks
    crowdedHost crowdedHost_whole
  obtain ⟨other, hother, hrows⟩ := crowd_rows 255 0 ⟨{}, maxScanBytes, 0⟩ () rfl rfl
    (by decide) (by decide)
  have hsorted : crowdedImage.codeSections.mergeSort
      (fun entry other => decide (entry.rva ≤ other.rva)) = crowd 0 255 :=
    List.mergeSort_of_pairwise (crowd_sorted 0 255)
  rw [walkCode, hsorted, hother] at hresult
  obtain rfl := Except.ok.inj hresult
  have := hhonoured.rows
  omega

end Example

end WindbgMcp.CodeWalk
