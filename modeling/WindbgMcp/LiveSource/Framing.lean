import WindbgMcp.Library.Run
import WindbgMcp.LiveSource.Transport

/-! The transport keeps its place in the child's output.  One step lemma for each of the
two ways to the pipes, `send` and `line`, carries over to the four exchanges and to every
sequence of them. -/
namespace WindbgMcp.LiveSource
open Library Library.ByteStream

inductive Exchange where
  | shape
  | read (gpa want : Nat)
  | write (gpa : Nat) (bytes : List UInt8)
  | refresh
deriving DecidableEq, Repr

inductive Answer where
  | shape (reply : ShapeReply)
  | bytes (bytes : List UInt8)
  | done
deriving DecidableEq, Repr

/-- An exchange and the number of bytes after which its request breaks off, if it does. -/
structure Input where
  exchange : Exchange
  broken : Option Nat
deriving DecidableEq, Repr

def perform (usizeMax : Nat) (transport : Transport) (input : Input) :
    Transport × Except Failure Answer :=
  match input.exchange with
  | .shape =>
    let (after, result) := transport.shape input.broken
    (after, result.map .shape)
  | .read gpa want =>
    let (after, result) := transport.readChunk usizeMax gpa want input.broken
    (after, result.map .bytes)
  | .write gpa bytes =>
    let (after, result) := transport.writeChunk usizeMax gpa bytes input.broken
    (after, result.map fun _ => .done)
  | .refresh =>
    let (after, result) := transport.refresh usizeMax input.broken
    (after, result.map fun _ => .done)

def step (usizeMax : Nat) (transport : Transport) (input : Input) : Transport :=
  (perform usizeMax transport input).1

/-- What an exchange takes from the stream is a complete line: it ends at the first newline,
or with the stream.  `line` is its text without the line end. -/
def TakesLine (stream rest : List Arrival) (line : String) : Prop :=
  ∃ frame text, stream = ofBytes frame ++ rest ∧
    (IsLine frame ∨ newline ∉ frame ∧ rest = []) ∧
    String.fromUTF8? ⟨frame.toArray⟩ = some text ∧
    line = Text.trimEndMatches ['\r', '\n'] text

/-- The line is `OK` and a decimal spelling of the count. -/
def Announces (usizeMax : Nat) (line : String) (count : Nat) : Prop :=
  ∃ rest, line = "OK " ++ rest ∧ Text.parseUnsigned usizeMax (Text.trim rest) = some count

def statusWord (line : String) : String := ((Text.splitOnce ' ' line).getD (line, "")).1

variable {usizeMax : Nat} {transport : Transport}

theorem readOneLine_spec (hopen : transport.poisoned = false) :
    (transport.readOneLine).1.reader <:+ transport.reader ∧
      ((∃ text, (transport.readOneLine).2 = .error (.unread text)) ∨
        ∃ line, (transport.readOneLine).2 = .ok line ∧
          (transport.readOneLine).1.poisoned = false ∧
          TakesLine transport.reader (transport.readOneLine).1.reader line) := by
  have hsuffix := readUntil_suffix maxLineBytes transport.reader
  unfold Transport.readOneLine
  rw [hopen, if_neg Bool.false_ne_true]
  rcases hread : readUntil maxLineBytes transport.reader with ⟨bytes, failed, rest⟩
  rw [hread] at hsuffix
  cases failed with
  | true => exact ⟨hsuffix, .inl ⟨_, rfl⟩⟩
  | false =>
    obtain ⟨hstream, hline⟩ := readUntil_spec hread
    cases htext : String.fromUTF8? ⟨bytes.toArray⟩ with
    | none =>
      simp only [Bool.false_eq_true, if_false, htext]
      exact ⟨hsuffix, .inl ⟨_, rfl⟩⟩
    | some text =>
      simp only [Bool.false_eq_true, if_false, htext]
      by_cases hempty : bytes.length = 0
      · simp only [if_pos hempty]
        exact ⟨hsuffix, .inl ⟨_, rfl⟩⟩
      by_cases hlong : bytes.length = maxLineBytes ∧ bytes.getLast? ≠ some newline
      · simp only [if_neg hempty, if_pos hlong]
        exact ⟨hsuffix, .inl ⟨_, rfl⟩⟩
      simp only [if_neg hempty, if_neg hlong]
      refine ⟨hsuffix, .inr ⟨_, rfl, trivial, bytes, text, hstream, ?_, htext, rfl⟩⟩
      rcases hline with hwhole | ⟨hinside, hlength | hend⟩
      · exact .inl hwhole
      · -- at the limit without a newline the line is refused as over-long
        exfalso
        apply hlong
        refine ⟨hlength, fun hlast => hinside ?_⟩
        exact List.mem_of_getLast? hlast
      · exact .inr ⟨hinside, hend⟩

inductive Asks (transport : Transport) : Transport × Except Failure String → Prop
  | shut (h : transport.poisoned = true) : Asks transport (transport, .error .desynchronised)
  | failed (after : Transport) (failure : Failure) (hopen : transport.poisoned = false)
      (hpoisoned : after.poisoned = true) (hreader : after.reader <:+ transport.reader)
      (hfailure : failure = .unsent ∨ ∃ text, failure = .unread text) :
    Asks transport (after, .error failure)
  | answered (after : Transport) (line : String) (hopen : transport.poisoned = false)
      (hafter : after.poisoned = false)
      (hline : TakesLine transport.reader after.reader line) :
    Asks transport (after, .ok line)

theorem ask_asks (transport : Transport) (request : String) (body : List UInt8)
    (broken : Option Nat) : Asks transport (transport.ask request body broken) := by
  unfold Transport.ask Transport.send
  cases hpoisoned : transport.poisoned with
  | true => exact .shut hpoisoned
  | false =>
    cases broken with
    | some count => exact .failed _ _ hpoisoned rfl (List.suffix_refl _) (.inl rfl)
    | none =>
      let sent := { transport with
        written := transport.written ++ (request.toUTF8.data.toList ++ body)
        poisoned := false }
      have hread := @readOneLine_spec sent rfl
      simp only [Bool.false_eq_true, if_false]
      change Asks transport sent.line
      unfold Transport.line
      generalize sent.readOneLine = outcome at hread
      obtain ⟨after, result⟩ := outcome
      obtain ⟨hsuffix, ⟨text, rfl⟩ | ⟨line, rfl, hafter, hline⟩⟩ := hread
      · exact .failed _ _ hpoisoned rfl hsuffix (.inr ⟨text, rfl⟩)
      · exact .answered after line hpoisoned hafter hline

theorem splitOnce_append {separator : Char} {text before behind : String}
    (h : Text.splitOnce separator text = some (before, behind)) :
    text = before ++ String.singleton separator ++ behind := by
  obtain ⟨⟨front, back⟩, hsplit, heq⟩ := Option.map_eq_some_iff.mp h
  obtain ⟨rfl, rfl⟩ := Prod.mk.inj heq
  have happend := Text.splitAtFirst_append hsplit
  apply String.toList_inj.mp
  simp [← happend]

theorem parseStatus_ok {line : String} {want got : Nat}
    (h : parseStatus usizeMax line want = .ok got) : Announces usizeMax line got := by
  unfold parseStatus at h
  rcases hsplit : (Text.splitOnce ' ' line).getD (line, "") with ⟨word, rest⟩
  rw [hsplit] at h
  dsimp only at h
  split at h
  · split at h
    · cases h
    rename_i hparse
    split at h
    · cases h
    cases h
    cases honce : Text.splitOnce ' ' line with
    | none =>
      rw [honce] at hsplit
      cases hsplit
      have hnone : Text.parseUnsigned usizeMax (Text.trim "") = none := rfl
      rw [hnone] at hparse
      cases hparse
    | some parts =>
      rw [honce] at hsplit
      cases hsplit
      exact ⟨rest, splitOnce_append honce, hparse⟩
  · cases h
  · cases h
  · cases h
  · cases h

theorem parseStatus_answer {line : String} {want : Nat} {failure : ReadFailure}
    (h : parseStatus usizeMax line want = .error failure) (hanswer : framingFault failure = false) :
    (statusWord line = "REFUSED" ∧ ∃ detail, failure = .refused detail) ∨
      (statusWord line = "NOTPRESENT" ∧ failure = .notPresent) := by
  unfold parseStatus at h
  unfold statusWord
  rcases hsplit : (Text.splitOnce ' ' line).getD (line, "") with ⟨word, rest⟩
  rw [hsplit] at h
  dsimp only at h ⊢
  split at h
  · split at h
    · cases h
      cases hanswer
    · split at h
      · cases h
        cases hanswer
      · cases h
  · cases h
    exact .inl ⟨rfl, _, rfl⟩
  · cases h
    exact .inr ⟨rfl, rfl⟩
  · cases h
    cases hanswer
  · cases h
    cases hanswer

inductive Performs (usizeMax : Nat) (before : Transport) (exchange : Exchange) :
    Transport × Except Failure Answer → Prop
  | shut (h : before.poisoned = true) :
    Performs usizeMax before exchange (before, .error .desynchronised)
  | withheld (text : String) : Performs usizeMax before exchange (before, .error (.withheld text))
  | failed (after : Transport) (failure : Failure) (hopen : before.poisoned = false)
      (hpoisoned : after.poisoned = true) (hreader : after.reader <:+ before.reader) :
    Performs usizeMax before exchange (after, .error failure)
  | declined (after : Transport) (line : String) (failure : ReadFailure)
      (hopen : before.poisoned = false) (hline : TakesLine before.reader after.reader line)
      (hword : (statusWord line = "REFUSED" ∧ ∃ detail, failure = .refused detail) ∨
        (statusWord line = "NOTPRESENT" ∧ failure = .notPresent)) :
    Performs usizeMax before exchange (after, .error (.status failure))
  | unparsed (after : Transport) (line text : String) (hopen : before.poisoned = false)
      (hexchange : exchange = .shape) (hline : TakesLine before.reader after.reader line)
      (hparse : parseShape line = .error text) :
    Performs usizeMax before exchange (after, .error (.shape text))
  | delivered (after : Transport) (line : String) (middle : List Arrival) (gpa want : Nat)
      (bytes : List UInt8) (hopen : before.poisoned = false) (hexchange : exchange = .read gpa want)
      (hline : TakesLine before.reader middle line) (hcount : Announces usizeMax line want)
      (hbytes : middle = ofBytes bytes ++ after.reader) (hlength : bytes.length = want) :
    Performs usizeMax before exchange (after, .ok (.bytes bytes))
  | settled (after : Transport) (line : String) (answer : Answer) (hopen : before.poisoned = false)
      (hexchange : ∀ gpa want, exchange ≠ .read gpa want)
      (hline : TakesLine before.reader after.reader line) :
    Performs usizeMax before exchange (after, .ok answer)

theorem TakesLine.suffix {stream rest : List Arrival} {line : String}
    (h : TakesLine stream rest line) : rest <:+ stream := by
  obtain ⟨frame, text, hstream, -⟩ := h
  exact ⟨ofBytes frame, hstream.symm⟩

theorem failStatus_performs {before after : Transport} {exchange : Exchange} {line : String}
    {want : Nat} {failure : ReadFailure} (hopen : before.poisoned = false)
    (hline : TakesLine before.reader after.reader line)
    (hstatus : parseStatus usizeMax line want = .error failure) :
    Performs usizeMax before exchange (after.failStatus failure, .error (.status failure)) := by
  unfold Transport.failStatus
  split
  · exact .failed _ _ hopen rfl hline.suffix
  · rename_i hanswer
    exact .declined after line failure hopen hline
      (parseStatus_answer hstatus (by simpa using hanswer))

theorem confirm_performs {before after : Transport} {exchange : Exchange} {line : String}
    {want : Nat} {miscount : Nat → String} (hopen : before.poisoned = false)
    (hexchange : ∀ gpa want, exchange ≠ .read gpa want)
    (hline : TakesLine before.reader after.reader line) :
    Performs usizeMax before exchange
      ((after.confirm usizeMax line want miscount).1,
        (after.confirm usizeMax line want miscount).2.map fun _ => .done) := by
  unfold Transport.confirm
  cases hstatus : parseStatus usizeMax line want with
  | error failure => exact failStatus_performs hopen hline hstatus
  | ok got =>
    by_cases hgot : got = want
    · simp only [if_pos hgot]
      exact .settled after line .done hopen hexchange hline
    · simp only [if_neg hgot]
      exact .failed _ _ hopen rfl hline.suffix

theorem shape_performs (transport : Transport) (broken : Option Nat) :
    Performs usizeMax transport .shape
      ((transport.shape broken).1, (transport.shape broken).2.map .shape) := by
  have hasks := ask_asks transport "SHAPE\n" [] broken
  unfold Transport.shape
  generalize transport.ask "SHAPE\n" [] broken = asked at hasks
  cases hasks with
  | shut h => exact .shut h
  | failed after failure hopen hpoisoned hreader => exact .failed after failure hopen hpoisoned hreader
  | answered after line hopen hafter hline =>
    dsimp only
    cases hparse : parseShape line with
    | error text => exact .unparsed after line text hopen rfl hline hparse
    | ok reply => exact .settled _ line (.shape reply) hopen (fun _ _ => nofun) hline

theorem readChunk_performs (transport : Transport) (gpa want : Nat) (broken : Option Nat) :
    Performs usizeMax transport (.read gpa want)
      ((transport.readChunk usizeMax gpa want broken).1,
        (transport.readChunk usizeMax gpa want broken).2.map .bytes) := by
  have hasks := ask_asks transport
    ("READ " ++ Text.hexUpper gpa ++ " " ++ toString want ++ "\n") [] broken
  unfold Transport.readChunk
  generalize transport.ask ("READ " ++ Text.hexUpper gpa ++ " " ++ toString want ++ "\n") []
    broken = asked at hasks
  cases hasks with
  | shut h => exact .shut h
  | failed after failure hopen hpoisoned hreader => exact .failed after failure hopen hpoisoned hreader
  | answered after line hopen hafter hline =>
    dsimp only
    cases hstatus : parseStatus usizeMax line want with
    | error failure => exact failStatus_performs hopen hline hstatus
    | ok got =>
      by_cases hgot : got = want
      · subst hgot
        simp only [ne_eq, not_true_eq_false, if_false]
        have hsuffix := readExact_suffix got after.reader
        rcases hread : readExact got after.reader with ⟨taken, rest⟩
        rw [hread] at hsuffix
        cases taken with
        | none => exact .failed _ _ hopen rfl (hsuffix.trans hline.suffix)
        | some bytes =>
          obtain ⟨hbytes, hlength⟩ := readExact_spec hread
          exact .delivered _ line after.reader gpa got bytes hopen rfl hline
            (parseStatus_ok hstatus) hbytes hlength
      · simp only [ne_eq, hgot, not_false_eq_true, if_true]
        exact .failed _ _ hopen rfl hline.suffix

theorem writeChunk_performs (transport : Transport) (gpa : Nat) (bytes : List UInt8)
    (broken : Option Nat) :
    Performs usizeMax transport (.write gpa bytes)
      ((transport.writeChunk usizeMax gpa bytes broken).1,
        (transport.writeChunk usizeMax gpa bytes broken).2.map fun _ => .done) := by
  unfold Transport.writeChunk
  cases transport.maxWrite with
  | none => exact .withheld _
  | some maxWrite =>
    dsimp only
    by_cases hcount : bytes.isEmpty ∨ maxWrite < bytes.length
    · rw [if_pos hcount]
      exact .withheld _
    by_cases hpage : 0x1000 < gpa % 0x1000 + bytes.length
    · rw [if_neg hcount, if_pos hpage]
      exact .withheld _
    rw [if_neg hcount, if_neg hpage]
    have hasks := ask_asks transport
      ("WRITE " ++ Text.hexUpper gpa ++ " " ++ toString bytes.length ++ "\n") bytes broken
    generalize transport.ask
      ("WRITE " ++ Text.hexUpper gpa ++ " " ++ toString bytes.length ++ "\n") bytes broken =
        asked at hasks
    cases hasks with
    | shut h => exact .shut h
    | failed after failure hopen hpoisoned hreader =>
      exact .failed after failure hopen hpoisoned hreader
    | answered after line hopen hafter hline =>
      exact confirm_performs hopen (fun _ _ => nofun) hline

theorem refresh_performs (transport : Transport) (broken : Option Nat) :
    Performs usizeMax transport .refresh
      ((transport.refresh usizeMax broken).1,
        (transport.refresh usizeMax broken).2.map fun _ => .done) := by
  have hasks := ask_asks transport "REFRESH\n" [] broken
  unfold Transport.refresh
  generalize transport.ask "REFRESH\n" [] broken = asked at hasks
  cases hasks with
  | shut h => exact .shut h
  | failed after failure hopen hpoisoned hreader => exact .failed after failure hopen hpoisoned hreader
  | answered after line hopen hafter hline =>
    exact confirm_performs hopen (fun _ _ => nofun) hline

theorem perform_performs (transport : Transport) (input : Input) :
    Performs usizeMax transport input.exchange (perform usizeMax transport input) := by
  obtain ⟨exchange, broken⟩ := input
  cases exchange with
  | shape => exact shape_performs transport broken
  | read gpa want => exact readChunk_performs transport gpa want broken
  | write gpa bytes => exact writeChunk_performs transport gpa bytes broken
  | refresh => exact refresh_performs transport broken

def Excused (before : Transport) (exchange : Exchange) (after : Transport) (failure : Failure) :
    Prop :=
  (∃ text, failure = .withheld text ∧ after = before) ∨
    (∃ line, TakesLine before.reader after.reader line ∧
      ((statusWord line = "REFUSED" ∧ ∃ detail, failure = .status (.refused detail)) ∨
        (statusWord line = "NOTPRESENT" ∧ failure = .status .notPresent))) ∨
    (exchange = .shape ∧ ∃ line text, TakesLine before.reader after.reader line ∧
      parseShape line = .error text ∧ failure = .shape text)

theorem perform_failure {before after : Transport} {input : Input} {failure : Failure}
    (h : perform usizeMax before input = (after, .error failure)) :
    after.poisoned = true ∨ Excused before input.exchange after failure := by
  have hperforms := @perform_performs usizeMax before input
  rw [h] at hperforms
  cases hperforms with
  | shut hpoisoned => exact .inl hpoisoned
  | withheld text => exact .inr (.inl ⟨text, rfl, rfl⟩)
  | failed _ _ _ hpoisoned => exact .inl hpoisoned
  | declined _ line failure _ hline hword =>
    refine .inr (.inr (.inl ⟨line, hline, ?_⟩))
    rcases hword with ⟨hrefused, detail, rfl⟩ | ⟨habsent, rfl⟩
    · exact .inl ⟨hrefused, detail, rfl⟩
    · exact .inr ⟨habsent, rfl⟩
  | unparsed _ line text _ hexchange hline hparse =>
    exact .inr (.inr (.inr ⟨hexchange, line, text, hline, hparse, rfl⟩))

theorem perform_suffix (before : Transport) (input : Input) :
    (step usizeMax before input).reader <:+ before.reader := by
  have hperforms := @perform_performs usizeMax before input
  unfold step
  generalize perform usizeMax before input = performed at hperforms
  cases hperforms with
  | shut => exact List.suffix_refl _
  | withheld => exact List.suffix_refl _
  | failed _ _ _ _ hreader => exact hreader
  | declined _ _ _ _ hline => exact hline.suffix
  | unparsed _ _ _ _ _ hline => exact hline.suffix
  | delivered _ _ middle _ _ bytes _ _ hline _ hbytes =>
    exact List.IsSuffix.trans ⟨ofBytes bytes, hbytes.symm⟩ hline.suffix
  | settled _ _ _ _ _ hline => exact hline.suffix

theorem step_of_poisoned {before : Transport} (h : before.poisoned = true) (input : Input) :
    step usizeMax before input = before := by
  have hperforms := @perform_performs usizeMax before input
  have hshut : before.poisoned ≠ false := by simp [h]
  unfold step
  generalize perform usizeMax before input = performed at hperforms
  cases hperforms with
  | shut => rfl
  | withheld => rfl
  | failed _ _ hopen => exact absurd hopen hshut
  | declined _ _ _ hopen => exact absurd hopen hshut
  | unparsed _ _ _ hopen => exact absurd hopen hshut
  | delivered _ _ _ _ _ _ hopen => exact absurd hopen hshut
  | settled _ _ _ hopen => exact absurd hopen hshut

theorem run_of_poisoned {before : Transport} (h : before.poisoned = true) (inputs : List Input) :
    run (step usizeMax) before inputs = before := by
  induction inputs with
  | nil => rfl
  | cons input inputs ih => rw [run_cons, step_of_poisoned h, ih]

def took (usizeMax : Nat) (visit : Transport × Input) : List Arrival :=
  visit.1.reader.take (visit.1.reader.length - (step usizeMax visit.1 visit.2).reader.length)

def consumed (usizeMax : Nat) (start : Transport) (inputs : List Input) : List Arrival :=
  (visits (step usizeMax) start inputs).flatMap (took usizeMax)

theorem took_append (visit : Transport × Input) :
    took usizeMax visit ++ (step usizeMax visit.1 visit.2).reader = visit.1.reader := by
  obtain ⟨front, hfront⟩ := @perform_suffix usizeMax visit.1 visit.2
  unfold took
  rw [← hfront, List.length_append, Nat.add_sub_cancel, List.take_left]

theorem consumed_append (start : Transport) (inputs : List Input) :
    consumed usizeMax start inputs ++ (run (step usizeMax) start inputs).reader =
      start.reader := by
  unfold consumed
  induction inputs generalizing start with
  | nil => rfl
  | cons input inputs ih =>
    rw [visits, List.flatMap_cons, List.append_assoc, run_cons, ih]
    exact took_append (start, input)

/-- Whatever the child sends: a read that succeeds delivers the requested bytes, from right
behind a line that announces them, and that line starts where the exchanges before it have
stopped; a failure poisons unless it leaves the stream in place; and once poisoned nothing
more is sent or taken. -/
theorem transport_keeps_its_place (usizeMax : Nat) (start : Transport) (inputs : List Input)
    (input : Input) :
    let before := run (step usizeMax) start inputs
    let after := (perform usizeMax before input).1
    let result := (perform usizeMax before input).2
    (∀ gpa want answer, input.exchange = .read gpa want → result = .ok answer →
      ∃ bytes line middle, answer = .bytes bytes ∧ bytes.length = want ∧
        start.reader = consumed usizeMax start inputs ++ before.reader ∧
        TakesLine before.reader middle line ∧ Announces usizeMax line want ∧
        middle = ofBytes bytes ++ after.reader) ∧
    (∀ failure, result = .error failure →
      after.poisoned = true ∨ Excused before input.exchange after failure) ∧
    (before.poisoned = true → ∀ more,
      (run (step usizeMax) before more).written = before.written ∧
        (run (step usizeMax) before more).reader = before.reader ∧
        (run (step usizeMax) before more).poisoned = true) := by
  intro before after result
  refine ⟨?_, ?_, ?_⟩
  · intro gpa want answer hexchange hresult
    have hperforms := @perform_performs usizeMax before input
    have heq : perform usizeMax before input = (after, .ok answer) := by rw [← hresult]
    rw [heq] at hperforms
    generalize hafter : after = last at hperforms
    cases hperforms with
    | delivered _ line middle _ count bytes _ hread hline hcount hbytes hlength =>
      rw [hexchange, Exchange.read.injEq] at hread
      obtain ⟨-, rfl⟩ := hread
      refine ⟨bytes, line, middle, rfl, hlength, ?_, hline, hcount, hbytes⟩
      exact (consumed_append start inputs).symm
    | settled _ _ _ _ hother => exact absurd hexchange (hother gpa want)
  · intro failure hresult
    apply perform_failure
    rw [← hresult]
  · intro hpoisoned more
    rw [run_of_poisoned hpoisoned]
    exact ⟨rfl, rfl, hpoisoned⟩

theorem transport_keeps_its_place_after_refusal :
    let start : Transport :=
      { reader := ofBytes "REFUSED ReadIntercept\nOK 2\nab".toUTF8.data.toList
        written := []
        maxRead := 16
        maxWrite := none
        poisoned := false }
    let refused : Input := ⟨.read 0x1000 2, none⟩
    let before := step (2 ^ 64 - 1) start refused
    (perform (2 ^ 64 - 1) before ⟨.read 0x2000 2, none⟩).2 = .ok (.bytes [97, 98]) ∧
      ∃ bytes line middle, Answer.bytes [97, 98] = .bytes bytes ∧ bytes.length = 2 ∧
        start.reader = consumed (2 ^ 64 - 1) start [refused] ++ before.reader ∧
        TakesLine before.reader middle line ∧ Announces (2 ^ 64 - 1) line 2 ∧
        middle = ofBytes bytes ++ (perform (2 ^ 64 - 1) before ⟨.read 0x2000 2, none⟩).1.reader := by
  intro start refused before
  have hresult : (perform (2 ^ 64 - 1) before ⟨.read 0x2000 2, none⟩).2 = .ok (.bytes [97, 98]) := by
    decide
  exact ⟨hresult, (transport_keeps_its_place (2 ^ 64 - 1) start [refused]
    ⟨.read 0x2000 2, none⟩).1 0x2000 2 _ rfl hresult⟩

end WindbgMcp.LiveSource
