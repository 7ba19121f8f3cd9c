import WindbgMcp.Engine.Refusing

/-! An attach that its worker refuses before it claimed anything.  While a command that
may have taken the worker over awaits its verdict the refusal is withheld; the settlement
is the same whichever of the worker's replies and the deadline comes first. -/
namespace WindbgMcp.Engine
open Library Threads

/-- The steps of an attach until its refusal is settled: ordinary calls are submitted
and written to the worker, the worker answers, and the attach's caller may run out of
time, before which no other caller does. -/
def LineAct.Attaches (line : Line) : LineAct → Prop
  | .start _ (.call asked) => asked.isOrdinary = true
  | .run party input => input.expired = true → party = .opener ∨ openerJob ∈ line.shared.closed
  | .pump input => input.write = .written
  | .emit (.done job reply) => job = openerJob → reply.isRefusal = true
  | .admits _ | .read => True
  | .start _ _ | .emit _ | .exit => False

instance (line : Line) : (act : LineAct) → Decidable (act.Attaches line)
  | .start _ (.call asked) => inferInstanceAs (Decidable (asked.isOrdinary = true))
  | .run party input => inferInstanceAs (Decidable
    (input.expired = true → party = .opener ∨ openerJob ∈ line.shared.closed))
  | .pump input => inferInstanceAs (Decidable (input.write = .written))
  | .emit (.done job reply) =>
    inferInstanceAs (Decidable (job = openerJob → reply.isRefusal = true))
  | .admits _ | .read => isTrue trivial
  | .start _ (.release _) | .start _ (.kernelHandoff _) | .start _ (.ended _)
  | .start _ (.compositeFailed _) | .start _ (.close _) | .start _ (.preserveLiveControl _)
  | .emit (.committed _) | .emit (.opened _) | .emit (.kdPhase _) | .emit (.targetReplaced _)
  | .exit => isFalse id

namespace Line
variable {line : Line} {item head : Section} {party : Party} {rest next : List Section}
  {after : Shared}

/-! ## Other steps -/

theorem Attaching.put_idle (h : line.Attaching) (hidle : line.programs party = [])
    {admission : Admission} {drawn : Nat} (hadmission : admission ≠ .spawned)
    {program : List Section} (hdue : ∀ item ∈ program, item.Attaching line.shared)
    (hbelongs : ∀ item ∈ program, item.Belongs party)
    (hsends : ∀ item ∈ program, ¬item.Sends openerJob) :
    Attaching (line.put party { line.shared with admission, drawn } program) := by
  have hshared := h.keeps.shared
  refine ⟨?_, put_forall h.belongs hbelongs, fun hspawned => absurd hspawned hadmission, ?_, ?_, ?_⟩
  · refine Keeps.put h.keeps ?_ ?_ ?_
    · exact ⟨hshared.session, hshared.connected, hshared.running, hshared.unresolved,
        hshared.responding, hshared.answers, hshared.messages, hshared.replied, hshared.queued,
        hshared.waiters⟩
    · exact fun item => Section.Attaching.mono (fun _ h => h) (fun _ h => h)
    · exact fun item hitem => (hdue item hitem).mono (fun _ h => h) (fun _ h => h)
  · intro job htakeover
    obtain ⟨hsent, hread⟩ := h.takeover job htakeover
    exact ⟨hsent, fun hrefused => (hread hrefused).idle hidle rfl rfl⟩
  · intro hsent
    rcases h.waits hsent with hclosed | hanswered | howes
    · exact Or.inl hclosed
    · exact Or.inr (Or.inl hanswered)
    · exact Or.inr (Or.inr (howes.idle hidle))
  · cases h.owed with
    | unanswered hreply hwaiter =>
      refine .unanswered hreply (hwaiter.imp_right fun habsent => ⟨habsent.1, ?_⟩)
      rintro ⟨other, howes⟩
      rcases howes.origin with hbefore | ⟨_, item, hitem, hsend⟩
      · exact habsent.2 ⟨other, hbefore⟩
      · exact hsends item hitem hsend
    | unread reply hread hsent hwaiter => exact .unread reply (hread.idle hidle rfl rfl) hsent hwaiter
    | undelivered howes hsent => exact .undelivered (howes.idle hidle) hsent
    | late howes => exact .late (howes.idle hidle)
    | returned howes hanswered hwaits => exact .returned (howes.idle hidle) hanswered hwaits
    | withheld hwithheld => exact .withheld hwithheld

theorem Attaching.reads (h : line.Attaching) {message : Message} {rest : List Message}
    (hreader : line.programs .reader = []) (hmessages : line.shared.messages = message :: rest) :
    Attaching (line.put .reader { line.shared with messages := rest }
      (message.sections line.session)) := by
  have hshared := h.keeps.shared
  obtain ⟨job, reply, rfl, hreplied, hrefusal⟩ := hshared.messages message (by simp [hmessages])
  have hsubset : ∀ other ∈ rest, other ∈ line.shared.messages := by
    intro other hother
    rw [hmessages]
    exact List.mem_cons_of_mem _ hother
  -- What was in the message is in the reader's hands.
  have hreads : ∀ {item}, line.ToRead item →
      ToRead (line.put .reader { line.shared with messages := rest }
        ((Message.done job reply).sections line.session)) item := by
    intro item hread
    rcases hread with howes | ⟨other, hother, hitem⟩
    · exact Or.inl (howes.idle hreader)
    · rw [hmessages] at hother
      rcases List.mem_cons.mp hother with rfl | hlater
      · refine Or.inl ⟨item, ?_, rfl⟩
        rw [put_programs_self]
        exact hitem
      · exact Or.inr ⟨other, hlater, hitem⟩
  have hsections : ∀ item ∈ (Message.done job reply).sections line.session,
      item.Attaching line.shared ∧ item.Belongs .reader ∧ ¬item.Sends openerJob := by
    intro item hitem
    rcases List.mem_append.mp hitem with hrefused | hanswer
    · split at hrefused
      · rw [List.mem_singleton.mp hrefused]
        exact ⟨trivial, rfl, fun hsends => hsends⟩
      · cases hrefused
    · rw [List.mem_singleton.mp hanswer]
      exact ⟨⟨hreplied, hrefusal⟩, rfl, fun hsends => hsends⟩
  refine ⟨?_, put_forall h.belongs fun item hitem => (hsections item hitem).2.1, ?_, ?_, ?_, ?_⟩
  · refine Keeps.put h.keeps ?_ ?_ ?_
    · exact ⟨hshared.session, hshared.connected, hshared.running, hshared.unresolved,
        hshared.responding, hshared.answers,
        fun other hother => hshared.messages other (hsubset other hother), hshared.replied,
        hshared.queued, hshared.waiters⟩
    · exact fun item => Section.Attaching.mono (fun _ h => h) (fun _ h => h)
    · exact fun item hitem => (hsections item hitem).1.mono (fun _ h => h) (fun _ h => h)
  · rw [put_programs_of_ne _ (by simp)]
    exact h.unopened
  · intro taken htakeover
    obtain ⟨hsent, hread⟩ := h.takeover taken htakeover
    exact ⟨hsent, fun hrefused => hreads (hread hrefused)⟩
  · intro hsent
    rcases h.waits hsent with hclosed | hanswered | howes
    · exact Or.inl hclosed
    · exact Or.inr (Or.inl hanswered)
    · exact Or.inr (Or.inr (howes.idle hreader))
  · cases h.owed with
    | unanswered hreply hwaiter =>
      refine .unanswered hreply (hwaiter.imp_right fun habsent => ⟨habsent.1, ?_⟩)
      rintro ⟨other, howes⟩
      rcases howes.origin with hbefore | ⟨_, item, hitem, hsend⟩
      · exact habsent.2 ⟨other, hbefore⟩
      · exact (hsections item hitem).2.2 hsend
    | unread other hread hsent hwaiter => exact .unread other (hreads hread) hsent hwaiter
    | undelivered howes hsent => exact .undelivered (howes.idle hreader) hsent
    | late howes => exact .late (howes.idle hreader)
    | returned howes hanswered hwaits => exact .returned (howes.idle hreader) hanswered hwaits
    | withheld hwithheld => exact .withheld hwithheld

theorem Attaching.replies (h : line.Attaching) {job : Nat} {reply : Reply}
    (hforwarded : job ∈ line.shared.forwarded.map Job.id)
    (hrefusal : job = openerJob → reply.isRefusal = true) :
    (line.onShared { line.shared with
      replies := line.shared.replies ++ [(job, reply)]
      messages := line.shared.messages ++ [.done job reply] }).Attaching := by
  have hshared := h.keeps.shared
  have hgrows : line.shared.replies.map Prod.fst ⊆
      (line.shared.replies ++ [(job, reply)]).map Prod.fst := by
    rw [List.map_append]
    exact List.subset_append_left _ _
  have hreads : ∀ {item}, line.ToRead item → (line.onShared { line.shared with
      replies := line.shared.replies ++ [(job, reply)]
      messages := line.shared.messages ++ [.done job reply] }).ToRead item :=
    fun hread => hread.onShared (List.subset_append_left _ _) rfl
  refine ⟨?_, h.belongs, h.unopened, ?_, h.waits, ?_⟩
  · refine Keeps.onShared h.keeps ?_ fun item => Section.Attaching.mono (fun _ h => h) hgrows
    refine ⟨hshared.session, hshared.connected, hshared.running, hshared.unresolved,
      hshared.responding, hshared.answers, ?_, ?_, hshared.queued, hshared.waiters⟩
    · intro message hmessage
      rcases List.mem_append.mp hmessage with hold | hnew
      · obtain ⟨other, sent, hdone, hreplied, hrefused⟩ := hshared.messages message hold
        exact ⟨other, sent, hdone, hgrows hreplied, hrefused⟩
      · refine ⟨job, reply, List.mem_singleton.mp hnew, ?_, hrefusal⟩
        simp
    · intro other hother
      rw [List.map_append, List.mem_append] at hother
      rcases hother with hold | hnew
      · exact hshared.replied other hold
      · rw [List.mem_singleton.mp hnew]
        exact hforwarded
  · intro taken htakeover
    obtain ⟨hsent, hread⟩ := h.takeover taken htakeover
    refine ⟨hsent, ?_⟩
    rintro ⟨answer, hanswer, hrecovery⟩
    rcases List.mem_append.mp hanswer with hold | hnew
    · exact hreads (hread ⟨answer, hold, hrecovery⟩)
    · cases List.mem_singleton.mp hnew
      refine Or.inr ⟨.done job reply, List.mem_append_right _ (List.mem_singleton_self _), ?_⟩
      have hkernel : (line.onShared { line.shared with
          replies := line.shared.replies ++ [(job, reply)]
          messages := line.shared.messages ++ [.done job reply] }).session.kind = .kernel :=
        hshared.session.kernel
      simp [Message.sections, hkernel, hrecovery]
  · cases h.owed with
    | unanswered hreply hwaiter =>
      by_cases hjob : job = openerJob
      · subst hjob
        have hheld : openerJob ∈ line.shared.jobIds := by
          simp only [Shared.jobIds, List.mem_append]
          exact Or.inl (Or.inr hforwarded)
        refine .unread reply ?_ hforwarded (hwaiter.resolve_right fun habsent => habsent.1 hheld)
        refine Or.inr ⟨.done openerJob reply, List.mem_append_right _ (List.mem_singleton_self _), ?_⟩
        exact List.mem_append_right _ (List.mem_singleton_self _)
      · refine .unanswered ?_ hwaiter
        intro hreplied
        have hmem : openerJob ∈ (line.shared.replies ++ [(job, reply)]).map Prod.fst := hreplied
        rw [List.map_append, List.mem_append] at hmem
        rcases hmem with hold | hnew
        · exact hreply hold
        · exact hjob (List.mem_singleton.mp hnew).symm
    | unread other hread hsent hwaiter => exact .unread other (hreads hread) hsent hwaiter
    | undelivered howes hsent => exact .undelivered howes hsent
    | late howes => exact .late howes
    | returned howes hanswered hwaits => exact .returned howes hanswered hwaits
    | withheld hwithheld => exact .withheld hwithheld

theorem Attaching.onShared (h : line.Attaching) (hattaching : after.Attaching)
    (hadmission : after.admission = line.shared.admission)
    (hreplies : after.replies = line.shared.replies) (hmessages : after.messages = line.shared.messages)
    (hclosed : after.closed = line.shared.closed)
    (hanswers : ∃ more, after.answers = line.shared.answers ++ more)
    (hforwarded : line.shared.forwarded ⊆ after.forwarded)
    (hwithheld : after.session.claims.withheld = line.session.claims.withheld)
    (hids : openerJob ∈ after.jobIds → openerJob ∈ line.shared.jobIds)
    (hwaiter : openerJob ∈ line.shared.waiters.map Waiting.job →
      openerJob ∈ after.waiters.map Waiting.job ∨
        openerJob ∉ line.shared.jobIds ∧ ¬line.Submitting openerJob)
    (htakeover : ∀ job, after.session.claims.takeover = some job →
      (∃ sent ∈ after.pump.writes ++ after.forwarded, sent.id = job ∧ sent.call.retires = true) ∧
        (line.shared.Refused job → line.session.claims.takeover = some job)) :
    (line.onShared after).Attaching := by
  have hkind : after.session.kind = line.session.kind :=
    hattaching.session.kernel.trans h.keeps.shared.session.kernel.symm
  have hanswered : (line.shared.answered openerJob).isSome = true →
      (after.answered openerJob).isSome = true :=
    fun hbefore => Shared.answered_isSome hbefore hanswers
  have hreads : ∀ {item}, line.ToRead item → (line.onShared after).ToRead item := by
    intro item hread
    exact hread.onShared (by rw [hmessages]; exact List.Subset.refl _) hkind
  have hsent : openerJob ∈ line.shared.forwarded.map Job.id →
      openerJob ∈ after.forwarded.map Job.id := by
    intro hbefore
    exact List.map_subset _ hforwarded hbefore
  have hunopened : after.admission = .spawned → line.programs .opener = [] := by
    rw [hadmission]
    exact h.unopened
  refine ⟨?_, h.belongs, hunopened, ?_, ?_, ?_⟩
  · refine Keeps.onShared h.keeps hattaching fun item => Section.Attaching.mono ?_ ?_
    · rw [hclosed]
      exact List.Subset.refl _
    · rw [hreplies]
      exact List.Subset.refl _
  · intro job hjob
    obtain ⟨hon, hbefore⟩ := htakeover job hjob
    refine ⟨hon, ?_⟩
    rintro ⟨reply, hreply, hrecovery⟩
    have hrefused : line.shared.Refused job := ⟨reply, hreplies ▸ hreply, hrecovery⟩
    exact hreads ((h.takeover job (hbefore hrefused)).2 hrefused)
  · intro hheld
    rcases h.waits (hids hheld) with hgone | hbefore | howes
    · exact Or.inl (hclosed.symm ▸ hgone)
    · exact Or.inr (Or.inl (hanswered hbefore))
    · exact Or.inr (Or.inr howes)
  · cases h.owed with
    | unanswered hreply hbefore =>
      have hunreplied : openerJob ∉ after.replies.map Prod.fst := by
        rw [hreplies]
        exact hreply
      refine .unanswered hunreplied ?_
      have habsent : openerJob ∉ line.shared.jobIds ∧ ¬line.Submitting openerJob →
          openerJob ∉ (line.onShared after).shared.jobIds ∧
            ¬(line.onShared after).Submitting openerJob :=
        fun habsent => ⟨fun hheld => habsent.1 (hids hheld), habsent.2⟩
      rcases hbefore with hbefore | hbefore
      · exact (hwaiter hbefore).imp_right habsent
      · exact Or.inr (habsent hbefore)
    | unread reply hread hbefore hwaits =>
      refine .unread reply (hreads hread) (hsent hbefore) ?_
      apply (hwaiter hwaits).resolve_right
      intro habsent
      apply habsent.1
      simp only [Shared.jobIds, List.mem_append]
      exact Or.inl (Or.inr hbefore)
    | undelivered howes hbefore => exact .undelivered howes (hsent hbefore)
    | late howes => exact .late howes
    | returned howes hbefore hwaits =>
      refine .returned howes (hanswered hbefore) ?_
      have hunclosed : openerJob ∉ after.closed := by
        rw [hclosed]
        exact hwaits
      exact hunclosed
    | withheld hbefore =>
      apply Owed.withheld
      have hafter : after.session.claims.withheld.isSome = true := by
        rw [hwithheld]
        exact hbefore
      exact hafter

theorem Attaching.pumps (h : line.Attaching)
    (hids : line.Linear Shared.takenIds Section.unsentJob Shared.Drawn) {input : Input}
    (hwrite : input.write = .written) : (line.onShared (line.shared.pumpStep input)).Attaching := by
  have hshared := h.keeps.shared
  unfold Shared.pumpStep
  split
  · rename_i hpump
    split
    · exact h
    · rename_i job rest hqueue
      have hordinary := hshared.queued job (by simp [hqueue])
      obtain ⟨_, _, hwithheld, htakeover⟩ := hshared.session.gate input.now hordinary.closes
      have hwaiters : (line.shared.gateJob input.now job rest).waiters = line.shared.waiters :=
        line.shared.session.gate_waiters input.now job
      have hcount := jobIds_conserved.pump line.shared _
        (.gates input.now job rest hpump hqueue) openerJob
      refine h.onShared (hshared.gateJob hqueue) rfl rfl rfl rfl ⟨[], (List.append_nil _).symm⟩
        (fun _ hmem => hmem) hwithheld ?_ ?_ ?_
      · intro hheld
        have hpos := List.count_pos_iff.mpr hheld
        exact List.count_pos_iff.mp (by omega)
      · rw [hwaiters]
        exact Or.inl
      · intro taken htaken
        rcases htakeover with hsame | ⟨hadmitted, hretires, hnew⟩
        · have hbefore : line.session.claims.takeover = some taken := hsame.symm.trans htaken
          obtain ⟨⟨sent, hsent, hid⟩, _⟩ := h.takeover taken hbefore
          refine ⟨⟨sent, ?_, hid⟩, fun _ => hbefore⟩
          have hforwarded : sent ∈ line.shared.forwarded := by
            simpa [hpump, PumpState.writes] using hsent
          exact List.mem_append_right _ hforwarded
        · have hid : job.id = taken := Option.some.inj (hnew.symm.trans htaken)
          refine ⟨⟨job, ?_, hid, hretires⟩, ?_⟩
          · simp [Shared.gateJob, hadmitted, PumpState.writes]
          · -- What is still queued the worker cannot have answered.
            rintro ⟨reply, hreply, _⟩
            have hreplied := hshared.replied taken (List.mem_map_of_mem (f := Prod.fst) hreply)
            have honce : line.shared.jobIds.Nodup :=
              List.Nodup.of_append_left (hids.once_held .opener)
            apply absurd hreplied
            rw [← hid]
            exact Shared.not_forwarded_of_queued honce (by simp [hqueue])
  · rename_i job hpump
    rw [hwrite]
    simp only [Shared.write]
    rw [if_pos hshared.connected]
    have hcount := jobIds_conserved.pump line.shared _ (.writes job hpump hshared.connected) openerJob
    refine h.onShared ?_ rfl rfl rfl rfl ⟨[], (List.append_nil _).symm⟩
      (List.subset_append_left _ _) rfl ?_ Or.inl ?_
    · refine ⟨hshared.session, hshared.connected, rfl, hshared.unresolved, ?_, hshared.answers,
        hshared.messages, ?_, ?_, hshared.waiters⟩
      · intro _ _ hresponding
        cases hresponding
      · intro other hother
        rw [List.map_append]
        exact List.mem_append_left _ (hshared.replied other hother)
      · intro other hother
        rcases List.mem_append.mp hother with hold | hwriting
        · exact hshared.queued other (List.mem_append_left _ hold)
        · cases hwriting
    · intro hheld
      have hpos := List.count_pos_iff.mpr hheld
      exact List.count_pos_iff.mp (by omega)
    · intro taken htaken
      obtain ⟨⟨sent, hsent, hid⟩, _⟩ := h.takeover taken htaken
      refine ⟨⟨sent, ?_, hid⟩, fun _ => htaken⟩
      rcases List.mem_append.mp hsent with hwriting | hforwarded
      · have hsame : sent = job := by simpa [hpump, PumpState.writes] using hwriting
        simp [hsame]
      · exact List.mem_append_right _ (List.mem_append_left _ hforwarded)
  · rename_i job reply last hpump
    have hlast : last = false := by
      have hrunning := hshared.running
      rw [hpump] at hrunning
      cases last with
      | false => rfl
      | true => cases hrunning
    subst hlast
    refine h.onShared (hshared.respond hpump) rfl rfl rfl rfl ⟨_, rfl⟩ (fun _ hmem => hmem) rfl ?_ ?_ ?_
    · intro hheld
      simpa [Shared.jobIds, hpump, PumpState.writes, Shared.respond, Shared.removeWaiter,
        Shared.setWaiters, Shared.onSession] using hheld
    · intro hwaiter
      by_cases hjob : job = openerJob
      · subst hjob
        -- A job that the pump answers itself is nowhere else.
        apply Or.inr
        have hresponds : openerJob ∈ line.shared.pump.responds := by
          rw [hpump]
          exact List.mem_singleton_self _
        have hheld : openerJob ∈ Shared.takenIds line.shared := List.mem_append_right _ hresponds
        constructor
        · intro hjobs
          exact List.disjoint_of_nodup_append (hids.once_held .opener) hjobs hresponds
        · rintro ⟨other, item, hitem, hsends⟩
          apply hids.not_carried hheld other
          refine List.mem_flatMap.mpr ⟨item, hitem, ?_⟩
          cases item with
          | state step => cases hsends
          | call step =>
            cases step with
            | send sent caller =>
              have hid : sent.id = openerJob := hsends
              simp [Section.unsentJob, hid]
            | _ => cases hsends
      · apply Or.inl
        obtain ⟨waiting, hwaiting, hid⟩ := List.mem_map.mp hwaiter
        refine List.mem_map.mpr ⟨waiting, List.mem_filter.mpr ⟨hwaiting, ?_⟩, hid⟩
        rw [hid, bne_iff_ne]
        exact Ne.symm hjob
    · intro taken htaken
      obtain ⟨⟨sent, hsent, hid⟩, _⟩ := h.takeover taken htaken
      refine ⟨⟨sent, ?_, hid⟩, fun _ => htaken⟩
      have hforwarded : sent ∈ line.shared.forwarded := by
        simpa [hpump, PumpState.writes] using hsent
      exact List.mem_append_right _ hforwarded
  · rename_i hpump
    have hrunning := hshared.running
    rw [hpump] at hrunning
    cases hrunning
  · rename_i hpump
    have hrunning := hshared.running
    rw [hpump] at hrunning
    cases hrunning

/-! ## Runs -/

theorem Moves.unclaimed {after : Line} {act : LineAct} (hmoves : line.Moves act after)
    (hkernel : line.session.kind = .kernel) (h : line.session.Unclaimed) :
    after.session.Unclaimed := by
  have hcontroller : line.session.kind.isSecureKernelController = false := by
    rw [hkernel]
    rfl
  cases hmoves with
  | starts n entry hregistered hidle => cases entry <;> exact h
  | runs party input head rest hprogram =>
    cases head with
    | state step => exact StateStep.exec_unclaimed hcontroller h
    | call step =>
      have hcall := step.exec_moves line.shared input
      exact h.of_flags hcall.session_grows hcall.standing.1
  | pumps input after hmoves =>
    cases hmoves with
    | gates now job rest hpump hqueue => exact h.gate hcontroller
    | responds job reply last hpump => exact h.of_flags (.of_same rfl rfl rfl rfl) rfl
    | _ => exact h
  | _ => exact h

theorem Attaching.moves {after : Line} {act : LineAct} (hmoves : line.Moves act after)
    (hact : act.Attaches line) (hpump : ∀ input, act ≠ .pump input) (h : line.Attaching)
    (hanswers : line.Linear Shared.answerIds Section.owedAnswer Shared.Drawn) :
    after.session.Unclaimed ∨ after.Attaching := by
  cases hmoves with
  | stays => exact Or.inr h
  | registers hspawned =>
    refine Or.inr (h.put_idle (h.unopened hspawned) (by simp) ?_ ?_ ?_)
    · simp only [List.mem_singleton, forall_eq]
      exact ⟨⟨rfl, fun _ => rfl⟩, by simp, by simp⟩
    · simp [Section.Belongs]
    · simp [Section.Sends]
  | turnsAway hspawned =>
    refine Or.inr (h.put_idle (h.unopened hspawned) (by simp) ?_ ?_ ?_)
    · simp [Section.Attaching]
    · simp [Section.Belongs]
    · simp [Section.Sends]
  | starts n entry hregistered hidle =>
    cases entry with
    | call asked =>
      refine Or.inr (h.put_idle hidle (by simp [hregistered]) ?_ ?_ ?_)
      · simp only [Entry.start, List.mem_singleton, forall_eq]
        have hid := line.shared.nextId_ne_opener
        exact ⟨⟨hact, fun hopener => absurd hopener hid⟩, by simp, by simp [hid]⟩
      · simp [Entry.start, Section.Belongs]
      · simp [Entry.start, Section.Sends]
    | _ => cases hact
  | runs party input head rest hprogram =>
    cases head with
    | state step => exact h.runs_state hprogram input
    | call step =>
      exact Or.inr (h.runs_call hprogram (step.exec_moves line.shared input) hanswers hact)
  | pumps input => exact absurd rfl (hpump input)
  | reads message rest hreader hreading hmessages => exact Or.inr (h.reads hreader hmessages)
  | ends hreader hreading hmessages hconnected =>
    rw [h.keeps.shared.connected] at hconnected
    cases hconnected
  | reports message hreport =>
    cases message with
    | done job reply => exact absurd rfl (hreport job reply)
    | _ => cases hact
  | replies job reply hforwarded hfirst => exact Or.inr (h.replies hforwarded hact)
  | exits => cases hact

structure Refusing (line : Line) : Prop where
  kernel : line.session.kind = .kernel
  taken : line.Linear Shared.takenIds Section.unsentJob Shared.Drawn
  answers : line.Linear Shared.answerIds Section.owedAnswer Shared.Drawn
  settled : line.session.Unclaimed ∨ line.Attaching

theorem step_refusing {act : LineAct} (h : line.Refusing)
    (hact : line.session.released = true ∨ act.Attaches line) : (line.step act).Refusing := by
  have hmoves := line.step_moves act
  refine ⟨hmoves.kind.trans h.kernel, linear_moves takenIds_conserved hmoves h.taken,
    linear_moves answerIds_conserved hmoves h.answers, ?_⟩
  rcases h.settled with hunclaimed | hattaching
  · exact Or.inl (hmoves.unclaimed h.kernel hunclaimed)
  · rcases hact with hreleased | hact
    · have hnot : line.session.released = false := hattaching.keeps.shared.session.released
      rw [hreleased] at hnot
      cases hnot
    · cases act with
      | pump input => exact Or.inr (hattaching.pumps h.taken hact)
      | _ => exact Attaching.moves hmoves hact (by simp) hattaching h.answers

theorem spawned_attaching {session : Session} (hspawned : session.Spawned)
    (hkernel : session.kind = .kernel) : (spawned session).Attaching := by
  have hclaims : (spawned session).session.claims = {} := hspawned.claims
  refine ⟨⟨⟨hspawned.attaching hkernel, rfl, rfl, ?_, ?_, ?_, ?_, ?_, ?_, ?_⟩, ?_⟩, ?_,
    fun _ => rfl, ?_, ?_, ?_⟩
  · intro hunresolved
    have hstate : (spawned session).shared.session.state = .opening := hspawned.state
    unfold Session.kernelUnresolved at hunresolved
    rw [hstate] at hunresolved
    cases hunresolved
  · intro _ _ hresponding
    cases hresponding
  · intro _ hmem
    cases hmem
  · intro _ hmem
    cases hmem
  · intro _ hmem
    cases hmem
  · intro _ hmem
    cases hmem
  · intro waiting hwaiting
    have hnone : (spawned session).shared.waiters = [] := hspawned.waiters
    rw [hnone] at hwaiting
    cases hwaiting
  · intro party item hitem
    cases hitem
  · intro party item hitem
    cases hitem
  · intro job htakeover
    rw [hclaims] at htakeover
    cases htakeover
  · intro hmem
    cases hmem
  · refine .unanswered (fun hmem => by cases hmem) (Or.inr ⟨fun hmem => (by cases hmem), ?_⟩)
    rintro ⟨party, item, hitem, _⟩
    cases hitem

theorem run_refusing {session : Session} (hspawned : session.Spawned)
    (hkernel : session.kind = .kernel) {acts : List LineAct}
    (hacts : ∀ visit ∈ visits step (spawned session) acts,
      visit.1.session.released = true ∨ visit.2.Attaches visit.1) :
    (run step (spawned session) acts).Refusing := by
  refine run_invariant Refusing
    (fun line act => line.session.released = true ∨ act.Attaches line) ?_ ?_ hacts
  · exact fun line act hline hact => step_refusing hline hact
  · exact ⟨hkernel, takenIds_linear session [], answerIds_linear hspawned.waiters [],
      Or.inr (spawned_attaching hspawned hkernel)⟩

/-- A settlement ends the worker only where every command that may have taken it over was
refused by it.  Conversely, when the attach to a kernel was refused before it committed and
so was every such command, then with the worker's replies acted on the session is failed
and released, in whatever order the refusals and the deadline came. -/
theorem settlement_spares_takeover {session : Session} (hspawned : session.Spawned)
    (acts : List LineAct) :
    ((∀ visit ∈ visits step (spawned session) acts, visit.2.RefusesInOrder visit.1) →
      ∀ act, (run step (spawned session) acts).Runs act (.state (.take .settlement)) →
        (run step (spawned session) acts).shared.AllRefused) ∧
    (session.kind = .kernel →
      (∀ visit ∈ visits step (spawned session) acts,
        visit.1.session.released = true ∨ visit.2.Attaches visit.1) →
      (run step (spawned session) acts).Quiescent →
      openerJob ∈ (run step (spawned session) acts).shared.replies.map Prod.fst →
      (run step (spawned session) acts).shared.AllRefused →
        (∃ why, (run step (spawned session) acts).session.state = .failed why) ∧
          (run step (spawned session) acts).session.released = true) := by
  constructor
  · intro hworker act hruns
    obtain ⟨party, _, rest, _, hprogram⟩ := hruns
    have hcertified := (run_certified hspawned.claims hworker).2.2
    have hmem : .state (.take .settlement) ∈ (run step (spawned session) acts).programs party := by
      rw [hprogram]
      exact List.mem_cons_self
    have hanswerable : (run step (spawned session) acts).shared.session.Unclaimed ∨
        (run step (spawned session) acts).shared.session.kind.isSecureKernelController = true :=
      hcertified.pending party _ hmem
    apply hcertified.shared.free
    rcases hanswerable with hunclaimed | hcontroller
    · exact hunclaimed.takeover
    · exact hcertified.shared.controller hcontroller
  · intro hkernel hacts hquiet hreplied hrefused
    have hrefusing := run_refusing hspawned hkernel hacts
    rcases hrefusing.settled with hunclaimed | hattaching
    · exact ⟨hunclaimed.failed, hunclaimed.released hrefusing.kernel⟩
    · exact (hattaching.not_quiescent hquiet hreplied hrefused).elim

section Example

/-- A command that may replace the target is queued behind the attach.  The attach's
caller runs out of time, then the attach is refused, which is withheld for the command;
then the command is refused. -/
def refusedAfterDeadline : List LineAct :=
  [LineAct.admits true] ++ List.replicate 3 (LineAct.run .opener {}) ++
    submitted 0 (Call.retiring true "a raw `execute` command replaced or released the target") ++
      List.replicate 4 (LineAct.pump {}) ++
        [LineAct.run .opener { expired := true }] ++ List.replicate 4 (LineAct.run .opener {}) ++
          [LineAct.emit (.done 1 (.error (.debugger "the port is in use"))), .read] ++
            List.replicate 5 (LineAct.run .reader {}) ++
              [LineAct.emit (.done 2 (.error (.recoveryRequired "the attach is pending"))), .read] ++
                List.replicate 2 (LineAct.run .reader {})

/-- The withheld settlement ends the worker, and the session is failed and released. -/
theorem settlement_spares_takeover_refusedAfterDeadline :
    (run step (spawned remoteKernel) refusedAfterDeadline).shared.AllRefused ∧
      (∃ why, (run step (spawned remoteKernel)
        (refusedAfterDeadline ++ List.replicate 3 (.run .reader {}))).session.state = .failed why) ∧
      (run step (spawned remoteKernel)
        (refusedAfterDeadline ++ List.replicate 3 (.run .reader {}))).session.released = true := by
  constructor
  · refine (settlement_spares_takeover remoteKernel_spawned refusedAfterDeadline).1
      (by decide +kernel) (.run .reader {}) ⟨.reader, {}, [.call (.answer 2
        (.error (.recoveryRequired "the attach is pending")))], rfl, ?_⟩
    decide +kernel
  · have hpump : (run step (spawned remoteKernel)
        (refusedAfterDeadline ++ List.replicate 3 (.run .reader {}))).shared.pump = .waiting := by
      decide +kernel
    refine (settlement_spares_takeover remoteKernel_spawned _).2 rfl (by decide +kernel)
      ⟨by decide +kernel, by decide +kernel, by decide +kernel, ?_⟩ (by decide +kernel)
      (by decide +kernel)
    intro job hwriting
    rw [hpump] at hwriting
    cases hwriting

end Example

end Line

end WindbgMcp.Engine
