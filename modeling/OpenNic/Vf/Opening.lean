import OpenNic.Vf.RingsInit

namespace OpenNic

/-- The first descriptors have been credited to the queue, and its completion tail has been written. -/
structure RxStarted (q : RxQueue) : Prop where
  nextToUse : q.descRing.nextToUse = onicVfRxDescStep
  pidx : q.pidx = onicVfRxDescStep
  cidx : q.cidx = (0, true)

/-- The queues of the first RX entries are started. -/
def StartedBelow (count : Nat) (s : VfNetdev) : Prop :=
  ∀ qid < count, ∃ id, s.queue (.rx qid) = some id ∧ RxStarted (s.ring id)

theorem RxFilled.same {q q' : RxQueue} (filled : RxFilled q) (desc : q'.descRing = { q.descRing with nextToUse := q'.descRing.nextToUse })
    (cmpl : q'.cmplRing = q.cmplRing) (buffer : q'.buffer = q.buffer) (given : q'.given = q.given)
    (returned : q'.returned = q.returned) (taken : q'.taken = q.taken) : RxFilled q' where
  full := by
    have full := filled.full
    refine ⟨?_, ?_, ?_, ?_, fun i low => (full.slots i low).same ?_ ?_⟩
    · rw [desc]
      exact full.count
    · rw [desc]
      exact full.clean
    · rw [cmpl]
      exact full.cmplCount
    · rw [cmpl]
      exact full.cmplClean
    · rw [buffer]
    · rw [desc]
  kept := filled.kept.same buffer given returned taken
  given := given.trans filled.given

section

variable {s t t' : VfNetdev} {n qid id : Nat}

theorem StartedBelow.beside (started : StartedBelow n t) (beside : Beside t t') : StartedBelow n t' := by
  intro qid low
  rcases started qid low with ⟨id, here, ring⟩
  refine ⟨id, (beside.queue qid).trans here, ?_⟩
  rw [beside.ring]
  exact ring

/-- The ring of an entry is written, and its pages stay. -/
theorem RingsSince.rewrite (since : RingsSince s n none t) (here : t.queue (.rx qid) = some id) {q : RxQueue}
    (filled : RxFilled (t.ring id) → RxFilled q) : RingsSince s n none (t.setRing id q) := by
  apply (since.setRing (.inl rfl) q).settle
  · intro other there
    rw [setRing_ring]
    exact filled (since.filled qid id here nofun)
  · exact fun none => absurd here (none qid)

end

namespace VfNetdev

theorem setObj_beside {id : Nat} {f : VfQueue → VfQueue} (named : ∀ q, (f q).id = q.id) (t : VfNetdev) :
    Beside t (t.setObj id f) := by
  refine ⟨fun _ => rfl, fun qid j here => ?_, rfl, Nat.le_refl _⟩
  by_cases same : j = id
  · subst same
    have wrote : (t.setObj j f).obj j = f (t.obj j) := Function.update_self ..
    rw [wrote, named]
  · have kept : (t.setObj id f).obj j = t.obj j := Function.update_of_ne same ..
    rw [kept]

theorem onicVfMboxSend_beside (cmd : VfCmd) : (onicVfMboxSend cmd).Steps Beside := by
  apply Program.Steps.access
  intro i t err t' taken
  have executed (t : VfNetdev) : Beside t (t.execute cmd) := by
    cases cmd <;> exact ⟨fun _ => rfl, fun _ _ _ => rfl, rfl, Nat.le_refl _⟩
  have stray : Beside t (t.executeStray cmd) := by
    cases cmd <;> exact ⟨fun _ => rfl, fun _ _ _ => rfl, rfl, Nat.le_refl _⟩
  have unexecuted : Beside t (t.unexecuted cmd) := by
    cases cmd with
    | config => exact .refl t
    | clear =>
      rw [VfNetdev.unexecuted]
      split
      · exact .refl t
      · exact ⟨fun _ => rfl, fun _ _ _ => rfl, rfl, Nat.le_refl _⟩
  split at taken
  · cases taken
    exact executed t
  · cases taken
    exact unexecuted
  · cases taken
    exact stray
  · cases taken
    exact ⟨unexecuted.queue, unexecuted.obj, unexecuted.ring, unexecuted.next⟩

theorem clearOneContext_beside (slot : VfSlot) : (clearOneContext slot).Steps Beside := by
  apply Program.Steps.bind (readQueue_beside slot)
  intro q
  cases q with
  | none => exact .done 0
  | some q =>
    dsimp only
    split
    · exact .done 0
    · apply Program.Steps.bind (onicVfMboxSend_beside _)
      intro err
      split
      · exact .done err
      · exact .bind (.modify (setObj_beside (VfQueue.setConfigured_id false))) fun _ => .done 0

theorem configOneContext_beside (slot : VfSlot) : (configOneContext slot).Steps Beside := by
  apply Program.Steps.bind (readQueue_beside slot)
  intro q
  split
  · apply Program.Steps.bind (onicVfMboxSend_beside _)
    intro err
    split
    · exact .done err
    · exact .bind (.modify (setObj_beside (VfQueue.setConfigured_id true))) fun _ => .done 0
  · exact .done _
  · exact .done _

/-- `onic_vf_tx_contexts_init` and `onic_vf_rx_contexts_init` -/
theorem contextsInit_beside (slot : Nat → VfSlot) (count : Nat) :
    (do
      let err ← .untilErr (fun qid => configOneContext (slot qid)) 0 count
      if err ≠ 0 then
        let _ ← .firstErr (fun qid => clearOneContext (slot qid)) 0 count
        .done err
      else .done 0 : Program VfNetdev VfInput Int).Steps Beside := by
  apply Program.Steps.bind (.untilErr (fun qid => configOneContext_beside (slot qid)) 0 count)
  intro err
  split
  · exact .bind (.firstErr (fun qid => clearOneContext_beside (slot qid)) 0 count) fun _ => .done err
  · exact .done 0

section

variable {s : VfNetdev} {n : Nat}

theorem clearOneDatapath_alone (qid : Nat) :
    alone.Triple (RingsSince s n none) (clearOneDatapath qid) fun _ => RingsSince s n none := by
  apply Contract.Triple.bind (readRx_alone qid)
  intro q
  cases q with
  | none => exact .alone_done fun _ holds => holds.1
  | some q =>
    dsimp only
    split
    · exact .alone_done fun _ holds => holds.1
    · apply Contract.Triple.bind (M := fun _ => RingsSince s n none)
      · apply Contract.Triple.alone_modify
        intro t holds
        exact holds.1.rewrite (holds.2 q rfl) fun filled => filled.same rfl rfl rfl rfl rfl rfl
      intro _
      apply Contract.Triple.bind (M := fun _ => RingsSince s n none)
      · apply Contract.Triple.alone_modify
        exact fun t since => since.beside (setObj_beside (VfQueue.setNapiEnabled_id false) t)
      intro _
      apply Contract.Triple.alone_modify
      exact fun t since => since.beside ⟨fun _ => rfl, fun _ _ _ => rfl, rfl, Nat.le_refl _⟩

theorem onicVfRxDatapathClear_alone (priv : VfQueues) :
    alone.Triple (RingsSince s n none) (onicVfRxDatapathClear priv) fun _ => RingsSince s n none :=
  Contract.Triple.fold (I := fun _ _ => RingsSince s n none) (fun _ _ => Contract.stable_alone _)
    fun qid _ _ _ => clearOneDatapath_alone qid

theorem initOneDatapath_alone (qid : Nat) :
    alone.Triple (fun t => RingsSince s n none t ∧ StartedBelow qid t) (initOneDatapath qid)
      fun err t => RingsSince s n none t ∧ (err = 0 → StartedBelow (qid + 1) t) := by
  have failing {X : VfNetdev → Prop} (since : ∀ t, X t → RingsSince s n none t) :
      alone.Triple X (.done (- EINVAL) : Program VfNetdev VfInput Int)
        fun err t => RingsSince s n none t ∧ (err = 0 → StartedBelow (qid + 1) t) :=
    .alone_done fun t holds => ⟨since t holds, fun ok => absurd ok (by decide)⟩
  apply Contract.Triple.bind ((readRx_alone qid).alone_and (beside_alone (readQueue_beside _) fun _ _ started => started.beside))
  intro q
  rcases q with _ | q | q
  · exact failing fun _ holds => holds.1.1
  · exact failing fun _ holds => holds.1.1
  · dsimp only
    split
    · exact failing fun _ holds => holds.1.1
    · let X (t : VfNetdev) : Prop := RingsSince s n none t ∧ t.queue (.rx qid) = some q.id ∧ StartedBelow qid t
      have keeps : ∀ t t', X t → Beside t t' → X t' := fun t t' holds beside =>
        ⟨holds.1.beside beside, (beside.queue qid).trans holds.2.1, holds.2.2.beside beside⟩
      apply Contract.Triple.from_pre X fun _ _ holds => ⟨holds.1.1, holds.1.2 _ rfl, holds.2⟩
      apply Contract.Triple.bind (M := fun _ => X)
      · apply Contract.Triple.alone_modify
        exact fun t holds => keeps t _ holds ⟨fun _ => rfl, fun _ _ _ => rfl, rfl, Nat.le_refl _⟩
      intro _
      apply Contract.Triple.bind (M := fun _ => X)
      · apply Contract.Triple.alone_modify
        exact fun t holds => keeps t _ holds (setObj_beside (VfQueue.setNapiEnabled_id true) t)
      intro _
      apply Contract.Triple.bind (M := fun _ t => RingsSince s n none t ∧ StartedBelow (qid + 1) t)
      · apply Contract.Triple.alone_modify
        intro t holds
        have since := holds.1
        refine ⟨since.rewrite holds.2.1 fun filled => filled.same rfl rfl rfl rfl rfl rfl, fun other low => ?_⟩
        by_cases last : other = qid
        · subst last
          refine ⟨q.id, holds.2.1, ?_⟩
          rw [setRing_ring]
          exact ⟨rfl, rfl, rfl⟩
        · rcases holds.2.2 other (by omega) with ⟨id, here, started⟩
          have differ : id ≠ q.id := by
            rintro rfl
            exact last (since.apart other qid q.id here holds.2.1)
          have same : (t.setRing q.id (t.ring q.id).datapathInit).ring id = t.ring id := Function.update_of_ne differ ..
          refine ⟨id, here, ?_⟩
          rw [same]
          exact started
      · exact fun _ => .alone_done fun _ holds => ⟨holds.1, fun _ => holds.2⟩

theorem onicVfRxDatapathInit_alone (priv : VfQueues) :
    alone.Triple (RingsSince s n none) (onicVfRxDatapathInit priv)
      fun err t => RingsSince s n none t ∧ (err = 0 → StartedBelow priv.numRxQueues t) := by
  have loop := Contract.Triple.untilErr (C := alone) (I := fun i t => RingsSince s n none t ∧ StartedBelow i t)
    (F := fun _ => RingsSince s n none) initOneDatapath 0 priv.numRxQueues (fun _ => Contract.stable_alone _)
    (fun _ => Contract.stable_alone _) fun qid _ _ => by
      apply (initOneDatapath_alone qid).conseq fun _ _ holds => holds
      intro err t _ holds
      split
      · rename_i ok
        exact ⟨holds.1, holds.2 ok⟩
      · exact holds.1
  apply Contract.Triple.bind (loop.from_pre _ fun t _ since => ⟨since, fun _ low => absurd low (Nat.not_lt_zero _)⟩)
  intro err
  by_cases ok : err = 0
  · simp only [ok, if_true, ne_eq, not_true, if_false]
    exact .alone_done fun t holds => ⟨holds.1, fun _ => by simpa using holds.2⟩
  · simp only [ok, if_false, ne_eq, not_false_iff, if_true]
    apply Contract.Triple.bind (onicVfRxDatapathClear_alone priv)
    exact fun _ => .alone_done fun t since => ⟨since, fun zero => absurd zero ok⟩

theorem onicVfOpenNetdev_alone (priv : VfQueues) :
    alone.Triple (RingsSince s 0 none) (onicVfOpenNetdev priv)
      fun err t => RingsSince s priv.numRxQueues none t ∧ (err = 0 → StartedBelow priv.numRxQueues t) := by
  let since : VfNetdev → Prop := RingsSince s priv.numRxQueues none
  have aside {α : Type} {p : Program VfNetdev VfInput α} (steps : p.Steps Beside) : alone.Triple since p fun _ => since :=
    beside_alone steps fun _ _ since => since.beside
  have closing (err : Int) (failed : err ≠ 0) : alone.Triple since (do onicVfRingsClear; .done err : Program VfNetdev VfInput Int)
      fun err t => since t ∧ (err = 0 → StartedBelow priv.numRxQueues t) :=
    .bind onicVfRingsClear_alone fun _ => .alone_done fun _ holds => ⟨holds, fun zero => absurd zero failed⟩
  have txClear : (onicVfTxContextsClear priv).Steps Beside := .firstErr (fun qid => clearOneContext_beside (.tx qid)) 0 _
  have rxClear : (onicVfRxContextsClear priv).Steps Beside := .firstErr (fun qid => clearOneContext_beside (.rx qid)) 0 _
  apply Contract.Triple.bind (onicVfRingsInit_alone priv)
  intro err
  by_cases ok : err = 0
  · subst ok
    rw [if_neg (by simp)]
    apply Contract.Triple.bind (aside (contextsInit_beside .tx priv.numTxQueues))
    intro err
    by_cases ok : err = 0
    · subst ok
      rw [if_neg (by simp)]
      apply Contract.Triple.bind (aside (contextsInit_beside .rx priv.numRxQueues))
      intro err
      by_cases ok : err = 0
      · subst ok
        rw [if_neg (by simp)]
        apply Contract.Triple.bind (onicVfRxDatapathInit_alone priv)
        intro err
        by_cases ok : err = 0
        · subst ok
          rw [if_neg (by simp)]
          let X (t : VfNetdev) : Prop := since t ∧ StartedBelow priv.numRxQueues t
          have works : ((do onicVfTxCleanWorkStart; onicVfRxPollWorkStart; .done 0 : Program VfNetdev VfInput Int)).Steps Beside :=
            .bind (.modify fun _ => ⟨fun _ => rfl, fun _ _ _ => rfl, rfl, Nat.le_refl _⟩) fun _ =>
              .bind (.modify fun _ => ⟨fun _ => rfl, fun _ _ _ => rfl, rfl, Nat.le_refl _⟩) fun _ => .done 0
          have kept : alone.Triple X _ fun _ => X := beside_alone works fun _ _ holds beside =>
            ⟨holds.1.beside beside, holds.2.beside beside⟩
          exact kept.conseq (fun _ _ holds => ⟨holds.1, holds.2 rfl⟩) fun _ _ _ holds => ⟨holds.1, fun _ => holds.2⟩
        · rw [if_pos ok]
          apply Contract.Triple.from_pre since fun _ _ holds => holds.1
          apply Contract.Triple.bind (aside rxClear)
          intro _
          apply Contract.Triple.bind (aside txClear)
          exact fun _ => closing err ok
      · rw [if_pos ok]
        apply Contract.Triple.bind (aside txClear)
        exact fun _ => closing err ok
    · rw [if_pos ok]
      apply Contract.Triple.bind (aside checkRetained_beside)
      exact fun _ => closing err ok
  · rw [if_pos ok]
    exact .alone_done fun _ holds => ⟨holds, fun zero => absurd zero ok⟩

end

end VfNetdev

/-- What an open that returns 0 leaves: each entry points to a queue with its rings, configured; the RX queues are
    enabled, and their rings are full and started. -/
structure VfOpenDone (priv : VfQueues) (s : VfNetdev) : Prop where
  tx : ∀ qid < priv.numTxQueues, ∃ q, s.at_ (.tx qid) = some q ∧ VfMade priv (.tx qid) q ∧
    (∀ m ∈ q.mem, m < s.next ∧ m ∉ s.freed) ∧ q.configured = true
  rx : ∀ qid < priv.numRxQueues, ∃ q, s.at_ (.rx qid) = some q ∧ VfMade priv (.rx qid) q ∧
    (∀ m ∈ q.mem, m < s.next ∧ m ∉ s.freed) ∧ q.configured = true ∧ q.napiEnabled = true ∧ s.napi q.id = true ∧
    RxFilled (s.ring q.id) ∧ RxStarted (s.ring q.id)

/-- What an open that returns an error leaves of the state `s`. -/
structure VfOpenUndone (s s' : VfNetdev) : Prop extends RingsUndone s s' where
  napi : ∀ id, s'.napi id = false
  txCleanWork : s'.txCleanWork = false
  rxPollWork : s'.rxPollWork = false

/-- The state in which the kernel calls `ndo_open`. -/
theorem VfClosed.opening {s : VfNetdev} (closed : VfClosed s) : VfClosed { s with running := true, caller := .opening } :=
  ⟨closed.entries, closed.balanced, closed.ctxt, ⟨closed.quiet.up, closed.quiet.txCleanWork, closed.quiet.rxPollWork, closed.quiet.napi⟩,
    closed.point, closed.faults⟩

namespace VfNetdev

variable {priv : VfQueues} {s s' : VfNetdev} {err : Int}

theorem open_done (few : VfFew (vfSlots priv)) (vectors : priv.numQVectors ≠ 0) (closed : VfClosed s) (opening : s.caller = .opening)
    (ran : Program.Exec (onicVfOpenNetdev priv) s 0 s') : VfOpenDone priv s' := by
  have away : (closedKnown s).caller ≠ .stopping := by simp [closedKnown, opening]
  have at_ := (exec_wp (onicVfOpenNetdev_triple few vectors rfl away) closed.safe closed.at_ ran).2
  rcases (onicVfOpenNetdev_alone priv).alone_exec ran (ringsSince_closed closed) with ⟨since, started⟩
  rw [VfKnown.after_zero] at at_
  rcases at_.facts with ⟨made, opened⟩
  have made := made fun _ facts => facts
  have live {slot : VfSlot} {q : VfQueue} (here : s'.at_ slot = some q) : ∀ m ∈ q.mem, m < s'.next ∧ m ∉ s'.freed := by
    intro m mem
    rcases at_some here with ⟨id, queue, rfl⟩
    have own := at_.own_of_queue queue nofun nofun
    exact ⟨at_.balanced.own_lt (at_.shape slot id queue).1 (own ▸ mem), at_.live rfl queue m mem⟩
  refine ⟨fun qid low => ?_, fun qid low => ?_⟩
  · rcases opened.tx qid low with ⟨q, here, configured⟩
    exact ⟨q, here, made _ q here, live here, configured⟩
  · rcases opened.rx qid low with ⟨q, here, configured, enabled⟩
    refine ⟨q, here, made _ q here, live here, configured, enabled, ?_⟩
    rcases at_some here with ⟨id, queue, rfl⟩
    rcases started rfl qid low with ⟨same, there, ring⟩
    cases queue.symm.trans there
    rw [(at_.shape _ id queue).2]
    exact ⟨at_.bits qid id queue enabled, since.filled qid id queue nofun, ring⟩

theorem open_undone (few : VfFew (vfSlots priv)) (vectors : priv.numQVectors ≠ 0) (closed : VfClosed s) (opening : s.caller = .opening)
    (ran : Program.Exec (onicVfOpenNetdev priv) s err s') (failed : err ≠ 0) : VfOpenUndone s s' := by
  have away : (closedKnown s).caller ≠ .stopping := by simp [closedKnown, opening]
  have at_ := (exec_wp (onicVfOpenNetdev_triple few vectors rfl away) closed.safe closed.at_ ran).2
  have since := ((onicVfOpenNetdev_alone priv).alone_exec ran (ringsSince_closed closed)).1
  rw [VfKnown.after_err failed] at at_
  have quiet := at_.quiet rfl
  exact ⟨undone_of_closed closed since at_ at_.facts (at_.tight ⟨True.intro, fun _ facts => facts⟩),
    quiet.napi, quiet.txCleanWork, quiet.rxPollWork⟩

end VfNetdev

/-- From a closed VF `onic_vf_open_netdev` returns 0 only with all queues open, and an error only with nothing left of it. -/
theorem vf_open_all_or_nothing {priv : VfQueues} {s s' : VfNetdev} {inputs : List VfInput} {err : Int}
    (tx : priv.numTxQueues ≤ onicMaxQueues) (rx : priv.numRxQueues ≤ onicMaxQueues) (closed : VfClosed s)
    (ran : (VfNetdev.onicVfOpenNetdev priv).run inputs { s with running := true, caller := .opening } = some (err, s')) :
    (err = 0 → VfOpenDone priv s') ∧ (err ≠ 0 → VfOpenUndone s s') := by
  have few := vfSlots_few tx rx
  by_cases vectors : priv.numQVectors = 0
  · have refused : VfNetdev.onicVfOpenNetdev priv = .done (- EINVAL) := by
      rw [VfNetdev.onicVfOpenNetdev, VfNetdev.onicVfRingsInit, if_pos vectors]
      rfl
    rw [refused] at ran
    cases ran
    have undone := closed.undone
    exact ⟨fun ok => absurd ok (by decide), fun _ => ⟨⟨undone.entries, undone.freed, undone.pages⟩,
      closed.quiet.napi, closed.quiet.txCleanWork, closed.quiet.rxPollWork⟩⟩
  · have plain := Program.Exec.of_run ran
    refine ⟨fun ok => ?_, fun failed => ?_⟩
    · subst ok
      exact VfNetdev.open_done few vectors closed.opening rfl plain
    · have undone := VfNetdev.open_undone few vectors closed.opening rfl plain failed
      exact ⟨⟨undone.entries, undone.freed, undone.pages⟩, undone.napi, undone.txCleanWork, undone.rxPollWork⟩

/-- An open where everything is granted, and one whose CONFIG_QUEUE for the RX queue and what it sends after that are rejected. -/
theorem vf_open_one_queue : ∃ s s' : VfNetdev, VfOpenDone oneQueue s ∧ VfOpenUndone .probed s' ∧ s.next = 8 ∧ s'.next = 8 := by
  let start : VfNetdev := { VfNetdev.probed with running := true, caller := .opening }
  let granted : List VfInput := .replicate 1200 grantedInput
  let rejected : List VfInput := .replicate 1038 grantedInput ++ .replicate 400 { grantedInput with mbox := .rejected }
  let played (inputs : List VfInput) := (VfNetdev.onicVfOpenNetdev oneQueue).run inputs start
  have seen : (played granted).map (fun r => (r.1, r.2.next)) = some (0, 8) := by decide +kernel
  have seen' : (played rejected).map (fun r => (r.1, r.2.next)) = some (-1, 8) := by decide +kernel
  rcases Option.map_eq_some_iff.mp seen with ⟨⟨err, s⟩, ran, values⟩
  rcases Option.map_eq_some_iff.mp seen' with ⟨⟨err', s'⟩, ran', values'⟩
  simp only [Prod.mk.injEq] at values values'
  have failed : err' ≠ 0 := by omega
  exact ⟨s, s', (vf_open_all_or_nothing (by decide) (by decide) .probed ran).1 values.1,
    (vf_open_all_or_nothing (by decide) (by decide) .probed ran').2 failed, values.2, values'.2⟩

end OpenNic
