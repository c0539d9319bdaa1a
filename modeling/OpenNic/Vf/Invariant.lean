import OpenNic.Vf.Events

namespace OpenNic

namespace VfNetdev

/-- Nothing of what the PF's contexts depend on has gone otherwise than the code expects. -/
def NoLapse (s : VfNetdev) : Prop := .config ∉ s.lapses ∧ .clear ∉ s.lapses ∧ .retained ∉ s.lapses

/-- Nothing but interrupts reaches the queues. -/
structure Quiet (s : VfNetdev) : Prop where
  up : s.up = false
  txCleanWork : s.txCleanWork = false
  rxPollWork : s.rxPollWork = false
  napi : ∀ id, s.napi id = false

end VfNetdev

/-- What holds between any two steps, whoever takes them. -/
structure VfSafe (s : VfNetdev) : Prop where
  ids : ∀ slot id, s.queue slot = some id → (s.obj id).id = id
  structs : ∀ slot id, s.queue slot = some id → s.point ≠ .nulling slot → id ∉ s.freed
  live : s.point = .elsewhere → ∀ slot, ∀ m ∈ s.mem slot, m ∉ s.freed
  nulled : ∀ slot, s.point = .nulling slot → ∃ id, s.queue slot = some id ∧ id ∈ s.freed
  quiet : s.point ≠ .elsewhere → s.Quiet
  bits : ∀ qid id, s.queue (.rx qid) = some id → (s.obj id).napiEnabled = true → s.napi id = true
  polls : ∀ id, s.napi id = true → ∃ qid, s.queue (.rx qid) = some id
  dma : s.NoLapse → ∀ slot, ∀ m ∈ s.ctxt slot, m ∉ s.freed
  faults : s.faults = [] ↔ .interrupt ∉ s.lapses

/-- What the calls of the stack may find changed between two of their steps. -/
structure VfRely (s s' : VfNetdev) : Prop where
  ctl : s'.toVfCtl = s.toVfCtl
  lapses : s.lapses ⊆ s'.lapses
  ctxt : s'.NoLapse → ∀ slot, s'.ctxt slot ⊆ s.ctxt slot
  txCleanWork : s'.txCleanWork = true → s.txCleanWork = true
  rxPollWork : s'.rxPollWork = true → s.rxPollWork = true

section

variable {s s' : VfNetdev}

theorem VfNetdev.NoLapse.earlier (none : s'.NoLapse) (grown : s.lapses ⊆ s'.lapses) : s.NoLapse :=
  ⟨fun mem => none.1 (grown mem), fun mem => none.2.1 (grown mem), fun mem => none.2.2 (grown mem)⟩

theorem VfRely.refl (s : VfNetdev) : VfRely s s :=
  ⟨rfl, fun _ mem => mem, fun _ _ _ mem => mem, id, id⟩

theorem VfRely.trans {a b c : VfNetdev} (first : VfRely a b) (second : VfRely b c) : VfRely a c where
  ctl := second.ctl.trans first.ctl
  lapses := fun _ mem => second.lapses (first.lapses mem)
  ctxt := fun none slot _ mem => first.ctxt (none.earlier second.lapses) slot (second.ctxt none slot mem)
  txCleanWork := fun on => first.txCleanWork (second.txCleanWork on)
  rxPollWork := fun on => first.rxPollWork (second.rxPollWork on)

theorem VfNetdev.Quiet.rely (quiet : s.Quiet) (rely : VfRely s s') : s'.Quiet := by
  refine ⟨?_, ?_, ?_, ?_⟩
  · rw [rely.ctl]
    exact quiet.up
  · rw [Bool.eq_false_iff]
    intro on
    have was := rely.txCleanWork on
    simp [quiet.txCleanWork] at was
  · rw [Bool.eq_false_iff]
    intro on
    have was := rely.rxPollWork on
    simp [quiet.rxPollWork] at was
  · rw [rely.ctl]
    exact quiet.napi

namespace VfNetdev

/-- Memory that is not freed may be used. -/
theorem touch_live {ids : List Nat} (live : ∀ m ∈ ids, m ∉ s.freed) : s.touch ids = s := by
  have none : (ids.filter fun m => decide (m ∈ s.freed)) = [] := by
    rw [List.filter_eq_nil_iff]
    intro m mem
    simpa using live m mem
  unfold touch
  rw [none, List.map_nil, List.append_nil]

/-- Memory that is freed may not. -/
theorem touch_freed {id : Nat} (freed : id ∈ s.freed) : s.touch [id] = { s with faults := s.faults ++ [.freed id] } := by
  simp [touch, freed]

theorem exec_readQueue {slot : VfSlot} {q : Option VfQueue} :
    Program.Exec (readQueue slot) s q s' ↔ q = s.at_ slot ∧ s' = s.touch (s.queue slot).toList := by
  simp [readQueue, Program.exec_access, eq_comm]

theorem at_some {slot : VfSlot} {q : VfQueue} (here : s.at_ slot = some q) :
    ∃ id, s.queue slot = some id ∧ s.obj id = q :=
  Option.map_eq_some_iff.mp here

theorem mem_of_queue {slot : VfSlot} {id : Nat} (here : s.queue slot = some id) : s.mem slot = (s.obj id).mem := by
  simp [VfCtl.mem, VfCtl.at_, here]

theorem onRing_lens (id : Nat) : Program.Lens (fun s : VfNetdev => s.ring id) (setRing id) where
  get_set q s := Function.update_self ..
  set_get s := by rw [setRing, Function.update_eq_self]
  set_set q q' s := by rw [setRing, setRing, setRing, Function.update_idem]

theorem exec_onRing {α : Type} {id : Nat} {p : Program RxQueue RxInput α} {a : α}
    (ran : Program.Exec (onRing id p) s a s') : s' = s.setRing id (s'.ring id) :=
  ((Program.exec_lift (onRing_lens id)).mp ran).2

end VfNetdev

theorem VfRely.setRing (s : VfNetdev) (id : Nat) (q : RxQueue) : VfRely s (s.setRing id q) :=
  ⟨rfl, fun _ mem => mem, fun _ _ _ mem => mem, fun on => on, fun on => on⟩

/-- What the environment may change is nothing that the invariant forbids but for faults. -/
theorem VfSafe.rely (safe : VfSafe s) (rely : VfRely s s') (faults : s'.faults = [] ↔ .interrupt ∉ s'.lapses) : VfSafe s' := by
  have ctl := rely.ctl
  refine ⟨?_, ?_, ?_, ?_, fun away => ?_, ?_, ?_, fun none slot m mem => ?_, faults⟩
  · rw [ctl]
    exact safe.ids
  · rw [ctl]
    exact safe.structs
  · rw [ctl]
    exact safe.live
  · rw [ctl]
    exact safe.nulled
  · rw [ctl] at away
    exact (safe.quiet away).rely rely
  · rw [ctl]
    exact safe.bits
  · rw [ctl]
    exact safe.polls
  · rw [ctl]
    exact safe.dma (none.earlier rely.lapses) slot m (rely.ctxt none slot mem)

/-- Unless a queue is being freed, its handlers use memory that is there. -/
theorem VfSafe.readQueue (safe : VfSafe s) (slot : VfSlot) {q : Option VfQueue} (at_ : s.point ≠ .nulling slot)
    (ran : Program.Exec (VfNetdev.readQueue slot) s q s') : q = s.at_ slot ∧ s' = s := by
  rcases VfNetdev.exec_readQueue.mp ran with ⟨found, rest⟩
  refine ⟨found, ?_⟩
  rw [rest]
  apply VfNetdev.touch_live
  intro id here
  exact safe.structs slot id (Option.mem_toList.mp here) at_

/-- An instance is scheduled only while it is enabled. -/
theorem VfSafe.napiSchedule (safe : VfSafe s) {qid : Nat} {q : VfQueue} (here : s.at_ (.rx qid) = some q)
    (bit : q.napiEnabled = true) : s.napiSchedule q.id = s := by
  rcases VfNetdev.at_some here with ⟨id, queue, rfl⟩
  have enabled := safe.bits qid id queue bit
  rw [safe.ids _ id queue, VfNetdev.napiSchedule, if_pos enabled]

theorem VfSafe.mem_live (safe : VfSafe s) (elsewhere : s.point = .elsewhere) {slot : VfSlot} {q : VfQueue}
    (here : s.at_ slot = some q) : s.touch q.mem = s := by
  rcases VfNetdev.at_some here with ⟨id, queue, rfl⟩
  apply VfNetdev.touch_live
  rw [← VfNetdev.mem_of_queue queue]
  exact safe.live elsewhere slot

theorem VfSafe.cleanTxQueue (safe : VfSafe s) (elsewhere : s.point = .elsewhere) {qid : Nat}
    (ran : Program.Exec (VfNetdev.cleanTxQueue qid) s () s') : s' = s := by
  rcases Program.exec_bind.mp ran with ⟨q, mid, first, rest⟩
  rcases safe.readQueue (.tx qid) (by simp [elsewhere]) first with ⟨found, rfl⟩
  cases q with
  | none => exact (Program.exec_done.mp rest).2
  | some q =>
    rw [Program.exec_modify.mp rest]
    exact safe.mem_live elsewhere found.symm

theorem VfSafe.pollOnePending (safe : VfSafe s) (elsewhere : s.point = .elsewhere) {qid : Nat}
    (ran : Program.Exec (VfNetdev.pollOnePending qid) s () s') : s' = s := by
  rcases Program.exec_bind.mp ran with ⟨q, mid, first, rest⟩
  rcases safe.readQueue (.rx qid) (by simp [elsewhere]) first with ⟨found, rfl⟩
  cases q with
  | none => exact (Program.exec_done.mp rest).2
  | some q =>
    cases bit : q.napiEnabled with
    | false =>
      simp only [bit] at rest
      exact (Program.exec_done.mp rest).2
    | true =>
      simp only [bit] at rest
      rcases Program.exec_bind.mp rest with ⟨pending, late, read, last⟩
      rcases Program.exec_access.mp read with ⟨_, taken⟩
      have same : late = mid := by
        cases taken
        exact safe.mem_live elsewhere found.symm
      subst same
      cases pending with
      | false => exact (Program.exec_done.mp last).2
      | true =>
        rw [Program.exec_modify.mp last]
        exact safe.napiSchedule found.symm bit

/-- The pages of a fold whose rounds leave the state as it is. -/
theorem exec_fold_same {body : Nat → Unit → Program VfNetdev VfInput Unit} {lo count : Nat}
    (ran : Program.Exec (.fold body lo count ()) s () s')
    (round : ∀ i s', Program.Exec (body i ()) s () s' → s' = s) : s' = s := by
  have kept := ran.fold (I := fun _ _ mid => mid = s) (fun i _ mid _ last _ _ same step => ?_) rfl
  · exact kept
  · rw [same] at step
    exact round i last step

theorem VfSafe.elsewhere_of_napi (safe : VfSafe s) {id : Nat} (enabled : s.napi id = true) : s.point = .elsewhere := by
  by_contra away
  have off := (safe.quiet away).napi id
  rw [enabled] at off
  cases off

theorem VfSafe.elsewhere_of_up (safe : VfSafe s) (up : s.up = true) : s.point = .elsewhere := by
  by_contra away
  have off := (safe.quiet away).up
  rw [up] at off
  cases off

theorem VfSafe.interrupt (safe : VfSafe s) {vid : Nat} (ran : Program.Exec (VfNetdev.onicVfQIrqHandler vid) s () s') :
    VfSafe s' ∧ VfRely s s' := by
  rcases Program.exec_bind.mp ran with ⟨_, mid, first, rest⟩
  have lapsed := Program.exec_modify.mp first
  by_cases nulling : s.point = .nulling (.rx vid)
  · rw [if_pos nulling] at lapsed
    subst lapsed
    rcases safe.nulled _ nulling with ⟨id, queue, freed⟩
    have interrupted {t : VfNetdev} (frame : ∃ more, t = { s.lapse .interrupt with faults := s.faults ++ .freed id :: more }) :
        VfSafe t ∧ VfRely s t := by
      rcases frame with ⟨more, rfl⟩
      have rely : VfRely s { s.lapse .interrupt with faults := s.faults ++ .freed id :: more } :=
        ⟨rfl, fun _ mem => List.mem_append_left _ mem, fun _ _ _ mem => mem, fun on => on, fun on => on⟩
      refine ⟨safe.rely rely ?_, rely⟩
      simp [VfNetdev.lapse]
    rcases Program.exec_bind.mp rest with ⟨q, late, read, last⟩
    have touched := (VfNetdev.exec_readQueue.mp read).2
    have here : (s.lapse .interrupt).queue (.rx vid) = some id := queue
    rw [here, Option.toList_some, VfNetdev.touch_freed (s := s.lapse .interrupt) freed] at touched
    subst touched
    cases q with
    | none =>
      rw [(Program.exec_done.mp last).2]
      exact interrupted ⟨[], rfl⟩
    | some q =>
      cases bit : q.napiEnabled with
      | false =>
        simp only [bit] at last
        rw [(Program.exec_done.mp last).2]
        exact interrupted ⟨[], rfl⟩
      | true =>
        simp only [bit] at last
        rw [Program.exec_modify.mp last, VfNetdev.napiSchedule]
        split
        · exact interrupted ⟨[], rfl⟩
        · refine interrupted ⟨[.scheduled q.id], ?_⟩
          simp [VfNetdev.lapse]
  · rw [if_neg nulling] at lapsed
    subst lapsed
    have still : VfSafe mid ∧ VfRely mid mid := ⟨safe, .refl mid⟩
    rcases Program.exec_bind.mp rest with ⟨q, late, read, last⟩
    rcases safe.readQueue (.rx vid) nulling read with ⟨found, rfl⟩
    cases q with
    | none =>
      rw [(Program.exec_done.mp last).2]
      exact still
    | some q =>
      cases bit : q.napiEnabled with
      | false =>
        simp only [bit] at last
        rw [(Program.exec_done.mp last).2]
        exact still
      | true =>
        simp only [bit] at last
        rw [Program.exec_modify.mp last, safe.napiSchedule found.symm bit]
        exact still

theorem VfSafe.poll {priv : VfQueues} (safe : VfSafe s) {id budget : Nat} (enabled : s.napi id = true)
    (ran : Program.Exec (VfNetdev.rxPoll priv id budget) s () s') : VfSafe s' ∧ VfRely s s' := by
  have elsewhere := safe.elsewhere_of_napi enabled
  obtain ⟨qid, here⟩ := safe.polls id enabled
  have at_ : s.at_ (.rx qid) = some (s.obj id) := by rw [VfCtl.at_, here]; rfl
  rcases Program.exec_bind.mp ran with ⟨q, mid, read, rest⟩
  rcases Program.exec_access.mp read with ⟨_, taken⟩
  cases taken
  rw [safe.mem_live elsewhere at_] at rest
  have polled (ran : Program.Exec (do
      let _ ← VfNetdev.onRing id (onicVfRxPoll budget)
      Program.done ()) s () s') : VfSafe s' ∧ VfRely s s' := by
    rcases Program.exec_bind.mp ran with ⟨_, late, ring, last⟩
    rw [(Program.exec_done.mp last).2, VfNetdev.exec_onRing ring]
    exact ⟨safe.rely (.setRing s id _) safe.faults, .setRing s id _⟩
  simp only at rest
  split at rest
  · rcases Program.exec_bind.mp rest with ⟨_, late, cleaned, last⟩
    have same := safe.cleanTxQueue elsewhere cleaned
    subst same
    exact polled last
  · exact polled rest

/-- Whatever happens besides the calls of the stack keeps the invariant, and changes only what the
    calls expect. -/
theorem VfEvent.safe {priv : VfQueues} (event : VfEvent priv s s') (safe : VfSafe s) : VfSafe s' ∧ VfRely s s' := by
  have changed {t : VfNetdev} (rely : VfRely s t) (faults : t.faults = s.faults)
      (lapses : .interrupt ∈ t.lapses ↔ .interrupt ∈ s.lapses) : VfSafe t ∧ VfRely s t := by
    refine ⟨safe.rely rely ?_, rely⟩
    rw [faults, lapses]
    exact safe.faults
  cases event with
  | interrupt vid _ _ ran => exact safe.interrupt ran
  | poll id budget enabled ran => exact safe.poll enabled ran
  | rxPollWork due ran =>
    have elsewhere : s.point = .elsewhere := by
      by_contra away
      have off := (safe.quiet away).rxPollWork
      rw [due] at off
      cases off
    rcases Program.exec_bind.mp ran with ⟨running, mid, read, rest⟩
    rcases Program.exec_read.mp read with ⟨-, same⟩
    subst same
    cases running with
    | true =>
      rcases Program.exec_bind.mp rest with ⟨_, late, loop, last⟩
      have same := exec_fold_same loop fun i t step => safe.pollOnePending elsewhere step
      subst same
      rw [Program.exec_modify.mp last]
      exact changed ⟨rfl, fun _ mem => mem, fun _ _ _ mem => mem, fun on => on, fun _ => due⟩ rfl Iff.rfl
    | false =>
      rw [Program.exec_modify.mp rest]
      exact changed ⟨rfl, fun _ mem => mem, fun _ _ _ mem => mem, fun on => on, (fun on => by cases on)⟩ rfl Iff.rfl
  | txCleanWork due ran =>
    have elsewhere : s.point = .elsewhere := by
      by_contra away
      have off := (safe.quiet away).txCleanWork
      rw [due] at off
      cases off
    rcases Program.exec_bind.mp ran with ⟨running, mid, read, rest⟩
    rcases Program.exec_read.mp read with ⟨-, same⟩
    subst same
    cases running with
    | true =>
      rcases Program.exec_bind.mp rest with ⟨_, late, loop, last⟩
      have same := exec_fold_same loop fun i t step => safe.cleanTxQueue elsewhere step
      subst same
      rw [Program.exec_modify.mp last]
      exact changed ⟨rfl, fun _ mem => mem, fun _ _ _ mem => mem, fun _ => due, fun on => on⟩ rfl Iff.rfl
    | false =>
      rw [Program.exec_modify.mp rest]
      exact changed ⟨rfl, fun _ mem => mem, fun _ _ _ mem => mem, (fun on => by cases on), fun on => on⟩ rfl Iff.rfl
  | xmit mapping up ran =>
    have elsewhere := safe.elsewhere_of_up up
    rw [VfNetdev.onicVfXmitFrame] at ran
    split at ran
    · rw [(Program.exec_done.mp ran).2]
      exact ⟨safe, .refl s⟩
    · rw [safe.cleanTxQueue elsewhere ran]
      exact ⟨safe, .refl s⟩
  | late before after cmd waits =>
    cases cmd with
    | config slot cfg mem =>
      refine changed ⟨rfl, fun _ mem => List.mem_append_left _ mem, fun none => ?_, fun on => on, fun on => on⟩ rfl ?_
      · exact absurd (List.mem_append_right _ (List.mem_singleton_self _)) none.1
      · simp [VfNetdev.executeStray, VfNetdev.execute, VfNetdev.lapse]
    | clear slot =>
      refine changed ⟨rfl, fun _ mem => mem, fun _ other m mem => ?_, fun on => on, fun on => on⟩ rfl Iff.rfl
      simp only [VfNetdev.executeStray, VfNetdev.execute, Function.update_apply] at mem
      split at mem
      · cases mem
      · exact mem
  | completion id desc => exact ⟨safe.rely (.setRing s id _) safe.faults, .setRing s id _⟩

end

end OpenNic
