import OpenNic.Vf.Netdev

namespace OpenNic

namespace VfNetdev

/-- The entries stay, and nothing gets out of reach. -/
def SameEntries (s s' : VfNetdev) : Prop := s'.queue = s.queue ∧ s'.leaked = s.leaked

/-- What is out of reach stays so. -/
def Loses (s s' : VfNetdev) : Prop := s.leaked ⊆ s'.leaked

theorem SameEntries.refl (s : VfNetdev) : SameEntries s s := ⟨rfl, rfl⟩

theorem SameEntries.trans (a b c : VfNetdev) (first : SameEntries a b) (second : SameEntries b c) : SameEntries a c :=
  ⟨second.1.trans first.1, second.2.trans first.2⟩

theorem Loses.refl (s : VfNetdev) : Loses s s := List.Subset.refl s.leaked

theorem Loses.trans (a b c : VfNetdev) (first : Loses a b) (second : Loses b c) : Loses a c :=
  List.Subset.trans first second

theorem loses_of_same {α : Type} {p : Program VfNetdev VfInput α} (same : p.Steps SameEntries) : p.Steps Loses :=
  same.mono fun _ _ step _ mem => step.2 ▸ mem

theorem kalloc_same : kalloc.Steps SameEntries := by
  apply Program.Steps.access
  intro i s a s' taken
  split at taken <;> cases taken <;> exact ⟨rfl, rfl⟩

theorem dmaAllocCoherent_same : dmaAllocCoherent.Steps SameEntries := by
  apply Program.Steps.access
  intro i s a s' taken
  split at taken <;> cases taken <;> exact ⟨rfl, rfl⟩

theorem onicVfCreateRxPagePool_same : onicVfCreateRxPagePool.Steps SameEntries := by
  apply Program.Steps.access
  intro i s a s' taken
  split at taken <;> cases taken <;> exact ⟨rfl, rfl⟩

theorem freeAll_same (ids : List Nat) : (freeAll ids).Steps SameEntries := by
  induction ids with
  | nil => trivial
  | cons id rest ih => exact .bind (.modify fun _ => ⟨rfl, rfl⟩) fun _ => ih

theorem onRing_same {α : Type} (id : Nat) (p : Program RxQueue RxInput α) : (onRing id p).Steps SameEntries :=
  (Program.Steps.trivial (p.comap VfInput.rx)).lift fun _ _ _ => ⟨rfl, rfl⟩

theorem onicVfMboxSend_same (cmd : VfCmd) : (onicVfMboxSend cmd).Steps SameEntries := by
  apply Program.Steps.access
  intro i s a s' taken
  have executed : SameEntries s (s.execute cmd) := by cases cmd <;> exact ⟨rfl, rfl⟩
  have unexecuted : SameEntries s (s.unexecuted cmd) := by
    cases cmd with
    | config => exact ⟨rfl, rfl⟩
    | clear =>
      rw [VfNetdev.unexecuted]
      split <;> exact ⟨rfl, rfl⟩
  split at taken
  · cases taken
    exact executed
  · cases taken
    exact unexecuted
  · cases taken
    cases cmd with
    | config => exact ⟨rfl, rfl⟩
    | clear => exact executed
  · cases taken
    exact unexecuted

theorem readQueue_same (slot : VfSlot) : (readQueue slot).Steps SameEntries := by
  apply Program.Steps.access
  intro i s a s' taken
  cases taken
  exact ⟨rfl, rfl⟩

theorem checkRetained_same : checkRetained.Steps SameEntries := by
  apply Program.Steps.modify
  intro s
  split <;> exact ⟨rfl, rfl⟩

theorem clearOneContext_same (slot : VfSlot) : (clearOneContext slot).Steps SameEntries := by
  apply (readQueue_same slot).bind
  intro q
  cases q with
  | none => trivial
  | some q =>
    simp only
    split
    · trivial
    · apply (onicVfMboxSend_same _).bind
      intro err
      split
      · trivial
      · exact .bind (.modify fun _ => ⟨rfl, rfl⟩) fun _ => trivial

theorem configOneContext_same (slot : VfSlot) : (configOneContext slot).Steps SameEntries := by
  apply (readQueue_same slot).bind
  intro q
  split
  · apply (onicVfMboxSend_same _).bind
    intro err
    split
    · trivial
    · exact .bind (.modify fun _ => ⟨rfl, rfl⟩) fun _ => trivial
  · trivial
  · trivial

theorem onicVfTxContextsClear_same (priv : VfQueues) : (onicVfTxContextsClear priv).Steps SameEntries :=
  .firstErr (fun qid => clearOneContext_same (.tx qid)) 0 _

theorem onicVfRxContextsClear_same (priv : VfQueues) : (onicVfRxContextsClear priv).Steps SameEntries :=
  .firstErr (fun qid => clearOneContext_same (.rx qid)) 0 _

theorem onicVfTxContextsInit_same (priv : VfQueues) : (onicVfTxContextsInit priv).Steps SameEntries := by
  apply (Program.Steps.untilErr (fun qid => configOneContext_same (.tx qid)) 0 _).bind
  intro err
  split
  · exact (onicVfTxContextsClear_same priv).bind fun _ => trivial
  · trivial

theorem onicVfRxContextsInit_same (priv : VfQueues) : (onicVfRxContextsInit priv).Steps SameEntries := by
  apply (Program.Steps.untilErr (fun qid => configOneContext_same (.rx qid)) 0 _).bind
  intro err
  split
  · exact (onicVfRxContextsClear_same priv).bind fun _ => trivial
  · trivial

theorem clearOneDatapath_same (qid : Nat) : (clearOneDatapath qid).Steps SameEntries := by
  apply (readQueue_same _).bind
  intro q
  cases q with
  | none => trivial
  | some q =>
    simp only
    split
    · trivial
    · refine .bind (.modify fun _ => ⟨rfl, rfl⟩) fun _ => ?_
      refine .bind (.modify fun _ => ⟨rfl, rfl⟩) fun _ => ?_
      exact .modify fun _ => ⟨rfl, rfl⟩

theorem onicVfRxDatapathClear_same (priv : VfQueues) : (onicVfRxDatapathClear priv).Steps SameEntries :=
  .fold (fun qid _ => clearOneDatapath_same qid) 0 _ ()

theorem initOneDatapath_same (qid : Nat) : (initOneDatapath qid).Steps SameEntries := by
  apply (readQueue_same _).bind
  intro q
  rcases q with _ | q | q
  · trivial
  · trivial
  · simp only
    split
    · trivial
    · refine .bind (.modify fun _ => ⟨rfl, rfl⟩) fun _ => ?_
      refine .bind (.modify fun _ => ⟨rfl, rfl⟩) fun _ => ?_
      exact .bind (.modify fun _ => ⟨rfl, rfl⟩) fun _ => trivial

theorem onicVfRxDatapathInit_same (priv : VfQueues) : (onicVfRxDatapathInit priv).Steps SameEntries := by
  apply (Program.Steps.untilErr initOneDatapath_same 0 _).bind
  intro err
  split
  · exact (onicVfRxDatapathClear_same priv).bind fun _ => trivial
  · trivial

theorem freeQueue_loses (slot : VfSlot) (id : Nat) : (freeQueue slot id).Steps Loses :=
  .bind (.modify fun _ _ mem => mem) fun _ => .modify fun _ _ mem => mem

theorem onicVfFreeTxRing_loses (qid : Nat) : (onicVfFreeTxRing qid).Steps Loses := by
  apply (loses_of_same (readQueue_same _)).bind
  intro q
  cases q with
  | none => trivial
  | some q =>
    refine .bind (.modify fun _ _ mem => mem) fun _ => ?_
    exact (loses_of_same (freeAll_same _)).bind fun _ => freeQueue_loses ..

theorem onicVfFreeRxRing_loses (qid : Nat) : (onicVfFreeRxRing qid).Steps Loses := by
  apply (loses_of_same (readQueue_same _)).bind
  intro q
  cases q with
  | none => trivial
  | some q =>
    refine .bind (.modify fun _ _ mem => mem) fun _ => ?_
    refine (loses_of_same (freeAll_same _)).bind fun _ => ?_
    refine .bind (.modify fun _ _ mem => mem) fun _ => ?_
    exact (loses_of_same (freeAll_same _)).bind fun _ => freeQueue_loses ..

theorem onicVfRingsClear_loses : onicVfRingsClear.Steps Loses :=
  .fold (fun qid _ => (onicVfFreeTxRing_loses qid).bind fun _ => onicVfFreeRxRing_loses qid) 0 _ ()

theorem publish_loses (slot : VfSlot) (f : VfNetdev → VfQueue) :
    (.modify fun s => s.publish slot (f s) : Program VfNetdev VfInput Unit).Steps Loses :=
  .modify fun _ => List.subset_append_left ..

theorem onicVfAllocTxRing_loses (priv : VfQueues) (qid : Nat) : (onicVfAllocTxRing priv qid).Steps Loses := by
  apply (loses_of_same kalloc_same).bind
  intro id
  cases id with
  | none => trivial
  | some id =>
    apply (loses_of_same dmaAllocCoherent_same).bind
    intro mem
    cases mem with
    | none => exact (loses_of_same (freeAll_same _)).bind fun _ => trivial
    | some mem =>
      apply (loses_of_same kalloc_same).bind
      intro buffer
      cases buffer with
      | none => exact (loses_of_same (freeAll_same _)).bind fun _ => trivial
      | some buffer => exact (publish_loses ..).bind fun _ => trivial

theorem onicVfAllocRxRing_loses (priv : VfQueues) (qid : Nat) : (onicVfAllocRxRing priv qid).Steps Loses := by
  have freed (ids : List Nat) (err : Int) : (do freeAll ids; .done err : Program VfNetdev VfInput Int).Steps Loses :=
    (loses_of_same (freeAll_same ids)).bind fun _ => trivial
  apply (loses_of_same kalloc_same).bind
  intro id
  cases id with
  | none => trivial
  | some id =>
    refine .bind (.modify fun _ _ mem => mem) fun _ => ?_
    apply (loses_of_same dmaAllocCoherent_same).bind
    intro desc
    cases desc with
    | none => exact freed ..
    | some desc =>
      apply (loses_of_same kalloc_same).bind
      intro buffer
      cases buffer with
      | none => exact freed ..
      | some buffer =>
        apply (loses_of_same onicVfCreateRxPagePool_same).bind
        intro pagePool
        cases pagePool with
        | error err => exact freed ..
        | ok pagePool =>
          have unwound (err : Int) : (do
              onicVfFreeRxPages id [pagePool, buffer]
              freeAll [pagePool, buffer, desc.id, id]
              .done err : Program VfNetdev VfInput Int).Steps Loses :=
            .bind (.modify fun _ _ mem => mem) fun _ => freed ..
          apply (loses_of_same (onRing_same id _)).bind
          intro filled
          cases filled with
          | false => exact unwound _
          | true =>
            apply (loses_of_same dmaAllocCoherent_same).bind
            intro cmpl
            cases cmpl with
            | none => exact unwound _
            | some cmpl =>
              refine .bind (.modify fun _ _ mem => mem) fun _ => ?_
              exact (publish_loses ..).bind fun _ => trivial

theorem onicVfRingsInit_loses (priv : VfQueues) : (onicVfRingsInit priv).Steps Loses := by
  rw [onicVfRingsInit]
  split
  · trivial
  · have tail (err : Int) : (if err ≠ 0 then do checkRetained; onicVfRingsClear; .done err else .done 0 :
        Program VfNetdev VfInput Int).Steps Loses := by
      split
      · exact (loses_of_same checkRetained_same).bind fun _ => onicVfRingsClear_loses.bind fun _ => trivial
      · trivial
    apply (Program.Steps.untilErr (onicVfAllocTxRing_loses priv) 0 _).bind
    intro err
    simp only
    split
    · exact tail err
    · exact (Program.Steps.untilErr (onicVfAllocRxRing_loses priv) 0 _).bind tail

theorem onicVfOpenNetdev_loses (priv : VfQueues) : (onicVfOpenNetdev priv).Steps Loses := by
  have undone (err : Int) : (do onicVfRingsClear; .done err : Program VfNetdev VfInput Int).Steps Loses :=
    onicVfRingsClear_loses.bind fun _ => trivial
  apply (onicVfRingsInit_loses priv).bind
  intro err
  split
  · trivial
  · apply (loses_of_same (onicVfTxContextsInit_same priv)).bind
    intro err
    split
    · exact (loses_of_same checkRetained_same).bind fun _ => undone err
    · apply (loses_of_same (onicVfRxContextsInit_same priv)).bind
      intro err
      split
      · exact (loses_of_same (onicVfTxContextsClear_same priv)).bind fun _ => undone err
      · apply (loses_of_same (onicVfRxDatapathInit_same priv)).bind
        intro err
        split
        · refine (loses_of_same (onicVfRxContextsClear_same priv)).bind fun _ => ?_
          exact (loses_of_same (onicVfTxContextsClear_same priv)).bind fun _ => undone err
        · refine .bind (.modify fun _ _ mem => mem) fun _ => ?_
          exact .bind (.modify fun _ _ mem => mem) fun _ => trivial

theorem devOpen_loses (priv : VfQueues) : (devOpen priv).Steps Loses := by
  refine .bind (.modify fun _ _ mem => mem) fun _ => ?_
  apply (onicVfOpenNetdev_loses priv).bind
  intro err
  split
  · exact .modify fun _ _ mem => mem
  · exact .modify fun _ _ mem => mem

/-- A stop that fails keeps the entries. -/
theorem onicVfStopNetdev_retains {priv : VfQueues} {s s' : VfNetdev} {err : Int}
    (ran : Program.Exec (onicVfStopNetdev priv) s err s') (failed : err ≠ 0) : s'.queue = s.queue := by
  have same {α : Type} {p : Program VfNetdev VfInput α} {s s' : VfNetdev} {a : α} (steps : p.Steps SameEntries)
      (ran : Program.Exec p s a s') : s'.queue = s.queue :=
    (steps.exec SameEntries.refl SameEntries.trans ran).1
  rcases Program.exec_bind.mp ran with ⟨_, a, rx, ran⟩
  rcases Program.exec_bind.mp ran with ⟨_, b, tx, ran⟩
  rcases Program.exec_bind.mp ran with ⟨_, c, datapath, ran⟩
  rcases Program.exec_bind.mp ran with ⟨first, d, rxClear, ran⟩
  have before : d.queue = s.queue := by
    rw [same (onicVfRxContextsClear_same priv) rxClear, same (onicVfRxDatapathClear_same priv) datapath,
      Program.exec_modify.mp tx, Program.exec_modify.mp rx]
  split at ran
  · rw [(Program.exec_done.mp ran).2]
    exact before
  · rcases Program.exec_bind.mp ran with ⟨second, e, txClear, ran⟩
    split at ran
    · rw [(Program.exec_done.mp ran).2, same (onicVfTxContextsClear_same priv) txClear]
      exact before
    · rcases Program.exec_bind.mp ran with ⟨_, f, -, ran⟩
      exact absurd (Program.exec_done.mp ran).1 failed

end VfNetdev

end OpenNic
