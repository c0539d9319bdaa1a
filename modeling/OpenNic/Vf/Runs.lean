import OpenNic.Vf.Lifetime
import OpenNic.Vf.RxPages

namespace OpenNic

theorem vfSlots_few {priv : VfQueues} (tx : priv.numTxQueues ≤ onicMaxQueues) (rx : priv.numRxQueues ≤ onicMaxQueues) :
    VfFew (vfSlots priv) where
  nodup := vfSlots_nodup priv
  small slot here := by
    rcases mem_vfSlots.mp here with ⟨qid, below, same⟩ | ⟨qid, below, same⟩
    · exact ⟨qid, by omega, .inl same⟩
    · exact ⟨qid, by omega, .inr same⟩

/-- The probe asks for one vector more than there can be queues. -/
theorem onicVfProbeQueues_few {vectors : Nat} {qmax : BitVec 16} {priv : VfQueues}
    (granted : vectors ≤ onicMaxQueues + onicVfNonQVectors) (probe : onicVfProbeQueues vectors qmax = .ok priv) :
    VfFew (vfSlots priv) ∧ priv.numQVectors ≠ 0 ∧ priv.numTxQueues = priv.numQVectors ∧ priv.numRxQueues = priv.numQVectors := by
  rw [onicVfProbeQueues] at probe
  split at probe
  · cases probe
  · rename_i left
    cases probe
    have few : min ((vectors - onicVfNonQVectors) % 65536) qmax.toNat ≤ onicMaxQueues := by
      rw [onicMaxQueues, onicVfNonQVectors] at *
      omega
    exact ⟨vfSlots_few few few, left, rfl, rfl⟩

/-- Between two calls. -/
def VfIdle (priv : VfQueues) (s : VfNetdev) : Prop :=
  ∃ k : VfKnown, VfAt (vfSlots priv) k.rest s ∧ (k.running = false → k.on = .off)

theorem VfIdle.probed (priv : VfQueues) : VfIdle priv .probed := by
  refine ⟨⟨fun _ => False, fun _ => True, .off, false, .opening, True, []⟩, ?_, fun _ => rfl⟩
  exact {
    balanced := (VfCtl.balanced_empty fun _ => rfl).mpr (List.Perm.refl _)
    tight := fun _ => rfl
    shape := nofun
    bits := nofun
    switched := nofun
    polls := nofun
    tied := nofun
    free := nofun
    released := nofun
    body := nofun
    gone := nofun
    point := rfl
    facts := True.intro
    up := nofun
    rxPollWork := nofun
    txCleanWork := nofun
    napi := nofun
    still := fun away => absurd rfl away
    running := rfl
    caller := rfl }

theorem vfRules_fit {priv : VfQueues} (few : VfFew (vfSlots priv)) (vectors : priv.numQVectors ≠ 0) :
    Pool.Fits (vfRules priv) (fun _ => True) VfSafe (fun _ => vfContract) fun _ => VfIdle priv where
  same_ok _ := rfl
  same_inv _ := rfl
  threads t u apart := absurd rfl apart
  env s s' _ _ safe happens := by
    have after := VfEvent.safe happens safe
    exact ⟨after.1, fun _ => after.2⟩
  calls _ s p call _ safe idle := by
    rcases idle with ⟨k, at_, off⟩
    rcases call with ⟨down, -, rfl⟩ | ⟨-, rfl⟩ | ⟨-, rfl⟩
    · have still := off (at_.running.symm.trans down)
      apply Contract.wp_mono (VfNetdev.devOpen_triple few vectors still s True.intro safe at_)
      intro _ s' _ _ after
      rcases after with up | down
      · exact ⟨_, up, nofun⟩
      · exact ⟨_, down, fun _ => still⟩
    · apply Contract.wp_mono (VfNetdev.devClose_triple few s True.intro safe at_)
      exact fun _ s' _ _ after => ⟨_, after, fun _ => rfl⟩
    · apply Contract.wp_mono (VfNetdev.onicVfRemove_triple few off s True.intro safe at_)
      exact fun _ s' _ _ after => ⟨_, after, fun _ => rfl⟩

theorem VfSafe.probed : VfSafe .probed := by
  rcases VfIdle.probed ⟨0, 0, 0, fun _ => none⟩ with ⟨k, at_, -⟩
  exact at_.safe (by simp [VfNetdev.probed])

/-- What every run keeps. -/
theorem vf_reach {priv : VfQueues} (few : VfFew (vfSlots priv)) (vectors : priv.numQVectors ≠ 0)
    {P : Pool Unit VfNetdev VfInput} (reach : Pool.Reach (vfRules priv) (fun _ => True) (Pool.start .probed) P) :
    VfSafe P.state ∧ (P.thread () = .done () → VfIdle priv P.state) := by
  have idle (t : Unit) : vfContract.wp ((Pool.start (T := Unit) (ι := VfInput) .probed).thread t) (fun _ => VfIdle priv) .probed := by
    intro s rely _ _
    rcases VfIdle.probed priv with ⟨k, at_, off⟩
    exact ⟨k, at_.rely rely, off⟩
  rcases (vfRules_fit few vectors).reach reach trivial VfSafe.probed idle with ⟨-, safe, threads⟩
  refine ⟨safe, fun done => ?_⟩
  have last := threads ()
  rw [done] at last
  exact last P.state (VfRely.refl _) trivial safe

/-- No step of any run uses memory that is freed, schedules an instance that is not enabled, or
    enables or disables one twice, unless an interrupt comes between `kfree(q)` and
    `priv->rx_queue[qid] = NULL`; then it does. -/
theorem vf_queue_lifetime_iff {vectors : Nat} {qmax : BitVec 16} {priv : VfQueues}
    (granted : vectors ≤ onicMaxQueues + onicVfNonQVectors) (probe : onicVfProbeQueues vectors qmax = .ok priv)
    {P : Pool Unit VfNetdev VfInput} (reach : Pool.Reach (vfRules priv) (fun _ => True) (Pool.start .probed) P) :
    P.state.faults = [] ↔ .interrupt ∉ P.state.lapses := by
  rcases onicVfProbeQueues_few granted probe with ⟨few, vectors, -⟩
  exact (vf_reach few vectors reach).1.faults

/-- A VF with one queue of each kind. -/
def oneQueue : VfQueues := ⟨1, 1, 1, onicVfQIrqInit 1⟩

/-- After an open, all is as it should be. -/
theorem vf_queue_lifetime_opened : ∃ P : Pool Unit VfNetdev VfInput,
    (P.state.faults = [] ↔ .interrupt ∉ P.state.lapses) ∧ P.state.up = true ∧ P.state.napi 3 = true := by
  have seen : ((VfNetdev.devOpen oneQueue).eval grantedInput .probed).map (fun r => (r.2.up, r.2.napi 3)) =
      some (true, true) := by decide +kernel
  rcases Option.map_eq_some_iff.mp seen with ⟨⟨_, s⟩, opened, values⟩
  simp only [Prod.mk.injEq] at values
  have reach : Pool.Reach (vfRules oneQueue) (fun _ => True) (Pool.start .probed) ⟨s, (Pool.start .probed).thread⟩ :=
    Pool.reach_of_exec (t := ()) rfl (.inl ⟨rfl, rfl, rfl⟩) (.of_eval opened)
  have probe : onicVfProbeQueues 2 1 = .ok oneQueue := rfl
  exact ⟨_, vf_queue_lifetime_iff (by decide) probe reach, values.1, values.2⟩

/-- The queue's interrupt comes between `kfree(q)` and `priv->rx_queue[0] = NULL`: the handler tests a
    bit of memory that is freed. -/
theorem vf_interrupt_uses_freed_queue : onicVfProbeQueues 2 1 = .ok oneQueue ∧ ∃ P : Pool Unit VfNetdev VfInput,
    Pool.Reach (vfRules oneQueue) (fun _ => True) (Pool.start .probed) P ∧ P.state.faults = [.freed 3] := by
  refine ⟨rfl, ?_⟩
  let start : Pool Unit VfNetdev VfInput := Pool.start .probed
  let closing (s : VfNetdev) : Pool Unit VfNetdev VfInput :=
    ⟨s, Function.update start.thread () (VfNetdev.devClose oneQueue)⟩
  let moves : List (Pool.Move Unit VfNetdev VfInput) := List.replicate 27 (.access () grantedInput)
  let played := ((VfNetdev.devOpen oneQueue).eval grantedInput .probed).bind fun r =>
    (Pool.play (fun _ => true) (closing r.2) moves).bind fun P =>
      ((VfNetdev.onicVfQIrqHandler 0).eval grantedInput P.state).map fun last => (r.2, P, last.2)
  have seen : played.map (fun states => (states.1.running, states.2.1.state.qIrq, states.2.2.faults)) =
      some (true, true, [.freed 3]) := by decide +kernel
  rcases Option.map_eq_some_iff.mp seen with ⟨⟨first, P, last⟩, all, values⟩
  rcases Option.bind_eq_some_iff.mp all with ⟨⟨_, s⟩, opened, rest⟩
  rcases Option.bind_eq_some_iff.mp rest with ⟨P', stopped, handled⟩
  rcases Option.map_eq_some_iff.mp handled with ⟨⟨_, s'⟩, ran, same⟩
  cases same
  simp only [Prod.mk.injEq] at values
  rcases values with ⟨running, registered, faults⟩
  have one : Pool.Reach (vfRules oneQueue) (fun _ => True) start ⟨s, start.thread⟩ :=
    Pool.reach_of_exec (t := ()) rfl (.inl ⟨rfl, rfl, rfl⟩) (.of_eval opened)
  have two : Pool.Reach (vfRules oneQueue) (fun _ => True) start (closing s) :=
    one.tail ⟨.call rfl (.inr (.inl ⟨running, rfl⟩)), trivial⟩
  have three : Pool.Reach (vfRules oneQueue) (fun _ => True) (closing s) P := by
    apply Pool.reach_of_play (fun _ _ => trivial) _ stopped
    intro m mem
    rw [List.eq_of_mem_replicate mem]
    trivial
  have four : VfEvent oneQueue P.state s' := .interrupt 0 (by decide) registered (.of_eval ran)
  exact ⟨_, (two.trans three).tail ⟨.env four, trivial⟩, faults⟩

/-- The PF's contexts point to memory that is there, as long as the PF executes no CONFIG_QUEUE that
    the VF takes for failed, executes every CLEAR_QUEUE that is sent outside a stop before it returns,
    and no open frees queues that an earlier stop has retained. -/
theorem vf_dma_safe {vectors : Nat} {qmax : BitVec 16} {priv : VfQueues}
    (granted : vectors ≤ onicMaxQueues + onicVfNonQVectors) (probe : onicVfProbeQueues vectors qmax = .ok priv)
    {P : Pool Unit VfNetdev VfInput} (reach : Pool.Reach (vfRules priv) (fun _ => True) (Pool.start .probed) P)
    (noLapse : P.state.NoLapse) : ∀ slot, ∀ m ∈ P.state.ctxt slot, m ∉ P.state.freed := by
  rcases onicVfProbeQueues_few granted probe with ⟨few, vectors, -⟩
  exact (vf_reach few vectors reach).1.dma noLapse

/-- After an open, the contexts point to the rings. -/
theorem vf_dma_opened : ∃ P : Pool Unit VfNetdev VfInput,
    (∀ slot, ∀ m ∈ P.state.ctxt slot, m ∉ P.state.freed) ∧ P.state.ctxt (.tx 0) = [1] ∧ P.state.ctxt (.rx 0) = [4, 7] := by
  have seen : ((VfNetdev.devOpen oneQueue).eval grantedInput .probed).map
      (fun r => (r.2.lapses, r.2.ctxt (.tx 0), r.2.ctxt (.rx 0))) = some ([], [1], [4, 7]) := by decide +kernel
  rcases Option.map_eq_some_iff.mp seen with ⟨⟨_, s⟩, opened, values⟩
  simp only [Prod.mk.injEq] at values
  rcases values with ⟨lapses, tx, rx⟩
  have reach : Pool.Reach (vfRules oneQueue) (fun _ => True) (Pool.start .probed) ⟨s, (Pool.start .probed).thread⟩ :=
    Pool.reach_of_exec (t := ()) rfl (.inl ⟨rfl, rfl, rfl⟩) (.of_eval opened)
  have probe : onicVfProbeQueues 2 1 = .ok oneQueue := rfl
  have noLapse : s.NoLapse := by simp [VfNetdev.NoLapse, lapses]
  exact ⟨_, vf_dma_safe (by decide) probe reach noLapse, tx, rx⟩

/-- The CONFIG_QUEUE of the TX queue times out and the PF executes it all the same: the open fails and
    frees the ring, and the context stays. -/
theorem vf_timeout_frees_ring : onicVfProbeQueues 2 1 = .ok oneQueue ∧ ∃ P : Pool Unit VfNetdev VfInput,
    Pool.Reach (vfRules oneQueue) (fun _ => True) (Pool.start .probed) P ∧
    P.state.ctxt (.tx 0) = [1] ∧ 1 ∈ P.state.freed := by
  refine ⟨rfl, ?_⟩
  let timedOut : VfInput := { grantedInput with mbox := .timedOut true }
  have seen : ((VfNetdev.devOpen oneQueue).eval timedOut .probed).map (fun r => (r.2.ctxt (.tx 0), decide (1 ∈ r.2.freed))) =
      some ([1], true) := by decide +kernel
  rcases Option.map_eq_some_iff.mp seen with ⟨⟨_, s⟩, opened, values⟩
  simp only [Prod.mk.injEq, decide_eq_true_eq] at values
  have reach : Pool.Reach (vfRules oneQueue) (fun _ => True) (Pool.start .probed) ⟨s, (Pool.start .probed).thread⟩ :=
    Pool.reach_of_exec (t := ()) rfl (.inl ⟨rfl, rfl, rfl⟩) (.of_eval opened)
  exact ⟨_, reach, values.1, values.2⟩

end OpenNic
