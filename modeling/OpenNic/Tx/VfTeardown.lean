import OpenNic.Tx.VfConservation
import OpenNic.Vf.Queue

namespace OpenNic

theorem onicVfTxCleanLoop_keeps (cidx left : Nat) : (onicVfTxCleanLoop cidx left).Steps CleanKeeps := by
  induction left with
  | zero => trivial
  | succ left ih =>
    apply Program.Steps.bind (.read CleanKeeps.refl _)
    intro clean
    split
    · trivial
    · apply Program.Steps.bind (release_keeps _ _)
      intro _
      exact .bind (writeNextToClean_keeps _) fun _ => ih

theorem onicVfTxClean_keeps (priv : VfTxPriv) (t : Nat) : (onicVfTxClean priv t).Steps CleanKeeps := by
  rw [onicVfTxClean]
  split
  · apply Program.Steps.bind (.read CleanKeeps.refl _)
    intro mapped
    split
    · apply Program.Steps.bind (testAndSetBit_keeps t)
      intro busy
      split
      · trivial
      · apply Program.Steps.bind (.read CleanKeeps.refl _)
        intro realCount
        apply Program.Steps.bind (.read CleanKeeps.refl _)
        intro cidx
        apply Program.Steps.bind (onicVfTxCleanLoop_keeps cidx realCount)
        intro _
        exact clearBit_keeps cidx
    · trivial
  · trivial

theorem onicVfTxCleanLoop_enabled (cidx left : Nat) : (onicVfTxCleanLoop cidx left).Enabled := by
  induction left with
  | zero => trivial
  | succ left ih =>
    apply Program.Enabled.bind (.read _)
    intro clean
    split
    · trivial
    · apply Program.Enabled.bind (.modify _)
      intro _
      exact .bind (.modify _) fun _ => ih

theorem onicVfTxClean_enabled (priv : VfTxPriv) (t : Nat) : (onicVfTxClean priv t).Enabled := by
  rw [onicVfTxClean]
  split
  · apply Program.Enabled.bind (.read _)
    intro mapped
    split
    · apply Program.Enabled.bind (testAndSetBit_enabled t)
      intro busy
      split
      · trivial
      · apply Program.Enabled.bind (.read _)
        intro realCount
        apply Program.Enabled.bind (.read _)
        intro cidx
        apply Program.Enabled.bind (onicVfTxCleanLoop_enabled cidx realCount)
        intro _
        exact .modify _
    · trivial
  · trivial

/-- The teardown never waits. -/
theorem onicVfFreeTxRing_finishes (priv : VfTxPriv) (t : Nat) (q : TxQueue) :
    ∃ q', Program.Exec (onicVfFreeTxRing priv t) q () q' := by
  have enabled : (onicVfFreeTxRing priv t).Enabled := by
    rw [onicVfFreeTxRing]
    split
    · apply Program.Enabled.bind (onicVfTxClean_enabled priv t)
      intro _
      apply Program.Enabled.bind (.read _)
      intro realCount
      exact .fold (fun _ _ => .modify _) 0 realCount ()
    · trivial
  obtain ⟨_, q', ran⟩ := enabled.finishes q
  exact ⟨q', ran⟩

/-- How far the teardown has come: the slots before `i` are empty and what they held is
    released, the others are as they were in `q`. -/
structure Emptied (q : TxQueue) (i : Nat) (q' : TxQueue) : Prop where
  head : q'.head = q.head
  count : q'.count = q.count
  empty : ∀ j, j < i → q'.slots j = none
  others : ∀ j, i ≤ j → q'.buffer j = q.buffer j
  freed : q'.freed = q.freed ++ ((List.range i).filterMap q.slots).map TxFrame.id
  unmapped : q'.tail.unmapped = q.tail.unmapped ++ ((List.range i).filterMap q.slots).map TxFrame.mapping

theorem emptied_zero (q : TxQueue) : Emptied q 0 q :=
  ⟨rfl, rfl, fun _ less => absurd less (Nat.not_lt_zero _), fun _ _ => rfl, (List.append_nil _).symm,
    (List.append_nil _).symm⟩

theorem releasePending_emptied {q q' q'' : TxQueue} {i : Nat}
    (typed : ∀ i frame, q.slots i = some frame → VfKind frame.type) (before : Emptied q i q')
    (ran : Program.Exec (releasePending i) q' () q'') : Emptied q (i + 1) q'' := by
  have after := Program.exec_modify.mp ran
  have here := before.others i (Nat.le_refl i)
  simp only [here] at after
  cases held : q.slots i with
  | none =>
    have ptr : (q.buffer i).ptr = none := by simpa [TxQueue.slots, TxBuffer.held] using held
    rw [if_pos (.inr ptr)] at after
    subst after
    refine ⟨before.head, before.count, fun j less => ?_, fun j le => before.others j (by omega), ?_, ?_⟩
    · by_cases last : j = i
      · rw [last, TxQueue.slots, here]
        exact held
      · exact before.empty j (by omega)
    · rw [before.freed, List.range_succ, List.filterMap_append]
      simp [held]
    · rw [before.unmapped, List.range_succ, List.filterMap_append]
      simp [held]
  | some frame =>
    have buffer : q.buffer i = frame.buffer := TxBuffer.eq_buffer held
    have skb : frame.type = .skb := typed i frame held
    have type : (q.buffer i).type = .skb := by rw [buffer, TxFrame.buffer, skb]
    have ptr : (q.buffer i).ptr = some frame.id := by rw [buffer, TxFrame.buffer]
    have released : onicVfTxRelease (q.buffer i) = [.unmap frame.mapping, .kfreeSkb frame.id] := by
      rw [buffer, onicVfTxRelease_due frame skb, TxFrame.due, skb]
    have skbs : [TxAction.unmap frame.mapping, .kfreeSkb frame.id].filterMap TxAction.skb? = [frame.id] := rfl
    have mappings : [TxAction.unmap frame.mapping, .kfreeSkb frame.id].filterMap TxAction.mapping? =
        [frame.mapping] := rfl
    rw [if_neg (by simp [type, ptr]), released] at after
    subst after
    refine ⟨before.head, before.count, fun j less => ?_, fun j le => ?_, ?_, ?_⟩
    · by_cases last : j = i
      · simp [TxQueue.slots, last, TxBuffer.held, TxBuffer.zero]
      · have rest := before.empty j (by omega)
        simpa [TxQueue.slots, last] using rest
    · have other : j ≠ i := by omega
      simpa [other] using before.others j (by omega)
    · simp only [before.freed, List.range_succ, List.filterMap_append]
      simp [held, skbs]
    · simp only [before.unmapped, List.range_succ, List.filterMap_append]
      simp [held, mappings]

/-- The queue `q'` that the teardown leaves of `q`: everything has been released once. -/
structure VfTxFreed (q q' : TxQueue) : Prop where
  skbs : q.head.okSkbs.Perm q'.freed
  mappings : q.head.mapped.Perm q'.tail.unmapped
  empty : ∀ i, i < q.count - 1 → q'.slots i = none

section

variable {size : Nat} {priv : VfTxPriv} {q q' : TxQueue}

theorem TxInv.slots_typed (inv : TxInv size VfKind (VfRest priv) q) (i : Nat) (frame : TxFrame)
    (held : q.slots i = some frame) : VfKind frame.type := by
  obtain ⟨n, less, -, -, rfl⟩ := inv.slots.eq_some_iff.mp held
  exact inv.typed _ (List.getElem_mem less)

/-- Releasing slot by slot empties the queue. -/
theorem releasePending_freed (inv : TxInv size VfKind (VfRest priv) q) (free : q.txLock = none)
    (ran : Program.Exec (Program.fold (fun i _ => releasePending i) 0 size ()) q () q') : VfTxFreed q q' := by
  have emptied : Emptied q (0 + size) q' := by
    apply ran.fold (I := fun i _ => Emptied q i)
    · exact fun i _ s _ s' _ _ before ran => releasePending_emptied inv.slots_typed before ran
    · exact emptied_zero q
  rw [Nat.zero_add] at emptied
  have left := inv.headIdle free
  have held := inv.slots.filterMap_range_perm
  refine ⟨?_, ?_, fun i less => emptied.empty i ?_⟩
  · have skbs := inv.skbs
    rw [inv.live_skbs, left.disposed] at skbs
    rw [emptied.freed]
    exact skbs.trans ((held.symm.map _).append_left _)
  · have mappings := inv.mappings
    rw [inv.live_mappings, left.rung.whole.pending, List.append_nil] at mappings
    rw [emptied.unmapped]
    exact mappings.trans ((held.symm.map _).append_left _)
  · rw [inv.count, Nat.add_sub_cancel] at less
    exact less

theorem onicVfFreeTxRing_freed (inv : TxInv size VfKind (VfRest priv) q) (free : q.txLock = none)
    (idle : q.cleaning = none) {t : Nat} (ran : Program.Exec (onicVfFreeTxRing priv t) q () q') :
    VfTxFreed q q' := by
  rw [onicVfFreeTxRing] at ran
  split at ran
  · obtain ⟨_, mid, cleaned, ran⟩ := Program.exec_bind.mp ran
    obtain ⟨realCount, mid', count, ran⟩ := Program.exec_bind.mp ran
    obtain ⟨rfl, rfl⟩ := Program.exec_read.mp count
    have owns : Owns t none none q := ⟨by simp [OwnsHead, free], by simp [OwnsTail, idle]⟩
    have after := Contract.wp_exec cleaned (fun _ => trivial) inv (onicVfTxClean_triple q trivial inv owns)
    have same := (onicVfTxClean_keeps priv t).exec CleanKeeps.refl CleanKeeps.trans cleaned
    have inv' : TxInv size VfKind (VfRest priv) mid' := after.1
    rw [inv'.vfRealCount] at ran
    have freed := releasePending_freed inv' (same.txLock.trans free) ran
    have count : mid'.count = q.count := inv'.count.trans inv.count.symm
    obtain ⟨skbs, mappings, empty⟩ := freed
    rw [same.head] at skbs mappings
    rw [count] at empty
    exact ⟨skbs, mappings, empty⟩
  · rename_i absent
    obtain ⟨-, rfl⟩ := Program.exec_done.mp ran
    have left := inv.headIdle free
    have none_put : q'.head.accepted = [] := left.unused (by simpa using absent)
    have live : q'.live = [] := by rw [TxQueue.live, none_put, List.drop_nil]
    refine ⟨?_, ?_, fun i _ => inv.slots.free i fun n _ high => ?_⟩
    · have skbs := inv.skbs
      rwa [left.disposed, live, List.filterMap_nil, List.append_nil] at skbs
    · have mappings := inv.mappings
      rwa [live, List.filterMap_nil, List.append_nil, left.rung.whole.pending, List.append_nil] at mappings
    · rw [none_put] at high
      exact absurd high (Nat.not_lt_zero n)

end

theorem vf_tx_conserved {priv : VfTxPriv} {q : TxQueue} {P : Pool Nat TxQueue TxInput} (probed : priv.Probed)
    (fresh : TxFresh q) (count : q.count = onicVfTxRingCount) (calls : q.head.calls = [])
    (reach : Pool.Reach (vfTxRules priv) (fun _ => True) (Pool.start q) P) :
    VfTxConserved P.state ∧
      ((∀ t, P.thread t = .done ()) → ∀ t,
        (∃ q', Program.Exec (onicVfFreeTxRing priv t) P.state () q') ∧
        ∀ q', Program.Exec (onicVfFreeTxRing priv t) P.state () q' → VfTxFreed P.state q') := by
  have size : q.size = 4095 := by rw [TxQueue.size, count, onicVfTxRingCount]
  obtain ⟨accepted, used, -, -, pending, disposed, -⟩ := fresh.head
  have left : VfRest priv q.head :=
    ⟨⟨⟨by rw [used, accepted]; rfl, pending⟩, fun some => absurd accepted some⟩,
      by rw [disposed, TxHead.okSkbs, calls]; rfl, by simp [calls], fun _ => accepted⟩
  have inv : TxInv q.size VfKind (VfRest priv) q := fresh.inv left
  have idle (t : Nat) : (txContract q.size VfKind (VfRest priv) t).wp
      (.done () : Program TxQueue TxInput Unit) (fun _ => Owns t none none) q :=
    owns_done () q trivial inv ⟨by simp [OwnsHead, fresh.txLock], by simp [OwnsTail, fresh.cleaning]⟩
  obtain ⟨-, inv', threads⟩ := (vfTxRules_fit probed).reach reach trivial inv idle
  refine ⟨inv'.vfConserved (by omega), fun done t => ⟨onicVfFreeTxRing_finishes priv t P.state, ?_⟩⟩
  have owns (u : Nat) : Owns u none none P.state := by
    have here := threads u
    rw [done u] at here
    exact here _ (TxRely.refl u _) trivial inv'
  have free : P.state.txLock = none := Option.eq_none_iff_forall_ne_some.mpr fun u => (owns u).head
  have unset : P.state.cleaning = none := Option.eq_none_iff_forall_ne_some.mpr fun u => (owns u).tail
  exact fun q' ran => onicVfFreeTxRing_freed inv' free unset ran

/-- Queue 0 of a VF that got four queues. -/
def oneOfFour : VfTxPriv := ⟨4, 0, true, true, true, 4⟩

/-- Two frames are transmitted; the second transmit cleans up after the first. -/
def twoFrameMoves : List (Pool.Move Nat TxQueue TxInput) :=
  .call 0 (transmit 0 ⟨7, 42⟩ (onicVfXmitFrame oneOfFour 0 ⟨7, 42⟩)) ::
    List.replicate 15 (.access 0 ⟨0, some 4096, false⟩) ++
    .env completeOne :: .call 0 (transmit 0 ⟨8, 100⟩ (onicVfXmitFrame oneOfFour 0 ⟨8, 100⟩)) ::
    List.replicate 18 (.access 0 ⟨0, some 8192, false⟩)

theorem twoFrameMoves_mem {m : Pool.Move Nat TxQueue TxInput} (mem : m ∈ twoFrameMoves) :
    m.Allowed (vfTxRules oneOfFour) ∧ ∀ t, t ≠ 0 → ¬ m.Of t := by
  simp only [twoFrameMoves, List.cons_append, List.mem_cons, List.mem_append, List.mem_replicate] at mem
  rcases mem with rfl | ⟨-, rfl⟩ | rfl | rfl | ⟨-, rfl⟩
  · exact ⟨fun _ => .xmitFrame _, fun _ other => other.symm⟩
  · exact ⟨trivial, fun _ other => other.symm⟩
  · exact ⟨completeOne_hardware, fun _ _ => id⟩
  · exact ⟨fun _ => .xmitFrame _, fun _ other => other.symm⟩
  · exact ⟨trivial, fun _ other => other.symm⟩

theorem vf_tx_conserved_two_frames :
    ∃ P q', Pool.Reach (vfTxRules oneOfFour) (fun _ => True) (Pool.start (.initial 4096)) P ∧
      Program.Exec (onicVfFreeTxRing oneOfFour 0) P.state () q' ∧ P.state.head.okSkbs = [7, 8] ∧
      P.state.freed = [7] ∧ VfTxConserved P.state ∧ VfTxFreed P.state q' := by
  have played : ((Pool.start (.initial 4096)).play (fun _ => true) twoFrameMoves).map (fun P =>
      ((P.thread 0).isDone, P.state.head.okSkbs, P.state.freed)) = some (true, [7, 8], [7]) := by
    decide +kernel
  obtain ⟨P, ran, is⟩ := Option.map_eq_some_iff.mp played
  simp only [Prod.mk.injEq] at is
  obtain ⟨finished, skbs, freed⟩ := is
  have reach : Pool.Reach (vfTxRules oneOfFour) (fun _ => True) _ P :=
    Pool.reach_of_play (fun _ _ => trivial) (fun m mem => (twoFrameMoves_mem mem).1) ran
  have done (t : Nat) : P.thread t = .done () := by
    by_cases here : t = 0
    · rw [here]
      exact Program.eq_done finished
    · exact Pool.thread_of_play (fun m mem => (twoFrameMoves_mem mem).2 t here) ran
  have probed : oneOfFour.Probed := ⟨rfl, rfl, fun _ => by decide, Nat.le_refl 4⟩
  obtain ⟨conserved, teardown⟩ := vf_tx_conserved probed (TxQueue.initial_fresh (by decide)) rfl rfl reach
  obtain ⟨⟨q', free⟩, frees⟩ := teardown done 0
  exact ⟨P, q', reach, free, skbs, freed, conserved, frees q' free⟩

end OpenNic
