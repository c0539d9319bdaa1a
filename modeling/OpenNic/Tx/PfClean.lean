import OpenNic.Tx.PfConservation

namespace OpenNic

theorem onicTxClean_keeps (t : Nat) : (onicTxClean t).Steps CleanKeeps := by
  apply Program.Steps.bind (testAndSetBit_keeps t)
  intro busy
  split
  · trivial
  · apply Program.Steps.bind (.read CleanKeeps.refl _)
    intro cidx
    apply Program.Steps.bind (.read CleanKeeps.refl _)
    intro clean
    split
    · exact clearBit_keeps cidx
    · apply Program.Steps.bind (.read CleanKeeps.refl _)
      intro realCount
      refine .bind (.fold (fun _ _ => ?_) _ _ _) fun _ => clearBit_keeps cidx
      exact .bind (release_keeps _ _) fun _ => writeNextToClean_keeps _

theorem onicTxClean_enabled (t : Nat) : (onicTxClean t).Enabled := by
  apply Program.Enabled.bind (testAndSetBit_enabled t)
  intro busy
  split
  · trivial
  · apply Program.Enabled.bind (.read _)
    intro cidx
    apply Program.Enabled.bind (.read _)
    intro clean
    split
    · exact .modify _
    · apply Program.Enabled.bind (.read _)
      intro realCount
      refine .bind (.fold (fun _ _ => ?_) _ _ _) fun _ => .modify _
      exact .bind (.modify _) fun _ => .modify _

/-- Where `next_to_clean` is after a clean that nothing interferes with. -/
def TxQueue.onicTxCleaned (q : TxQueue) : Nat := if q.cleaning = none then wbCidx q.wb else q.tail.nextToClean

/-- Whether a transmit that starts in this state finds the ring full after its clean. -/
def TxQueue.FullOnceCleaned (q : TxQueue) : Prop :=
  (q.head.nextToUse + 1) % q.onicRingGetRealCount = q.onicTxCleaned

section

variable {size : Nat} {rest : TxHead → Prop} {t : Nat} {q q' : TxQueue}

/-- Every round of the clean takes `next_to_clean` one slot further. -/
theorem clean_rounds {work : Nat} (realCount : q.onicRingGetRealCount = size)
    (small : q.tail.nextToClean < size)
    (ran : Program.Exec (Program.fold (fun _ _ => do
      TxAccess.release onicTxRelease onicTxWipe
      onicRingIncrementTail) 0 work ()) q () q') :
    q'.tail.nextToClean = (q.tail.nextToClean + work) % size := by
  have after : q'.tail.nextToClean = (q.tail.nextToClean + (0 + work)) % size ∧ q'.onicRingGetRealCount = size := by
    apply ran.fold (I := fun i _ s => s.tail.nextToClean = (q.tail.nextToClean + i) % size ∧
      s.onicRingGetRealCount = size)
    · rintro i _ s _ s' - - ⟨here, count⟩ round
      obtain ⟨_, mid, released, moved⟩ := Program.exec_bind.mp round
      have mid_is := Program.exec_modify.mp released
      have s_is := Program.exec_modify.mp moved
      have count' : mid.onicRingGetRealCount = size := by
        rw [mid_is]
        exact count
      rw [s_is]
      refine ⟨?_, count'⟩
      show (mid.tail.nextToClean + 1) % mid.onicRingGetRealCount = _
      rw [count', mid_is]
      show (s.tail.nextToClean + 1) % size = _
      rw [here, Nat.mod_add_mod, Nat.add_assoc]
    · exact ⟨(Nat.mod_eq_of_lt small).symm, realCount⟩
  rw [Nat.zero_add] at after
  exact after.1

theorem work_lands {clean cidx : Nat} (small : clean < size) (small' : cidx < size) :
    (clean + (if (cidx : Int) - clean < 0 then (cidx : Int) - clean + size else (cidx : Int) - clean).toNat) % size =
      cidx := by
  split
  · rw [show clean + ((cidx : Int) - clean + size).toNat = cidx + size by omega, Nat.add_mod_right,
      Nat.mod_eq_of_lt small']
  · rw [show clean + ((cidx : Int) - clean).toNat = cidx by omega, Nat.mod_eq_of_lt small']

/-- The clean once it has the bit. -/
theorem onicTxClean_work (realCount : q.onicRingGetRealCount = size)
    (small : q.tail.nextToClean < size) (small' : wbCidx q.wb < size)
    (ran : Program.Exec (do
      let cidx ← TxAccess.readWb
      let clean ← TxAccess.readNextToClean
      if cidx = clean then TxAccess.clearBit cidx
      else
        let realCount ← .read TxQueue.onicRingGetRealCount
        let work : Int := cidx - clean
        let work := if work < 0 then work + realCount else work
        .fold (fun _ _ => do
          TxAccess.release onicTxRelease onicTxWipe
          onicRingIncrementTail) 0 work.toNat ()
        TxAccess.clearBit cidx) q () q') : q'.tail.nextToClean = wbCidx q.wb ∧ q'.cleaning = none := by
  obtain ⟨cidx, mid, wb, ran⟩ := Program.exec_bind.mp ran
  obtain ⟨rfl, rfl⟩ := Program.exec_read.mp wb
  obtain ⟨clean, mid, next, ran⟩ := Program.exec_bind.mp ran
  obtain ⟨rfl, rfl⟩ := Program.exec_read.mp next
  split at ran
  · rename_i same
    rw [Program.exec_modify.mp ran]
    exact ⟨same.symm, rfl⟩
  · obtain ⟨count, mid, read, ran⟩ := Program.exec_bind.mp ran
    obtain ⟨rfl, rfl⟩ := Program.exec_read.mp read
    obtain ⟨_, mid, rounds, cleared⟩ := Program.exec_bind.mp ran
    rw [Program.exec_modify.mp cleared]
    refine ⟨(clean_rounds realCount small rounds).trans ?_, rfl⟩
    rw [realCount]
    exact work_lands small small'

theorem onicTxClean_nextToClean (inv : TxInv size PfKind rest q)
    (ran : Program.Exec (onicTxClean t) q () q') :
    q'.tail.nextToClean = q.onicTxCleaned ∧ q'.cleaning = q.cleaning := by
  have positive := inv.size_pos
  have small : q.tail.nextToClean < size := by
    rw [inv.nextToClean]
    exact Nat.mod_lt _ positive
  have small' : wbCidx q.wb < size := by
    rw [inv.wb]
    exact Nat.mod_lt _ positive
  rw [TxQueue.onicTxCleaned]
  obtain ⟨busy, mid, set, ran⟩ := Program.exec_bind.mp ran
  obtain ⟨_, set⟩ := Program.exec_access.mp set
  split at set
  · rename_i held
    cases set
    obtain ⟨-, rfl⟩ := Program.exec_done.mp ran
    have set : q'.cleaning ≠ none := by
      intro none
      rw [none] at held
      cases held
    exact ⟨(if_neg set).symm, rfl⟩
  · rename_i free
    simp only [Option.some.injEq, Prod.mk.injEq] at set
    obtain ⟨rfl, mid_is⟩ := set
    have wb : mid.wb = q.wb := by rw [← mid_is]
    have next : mid.tail.nextToClean = q.tail.nextToClean := by rw [← mid_is]
    have count : mid.onicRingGetRealCount = size := by
      rw [← mid_is]
      exact inv.realCount
    have unset : q.cleaning = none := by simpa using free
    rw [if_pos unset, unset, ← wb]
    rw [← wb] at small'
    rw [← next] at small
    exact onicTxClean_work count small small' ran

theorem onicTxClean_busy (held : q.cleaning.isSome) (ran : Program.Exec (onicTxClean t) q () q') : q' = q := by
  obtain ⟨busy, mid, set, ran⟩ := Program.exec_bind.mp ran
  obtain ⟨_, set⟩ := Program.exec_access.mp set
  rw [if_pos held] at set
  cases set
  obtain ⟨-, rfl⟩ := Program.exec_done.mp ran
  rfl

/-- A clean that nothing interferes with, with or without the lock. -/
theorem onicTxClean_alone (inv : TxInv size PfKind rest q) (ran : Program.Exec (onicTxClean t) q () q') :
    TxInv size PfKind rest q' ∧ CleanKeeps q q' := by
  refine ⟨?_, (onicTxClean_keeps t).exec CleanKeeps.refl CleanKeeps.trans ran⟩
  by_cases held : q.cleaning.isSome
  · rw [onicTxClean_busy held ran]
    exact inv
  · have free : q.cleaning = none := by simpa using held
    have tail : OwnsTail t none q := by simp [OwnsTail, free]
    by_cases locked : q.txLock = some t
    · exact (Contract.wp_exec ran (fun _ => trivial) inv
        (onicTxClean_triple (h := some q.head) q trivial inv ⟨⟨locked, rfl⟩, tail⟩)).1
    · exact (Contract.wp_exec ran (fun _ => trivial) inv
        (onicTxClean_triple (h := none) q trivial inv ⟨locked, tail⟩)).1

/-- A transmit that runs alone: its clean, and which way it goes on. -/
theorem onicTxClean_then {α : Type} (inv : TxInv size PfKind rest q) (t : Nat) (input : TxInput)
    (full free : Program TxQueue TxInput α) :
    ∃ q₁, TxInv size PfKind rest q₁ ∧ CleanKeeps q q₁ ∧ q₁.onicTxCleaned = q.onicTxCleaned ∧
      (q.FullOnceCleaned → (do
        onicTxClean t
        if ← onicRingFull then full
        else free).eval input q = full.eval input q₁) ∧
      (¬ q.FullOnceCleaned → (do
        onicTxClean t
        if ← onicRingFull then full
        else free).eval input q = free.eval input q₁) := by
  obtain ⟨⟨⟨⟩, q₁⟩, cleaned⟩ := (onicTxClean_enabled t).eval input q
  obtain ⟨inv₁, keeps⟩ := onicTxClean_alone inv (.of_eval cleaned)
  obtain ⟨next, bit⟩ := onicTxClean_nextToClean inv (.of_eval cleaned)
  have is_full : (q₁.head.nextToUse + 1) % q₁.onicRingGetRealCount = q₁.tail.nextToClean ↔ q.FullOnceCleaned := by
    rw [next, keeps.head, TxQueue.onicRingGetRealCount, keeps.wbMapped, keeps.count]
    exact Iff.rfl
  have again : q₁.onicTxCleaned = q.onicTxCleaned := by
    rw [TxQueue.onicTxCleaned, bit, keeps.wb, next]
    by_cases idle : q.cleaning = none
    · rw [if_pos idle, TxQueue.onicTxCleaned, if_pos idle]
    · rw [if_neg idle]
  have start : (do
      onicTxClean t
      if ← onicRingFull then full
      else free).eval input q =
      (if decide ((q₁.head.nextToUse + 1) % q₁.onicRingGetRealCount = q₁.tail.nextToClean) then full
        else free).eval input q₁ := by
    rw [Program.eval_bind, cleaned]
    rfl
  refine ⟨q₁, inv₁, keeps, again, fun here => ?_, fun here => ?_⟩
  · rw [start, if_pos (decide_eq_true (is_full.mpr here))]
  · rw [start, if_neg fun is => here (is_full.mp (of_decide_eq_true is))]

end

end OpenNic
