import OpenNic.Tx.PfClean

namespace OpenNic

/-- Every frame that `next_to_use` has passed was released once, in its slot and as its
    kind requires; with nobody at the ring nothing else is left to free or to unmap. -/
structure TxStopped (q : TxQueue) : Prop where
  released : q.tail.released = (q.head.accepted.take q.head.used).mapIdx (dueAt (q.count - 1))
  skbs : q.txLock = none → q.head.disposed.Perm q.freed
  mappings : q.txLock = none → q.head.mapped.Perm q.tail.unmapped

theorem TxStopped.actions {q : TxQueue} (stopped : TxStopped q) :
    q.tail.released.flatMap TxRelease.actions = (q.head.accepted.take q.head.used).flatMap TxFrame.due := by
  have each (frames : List TxFrame) : (frames.mapIdx (dueAt (q.count - 1))).map TxRelease.actions = frames.map TxFrame.due :=
    List.ext_getElem (by simp) fun i _ _ => by simp [dueAt]
  rw [stopped.released, List.flatMap_def, List.flatMap_def, each]

section

variable {size : Nat} {t : Nat} {q q' : TxQueue}

theorem TxInv.released_le_used (inv : TxInv size PfKind Whole q) : q.tail.released.length ≤ q.head.used :=
  inv.released_le.trans (inv.completed_le.trans inv.published_le)

/-- Between the two indices of a ring there are only frames that are not released yet. -/
theorem TxInv.between_iff (inv : TxInv size PfKind Whole q) :
    (∀ i, i < q.count - 1 → Cyclic.Between (q.count - 1) q.tail.nextToClean q.head.nextToUse i → q.slots i = none) ↔
      q.tail.released.length = q.head.used := by
  have slots : q.count - 1 = size := by rw [inv.count, Nat.add_sub_cancel]
  have room := inv.room
  have passed := inv.used_le
  have cleaned := inv.cleaned_le
  have ordered := inv.released_le_used
  have positive := inv.size_pos
  rw [slots, inv.nextToClean, inv.nextToUse]
  constructor
  · intro empty
    by_contra other
    have more : q.tail.released.length < q.head.used := by omega
    have small : q.tail.released.length % size < size := Nat.mod_lt _ positive
    have none := empty _ small
      ((Cyclic.between_iff (by omega) (by omega) small).mpr ⟨_, cleaned, more, rfl⟩)
    rw [inv.slots.front (by omega)] at none
    cases none
  · intro all i small between
    obtain ⟨n, low, high, rfl⟩ := (Cyclic.between_iff (by omega) (by omega) small).mp between
    refine inv.slots.free _ fun m low' high' same => ?_
    have above : q.tail.cleaned ≤ m := by omega
    have here := Cyclic.mod_inj above (by omega) low (by omega) same
    omega

end

end OpenNic
