import OpenNic.Tx.PfClean

namespace OpenNic

namespace TxQueue

/-- Slot `i` holds the skb. -/
def Holds (q : TxQueue) (skb i : Nat) : Prop := (q.buffer i).type = .skb ∧ (q.buffer i).ptr = some skb

/-- The skb is the caller's. -/
def Untouched (q : TxQueue) (skb : Nat) : Prop := skb ∉ q.freed ∧ ∀ i, ¬ q.Holds skb i

def FreedOnce (q : TxQueue) (skb : Nat) : Prop := q.freed.count skb = 1 ∧ ∀ i, ¬ q.Holds skb i

/-- The skb is alive and in one slot only. -/
def Stored (q : TxQueue) (skb : Nat) : Prop :=
  skb ∉ q.freed ∧ ∃ i, i < q.onicRingGetRealCount ∧ q.Holds skb i ∧ ∀ j, q.Holds skb j → j = i

end TxQueue

/-- What goes on after the call: the hardware, and cleans of any thread. -/
inductive TxLater (q q' : TxQueue) : Prop
  | hardware (happens : TxHardware q q') : TxLater q q'
  | clean (t : Nat) (ran : Program.Exec (onicTxClean t) q () q') : TxLater q q'

/-- A call of `onic_xmit_frame` in `q` that returns `ret` in `q'` leaves the skb with one
    owner, for good, and has not used it after it was freed. -/
structure TxOwned (q : TxQueue) (skb : Nat) (ret : NetdevTx) (q' : TxQueue) : Prop where
  owner : (ret = .busy ∧ q'.head = q.head ∧ q'.Untouched skb) ∨
    (ret = .ok ∧ (q'.FreedOnce skb ∨ q'.Stored skb))
  used : q'.misused = q.misused
  later : ∀ q'', Relation.ReflTransGen TxLater q' q'' → q''.freed.count skb ≤ 1

section

variable {size : Nat} {rest : TxHead → Prop} {t : Nat} {q q' : TxQueue} {skb : Nat}

theorem TxInv.holds_iff (inv : TxInv size PfKind rest q) :
    (∃ i, q.Holds skb i) ↔ skb ∈ q.live.filterMap TxFrame.skb? := by
  rw [List.mem_filterMap]
  constructor
  · rintro ⟨i, type, ptr⟩
    have here : q.slots i = some ⟨.skb, skb, (q.buffer i).dmaAddr, (q.buffer i).len⟩ := by
      simp [TxQueue.slots, TxBuffer.held, type, ptr]
    obtain ⟨n, less, low, -, frame⟩ := inv.slots.eq_some_iff.mp here
    refine ⟨⟨.skb, skb, (q.buffer i).dmaAddr, (q.buffer i).len⟩, ?_, rfl⟩
    rw [← frame, TxQueue.live]
    exact List.mem_drop_iff_getElem.mpr ⟨n - q.tail.released.length, by omega, by
      simp only [Nat.add_sub_cancel' low]⟩
  · rintro ⟨frame, mem, is⟩
    obtain ⟨n, less, here⟩ := List.mem_drop_iff_getElem.mp mem
    have slot := inv.slots.held (q.tail.released.length + n) (by omega) (Nat.le_add_right _ _)
    have buffer := TxBuffer.eq_buffer slot
    rw [here] at buffer
    rw [TxFrame.skb?] at is
    split at is
    · rename_i type
      cases is
      exact ⟨_, by rw [buffer]; exact type, by rw [buffer]; rfl⟩
    · cases is

theorem TxInv.untouched_iff (inv : TxInv size PfKind rest q) : q.Untouched skb ↔ skb ∉ q.head.disposed := by
  rw [inv.skbs.mem_iff, List.mem_append, not_or, ← inv.holds_iff, TxQueue.Untouched, not_exists]

theorem TxInv.later (inv : TxInv size PfKind rest q) (next : TxLater q q') :
    TxInv size PfKind rest q' ∧ q'.head = q.head := by
  cases next with
  | hardware happens =>
    refine ⟨(inv.env happens).1, ?_⟩
    cases happens <;> rfl
  | clean t ran =>
    obtain ⟨inv', keeps⟩ := onicTxClean_alone inv ran
    exact ⟨inv', keeps.head⟩

/-- Whatever goes on later, an skb is freed at most as often as it was disposed of. -/
theorem TxInv.freed_later (inv : TxInv size PfKind rest q) (run : Relation.ReflTransGen TxLater q q') :
    q'.freed.count skb ≤ q.head.disposed.count skb := by
  have after : TxInv size PfKind rest q' ∧ q'.head = q.head := by
    induction run with
    | refl => exact ⟨inv, rfl⟩
    | tail _ last ih =>
      obtain ⟨inv', head⟩ := ih.1.later last
      exact ⟨inv', head.trans ih.2⟩
  rw [← after.2, after.1.skbs.count_eq, List.count_append]
  exact Nat.le_add_right _ _

/-- What `onicXmitMap` does with an skb. -/
structure Mapped (input : TxInput) (q : TxQueue) (skb : Nat) (q' : TxQueue) : Prop where
  used : q'.misused = q.misused ++ [skb].filter (· ∈ q.freed) ++
    if input.mapping.isSome then [skb].filter (· ∈ q.freed) else []
  disposed : q'.head.disposed = q.head.disposed ++ [skb]
  freed : q'.freed = if input.mapping.isSome then q.freed else q.freed ++ [skb]
  buffer : ∀ i, q'.buffer i = q.buffer i ∨
    (input.mapping.isSome ∧ i = q.head.nextToUse ∧ (q'.buffer i).type = .skb ∧ (q'.buffer i).ptr = some skb)
  stored : input.mapping.isSome → q'.Holds skb q.head.nextToUse

/-- What is left to do once a frame is stored. -/
structure StoredKeeps (q q' : TxQueue) : Prop where
  buffer : q'.buffer = q.buffer
  freed : q'.freed = q.freed
  misused : q'.misused = q.misused
  disposed : q'.head.disposed = q.head.disposed

/-- `onicXmitMap` once the frame is stored. -/
theorem stored_eval (input : TxInput) (q : TxQueue) (len : Nat) :
    ∃ q', (do
      TxAccess.countPacket len
      onicRingIncrementHead
      let full ← onicRingFull
      let more ← TxAccess.netdevXmitMore
      if full || !more then
        TxAccess.writePidx
        .done .ok
      else .done .ok : Program TxQueue TxInput NetdevTx).eval input q = some (.ok, q') ∧ StoredKeeps q q' := by
  simp only [TxAccess.countPacket, onicRingIncrementHead, TxAccess.writeNextToUse, onicRingFull,
    TxAccess.netdevXmitMore, Program.eval_bind, Program.eval_modify, Program.eval_read, Program.eval_access,
    Option.bind_some]
  split
  · exact ⟨_, rfl, rfl, rfl, rfl, rfl⟩
  · exact ⟨_, rfl, rfl, rfl, rfl, rfl⟩

theorem onicXmitMap_eval (input : TxInput) (q : TxQueue) (skb len : Nat) :
    ∃ q', (onicXmitMap skb len).eval input q = some (.ok, q') ∧ Mapped input q skb q' := by
  obtain ⟨padto, mapping, xmitMore⟩ := input
  cases mapping with
  | none => exact ⟨_, rfl, (List.append_nil _).symm, rfl, rfl, fun _ => .inl rfl, nofun⟩
  | some dmaAddr =>
    obtain ⟨q₂, mapped, is⟩ : ∃ q₂, (TxAccess.dmaMapSingle (some skb) len).eval ⟨padto, some dmaAddr, xmitMore⟩ q =
        some (some dmaAddr, q₂) ∧ q₂.misused = q.misused ++ [skb].filter (· ∈ q.freed) ∧ q₂.freed = q.freed ∧
        q₂.buffer = q.buffer ∧ q₂.head.nextToUse = q.head.nextToUse ∧ q₂.head.disposed = q.head.disposed :=
      ⟨_, rfl, rfl, rfl, rfl, rfl, rfl⟩
    obtain ⟨misused, freed, buffer, next, disposed⟩ := is
    obtain ⟨q₃, stored, is⟩ : ∃ q₃, (TxAccess.store ⟨.skb, skb, dmaAddr, len⟩).eval ⟨padto, some dmaAddr, xmitMore⟩ q₂ =
        some ((), q₃) ∧ q₃.misused = q₂.misused ++ [skb].filter (· ∈ q₂.freed) ∧ q₃.freed = q₂.freed ∧
        q₃.buffer = Function.update q₂.buffer q₂.head.nextToUse ⟨.skb, some skb, dmaAddr, len⟩ ∧
        q₃.head.disposed = q₂.head.disposed ++ [skb] := ⟨_, rfl, rfl, rfl, rfl, rfl⟩
    obtain ⟨misused', freed', buffer', disposed'⟩ := is
    obtain ⟨q', ran, keeps⟩ := stored_eval ⟨padto, some dmaAddr, xmitMore⟩ q₃ len
    refine ⟨q', ?_, ?_, ?_, ?_, fun i => ?_, fun _ => ?_⟩
    · rw [onicXmitMap, Program.eval_bind, mapped, Option.bind_some, Program.eval_bind, stored, Option.bind_some]
      exact ran
    · rw [keeps.misused, misused', misused, freed]
      rfl
    · rw [keeps.disposed, disposed', disposed]
    · rw [keeps.freed, freed', freed]
      rfl
    · rw [keeps.buffer, buffer', buffer, next]
      by_cases here : i = q.head.nextToUse
      · exact .inr ⟨rfl, here, by simp [here]⟩
      · exact .inl (Function.update_of_ne here _ _)
    · rw [TxQueue.Holds, keeps.buffer, buffer', next, Function.update_self]
      exact ⟨rfl, rfl⟩

/-- An skb that is padded has one owner after the call. -/
theorem Mapped.owned {input : TxInput} {q : TxQueue} (before : q.Untouched skb)
    (small : q.head.nextToUse < q'.onicRingGetRealCount) (mapped : Mapped input q skb q') :
    q'.misused = q.misused ∧ (q'.FreedOnce skb ∨ q'.Stored skb) := by
  have fresh : [skb].filter (· ∈ q.freed) = [] := by simp [before.1]
  constructor
  · rw [mapped.used, fresh]
    simp
  · cases here : input.mapping.isSome with
    | false =>
      left
      have freed := mapped.freed
      rw [here, if_neg nofun] at freed
      refine ⟨?_, fun i => ?_⟩
      · rw [freed, List.count_append, List.count_eq_zero_of_not_mem before.1]
        simp
      · rcases mapped.buffer i with same | ⟨some, -⟩
        · rw [TxQueue.Holds, same]
          exact before.2 i
        · rw [here] at some
          cases some
    | true =>
      right
      have freed := mapped.freed
      rw [here, if_pos rfl] at freed
      refine ⟨freed ▸ before.1, q.head.nextToUse, small, mapped.stored here, fun j holds => ?_⟩
      rcases mapped.buffer j with same | ⟨-, there, -⟩
      · rw [TxQueue.Holds, same] at holds
        exact absurd holds (before.2 j)
      · exact there

/-- An skb whose padding has failed is used all the same. -/
theorem Mapped.used_freed {input : TxInput} {q : TxQueue} (freed : skb ∈ q.freed) (mapped : Mapped input q skb q') :
    q'.misused ≠ q.misused := by
  intro same
  have length := congrArg List.length mapped.used
  rw [same] at length
  simp [freed] at length

end

theorem pf_tx_owned_iff {q₀ : TxQueue} {P : Pool Nat TxQueue TxInput} {t : Nat} {skb : Skb} (fresh : TxFresh q₀)
    (reach : Pool.Reach pfTxRules (fun _ => True) (Pool.start q₀) P) (idle : P.thread t = .done ())
    (free : P.state.txLock = none) (alive : P.state.Untouched skb.id) (input : TxInput) :
    ∃ ret q', (onicXmitFrame t skb).eval input { P.state with txLock := some t } = some (ret, q') ∧
      (TxOwned { P.state with txLock := some t } skb.id ret q' ↔ P.state.FullOnceCleaned ∨ 0 ≤ input.padto) := by
  obtain ⟨inv, idles⟩ := pf_tx_reach fresh reach
  have whole := inv.headIdle free
  have bit : P.state.cleaning ≠ some t := (idles t idle).tail
  replace inv := inv.lock t
  have unused : skb.id ∉ P.state.head.disposed := inv.untouched_iff.mp alive
  obtain ⟨q₁, inv₁, keeps, -, full, room⟩ := onicTxClean_then inv t input (.done NetdevTx.busy) (do
    let rv ← TxAccess.skbPutPadto skb.id
    onicXmitMap skb.id (if rv < 0 then skb.len else max skb.len ethZlen))
  have untouched : q₁.Untouched skb.id := inv₁.untouched_iff.mpr (keeps.head ▸ unused)
  by_cases here : P.state.FullOnceCleaned
  · refine ⟨.busy, q₁, full here, iff_of_true ⟨.inl ⟨rfl, keeps.head, untouched⟩, keeps.misused, fun q'' run => ?_⟩
      (.inl here)⟩
    have bound : q''.freed.count skb.id ≤ q₁.head.disposed.count skb.id := inv₁.freed_later run
    rw [show q₁.head = P.state.head from keeps.head, List.count_eq_zero_of_not_mem unused] at bound
    omega
  · have start : (onicXmitFrame t skb).eval input { P.state with txLock := some t } =
        (onicXmitMap skb.id (if min input.padto 0 < 0 then skb.len else max skb.len ethZlen)).eval input
          (if min input.padto 0 < 0 then { q₁ with
            freed := q₁.freed ++ [skb.id]
            head := { q₁.head with disposed := q₁.head.disposed ++ [skb.id], padFailed := true } }
          else q₁) := (room here).trans rfl
    by_cases failed : input.padto < 0
    · have negative : min input.padto 0 < 0 := by omega
      simp only [if_pos negative] at start
      obtain ⟨q', ran, mapped⟩ := onicXmitMap_eval input { q₁ with
        freed := q₁.freed ++ [skb.id]
        head := { q₁.head with disposed := q₁.head.disposed ++ [skb.id], padFailed := true } } skb.id skb.len
      refine ⟨.ok, q', start.trans ran, iff_of_false (fun owned => ?_) fun either => ?_⟩
      · exact mapped.used_freed (by simp) (owned.used.trans keeps.misused.symm)
      · rcases either with is | padded
        · exact here is
        · omega
    · have zero : ¬ min input.padto 0 < 0 := by omega
      simp only [if_neg zero] at start
      obtain ⟨q', ran, mapped⟩ := onicXmitMap_eval input q₁ skb.id (max skb.len ethZlen)
      have sent : (onicXmitFrame t skb).eval input { P.state with txLock := some t } = some (.ok, q') :=
        start.trans ran
      have inv' : TxInv q₀.size PfKind Whole q' :=
        (Contract.wp_exec (.of_eval sent) (fun _ => trivial) inv
          (onicXmitFrame_triple skb whole _ trivial inv ⟨⟨rfl, rfl⟩, bit⟩)).1
      have small : q₁.head.nextToUse < q'.onicRingGetRealCount := by
        rw [inv'.realCount, inv₁.nextToUse]
        exact Nat.mod_lt _ inv₁.size_pos
      obtain ⟨used, owner⟩ := mapped.owned untouched small
      refine ⟨.ok, q', sent, iff_of_true ⟨.inr ⟨rfl, owner⟩, used.trans keeps.misused, fun q'' run => ?_⟩
        (.inr (by omega))⟩
      have bound : q''.freed.count skb.id ≤ q'.head.disposed.count skb.id := inv'.freed_later run
      rw [mapped.disposed, keeps.head, List.count_append, List.count_eq_zero_of_not_mem unused] at bound
      simpa using bound

theorem pf_tx_owned_iff_padded :
    ∃ ret q', (onicXmitFrame 0 ⟨7, 42⟩).eval ⟨0, some 4096, false⟩ { TxQueue.initial 4096 with txLock := some 0 } =
        some (ret, q') ∧ TxOwned { TxQueue.initial 4096 with txLock := some 0 } 7 ret q' := by
  have fresh : TxFresh (TxQueue.initial 4096) := TxQueue.initial_fresh (by decide)
  have alive : (TxQueue.initial 4096).Untouched 7 := ⟨nofun, fun i holds => nomatch holds.1⟩
  obtain ⟨ret, q', ran, owned⟩ := @pf_tx_owned_iff _ _ 0 ⟨7, 42⟩ fresh .refl rfl rfl alive ⟨0, some 4096, false⟩
  exact ⟨ret, q', ran, owned.mpr (.inr (by decide))⟩

/-- The padding fails and frees the skb, which is mapped and stored all the same; the
    clean frees it again. -/
theorem pf_tx_pad_failure_frees_twice :
    ∃ q' q'', (onicXmitFrame 0 ⟨7, 42⟩).eval ⟨-12, some 4096, false⟩ { TxQueue.initial 4096 with txLock := some 0 } =
        some (.ok, q') ∧ Relation.ReflTransGen TxLater q' q'' ∧ q''.freed = [7, 7] ∧
      ¬ TxOwned { TxQueue.initial 4096 with txLock := some 0 } 7 .ok q' := by
  have played : (((onicXmitFrame 0 ⟨7, 42⟩).eval ⟨-12, some 4096, false⟩
      { TxQueue.initial 4096 with txLock := some 0 }).bind fun r =>
        ((onicTxClean 1).eval ⟨0, none, false⟩ (completeOne r.2)).map fun r' => (r.1, r'.2.freed)) =
      some (.ok, [7, 7]) := by decide +kernel
  obtain ⟨⟨ret, q'⟩, sent, rest⟩ := Option.bind_eq_some_iff.mp played
  obtain ⟨⟨_, q''⟩, cleaned, is⟩ := Option.map_eq_some_iff.mp rest
  simp only [Prod.mk.injEq] at is
  obtain ⟨rfl, freed⟩ := is
  have run : Relation.ReflTransGen TxLater q' q'' :=
    .tail (.single (.hardware (completeOne_hardware q'))) (.clean 1 (.of_eval cleaned))
  refine ⟨q', q'', sent, run, freed, fun owned => ?_⟩
  have once := owned.later q'' run
  rw [freed] at once
  revert once
  decide

end OpenNic
