import OpenNic.Tx.Conservation
import OpenNic.Tx.VfDriver

namespace OpenNic

/-- The VF sends skbs only. -/
abbrev VfKind (type : TxBufType) : Prop := type = .skb

section

variable {size : Nat} {rest : TxHead → Prop} {t : Nat} {h : Option TxHead}
  {k : Option TxTail} {head : TxHead} {priv : VfTxPriv}

theorem TxInv.vfRealCount {q : TxQueue} (inv : TxInv size VfKind rest q) : q.onicVfRingRealCount = size := by
  rw [TxQueue.onicVfRingRealCount, inv.count, Nat.add_sub_cancel]

/-- Wrapping by comparison is the step on the cycle. -/
theorem wrap_eq {n : Nat} (small : n % size < size) :
    (if n % size + 1 = size then 0 else n % size + 1) = (n + 1) % size := by
  rw [← Nat.mod_add_mod]
  split
  · rename_i last
    rw [last, Nat.mod_self]
  · exact (Nat.mod_eq_of_lt (by omega)).symm

theorem onicVfTxRingFull_triple :
    (txContract size VfKind rest t).Triple (Owns t (some head) k) onicVfTxRingFull fun full q =>
      Owns t (some head) k q ∧ (full = false → Room size head.used q) := by
  apply tx_look stable_own
  · intro full q q' ⟨owns, room⟩ between _ _
    exact ⟨owns.rely between, fun free => lasting_room q q' (room free) between.cleaned between.completed⟩
  · intro q _ full q' inv owns taken
    cases taken
    refine ⟨rfl, owns, fun free => ?_⟩
    have not_full := of_decide_eq_false free
    have next := wrap_eq (Nat.mod_lt q.head.used inv.size_pos)
    rw [← inv.nextToUse] at next
    have full_iff := inv.full_iff
    rw [inv.vfRealCount, next] at not_full
    rw [inv.nextToUse, Nat.mod_add_mod] at full_iff
    rw [full_iff] at not_full
    have within := inv.used_le.trans_lt inv.room
    obtain ⟨-, rfl⟩ := held_lock owns
    rw [Room]
    omega

theorem onicVfTxRingIncrementHead_triple (stored : head.used < head.accepted.length) :
    (txContract size VfKind rest t).Triple (Owns t (some head) k) onicVfTxRingIncrementHead fun _ =>
      Owns t (some { head with nextToUse := (head.used + 1) % size, used := head.used + 1 }) k := by
  apply (writeNextToUse_triple lasting_true stored ?_ rfl).of_true
  intro q inv same
  have next := wrap_eq (Nat.mod_lt q.head.used inv.size_pos)
  rw [inv.vfRealCount, inv.nextToUse, next, same]

theorem onicVfTxRelease_due (frame : TxFrame) (skb : VfKind frame.type) :
    onicVfTxRelease frame.buffer = frame.due := by
  obtain ⟨type, id, dmaAddr, len⟩ := frame
  cases skb
  rfl

/-- The loop ends at the write-back, before its count does. -/
theorem onicVfTxCleanLoop_triple {start n c left : Nat} (ordered : n ≤ c) (within : c < n + size)
    (enough : c ≤ n + left) :
    (txContract size VfKind rest t).Triple (Cleaning size t h start n n c)
      (onicVfTxCleanLoop (c % size) left) fun _ => Cleaning size t h start c c c := by
  induction left generalizing n with
  | zero =>
    obtain rfl : n = c := by omega
    exact .done stable_cleaning fun _ _ here => here
  | succ left ih =>
    apply Contract.Triple.bind readNextToClean_triple
    intro clean
    apply Contract.Triple.pure_pre
    rintro rfl
    split
    · rename_i same
      obtain rfl : n = c := Cyclic.mod_inj (Nat.le_refl n) (by omega) ordered within same
      exact .done stable_cleaning fun _ _ here => here
    · rename_i apart
      have more : n < c := by
        have other : n ≠ c := fun is => apart (by rw [is])
        omega
      apply Contract.Triple.bind (release_triple more onicVfTxRelease_due fun _ _ => rfl)
      intro _
      apply Contract.Triple.bind (writeNextToClean_triple ?_)
      · exact fun _ => ih more (by omega) (by omega)
      · intro q inv here
        rw [inv.vfRealCount, here]
        exact wrap_eq (Nat.mod_lt n inv.size_pos)

theorem tx_read {α : Type} {P : TxQueue → Prop} (stable : (txContract size VfKind rest t).Stable P)
    (f : TxQueue → α) (a : α) (is : ∀ q, TxInv size VfKind rest q → f q = a) :
    (txContract size VfKind rest t).Triple P (.read f : Program TxQueue TxInput α) fun b q => b = a ∧ P q := by
  apply tx_look stable fun _ => stable.pure_and
  intro q _ b q' inv holds taken
  obtain ⟨rfl, rfl⟩ : f q = b ∧ q = q' := by simpa using taken
  exact ⟨rfl, is q inv, holds⟩

theorem onicVfTxClean_triple :
    (txContract size VfKind rest t).Triple (Owns t h none) (onicVfTxClean priv t) fun _ => Owns t h none := by
  rw [onicVfTxClean]
  split
  · apply Contract.Triple.bind (tx_read stable_own _ true fun _ inv => inv.wbMapped)
    intro mapped
    apply Contract.Triple.pure_pre
    rintro rfl
    apply Contract.Triple.bind testAndSetBit_triple
    intro busy
    split
    · rename_i set
      exact .from_pre _ (fun _ _ here => here.1 set) (owns_done ())
    · rename_i free
      refine .from_pre (fun q => ∃ start, Cleaning size t h start start start 0 q)
        (fun _ _ here => here.2 (by simpa using free)) ?_
      apply Contract.Triple.exists_pre
      intro start
      apply Contract.Triple.bind (tx_read stable_cleaning _ size fun _ inv => inv.vfRealCount)
      intro realCount
      apply Contract.Triple.pure_pre
      intro is
      apply Contract.Triple.bind readWb_triple
      intro cidx
      apply Contract.Triple.exists_pre
      intro c
      apply Contract.Triple.pure_pre
      rintro ⟨rfl, from_start, within⟩
      rw [is]
      exact .bind (onicVfTxCleanLoop_triple from_start within (by omega)) fun _ =>
        clearBit_triple from_start within
  · exact owns_done ()

/-- What a call of `onic_vf_xmit_frame` does: it refuses the skb, or disposes of it and
    counts it once. -/
structure VfOutcome (priv : VfTxPriv) (head : TxHead) (skb : Nat) (ret : NetdevTx) (head' : TxHead) : Prop where
  whole : Whole head'
  unused : priv.queue = false → head'.accepted = head.accepted
  calls : head'.calls = head.calls
  doorbell : head'.accepted ≠ [] → head'.doorbell = some (descPidx head'.nextToUse)
  disposed : head'.disposed = head.disposed ++ if ret = .ok then [skb] else []
  counted : if ret = .ok then
      (head'.txPackets = head.txPackets + 1 ∧ head'.txDropped = head.txDropped) ∨
        (head'.txPackets = head.txPackets ∧ head'.txDropped = head.txDropped + 1)
    else head'.txPackets = head.txPackets ∧ head'.txDropped = head.txDropped

def VfSent (priv : VfTxPriv) (t : Nat) (head : TxHead) (skb : Nat) (ret : NetdevTx) (q : TxQueue) : Prop :=
  ∃ head', VfOutcome priv head skb ret head' ∧ Owns t (some head') none q

theorem vfSent_done {head' : TxHead} {skb : Nat} {ret : NetdevTx} (outcome : VfOutcome priv head skb ret head') :
    (txContract size VfKind rest t).Triple (Owns t (some head') none)
      (.done ret : Program TxQueue TxInput NetdevTx) (VfSent priv t head skb) :=
  .done stable_own fun _ _ owns => ⟨head', outcome, owns⟩

/-- Nothing is half done, and the doorbell is where `next_to_use` is. -/
structure Rung (head : TxHead) : Prop where
  whole : Whole head
  doorbell : head.accepted ≠ [] → head.doorbell = some (descPidx head.nextToUse)

theorem onicVfXmitDrop_triple (skb : Skb) (rung : Rung head) :
    (txContract size VfKind rest t).Triple (Owns t (some head) none) (onicVfXmitDrop skb)
      (VfSent priv t head skb.id) := by
  apply Contract.Triple.bind (countDropped_triple lasting_true).of_true
  intro _
  apply Contract.Triple.bind (kfreeSkb_triple lasting_true skb.id).of_true
  intro _
  exact vfSent_done ⟨⟨rung.whole.used, rung.whole.pending⟩, fun _ => rfl, rfl, rung.doorbell, rfl, .inr ⟨rfl, rfl⟩⟩

/-- A frame is stored where there is room, counted and published. -/
theorem store_count_publish (frame : TxFrame) (valid : onicVfQidValid priv = true) (queue : priv.queue = true)
    (used : head.used = head.accepted.length) (skb : frame.type = .skb)
    (pending : head.pending = frame.mapping?.toList) :
    (txContract size VfKind rest t).Triple (fun q => Owns t (some head) none q ∧ Room size head.used q) (do
        TxAccess.store frame
        TxAccess.countPacket frame.len
        onicVfTxRingIncrementHead
        onicVfSetTxHead priv
        .done NetdevTx.ok) (VfSent priv t head frame.id) := by
  apply Contract.Triple.bind (store_triple used skb pending)
  intro _
  apply Contract.Triple.bind (countPacket_triple lasting_true frame.len).of_true
  intro _
  apply Contract.Triple.bind (onicVfTxRingIncrementHead_triple (by simp [TxHead.stored, used]))
  intro _
  rw [onicVfSetTxHead, if_pos valid]
  apply Contract.Triple.bind (writePidx_triple lasting_true).of_true
  intro _
  have same : frame.skb?.toList = [frame.id] := by simp [TxFrame.skb?, skb]
  exact vfSent_done ⟨⟨by simp [TxHead.stored, used], rfl⟩, by simp [queue], rfl, fun _ => rfl,
    congrArg (head.disposed ++ ·) same, .inl ⟨rfl, rfl⟩⟩

theorem onicVfXmitEnqueue_triple (skb : Skb) (valid : onicVfQidValid priv = true) (queue : priv.queue = true) (rung : Rung head) :
    (txContract size VfKind rest t).Triple (fun q => Owns t (some head) none q ∧ Room size head.used q)
      (onicVfXmitEnqueue priv skb) (VfSent priv t head skb.id) := by
  apply Contract.Triple.bind (skbPutPadto_triple lasting_room skb.id)
  intro rv
  apply Contract.Triple.pure_pre
  intro bound
  split
  · rename_i nonzero
    have failed : rv < 0 := by omega
    rw [TxHead.padResult, if_pos failed]
    refine .from_pre _ (fun _ _ here => here.1) (.bind (countDropped_triple lasting_true).of_true fun _ => ?_)
    exact vfSent_done ⟨⟨rung.whole.used, rung.whole.pending⟩, fun _ => rfl, rfl, rung.doorbell, rfl, .inr ⟨rfl, rfl⟩⟩
  · rename_i zero
    have passed : ¬ rv < 0 := by omega
    rw [TxHead.padResult, if_neg passed]
    apply Contract.Triple.bind (dmaMapSingle_triple lasting_room (some skb.id) _)
    intro mapping
    cases mapping with
    | none => exact .from_pre _ (fun _ _ here => here.1) (onicVfXmitDrop_triple skb rung)
    | some dmaAddr =>
      have used : (head.mapResult (max skb.len ethZlen) (some dmaAddr)).used =
          (head.mapResult (max skb.len ethZlen) (some dmaAddr)).accepted.length := rung.whole.used
      have pending : (head.mapResult (max skb.len ethZlen) (some dmaAddr)).pending =
          [⟨dmaAddr, max skb.len ethZlen⟩] := by
        simp [TxHead.mapResult, rung.whole.pending]
      apply Contract.Triple.conseq
        (store_count_publish ⟨.skb, skb.id, dmaAddr, max skb.len ethZlen⟩ valid queue used rfl pending)
        (fun _ _ here => here)
      rintro ret _ - ⟨head', outcome, owns⟩
      exact ⟨head', ⟨outcome.whole, outcome.unused, outcome.calls, outcome.doorbell, outcome.disposed, outcome.counted⟩, owns⟩

theorem onicVfXmitFrame_triple (skb : Skb) (valid : priv.numTxQueues ≠ 0 → onicVfQidValid priv = true) (rung : Rung head) :
    (txContract size VfKind rest t).Triple (Owns t (some head) none) (onicVfXmitFrame priv t skb)
      (VfSent priv t head skb.id) := by
  rw [onicVfXmitFrame]
  split
  · exact onicVfXmitDrop_triple skb rung
  · rename_i queues
    split
    · exact onicVfXmitDrop_triple skb rung
    · rename_i there
      have queue : priv.queue = true := by simpa using there
      apply Contract.Triple.bind onicVfTxClean_triple
      intro _
      apply Contract.Triple.bind onicVfTxRingFull_triple
      intro full
      split
      · refine .from_pre (Owns t (some head) none) (fun _ _ here => here.1) ?_
        apply Contract.Triple.bind onicVfTxClean_triple
        intro _
        apply Contract.Triple.bind onicVfTxRingFull_triple
        intro still
        split
        · refine .from_pre _ (fun _ _ here => here.1) (vfSent_done ?_)
          exact ⟨rung.whole, fun _ => rfl, rfl, rung.doorbell, (List.append_nil _).symm, rfl, rfl⟩
        · rename_i free
          exact .from_pre _ (fun _ _ here => ⟨here.1, here.2 (by simpa using free)⟩)
            (onicVfXmitEnqueue_triple skb (valid queues) queue rung)
      · rename_i free
        exact .from_pre _ (fun _ _ here => ⟨here.1, here.2 (by simpa using free)⟩)
          (onicVfXmitEnqueue_triple skb (valid queues) queue rung)

end

def TxCall.Counted (call : TxCall) : Prop :=
  if call.ret = .ok then call.packets + call.dropped = 1 else call.packets = 0 ∧ call.dropped = 0

/-- The skbs that the calls so far have taken. -/
def TxHead.okSkbs (head : TxHead) : List Nat :=
  (head.calls.filter fun call => decide (call.ret = .ok)).map TxCall.skb

/-- What a finished call of the VF's transmit leaves behind. -/
structure VfRest (priv : VfTxPriv) (head : TxHead) : Prop where
  rung : Rung head
  disposed : head.disposed = head.okSkbs
  counted : ∀ call ∈ head.calls, call.Counted
  unused : priv.queue = false → head.accepted = []

theorem VfOutcome.rest {priv : VfTxPriv} {head head' : TxHead} {skb : Nat} {ret : NetdevTx}
    (outcome : VfOutcome priv head skb ret head') (left : VfRest priv head) :
    VfRest priv { head' with calls := head'.calls ++
      [⟨skb, ret, head'.txPackets - head.txPackets, head'.txDropped - head.txDropped⟩] } where
  rung := ⟨⟨outcome.whole.used, outcome.whole.pending⟩, outcome.doorbell⟩
  disposed := by
    rw [TxHead.okSkbs, List.filter_append, List.map_append, outcome.calls]
    simp only [outcome.disposed, left.disposed, TxHead.okSkbs]
    cases ret <;> rfl
  counted := by
    intro call mem
    rw [List.mem_append, outcome.calls, List.mem_singleton] at mem
    rcases mem with before | rfl
    · exact left.counted call before
    · have counted := outcome.counted
      cases ret with
      | ok =>
        rw [if_pos rfl] at counted
        rw [TxCall.Counted, if_pos rfl]
        simp only
        omega
      | busy =>
        rw [if_neg nofun] at counted
        rw [TxCall.Counted, if_neg nofun]
        simp only
        omega
  unused absent := (outcome.unused absent).trans (left.unused absent)

/-- The programs a thread of the VF runs on one of its transmit queues: the stack's
    transmit, and the clean of the poll and of the periodic work. -/
inductive VfTxCall (priv : VfTxPriv) (t : Nat) : Program TxQueue TxInput Unit → Prop
  | xmitFrame (skb : Skb) : VfTxCall priv t (transmit t skb (onicVfXmitFrame priv t skb))
  | txClean : VfTxCall priv t (onicVfTxClean priv t)

def vfTxRules (priv : VfTxPriv) : Pool.Rules Nat TxQueue TxInput where
  calls t _ := VfTxCall priv t
  env := TxHardware

/-- What holds of the VF from `onic_vf_probe` until `onic_vf_remove` has unregistered it. -/
structure VfTxPriv.Probed (priv : VfTxPriv) : Prop where
  resourceValid : priv.resourceValid = true
  qdev : priv.qdev = true
  qid : priv.numTxQueues ≠ 0 → priv.qid < priv.numTxQueues
  numTxQueues : priv.numTxQueues ≤ priv.qmax

theorem VfTxPriv.Probed.valid {priv : VfTxPriv} (probed : priv.Probed) (queues : priv.numTxQueues ≠ 0) :
    onicVfQidValid priv = true := by
  have less : priv.qid < priv.qmax := (probed.qid queues).trans_le probed.numTxQueues
  simp [onicVfQidValid, probed.resourceValid, probed.qdev, less]

section

variable {size : Nat} {priv : VfTxPriv} {t : Nat}

theorem vfTxCall_triple (probed : priv.Probed) {p : Program TxQueue TxInput Unit} (call : VfTxCall priv t p) :
    (txContract size VfKind (VfRest priv) t).Triple (Owns t none none) p fun _ => Owns t none none := by
  cases call with
  | xmitFrame skb =>
    apply Contract.Triple.bind txLock_triple
    intro before
    apply Contract.Triple.exists_pre
    intro head
    apply Contract.Triple.pure_pre
    rintro ⟨left, rfl⟩
    apply Contract.Triple.bind (onicVfXmitFrame_triple skb probed.valid left.rung)
    intro ret
    apply Contract.Triple.exists_pre
    intro head'
    apply Contract.Triple.pure_pre
    exact fun outcome => unlockCall_triple (outcome.rest left)
  | txClean => exact onicVfTxClean_triple

theorem vfTxRules_fit (probed : priv.Probed) :
    Pool.Fits (vfTxRules priv) (fun _ => True) (TxInv size VfKind (VfRest priv))
      (txContract size VfKind (VfRest priv)) fun t => Owns t none none :=
  txRules_fit fun _ _ _ call => vfTxCall_triple probed call

end

/-- The slots, the skbs and the mappings of a queue, and what its calls have counted. -/
structure VfTxConserved (q : TxQueue) : Prop where
  ring : RingConserved q
  skbs : q.head.disposed.Perm (q.freed ++ q.live.map TxFrame.id)
  mappings : q.head.mapped.Perm (q.tail.unmapped ++ q.live.map TxFrame.mapping ++ q.head.pending)
  /-- The skbs of the calls that returned `NETDEV_TX_OK`, and no others. -/
  disposed : q.txLock = none → q.head.disposed = q.head.okSkbs
  pending : q.txLock = none → q.head.pending = []
  counted : q.txLock = none → ∀ call ∈ q.head.calls, call.Counted
  doorbell : q.txLock = none → q.head.accepted ≠ [] → ∃ pidx, q.head.doorbell = some pidx ∧
    (bitfieldGet (genmask 15 0) (pidx.setWidth 64)).toNat = q.head.nextToUse

section

variable {size : Nat} {priv : VfTxPriv} {q : TxQueue}

theorem TxInv.live_skbs {rest : TxHead → Prop} (inv : TxInv size VfKind rest q) :
    q.live.filterMap TxFrame.skb? = q.live.map TxFrame.id := by
  have each : ∀ frame ∈ q.live, frame.skb? = some frame.id := fun frame mem =>
    if_pos (inv.typed frame (List.mem_of_mem_drop mem))
  rw [List.filterMap_congr each, List.filterMap_eq_map']

theorem TxInv.live_mappings {rest : TxHead → Prop} (inv : TxInv size VfKind rest q) :
    q.live.filterMap TxFrame.mapping? = q.live.map TxFrame.mapping := by
  have each : ∀ frame ∈ q.live, frame.mapping? = some frame.mapping := fun frame mem =>
    if_pos (.inl (inv.typed frame (List.mem_of_mem_drop mem)))
  rw [List.filterMap_congr each, List.filterMap_eq_map']

theorem TxInv.vfConserved (inv : TxInv size VfKind (VfRest priv) q) (small : size ≤ 2 ^ 16) : VfTxConserved q where
  ring := inv.conserved fun free => (inv.headIdle free).rung.whole.used
  skbs := by
    rw [← inv.live_skbs]
    exact inv.skbs
  mappings := by
    rw [← inv.live_mappings]
    exact inv.mappings
  disposed free := (inv.headIdle free).disposed
  pending free := (inv.headIdle free).rung.whole.pending
  counted free := (inv.headIdle free).counted
  doorbell free sent := by
    refine ⟨_, (inv.headIdle free).rung.doorbell sent, bitfieldGet_descPidx ?_⟩
    rw [inv.nextToUse]
    exact (Nat.mod_lt _ inv.size_pos).trans_le small

end

end OpenNic
