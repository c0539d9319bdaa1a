import OpenNic.Tx.Conservation
import OpenNic.Tx.PfDriver

namespace OpenNic

/-- The PF sends skbs and XDP frames of either kind. -/
abbrev PfKind (type : TxBufType) : Prop := type ≠ .unset

section

variable {size : Nat} {rest : TxHead → Prop} {t : Nat} {h : Option TxHead}
  {k : Option TxTail} {head : TxHead}

theorem TxInv.realCount {q : TxQueue} (inv : TxInv size PfKind rest q) : q.onicRingGetRealCount = size := by
  rw [TxQueue.onicRingGetRealCount, if_pos inv.wbMapped, inv.count, Nat.add_sub_cancel]

theorem onicRingFull_triple :
    (txContract size PfKind rest t).Triple (Owns t (some head) k) onicRingFull fun full q =>
      Owns t (some head) k q ∧ (full = false → Room size head.used q) := by
  apply tx_look stable_own
  · intro full q q' ⟨owns, room⟩ between _ _
    exact ⟨owns.rely between, fun free => lasting_room q q' (room free) between.cleaned between.completed⟩
  · intro q _ full q' inv owns taken
    obtain ⟨rfl, rfl⟩ : decide ((q.head.nextToUse + 1) % q.onicRingGetRealCount = q.tail.nextToClean) = full ∧
        q = q' := by simpa using taken
    refine ⟨rfl, owns, fun free => ?_⟩
    have not_full := of_decide_eq_false free
    rw [inv.realCount, inv.full_iff] at not_full
    have within := inv.used_le.trans_lt inv.room
    obtain ⟨-, rfl⟩ := held_lock owns
    rw [Room]
    omega

theorem onicRingIncrementHead_triple (stored : head.used < head.accepted.length) :
    (txContract size PfKind rest t).Triple (Owns t (some head) k) onicRingIncrementHead fun _ =>
      Owns t (some { head with nextToUse := (head.used + 1) % size, used := head.used + 1 }) k := by
  apply (writeNextToUse_triple lasting_true stored ?_ rfl).of_true
  intro q inv same
  rw [inv.realCount, inv.nextToUse, Nat.mod_add_mod, same]

theorem onicTxRelease_due (frame : TxFrame) (typed : frame.type ≠ .unset) :
    onicTxRelease frame.buffer = frame.due := by
  obtain ⟨type, id, dmaAddr, len⟩ := frame
  cases type with
  | unset => exact absurd rfl typed
  | skb => rfl
  | xdpf => rfl
  | xdpfXmit => rfl

theorem onicTxWipe_empty (frame : TxFrame) (typed : frame.type ≠ .unset) :
    (onicTxWipe frame.buffer).held = none := by
  obtain ⟨type, id, dmaAddr, len⟩ := frame
  cases type with
  | unset => exact absurd rfl typed
  | skb => rfl
  | xdpf => rfl
  | xdpfXmit => rfl

/-- The number of slots a clean works on, whichever side of the wrap the write-back is. -/
theorem clean_work {start c : Nat} (from_start : start ≤ c) (within : c < start + size) :
    (if ((c % size : Nat) : Int) - (start % size : Nat) < 0 then
      ((c % size : Nat) : Int) - (start % size : Nat) + (size : Nat)
      else ((c % size : Nat) : Int) - (start % size : Nat)).toNat = c - start := by
  have small : start % size < size := Nat.mod_lt _ (by omega)
  have small' : c % size < size := Nat.mod_lt _ (by omega)
  have ahead := Cyclic.dist_mod from_start within
  simp only [Cyclic.dist] at ahead
  split
  · rw [Nat.mod_eq_of_lt (by omega)] at ahead
    omega
  · have once : (c % size + size - start % size) % size = c % size - start % size := by
      rw [show c % size + size - start % size = c % size - start % size + size by omega,
        Nat.add_mod_right, Nat.mod_eq_of_lt (by omega)]
    omega

theorem clean_round {start n c : Nat} (more : n < c) :
    (txContract size PfKind rest t).Triple (Cleaning size t h start n n c) (do
        TxAccess.release onicTxRelease onicTxWipe
        onicRingIncrementTail) fun _ => Cleaning size t h start (n + 1) (n + 1) c := by
  apply Contract.Triple.bind (release_triple more onicTxRelease_due onicTxWipe_empty)
  intro _
  apply writeNextToClean_triple
  intro q inv here
  rw [inv.realCount, here, Nat.mod_add_mod]

theorem readRealCount_triple {P : TxQueue → Prop} (stable : (txContract size PfKind rest t).Stable P) :
    (txContract size PfKind rest t).Triple P
      (.read TxQueue.onicRingGetRealCount : Program TxQueue TxInput Nat) fun realCount q =>
      realCount = size ∧ P q := by
  apply tx_look stable fun _ => stable.pure_and
  intro q _ realCount q' inv holds taken
  obtain ⟨rfl, rfl⟩ : q.onicRingGetRealCount = realCount ∧ q = q' := by simpa using taken
  exact ⟨rfl, inv.realCount, holds⟩

theorem onicTxClean_triple :
    (txContract size PfKind rest t).Triple (Owns t h none) (onicTxClean t) fun _ => Owns t h none := by
  apply Contract.Triple.bind testAndSetBit_triple
  intro busy
  split
  · rename_i set
    exact .from_pre _ (fun _ _ here => here.1 set) (owns_done ())
  · rename_i free
    refine .from_pre (fun q => ∃ start, Cleaning size t h start start start 0 q)
      (fun _ _ here => here.2 (by simpa using free)) ?_
    apply Contract.Triple.exists_pre
    intro start
    apply Contract.Triple.bind readWb_triple
    intro cidx
    apply Contract.Triple.exists_pre
    intro c
    apply Contract.Triple.pure_pre
    rintro ⟨rfl, from_start, within⟩
    apply Contract.Triple.bind readNextToClean_triple
    intro clean
    apply Contract.Triple.pure_pre
    rintro rfl
    split
    · rename_i same
      have nothing : c = start := Cyclic.mod_inj from_start within (Nat.le_refl _) (by omega) same
      subst nothing
      exact clearBit_triple from_start within
    · apply Contract.Triple.bind (readRealCount_triple stable_cleaning)
      intro realCount
      apply Contract.Triple.pure_pre
      intro is
      dsimp only
      rw [is, clean_work from_start within]
      apply Contract.Triple.bind (M := fun _ => Cleaning size t h start c c c)
      · have loop : (txContract size PfKind rest t).Triple (Cleaning size t h start (start + 0) (start + 0) c)
            (.fold (fun _ _ => do
              TxAccess.release onicTxRelease onicTxWipe
              onicRingIncrementTail) 0 (c - start) ())
            fun _ => Cleaning size t h start (start + (0 + (c - start))) (start + (0 + (c - start))) c :=
          .fold (I := fun n (_ : Unit) => Cleaning size t h start (start + n) (start + n) c)
            (fun _ _ => stable_cleaning) fun n _ _ less => clean_round (by omega)
        rw [Nat.zero_add, Nat.add_sub_cancel' from_start] at loop
        exact loop
      · exact fun _ => clearBit_triple from_start within

/-- A frame is stored where there is room, counted and passed by `next_to_use`. -/
theorem store_count_increment {α : Type} {p : Program TxQueue TxInput α} {post : α → TxQueue → Prop}
    (frame : TxFrame) (used : head.used = head.accepted.length) (typed : PfKind frame.type)
    (pending : head.pending = frame.mapping?.toList)
    (next : ∀ head', Whole head' → (txContract size PfKind rest t).Triple (Owns t (some head') k) p post) :
    (txContract size PfKind rest t).Triple (fun q => Owns t (some head) k q ∧ Room size head.used q) (do
        TxAccess.store frame
        TxAccess.countPacket frame.len
        onicRingIncrementHead
        p) post := by
  apply Contract.Triple.bind (store_triple used typed pending)
  intro _
  apply Contract.Triple.bind (countPacket_triple lasting_true frame.len).of_true
  intro _
  apply Contract.Triple.bind (onicRingIncrementHead_triple (by simp [TxHead.stored, used]))
  intro _
  exact next _ ⟨by simp [TxHead.stored, used], rfl⟩

theorem onicXmitMap_triple (skb len : Nat) (whole : Whole head) :
    (txContract size PfKind rest t).Triple (fun q => Owns t (some head) none q ∧ Room size head.used q)
      (onicXmitMap skb len) fun _ => OwnsWhole t none := by
  apply Contract.Triple.bind (dmaMapSingle_triple lasting_room (some skb) len)
  intro mapping
  cases mapping with
  | none =>
    apply Contract.Triple.bind (kfreeSkb_triple lasting_room skb)
    intro _
    apply Contract.Triple.bind (countDropped_triple lasting_room)
    intro _
    exact .done (stable_owns lasting_room) fun _ _ here => ⟨_, by exact ⟨whole.used, whole.pending⟩, here.1⟩
  | some dmaAddr =>
    have used : (head.mapResult len (some dmaAddr)).used = (head.mapResult len (some dmaAddr)).accepted.length :=
      whole.used
    apply store_count_increment ⟨.skb, skb, dmaAddr, len⟩ used nofun
    · simp [TxHead.mapResult, whole.pending, TxFrame.mapping?, TxFrame.mapping]
    intro head' whole'
    apply Contract.Triple.bind onicRingFull_triple
    intro full
    refine .from_pre (Owns t (some head') none) (fun _ _ here => here.1) ?_
    apply Contract.Triple.bind (netdevXmitMore_triple stable_own)
    intro more
    split
    · exact .bind (writePidx_triple lasting_true).of_true fun _ =>
        ownsWhole_done _ ⟨whole'.used, whole'.pending⟩
    · exact ownsWhole_done _ whole'

theorem onicXmitFrame_triple (skb : Skb) (whole : Whole head) :
    (txContract size PfKind rest t).Triple (Owns t (some head) none) (onicXmitFrame t skb)
      fun _ => OwnsWhole t none := by
  apply Contract.Triple.bind onicTxClean_triple
  intro _
  apply Contract.Triple.bind onicRingFull_triple
  intro full
  split
  · exact .from_pre _ (fun _ _ here => here.1) (ownsWhole_done _ whole)
  · rename_i free
    refine .from_pre (fun q => Owns t (some head) none q ∧ Room size head.used q)
      (fun _ _ here => ⟨here.1, here.2 (by simpa using free)⟩) ?_
    apply Contract.Triple.bind (skbPutPadto_triple lasting_room skb.id)
    intro rv
    apply Contract.Triple.pure_pre
    intro _
    have whole' : Whole (head.padResult skb.id rv) := by
      rw [TxHead.padResult]
      split
      · exact ⟨whole.used, whole.pending⟩
      · exact whole
    have used : (head.padResult skb.id rv).used = head.used := by
      rw [TxHead.padResult]
      split <;> rfl
    rw [← used]
    exact onicXmitMap_triple skb.id _ whole'

theorem onicXdpEnqueue_triple (frame : TxFrame) (used : head.used = head.accepted.length)
    (typed : PfKind frame.type) (pending : head.pending = frame.mapping?.toList) :
    (txContract size PfKind rest t).Triple (fun q => Owns t (some head) k q ∧ Room size head.used q)
      (onicXdpEnqueue frame) fun _ => OwnsWhole t k :=
  store_count_increment frame used typed pending fun _ whole => ownsWhole_done _ whole

theorem onicXmitXdpRing_triple (xdpf : XdpFrame) (dmaMap : Bool) (whole : Whole head) :
    (txContract size PfKind rest t).Triple (Owns t (some head) none) (onicXmitXdpRing t xdpf dmaMap)
      fun _ => OwnsWhole t none := by
  apply Contract.Triple.bind onicTxClean_triple
  intro _
  apply Contract.Triple.bind onicRingFull_triple
  intro full
  split
  · exact .from_pre _ (fun _ _ here => here.1) (ownsWhole_done _ whole)
  · rename_i free
    refine .from_pre (fun q => Owns t (some head) none q ∧ Room size head.used q)
      (fun _ _ here => ⟨here.1, here.2 (by simpa using free)⟩) ?_
    split
    · apply Contract.Triple.bind (dmaMapSingle_triple lasting_room none xdpf.len)
      intro mapping
      cases mapping with
      | none => exact .done (stable_owns lasting_room) fun _ _ here => ⟨head, whole, here.1⟩
      | some dmaAddr =>
        have used : (head.mapResult xdpf.len (some dmaAddr)).used =
            (head.mapResult xdpf.len (some dmaAddr)).accepted.length := whole.used
        apply onicXdpEnqueue_triple ⟨.xdpfXmit, xdpf.id, dmaAddr, xdpf.len⟩ used nofun
        simp [TxHead.mapResult, whole.pending, TxFrame.mapping?, TxFrame.mapping]
    · exact onicXdpEnqueue_triple ⟨.xdpf, xdpf.id, _, xdpf.len⟩ whole.used nofun whole.pending

theorem onicXdpXmitOne_triple (frame : XdpFrame) (whole : Whole head) :
    (txContract size PfKind rest t).Triple (Owns t (some head) none) (onicXdpXmitOne t frame)
      fun _ => OwnsWhole t none := by
  apply Contract.Triple.bind (onicXmitXdpRing_triple frame true whole)
  intro err
  split
  · apply Contract.Triple.exists_pre
    intro head'
    apply Contract.Triple.pure_pre
    intro whole'
    apply Contract.Triple.bind (returnFrame_triple lasting_true frame.id).of_true
    exact fun _ => ownsWhole_done 1 whole'
  · exact .done stable_ownsWhole fun _ _ owns => owns

theorem onicXdpXmitFrames_triple (frames : List XdpFrame) :
    (txContract size PfKind rest t).Triple (OwnsWhole t none) (onicXdpXmitFrames t frames)
      fun _ => OwnsWhole t none := by
  induction frames with
  | nil => exact .done stable_ownsWhole fun _ _ owns => owns
  | cons frame frames ih =>
    apply Contract.Triple.exists_pre
    intro head
    apply Contract.Triple.pure_pre
    intro whole
    apply Contract.Triple.bind (onicXdpXmitOne_triple frame whole)
    intro drop
    apply Contract.Triple.bind ih
    exact fun drops => .done stable_ownsWhole fun _ _ owns => owns

end

/-- The programs a thread of the PF runs on one of its transmit queues. -/
inductive PfTxCall (t : Nat) : Program TxQueue TxInput Unit → Prop
  | xmitFrame (skb : Skb) : PfTxCall t (transmit t skb (onicXmitFrame t skb))
  | xdpXmitBack (xdpf : XdpFrame) : PfTxCall t (do
      let _ ← onicXdpXmitBack t xdpf
      .done ())
  | xdpXmit (frames : List XdpFrame) (flags : Word) : PfTxCall t (do
      let _ ← onicXdpXmit t frames flags
      .done ())
  | txClean : PfTxCall t (onicTxClean t)

def pfTxRules : Pool.Rules Nat TxQueue TxInput where
  calls t _ := PfTxCall t
  env := TxHardware

section

variable {size : Nat} {t : Nat}

theorem pfUnlock_triple {α : Type} (a : α) :
    (txContract size PfKind Whole t).Triple (OwnsWhole t none) (do
        TxAccess.unlock
        .done a) fun _ => Owns t none none := by
  apply Contract.Triple.exists_pre
  intro head
  apply Contract.Triple.pure_pre
  intro whole
  exact .bind (txUnlock_triple whole) fun _ => owns_done a

theorem pfWritePidx_unlock {α : Type} (a : α) :
    (txContract size PfKind Whole t).Triple (OwnsWhole t none) (do
        TxAccess.writePidx
        TxAccess.unlock
        .done a) fun _ => Owns t none none := by
  apply Contract.Triple.exists_pre
  intro head
  apply Contract.Triple.pure_pre
  intro whole
  apply Contract.Triple.bind (writePidx_triple lasting_true).of_true
  intro _
  exact .bind (txUnlock_triple ⟨whole.used, whole.pending⟩) fun _ => owns_done a

theorem onicXdpXmitBack_triple (xdpf : XdpFrame) :
    (txContract size PfKind Whole t).Triple (Owns t none none) (onicXdpXmitBack t xdpf)
      fun _ => Owns t none none := by
  apply Contract.Triple.bind txLock_triple
  intro before
  apply Contract.Triple.exists_pre
  intro head
  apply Contract.Triple.pure_pre
  rintro ⟨whole, -⟩
  exact .bind (onicXmitXdpRing_triple xdpf false whole) fun ret => pfWritePidx_unlock ret

theorem onicXdpXmit_triple (frames : List XdpFrame) (flags : Word) :
    (txContract size PfKind Whole t).Triple (Owns t none none) (onicXdpXmit t frames flags)
      fun _ => Owns t none none := by
  rw [onicXdpXmit]
  split
  · exact owns_done _
  · apply Contract.Triple.bind txLock_triple
    intro before
    refine .from_pre (OwnsWhole t none) (fun _ _ ⟨head, facts, owns⟩ => ⟨head, facts.1, owns⟩) ?_
    apply Contract.Triple.bind (onicXdpXmitFrames_triple frames)
    intro drops
    split
    · exact pfWritePidx_unlock _
    · exact pfUnlock_triple _

theorem pfTxCall_triple {p : Program TxQueue TxInput Unit} (call : PfTxCall t p) :
    (txContract size PfKind Whole t).Triple (Owns t none none) p fun _ => Owns t none none := by
  cases call with
  | xmitFrame skb =>
    apply Contract.Triple.bind txLock_triple
    intro before
    apply Contract.Triple.exists_pre
    intro head
    apply Contract.Triple.pure_pre
    rintro ⟨whole, -⟩
    apply Contract.Triple.bind (onicXmitFrame_triple skb whole)
    intro ret
    apply Contract.Triple.exists_pre
    intro head'
    apply Contract.Triple.pure_pre
    exact fun whole' => unlockCall_triple ⟨whole'.used, whole'.pending⟩
  | xdpXmitBack xdpf => exact .bind (onicXdpXmitBack_triple xdpf) fun _ => owns_done ()
  | xdpXmit frames flags => exact .bind (onicXdpXmit_triple frames flags) fun _ => owns_done ()
  | txClean => exact onicTxClean_triple

theorem pfTxRules_fit :
    Pool.Fits pfTxRules (fun _ => True) (TxInv size PfKind Whole) (txContract size PfKind Whole)
      fun t => Owns t none none :=
  txRules_fit fun _ _ _ call => pfTxCall_triple call

end

/-- Every run keeps the invariant, and an idle thread holds neither the lock nor the bit. -/
theorem pf_tx_reach {q : TxQueue} {P : Pool Nat TxQueue TxInput} (fresh : TxFresh q)
    (reach : Pool.Reach pfTxRules (fun _ => True) (Pool.start q) P) :
    TxInv q.size PfKind Whole P.state ∧ ∀ t, P.thread t = .done () → Owns t none none P.state := by
  have left : Whole q.head := ⟨by simp [fresh.head.1, fresh.head.2.1], fresh.head.2.2.2.2.1⟩
  have inv : TxInv q.size PfKind Whole q := fresh.inv left
  have idle (t : Nat) : (txContract q.size PfKind Whole t).wp
      (.done () : Program TxQueue TxInput Unit) (fun _ => Owns t none none) q :=
    owns_done () q trivial inv ⟨by simp [OwnsHead, fresh.txLock], by simp [OwnsTail, fresh.cleaning]⟩
  obtain ⟨-, inv', threads⟩ := pfTxRules_fit.reach reach trivial inv idle
  refine ⟨inv', fun t done => ?_⟩
  have here := threads t
  rw [done] at here
  exact here _ (TxRely.refl t _) trivial inv'

theorem pf_tx_ring_conserved {q : TxQueue} {P : Pool Nat TxQueue TxInput} (fresh : TxFresh q)
    (reach : Pool.Reach pfTxRules (fun _ => True) (Pool.start q) P) : RingConserved P.state := by
  have inv := (pf_tx_reach fresh reach).1
  exact inv.conserved fun free => (inv.headIdle free).used

/-- One frame is transmitted, and another thread cleans up after it. -/
def oneFrameMoves : List (Pool.Move Nat TxQueue TxInput) :=
  .call 0 (transmit 0 ⟨7, 42⟩ (onicXmitFrame 0 ⟨7, 42⟩)) ::
    List.replicate 15 (.access 0 ⟨0, some 4096, false⟩) ++
    .env completeOne :: .call 1 (onicTxClean 1) :: List.replicate 7 (.access 1 ⟨0, none, false⟩)

theorem oneFrameMoves_allowed : ∀ m ∈ oneFrameMoves, m.Allowed pfTxRules := by
  intro m mem
  simp only [oneFrameMoves, List.cons_append, List.mem_cons, List.mem_append, List.mem_replicate] at mem
  rcases mem with rfl | ⟨-, rfl⟩ | rfl | rfl | ⟨-, rfl⟩
  · exact fun _ => .xmitFrame _
  · trivial
  · exact completeOne_hardware
  · exact fun _ => .txClean
  · trivial

theorem pf_tx_ring_conserved_one_frame :
    ∃ P, Pool.Reach pfTxRules (fun _ => True) (Pool.start (.initial 4096)) P ∧
      P.state.tail.released = [⟨0, ⟨.skb, some 7, 4096, 60⟩, [.unmap ⟨4096, 60⟩, .kfreeSkb 7]⟩] ∧
      RingConserved P.state := by
  have played : ((Pool.start (.initial 4096)).play (fun _ => true) oneFrameMoves).map
      (fun P => P.state.tail.released) =
        some [⟨0, ⟨.skb, some 7, 4096, 60⟩, [.unmap ⟨4096, 60⟩, .kfreeSkb 7]⟩] := by
    decide +kernel
  obtain ⟨P, ran, released⟩ := Option.map_eq_some_iff.mp played
  have reach : Pool.Reach pfTxRules (fun _ => True) _ P :=
    Pool.reach_of_play (fun _ _ => trivial) oneFrameMoves_allowed ran
  exact ⟨P, reach, released, pf_tx_ring_conserved (TxQueue.initial_fresh (by decide)) reach⟩

end OpenNic
