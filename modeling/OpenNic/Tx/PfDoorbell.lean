import OpenNic.Tx.PfClean
import OpenNic.Tx.PfConservation

namespace OpenNic

/-- The last value written to the PIDX register is `next_to_use`; after the reset it is zero. -/
def TxHead.Announced (head : TxHead) : Prop := head.doorbell.getD (descPidx 0) = descPidx head.nextToUse

instance TxHead.decidableAnnounced (head : TxHead) : Decidable head.Announced := inferInstanceAs (Decidable (_ = _))

/-- What a transmit leaves that does not ring: room in the ring. -/
def Settled (size : Nat) (head : TxHead) (q : TxQueue) : Prop := head.Announced ∨ Room size head.used q

/-- One finished call: what it found, whether the doorbell was behind when it began, and whether
    it is right when it ends. -/
structure TxEnd where
  input : TxInput
  ret : NetdevTx
  behind : Bool
  announced : Bool

/-- The queue with the calls so far. -/
structure PfBurst where
  q : TxQueue
  ends : List TxEnd

namespace PfBurst

def setQ (q : TxQueue) (s : PfBurst) : PfBurst := { s with q := q }

/-- `__netif_tx_lock`; comes back with whether the doorbell is behind. -/
def lock (t : Nat) : Program PfBurst TxInput Bool :=
  .access fun _ s =>
    if s.q.txLock = none then some (!decide s.q.head.Announced, { s with q := { s.q with txLock := some t } })
    else none

/-- `__netif_tx_unlock` after the call. -/
def unlock (input : TxInput) (ret : NetdevTx) (behind : Bool) : Program PfBurst TxInput Unit :=
  .modify fun s =>
    { s with
      q := { s.q with txLock := none }
      ends := s.ends ++ [⟨input, ret, behind, decide s.q.head.Announced⟩] }

/-- The stack's call of `onic_xmit_frame`, which finds `input`. -/
def xmit (t : Nat) (skb : Skb) (input : TxInput) : Program PfBurst TxInput Unit := do
  let behind ← lock t
  let ret ← ((onicXmitFrame t skb).comap fun _ : TxInput => input).lift PfBurst.q setQ
  unlock input ret behind

def clean (t : Nat) : Program PfBurst TxInput Unit := (onicTxClean t).lift PfBurst.q setQ

end PfBurst

/-- The stack sends on the queue, and whoever polls cleans it. -/
inductive PfBurstCall (t : Nat) : Program PfBurst TxInput Unit → Prop
  | xmit (skb : Skb) (input : TxInput) : PfBurstCall t (PfBurst.xmit t skb input)
  | clean : PfBurstCall t (PfBurst.clean t)

def pfBurstRules : Pool.Rules Nat PfBurst TxInput where
  calls t _ := PfBurstCall t
  env s s' := TxHardware s.q s'.q ∧ s'.ends = s.ends

section

variable {size : Nat} {rest : TxHead → Prop} {t : Nat} {h : Option TxHead} {k : Option TxTail} {head : TxHead}
  {α : Type} {X : TxQueue → Prop}

/-- What lasts is kept by a thread's own steps, too. -/
theorem Lasting.frame (lasting : Lasting X) {p : Program TxQueue TxInput α} {pre : TxQueue → Prop}
    {post : α → TxQueue → Prop} (triple : (txContract size PfKind rest t).Triple pre p post) :
    (txContract size PfKind rest t).Triple (fun q => pre q ∧ X q) p fun a q => post a q ∧ X q := by
  apply triple.frame
  · exact fun q q' holds between => lasting q q' holds between.cleaned between.completed
  · intro q q' holds own
    have between := own (t + 1) (by omega)
    exact lasting q q' holds between.cleaned between.completed

theorem lasting_settled : Lasting (Settled size head) :=
  fun q q' settled cleaned completed => settled.imp_right fun room => lasting_room q q' room cleaned completed

theorem dmaMapSingle_found (lasting : Lasting X) (skb : Option Nat) (len : Nat) (input : TxInput) :
    (txContract size PfKind rest t).Triple (fun q => Owns t (some head) k q ∧ X q)
      ((TxAccess.dmaMapSingle skb len).comap fun _ : TxInput => input)
      fun mapping q => mapping = input.mapping ∧ Owns t (some (head.mapResult len mapping)) k q ∧ X q := by
  apply head_access (f := fun mapping head => head.mapResult len mapping) (R := fun mapping => mapping = input.mapping) lasting
  intro q i mapping q' inv owns _ taken
  cases taken
  exact ⟨⟨_, _, _, rfl⟩, mapResult_inv inv owns len input.mapping, rfl⟩

theorem netdevXmitMore_found {P : TxQueue → Prop} (stable : (txContract size PfKind rest t).Stable P) (input : TxInput) :
    (txContract size PfKind rest t).Triple P (TxAccess.netdevXmitMore.comap fun _ : TxInput => input)
      fun more q => more = input.xmitMore ∧ P q := by
  apply tx_look stable fun _ => stable.pure_and
  intro q i _ q' _ holds taken
  cases taken
  exact ⟨rfl, rfl, holds⟩

/-- What a call ends with: the doorbell is right unless the mapping failed and it was behind. -/
structure BurstEnd (size t : Nat) (input : TxInput) (behind : Bool) (ret : NetdevTx) (head : TxHead) (q : TxQueue) : Prop where
  whole : Whole head
  law : ret = .ok → input.xmitMore = false → (head.Announced ↔ ¬ (input.mapping = none ∧ behind = true))
  owns : Owns t (some head) none q
  settled : Settled size head q

theorem burst_done {input : TxInput} {behind : Bool} {ret : NetdevTx} (whole : Whole head)
    (law : ret = .ok → input.xmitMore = false → (head.Announced ↔ ¬ (input.mapping = none ∧ behind = true))) :
    (txContract size PfKind rest t).Triple (fun q => Owns t (some head) none q ∧ Settled size head q)
      (.done ret : Program TxQueue TxInput NetdevTx) fun ret q => ∃ head, BurstEnd size t input behind ret head q :=
  .done (stable_owns lasting_settled) fun _ _ here => ⟨head, whole, law, here.1, here.2⟩

/-- The end of a call that has stored its frame: the doorbell is written, or the ring has room and more
    frames are announced. -/
theorem burst_ring (input : TxInput) {behind : Bool} (whole : Whole head) (mapped : input.mapping ≠ none) :
    (txContract size PfKind rest t).Triple (Owns t (some head) none) ((do
        let full ← onicRingFull
        let more ← TxAccess.netdevXmitMore
        if full || !more then
          TxAccess.writePidx
          .done .ok
        else .done .ok : Program TxQueue TxInput NetdevTx).comap fun _ : TxInput => input)
      fun ret q => ∃ head, BurstEnd size t input behind ret head q := by
  simp only [Program.comap_bind]
  apply Contract.Triple.bind (onicRingFull_triple.comap _)
  intro full
  have free_lasting : Lasting fun q => full = false → Room size head.used q :=
    fun q q' room cleaned completed free => lasting_room q q' (room free) cleaned completed
  apply Contract.Triple.bind (netdevXmitMore_found (stable_owns free_lasting) input)
  intro more
  apply Contract.Triple.pure_pre
  intro hint
  split
  · apply Contract.Triple.comap
    refine .from_pre (Owns t (some head) none) (fun _ _ here => here.1) ?_
    apply Contract.Triple.bind (writePidx_triple lasting_true).of_true
    intro _
    let rung : TxHead := { head with doorbell := some (descPidx head.nextToUse), published := head.used }
    have announced : rung.Announced := rfl
    have whole' : Whole rung := ⟨whole.used, whole.pending⟩
    refine .from_pre _ (fun _ _ owns => ⟨owns, .inl announced⟩) (burst_done whole' fun _ _ => ?_)
    exact ⟨fun _ failed => mapped failed.1, fun _ => announced⟩
  · rename_i quiet
    have quiet : full = false ∧ more = true := by simpa using quiet
    refine .from_pre _ (fun _ _ here => ⟨here.1, .inr (here.2 quiet.1)⟩) (burst_done whole fun _ last => ?_)
    rw [← hint, quiet.2] at last
    cases last

theorem onicXmitMap_burst (skb len : Nat) (input : TxInput) {behind : Bool} (whole : Whole head)
    (was : head.Announced ↔ behind = false) :
    (txContract size PfKind rest t).Triple (fun q => (Owns t (some head) none q ∧ Room size head.used q) ∧ Settled size head q)
      ((onicXmitMap skb len).comap fun _ : TxInput => input)
      fun ret q => ∃ head, BurstEnd size t input behind ret head q := by
  rw [onicXmitMap, Program.comap_bind]
  apply Contract.Triple.bind (lasting_settled.frame (dmaMapSingle_found lasting_room (some skb) len input))
  intro mapping
  refine .from_pre (fun q => mapping = input.mapping ∧ (Owns t (some (head.mapResult len mapping)) none q ∧
    Room size head.used q) ∧ Settled size head q) (fun _ _ here => ⟨here.1.1, here.1.2, here.2⟩) ?_
  apply Contract.Triple.pure_pre
  intro found
  cases mapping with
  | none =>
    apply Contract.Triple.comap
    refine .from_pre (fun q => Owns t (some head) none q ∧ Settled size head q) (fun _ _ here => ⟨here.1.1, here.2⟩) ?_
    apply Contract.Triple.bind (kfreeSkb_triple lasting_settled skb)
    intro _
    apply Contract.Triple.bind (countDropped_triple lasting_settled)
    intro _
    -- the doorbell is as the call has found it
    have same : head.Announced ↔ ¬ (input.mapping = none ∧ behind = true) := by
      rw [was, ← found]
      simp
    let dropped : TxHead := { head with
      disposed := head.disposed ++ [skb], txDropped := head.txDropped + 1, txErrors := head.txErrors + 1 }
    have whole' : Whole dropped := ⟨whole.used, whole.pending⟩
    exact burst_done whole' fun _ _ => same
  | some dmaAddr =>
    have used : (head.mapResult len (some dmaAddr)).used = (head.mapResult len (some dmaAddr)).accepted.length :=
      whole.used
    refine .from_pre (fun q => Owns t (some (head.mapResult len (some dmaAddr))) none q ∧ Room size head.used q)
      (fun _ _ here => here.1) ?_
    simp only [Program.comap_bind]
    have pending : (head.mapResult len (some dmaAddr)).pending = (TxFrame.mk .skb skb dmaAddr len).mapping?.toList := by
      simp [TxHead.mapResult, whole.pending, TxFrame.mapping?, TxFrame.mapping]
    apply Contract.Triple.bind ((store_triple used (by simp) pending).comap _)
    intro _
    apply Contract.Triple.bind ((countPacket_triple lasting_true len).of_true.comap _)
    intro _
    apply Contract.Triple.bind ((onicRingIncrementHead_triple (by simp [TxHead.stored, used])).comap _)
    intro _
    have mapped : input.mapping ≠ none := found ▸ Option.some_ne_none dmaAddr
    exact burst_ring input ⟨by simp [TxHead.stored, used], rfl⟩ mapped

theorem onicXmitFrame_burst (skb : Skb) (input : TxInput) {behind : Bool} (whole : Whole head)
    (was : head.Announced ↔ behind = false) :
    (txContract size PfKind rest t).Triple (fun q => Owns t (some head) none q ∧ Settled size head q)
      ((onicXmitFrame t skb).comap fun _ : TxInput => input)
      fun ret q => ∃ head, BurstEnd size t input behind ret head q := by
  rw [onicXmitFrame, Program.comap_bind]
  apply Contract.Triple.bind (lasting_settled.frame (onicTxClean_triple.comap _))
  intro _
  rw [Program.comap_bind]
  apply Contract.Triple.bind (lasting_settled.frame (onicRingFull_triple.comap _))
  intro full
  split
  · exact .from_pre _ (fun _ _ here => ⟨here.1.1, here.2⟩) (burst_done whole nofun)
  · rename_i free
    refine .from_pre (fun q => (Owns t (some head) none q ∧ Room size head.used q) ∧ Settled size head q)
      (fun _ _ here => ⟨⟨here.1.1, here.1.2 (by simpa using free)⟩, here.2⟩) ?_
    rw [Program.comap_bind]
    apply Contract.Triple.bind (lasting_settled.frame ((skbPutPadto_triple lasting_room skb.id).comap _))
    intro rv
    have same : (head.padResult skb.id rv).used = head.used ∧
        ((head.padResult skb.id rv).Announced ↔ head.Announced) ∧ Whole (head.padResult skb.id rv) := by
      rw [TxHead.padResult]
      split
      · exact ⟨rfl, Iff.rfl, whole.used, whole.pending⟩
      · exact ⟨rfl, Iff.rfl, whole⟩
    rcases same with ⟨used, announced, whole'⟩
    refine .from_pre (fun q => (Owns t (some (head.padResult skb.id rv)) none q ∧
      Room size (head.padResult skb.id rv).used q) ∧ Settled size (head.padResult skb.id rv) q) ?_
      (onicXmitMap_burst skb.id _ input whole' (announced.trans was))
    rintro q - ⟨⟨-, owns, room⟩, settled⟩
    rw [used]
    exact ⟨⟨owns, room⟩, settled.imp announced.mpr (used ▸ ·)⟩

end

/-- A call that returns `NETDEV_TX_OK` and is the last of its burst leaves the doorbell right unless its
    mapping failed and the doorbell was behind. -/
def TxEnd.Law (c : TxEnd) : Prop :=
  c.ret = .ok → c.input.xmitMore = false → (c.announced = true ↔ ¬ (c.input.mapping = none ∧ c.behind = true))

structure BurstInv (size : Nat) (s : PfBurst) : Prop where
  ring : TxInv size PfKind Whole s.q
  settled : s.q.txLock = none → Settled size s.q.head s.q
  laws : ∀ c ∈ s.ends, c.Law

def burstContract (size t : Nat) : Contract PfBurst where
  ok _ := True
  inv := BurstInv size
  rely s s' := TxRely t s.q s'.q
  guarantee s s' := ∀ v, v ≠ t → TxRely v s.q s'.q
  rely_refl s := TxRely.refl t s.q
  rely_trans := TxRely.trans
  guarantee_refl s v _ := TxRely.refl v s.q

theorem TxRely.settled {t : Nat} {q q' : TxQueue} {size : Nat} (between : TxRely t q q') (head : q'.head = q.head)
    (settled : Settled size q.head q) : Settled size q'.head q' := by
  rw [head]
  exact lasting_settled q q' settled between.cleaned between.completed

theorem TxHardware.same {q q' : TxQueue} (moves : TxHardware q q') : q'.head = q.head ∧ q'.txLock = q.txLock := by
  cases moves <;> exact ⟨rfl, rfl⟩

/-- A transmit holds the lock throughout. -/
def SameLock (q q' : TxQueue) : Prop := q'.txLock = q.txLock

theorem modify_sameLock {f : TxQueue → TxQueue} (same : ∀ q, (f q).txLock = q.txLock) :
    (Program.modify f : Program TxQueue TxInput Unit).Steps SameLock := .modify same

theorem onicRingFull_sameLock : onicRingFull.Steps SameLock :=
  Program.Steps.read (R := SameLock) (fun _ => rfl) _

theorem netdevXmitMore_sameLock : TxAccess.netdevXmitMore.Steps SameLock := by
  apply Program.Steps.access
  intro _ _ _ _ taken
  cases taken
  rfl

theorem dmaMapSingle_sameLock (skb : Option Nat) (len : Nat) : (TxAccess.dmaMapSingle skb len).Steps SameLock := by
  apply Program.Steps.access
  intro _ _ _ _ taken
  cases taken
  rfl

theorem skbPutPadto_sameLock (skb : Nat) : (TxAccess.skbPutPadto skb).Steps SameLock := by
  apply Program.Steps.access
  intro _ _ _ _ taken
  cases taken
  dsimp only
  split <;> rfl

theorem onicXmitMap_sameLock (skb len : Nat) : (onicXmitMap skb len).Steps SameLock := by
  apply Program.Steps.bind (dmaMapSingle_sameLock (some skb) len)
  intro mapping
  cases mapping with
  | none => exact .bind (modify_sameLock fun _ => rfl) fun _ => .bind (modify_sameLock fun _ => rfl) fun _ => .done _
  | some dmaAddr =>
    refine .bind (modify_sameLock fun _ => rfl) fun _ => .bind (modify_sameLock fun _ => rfl) fun _ =>
      .bind (modify_sameLock fun _ => rfl) fun _ => .bind onicRingFull_sameLock fun full =>
        .bind netdevXmitMore_sameLock fun more => ?_
    split
    · exact .bind (modify_sameLock fun _ => rfl) fun _ => .done _
    · exact .done _

theorem onicXmitFrame_sameLock (t : Nat) (skb : Skb) : (onicXmitFrame t skb).Steps SameLock := by
  apply Program.Steps.bind ((onicTxClean_keeps t).mono fun _ _ keeps => keeps.txLock)
  intro _
  apply Program.Steps.bind onicRingFull_sameLock
  intro full
  split
  · exact .done _
  · exact .bind (skbPutPadto_sameLock skb.id) fun _ => onicXmitMap_sameLock _ _

section

variable {size t : Nat}

/-- Nothing is held. -/
def BurstIdle (t : Nat) (s : PfBurst) : Prop := Owns t none none s.q

theorem burst_lock : (burstContract size t).Triple (BurstIdle t) (PfBurst.lock t) fun behind s =>
    ∃ head, (Whole head ∧ (head.Announced ↔ behind = false)) ∧ Owns t (some head) none s.q ∧ Settled size head s.q := by
  apply Contract.Triple.access
  · exact fun s s' idle between _ _ => Owns.rely idle between
  · rintro behind s s' ⟨head, facts, owns, settled⟩ between _ _
    exact ⟨head, facts, owns.rely between, lasting_settled _ _ settled between.cleaned between.completed⟩
  · intro s _ behind s' _ inv idle taken _
    split at taken
    · rename_i free
      cases taken
      have facts := inv.ring.headIdle free
      have settled := inv.settled free
      refine ⟨⟨inv.ring.lock t, nofun, inv.laws⟩, fun v other => ?_, s.q.head, ⟨facts, by simp⟩, ⟨⟨rfl, rfl⟩, ?_⟩, ?_⟩
      · have now : some t ≠ some v := by simpa using other.symm
        have before : s.q.txLock ≠ some v := by
          rw [free]
          simp
        exact ⟨⟨fun h => absurd h now, fun h => absurd h before⟩, Iff.rfl, fun _ => rfl, fun _ => rfl,
          Nat.le_refl _, Nat.le_refl _⟩
      · exact idle.tail
      · exact settled
    · cases taken

theorem burst_unlock {input : TxInput} {ret : NetdevTx} {behind : Bool} : (burstContract size t).Triple
    (fun s => ∃ head, BurstEnd size t input behind ret head s.q) (PfBurst.unlock input ret behind)
    fun _ => BurstIdle t := by
  apply Contract.Triple.modify
  · rintro s s' ⟨head, ends⟩ between _ _
    exact ⟨head, { ends with
      owns := ends.owns.rely between
      settled := lasting_settled _ _ ends.settled between.cleaned between.completed }⟩
  · exact fun s s' idle between _ _ => Owns.rely idle between
  · rintro s - inv ⟨head, whole, law, owns, settled⟩ -
    obtain ⟨held, rfl⟩ := held_lock owns
    have own : (txContract size PfKind Whole t).guarantee s.q { s.q with txLock := none } :=
      txLock_guarantee held (fun _ _ => nofun) rfl rfl rfl
    refine ⟨⟨inv.ring.unlock whole, fun _ => settled, ?_⟩, own, nofun, owns.tail⟩
    intro c mem
    rcases List.mem_append.mp mem with before | last
    · exact inv.laws c before
    · rw [List.mem_singleton.mp last]
      simpa [TxEnd.Law] using law

/-- A program of the queue's contract keeps the calls' one: whoever leaves the lock free leaves the head. -/
theorem burst_lift (size t : Nat) {α : Type} {p : Program TxQueue TxInput α} {pre F : TxQueue → Prop} {post : α → TxQueue → Prop}
    {R : TxQueue → TxQueue → Prop} (triple : (txContract size PfKind Whole t).Triple pre p post) (steps : p.Steps R)
    (stable : ∀ q q', F q → TxRely t q q' → F q')
    (back : ∀ q q', F q → R q q' → F q' ∧ (q'.txLock = none → q.txLock = none ∧ q'.head = q.head)) :
    (burstContract size t).Triple (fun s => pre s.q ∧ F s.q) (p.lift PfBurst.q PfBurst.setQ)
      fun a s => post a s.q ∧ F s.q := by
  intro s ok inv ⟨before, holds⟩
  apply @Contract.wp_lift_frame TxQueue TxInput α (txContract size PfKind Whole t) PfBurst (burstContract size t)
    PfBurst.q PfBurst.setQ R (fun s => F s.q) p post s (fun _ _ => rfl) (fun _ _ => trivial) (fun _ inv _ => inv.ring)
    (fun _ _ between => between) steps (fun _ _ holds between _ _ => stable _ _ holds between) ?_ holds
    (triple s.q trivial inv.ring before)
  intro s q _ inv holds _ ring own step
  rcases back s.q q holds step with ⟨kept, same⟩
  refine ⟨⟨ring, fun free => ?_, inv.laws⟩, own, kept⟩
  exact (own (t + 1) (by omega)).settled (same free).2 (inv.settled (same free).1)

theorem burst_xmit {skb : Skb} {input : TxInput} : (burstContract size t).Triple (BurstIdle t)
    (PfBurst.xmit t skb input) fun _ => BurstIdle t := by
  apply Contract.Triple.bind burst_lock
  intro behind
  apply Contract.Triple.exists_pre
  intro head
  apply Contract.Triple.pure_pre
  rintro ⟨whole, was⟩
  have sent := burst_lift size t (F := fun q => q.txLock = some t) (onicXmitFrame_burst skb input whole was)
    ((onicXmitFrame_sameLock t skb).comap _) (fun _ _ held between => between.lock.mpr held)
    fun q q' held same => ⟨same.trans held, fun free => absurd (held.symm.trans (same.symm.trans free)) (by simp)⟩
  apply Contract.Triple.bind (sent.from_pre _ fun _ _ here => ⟨here, here.1.head.1⟩)
  exact fun ret => .from_pre _ (fun _ _ here => here.1) burst_unlock

theorem burst_clean : (burstContract size t).Triple (BurstIdle t) (PfBurst.clean t) fun _ => BurstIdle t := by
  have cleaned := burst_lift size t (F := fun _ => True) (onicTxClean_triple (h := none)) (onicTxClean_keeps t)
    (fun _ _ _ _ => trivial) fun q q' _ keeps => ⟨trivial, fun free => ⟨keeps.txLock.symm.trans free, keeps.head⟩⟩
  exact cleaned.conseq (fun _ _ idle => ⟨idle, trivial⟩) fun _ _ _ after => after.1

theorem pfBurstRules_fit : Pool.Fits pfBurstRules (fun _ => True) (BurstInv size) (burstContract size) BurstIdle where
  same_ok _ := rfl
  same_inv _ := rfl
  threads _ u other _ _ _ _ guarantee := guarantee u other.symm
  env s s' _ _ inv happens := by
    rcases happens with ⟨moves, ends⟩
    rcases inv.ring.env moves with ⟨ring, between⟩
    have same := moves.same
    refine ⟨⟨ring, fun free => ?_, ends ▸ inv.laws⟩, between⟩
    exact (between 0).settled same.1 (inv.settled (same.2.symm.trans free))
  calls t s p call ok inv idle := by
    cases call with
    | xmit skb input => exact burst_xmit s ok inv idle
    | clean => exact burst_clean s ok inv idle

end

/-- In every run of transmits and cleans: a call that returns `NETDEV_TX_OK` and has no more to follow
    leaves `next_to_use` in the doorbell, unless its mapping fails while the doorbell is behind; then it
    does not. Between two calls the doorbell of a full ring is right. -/
theorem pf_xmit_announced_iff {q : TxQueue} {P : Pool Nat PfBurst TxInput} (fresh : TxFresh q) (reset : q.head.doorbell = none)
    (reach : Pool.Reach pfBurstRules (fun _ => True) (Pool.start ⟨q, []⟩) P) :
    (∀ c ∈ P.state.ends, c.ret = .ok → c.input.xmitMore = false →
      (c.announced = true ↔ ¬ (c.input.mapping = none ∧ c.behind = true))) ∧
    (P.state.q.txLock = none →
      (P.state.q.head.nextToUse + 1) % P.state.q.onicRingGetRealCount = P.state.q.tail.nextToClean →
      P.state.q.head.Announced) := by
  have whole : Whole q.head := ⟨by simp [fresh.head.1, fresh.head.2.1], fresh.head.2.2.2.2.1⟩
  have inv : BurstInv q.size ⟨q, []⟩ := by
    refine ⟨fresh.inv whole, fun _ => .inl ?_, by simp⟩
    rw [TxHead.Announced, reset, fresh.nextToUse]
    rfl
  have idle (t : Nat) : (burstContract q.size t).wp (.done () : Program PfBurst TxInput Unit)
      (fun _ => BurstIdle t) ⟨q, []⟩ := by
    intro s between _ _
    exact Owns.rely ⟨by simp [OwnsHead, fresh.txLock], by simp [OwnsTail, fresh.cleaning]⟩ between
  obtain ⟨-, inv', -⟩ := pfBurstRules_fit.reach reach trivial inv idle
  refine ⟨inv'.laws, fun free full => ?_⟩
  rw [inv'.ring.realCount, inv'.ring.full_iff] at full
  rcases inv'.settled free with announced | room
  · exact announced
  · rw [Room] at room
    omega

/-- One thread sends the frames one after the other, each call with its steps. -/
def burstMoves (calls : List (Skb × TxInput × Nat)) : List (Pool.Move Nat PfBurst TxInput) :=
  calls.flatMap fun c => .call 0 (PfBurst.xmit 0 c.1 c.2.1) :: List.replicate c.2.2 (.access 0 c.2.1)

theorem burstMoves_allowed (calls : List (Skb × TxInput × Nat)) : ∀ m ∈ burstMoves calls, m.Allowed pfBurstRules := by
  intro m mem
  rcases List.mem_flatMap.mp mem with ⟨c, -, here⟩
  rcases List.mem_cons.mp here with rfl | access
  · exact fun _ => .xmit _ _
  · rw [List.eq_of_mem_replicate access]
    trivial

/-- A burst of two frames. -/
theorem pf_xmit_announced_burst : ∃ P : Pool Nat PfBurst TxInput,
    (∀ c ∈ P.state.ends, c.ret = .ok → c.input.xmitMore = false →
      (c.announced = true ↔ ¬ (c.input.mapping = none ∧ c.behind = true))) ∧
    P.state.ends.map TxEnd.announced = [false, true] := by
  have played : ((Pool.start ⟨.initial 4096, []⟩).play (fun _ => true)
      (burstMoves [(⟨7, 60⟩, ⟨0, some 4096, true⟩, 14), (⟨8, 60⟩, ⟨0, some 8192, false⟩, 15)])).map
      (fun P => P.state.ends.map TxEnd.announced) = some [false, true] := by decide +kernel
  rcases Option.map_eq_some_iff.mp played with ⟨P, ran, values⟩
  have reach : Pool.Reach pfBurstRules (fun _ => True) _ P :=
    Pool.reach_of_play (fun _ _ => trivial) (burstMoves_allowed _) ran
  exact ⟨P, (pf_xmit_announced_iff (TxQueue.initial_fresh (by decide)) rfl reach).1, values⟩

/-- The mapping of the last frame of a burst fails: the call returns `NETDEV_TX_OK`, nobody is to send
    more, and the frame before is never announced. -/
theorem pf_xmit_burst_unannounced : ∃ P : Pool Nat PfBurst TxInput,
    Pool.Reach pfBurstRules (fun _ => True) (Pool.start ⟨.initial 4096, []⟩) P ∧
    P.state.ends.map (fun c => (c.ret, c.input.xmitMore, c.announced)) = [(.ok, true, false), (.ok, false, false)] ∧
    P.state.q.head.nextToUse = 1 ∧ P.state.q.head.doorbell = none := by
  have played : ((Pool.start ⟨.initial 4096, []⟩).play (fun _ => true)
      (burstMoves [(⟨7, 60⟩, ⟨0, some 4096, true⟩, 14), (⟨8, 60⟩, ⟨0, none, false⟩, 11)])).map
      (fun P => (P.state.ends.map (fun c => (c.ret, c.input.xmitMore, c.announced)), P.state.q.head.nextToUse,
        P.state.q.head.doorbell)) = some ([(.ok, true, false), (.ok, false, false)], 1, none) := by decide +kernel
  rcases Option.map_eq_some_iff.mp played with ⟨P, ran, values⟩
  simp only [Prod.mk.injEq] at values
  exact ⟨P, Pool.reach_of_play (fun _ _ => trivial) (burstMoves_allowed _) ran, values⟩

end OpenNic
