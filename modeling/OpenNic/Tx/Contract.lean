import OpenNic.Tx.Invariant

namespace OpenNic

structure TxRely (t : Nat) (q q' : TxQueue) : Prop where
  lock : q'.txLock = some t ↔ q.txLock = some t
  bit : q'.cleaning = some t ↔ q.cleaning = some t
  head : q.txLock = some t → q'.head = q.head
  tail : q.cleaning = some t → q'.tail = q.tail
  cleaned : q.tail.cleaned ≤ q'.tail.cleaned
  completed : q.completed ≤ q'.completed

theorem TxRely.refl (t : Nat) (q : TxQueue) : TxRely t q q :=
  ⟨Iff.rfl, Iff.rfl, fun _ => rfl, fun _ => rfl, Nat.le_refl _, Nat.le_refl _⟩

theorem TxRely.trans {t : Nat} {a b c : TxQueue} (h : TxRely t a b) (h' : TxRely t b c) : TxRely t a c :=
  ⟨h'.lock.trans h.lock, h'.bit.trans h.bit, fun held => (h'.head (h.lock.mpr held)).trans (h.head held),
    fun held => (h'.tail (h.bit.mpr held)).trans (h.tail held), h.cleaned.trans h'.cleaned,
    h.completed.trans h'.completed⟩

/-- The contract of a thread that transmits on the queue or cleans it. -/
def txContract (size : Nat) (kind : TxBufType → Prop) (rest : TxHead → Prop) (t : Nat) :
    Contract TxQueue where
  ok _ := True
  inv := TxInv size kind rest
  rely := TxRely t
  guarantee q q' := ∀ v, v ≠ t → TxRely v q q'
  rely_refl := TxRely.refl t
  rely_trans := TxRely.trans
  guarantee_refl q v _ := TxRely.refl v q

def OwnsHead (t : Nat) (h : Option TxHead) (q : TxQueue) : Prop :=
  match h with
  | none => q.txLock ≠ some t
  | some h => q.txLock = some t ∧ q.head = h

def OwnsTail (t : Nat) (k : Option TxTail) (q : TxQueue) : Prop :=
  match k with
  | none => q.cleaning ≠ some t
  | some k => q.cleaning = some t ∧ q.tail = k

/-- What a thread has to itself; `none` where it does not hold the lock or the bit. -/
structure Owns (t : Nat) (h : Option TxHead) (k : Option TxTail) (q : TxQueue) : Prop where
  head : OwnsHead t h q
  tail : OwnsTail t k q

/-- True from now on, as the hardware and the cleaners go on. -/
def Lasting (X : TxQueue → Prop) : Prop :=
  ∀ q q', X q → q.tail.cleaned ≤ q'.tail.cleaned → q.completed ≤ q'.completed → X q'

theorem lasting_true : Lasting fun _ => True := fun _ _ _ _ _ => trivial

section

variable {size : Nat} {rest : TxHead → Prop} {kind : TxBufType → Prop} {t : Nat} {h : Option TxHead}
  {k : Option TxTail} {head : TxHead} {tail : TxTail} {α : Type} {X : TxQueue → Prop}

theorem Owns.rely {q q' : TxQueue} (owns : Owns t h k q) (between : TxRely t q q') : Owns t h k q' := by
  obtain ⟨of_head, of_tail⟩ := owns
  constructor
  · cases h with
    | none => exact fun held => of_head (between.lock.mp held)
    | some head => exact ⟨between.lock.mpr of_head.1, (between.head of_head.1).trans of_head.2⟩
  · cases k with
    | none => exact fun held => of_tail (between.bit.mp held)
    | some tail => exact ⟨between.bit.mpr of_tail.1, (between.tail of_tail.1).trans of_tail.2⟩

theorem stable_owns (lasting : Lasting X) :
    (txContract size kind rest t).Stable fun q => Owns t h k q ∧ X q :=
  fun q q' ⟨owns, holds⟩ between _ _ =>
    ⟨owns.rely between, lasting q q' holds between.cleaned between.completed⟩

theorem stable_own : (txContract size kind rest t).Stable (Owns t h k) :=
  fun _ _ owns between _ _ => owns.rely between

theorem owns_done (a : α) : (txContract size kind rest t).Triple (Owns t h k)
    (.done a : Program TxQueue TxInput α) fun _ => Owns t h k :=
  .done stable_own fun _ _ owns => owns

/-- A step of the holder of the lock on what is the lock's. -/
theorem txLock_guarantee {q q' : TxQueue} (held : q.txLock = some t) (lock : ∀ v, v ≠ t → q'.txLock ≠ some v)
    (bit : q'.cleaning = q.cleaning) (tail : q'.tail = q.tail) (completed : q'.completed = q.completed) :
    (txContract size kind rest t).guarantee q q' := by
  intro v other
  have apart : q.txLock ≠ some v := by
    rw [held]
    simpa using other.symm
  exact ⟨⟨fun now => absurd now (lock v other), fun before => absurd before apart⟩, by rw [bit],
    fun before => absurd before apart, fun _ => tail, by rw [tail], by rw [completed]⟩

/-- A step of the holder of the bit on what is the bit's. -/
theorem txBit_guarantee {q q' : TxQueue} (held : q.cleaning = some t) (bit : ∀ v, v ≠ t → q'.cleaning ≠ some v)
    (lock : q'.txLock = q.txLock) (head : q'.head = q.head) (completed : q'.completed = q.completed)
    (cleaned : q.tail.cleaned ≤ q'.tail.cleaned) : (txContract size kind rest t).guarantee q q' := by
  intro v other
  have apart : q.cleaning ≠ some v := by
    rw [held]
    simpa using other.symm
  exact ⟨by rw [lock], ⟨fun now => absurd now (bit v other), fun before => absurd before apart⟩,
    fun _ => head, fun before => absurd before apart, cleaned, by rw [completed]⟩

theorem held_lock {q : TxQueue} (owns : Owns t (some head) k q) : q.txLock = some t ∧ q.head = head :=
  owns.head

theorem held_bit {q : TxQueue} (owns : Owns t h (some tail) q) : q.cleaning = some t ∧ q.tail = tail :=
  owns.tail

theorem other_than {t v : Nat} {o : Option Nat} (held : o = some t) (other : v ≠ t) : o ≠ some v := by
  rw [held]
  simpa using other.symm

theorem txLock_triple :
    (txContract size kind rest t).Triple (Owns t none k) (TxAccess.lock t) fun before q =>
      ∃ head, (rest head ∧ before = (head.txPackets, head.txDropped)) ∧ Owns t (some head) k q := by
  apply Contract.Triple.access stable_own
  · intro before q q' ⟨head, facts, owns⟩ between _ _
    exact ⟨head, facts, owns.rely between⟩
  · intro q _ before q' _ inv owns taken _
    split at taken
    · rename_i free
      cases taken
      refine ⟨TxInv.lock inv t, fun v other => ?_, q.head, ⟨TxInv.headIdle inv free, rfl⟩, ⟨rfl, rfl⟩, ?_⟩
      · have now : some t ≠ some v := by simpa using other.symm
        have before : q.txLock ≠ some v := by
          rw [free]
          simp
        exact ⟨⟨fun h => absurd h now, fun h => absurd h before⟩, Iff.rfl, fun _ => rfl, fun _ => rfl,
          Nat.le_refl _, Nat.le_refl _⟩
      · have of_tail := owns.tail
        cases k <;> exact of_tail
    · cases taken

/-- A step of the lock's holder that only changes the head. -/
theorem head_access {act : TxInput → TxQueue → Option (α × TxQueue)} {f : α → TxHead → TxHead} {R : α → Prop}
    (lasting : Lasting X)
    (each : ∀ q i a q', TxInv size kind rest q → Owns t (some head) k q → X q → act i q = some (a, q') →
      (∃ freed misused returned, q' = { q with
        head := f a q.head, freed := freed, misused := misused, returned := returned }) ∧
        TxInv size kind rest q' ∧ R a) :
    (txContract size kind rest t).Triple (fun q => Owns t (some head) k q ∧ X q) (.access act)
      fun a q => R a ∧ Owns t (some (f a head)) k q ∧ X q := by
  apply Contract.Triple.access (stable_owns lasting) fun a => (stable_owns lasting).pure_and
  rintro q i a q' - inv ⟨owns, holds⟩ taken -
  obtain ⟨⟨freed, misused, returned, rfl⟩, inv', result⟩ := each q i a q' inv owns holds taken
  obtain ⟨held, rfl⟩ := held_lock owns
  refine ⟨inv', txLock_guarantee held (fun v other => other_than held other) rfl rfl rfl, result, ⟨⟨held, rfl⟩, ?_⟩,
    lasting q _ holds (Nat.le_refl _) (Nat.le_refl _)⟩
  have of_tail := owns.tail
  cases k <;> exact of_tail

/-- One that tells its caller nothing. -/
theorem head_modify {g : TxQueue → TxQueue} {f : TxHead → TxHead} (lasting : Lasting X)
    (each : ∀ q, TxInv size kind rest q → Owns t (some head) k q → X q →
      (∃ freed misused returned, g q = { q with
        head := f q.head, freed := freed, misused := misused, returned := returned }) ∧
        TxInv size kind rest (g q)) :
    (txContract size kind rest t).Triple (fun q => Owns t (some head) k q ∧ X q)
      (.modify g : Program TxQueue TxInput Unit) fun _ q => Owns t (some (f head)) k q ∧ X q := by
  apply (head_access (f := fun (_ : Unit) => f) (R := fun _ => True) lasting ?_).conseq (fun _ _ h => h)
    fun _ _ _ h => h.2
  intro q i _ q' inv owns holds taken
  cases taken
  obtain ⟨changed, inv'⟩ := each q inv owns holds
  exact ⟨changed, inv', trivial⟩

theorem lock_ne_none {q : TxQueue} (owns : Owns t (some head) k q) : q.txLock ≠ none := by
  rw [(held_lock owns).1]
  simp

theorem bit_ne_none {q : TxQueue} (owns : Owns t h (some tail) q) : q.cleaning ≠ none := by
  rw [(held_bit owns).1]
  simp

/-- A step that only reads. -/
theorem tx_look {act : TxInput → TxQueue → Option (α × TxQueue)} {P : TxQueue → Prop} {Q : α → TxQueue → Prop}
    (stable : (txContract size kind rest t).Stable P) (stable' : ∀ a, (txContract size kind rest t).Stable (Q a))
    (each : ∀ q i a q', TxInv size kind rest q → P q → act i q = some (a, q') → q' = q ∧ Q a q) :
    (txContract size kind rest t).Triple P (.access act) Q := by
  apply Contract.Triple.access stable stable'
  intro q i a q' _ inv holds taken _
  obtain ⟨rfl, after⟩ := each q i a q' inv holds taken
  exact ⟨inv, (txContract size kind rest t).guarantee_refl q', after⟩

theorem netdevXmitMore_triple {P : TxQueue → Prop} (stable : (txContract size kind rest t).Stable P) :
    (txContract size kind rest t).Triple P TxAccess.netdevXmitMore fun _ => P := by
  apply tx_look stable fun _ => stable
  intro q i _ q' _ holds taken
  cases taken
  exact ⟨rfl, holds⟩

def TxHead.padResult (head : TxHead) (skb : Nat) (rv : Int) : TxHead :=
  if rv < 0 then { head with disposed := head.disposed ++ [skb], padFailed := true } else head

theorem skbPutPadto_triple (lasting : Lasting X) (skb : Nat) :
    (txContract size kind rest t).Triple (fun q => Owns t (some head) k q ∧ X q) (TxAccess.skbPutPadto skb)
      fun rv q => rv ≤ 0 ∧ Owns t (some (head.padResult skb rv)) k q ∧ X q := by
  apply head_access (f := fun rv head => head.padResult skb rv) lasting
  intro q i rv q' inv owns _ taken
  cases taken
  have bound : min i.padto 0 ≤ 0 := Int.min_le_right _ _
  by_cases failed : min i.padto 0 < 0
  · simp only [TxHead.padResult, if_pos failed]
    exact ⟨⟨q.freed ++ [skb], q.misused, q.returned, rfl⟩, inv.dispose (lock_ne_none owns) skb true, bound⟩
  · simp only [TxHead.padResult, if_neg failed]
    exact ⟨⟨q.freed, q.misused, q.returned, rfl⟩, inv, bound⟩

def TxHead.mapResult (head : TxHead) (len : Nat) : Option (BitVec 64) → TxHead
  | none => head
  | some addr => { head with
      mapped := head.mapped ++ [⟨addr, len⟩], pending := head.pending ++ [⟨addr, len⟩] }

theorem mapResult_inv {misused : List Nat} (inv : TxInv size kind rest q) (owns : Owns t (some head) k q) (len : Nat)
    (mapping : Option (BitVec 64)) :
    TxInv size kind rest { q with head := q.head.mapResult len mapping, misused := misused } := by
  cases mapping with
  | none => exact inv.setLogs misused q.returned
  | some addr => exact (inv.map (lock_ne_none owns) ⟨addr, len⟩).setLogs misused q.returned

theorem dmaMapSingle_triple (lasting : Lasting X) (skb : Option Nat) (len : Nat) :
    (txContract size kind rest t).Triple (fun q => Owns t (some head) k q ∧ X q)
      (TxAccess.dmaMapSingle skb len)
      fun mapping q => Owns t (some (head.mapResult len mapping)) k q ∧ X q := by
  apply (head_access (f := fun mapping head => head.mapResult len mapping) (R := fun _ => True) lasting ?_).conseq
    (fun _ _ h => h) fun _ _ _ h => h.2
  intro q i mapping q' inv owns _ taken
  cases taken
  exact ⟨⟨_, _, _, rfl⟩, mapResult_inv inv owns len i.mapping, trivial⟩

theorem kfreeSkb_triple (lasting : Lasting X) (skb : Nat) :
    (txContract size kind rest t).Triple (fun q => Owns t (some head) k q ∧ X q) (TxAccess.kfreeSkb skb)
      fun _ q => Owns t (some { head with disposed := head.disposed ++ [skb] }) k q ∧ X q := by
  apply head_modify (f := fun head => { head with disposed := head.disposed ++ [skb] }) lasting
  exact fun q inv owns _ =>
    ⟨⟨q.freed ++ [skb], q.misused, q.returned, rfl⟩, inv.dispose (lock_ne_none owns) skb q.head.padFailed⟩

theorem returnFrame_triple (lasting : Lasting X) (xdpf : Nat) :
    (txContract size kind rest t).Triple (fun q => Owns t (some head) k q ∧ X q) (TxAccess.returnFrame xdpf)
      fun _ q => Owns t (some head) k q ∧ X q := by
  apply head_modify (f := fun head => head) lasting
  exact fun q inv _ _ => ⟨⟨q.freed, q.misused, q.returned ++ [xdpf], rfl⟩, inv.setLogs q.misused _⟩

theorem countDropped_triple (lasting : Lasting X) :
    (txContract size kind rest t).Triple (fun q => Owns t (some head) k q ∧ X q) TxAccess.countDropped
      fun _ q => Owns t (some { head with
        txDropped := head.txDropped + 1, txErrors := head.txErrors + 1 }) k q ∧ X q := by
  apply head_modify (f := fun head => { head with
    txDropped := head.txDropped + 1, txErrors := head.txErrors + 1 }) lasting
  exact fun q inv owns _ => ⟨⟨q.freed, q.misused, q.returned, rfl⟩,
    inv.setHead (lock_ne_none owns) rfl rfl rfl rfl rfl rfl rfl rfl⟩

theorem countPacket_triple (lasting : Lasting X) (len : Nat) :
    (txContract size kind rest t).Triple (fun q => Owns t (some head) k q ∧ X q) (TxAccess.countPacket len)
      fun _ q => Owns t (some { head with
        txPackets := head.txPackets + 1, txBytes := head.txBytes + len }) k q ∧ X q := by
  apply head_modify (f := fun head => { head with
    txPackets := head.txPackets + 1, txBytes := head.txBytes + len }) lasting
  exact fun q inv owns _ => ⟨⟨q.freed, q.misused, q.returned, rfl⟩,
    inv.setHead (lock_ne_none owns) rfl rfl rfl rfl rfl rfl rfl rfl⟩

theorem writePidx_triple (lasting : Lasting X) :
    (txContract size kind rest t).Triple (fun q => Owns t (some head) k q ∧ X q) TxAccess.writePidx
      fun _ q => Owns t (some { head with
        doorbell := some (descPidx head.nextToUse), published := head.used }) k q ∧ X q := by
  apply head_modify (f := fun head => { head with
    doorbell := some (descPidx head.nextToUse), published := head.used }) lasting
  exact fun q inv owns _ => ⟨⟨q.freed, q.misused, q.returned, rfl⟩, inv.publish (lock_ne_none owns)⟩

theorem writeNextToUse_triple (lasting : Lasting X) {next : TxQueue → Nat} {slot : Nat}
    (stored : head.used < head.accepted.length)
    (is : ∀ q, TxInv size kind rest q → q.head = head → next q = slot) (after : slot = (head.used + 1) % size) :
    (txContract size kind rest t).Triple (fun q => Owns t (some head) k q ∧ X q) (TxAccess.writeNextToUse next)
      fun _ q => Owns t (some { head with nextToUse := slot, used := head.used + 1 }) k q ∧ X q := by
  apply head_modify (f := fun head => { head with nextToUse := slot, used := head.used + 1 }) lasting
  intro q inv owns _
  obtain ⟨-, same⟩ := held_lock owns
  obtain rfl := is q inv same
  subst same
  exact ⟨⟨q.freed, q.misused, q.returned, rfl⟩, inv.advanceHead (lock_ne_none owns) stored after⟩

def TxHead.stored (head : TxHead) (frame : TxFrame) : TxHead := { head with
  desc := Function.update head.desc head.nextToUse ⟨frame.len, frame.dmaAddr, frame.len⟩
  accepted := head.accepted ++ [frame]
  pending := []
  disposed := head.disposed ++ frame.skb?.toList }

/-- There is room for one frame more than the `used` ones. -/
def Room (size used : Nat) (q : TxQueue) : Prop := used + 1 < q.tail.cleaned + size

theorem lasting_room {used : Nat} : Lasting (Room size used) :=
  fun _ _ room cleaned _ => Nat.lt_of_lt_of_le room (Nat.add_le_add_right cleaned size)

theorem store_triple {frame : TxFrame} (whole : head.used = head.accepted.length) (typed : kind frame.type)
    (pending : head.pending = frame.mapping?.toList) :
    (txContract size kind rest t).Triple (fun q => Owns t (some head) k q ∧ Room size head.used q)
      (TxAccess.store frame) fun _ => Owns t (some (head.stored frame)) k := by
  apply Contract.Triple.modify (stable_owns lasting_room) stable_own
  rintro q - inv ⟨owns, room⟩ -
  obtain ⟨held, rfl⟩ := held_lock owns
  have stored := TxInv.store inv (lock_ne_none owns) whole room typed pending
    (Function.update q.head.desc q.head.nextToUse ⟨frame.len, frame.dmaAddr, frame.len⟩)
  have inv' := stored.setLogs (q.misused ++ frame.skb?.toList.filter (· ∈ q.freed)) q.returned
  have free : q.slots q.head.nextToUse = none := by
    rw [TxInv.nextToUse inv, whole]
    exact (TxInv.slots inv).back
  refine ⟨inv', txLock_guarantee held (fun v other => other_than held other) rfl rfl rfl, ⟨held, ?_⟩, ?_⟩
  · simp [TxHead.stored, free]
  · have of_tail := owns.tail
    cases k <;> exact of_tail

theorem txUnlock_triple (left : rest head) :
    (txContract size kind rest t).Triple (Owns t (some head) k) TxAccess.unlock fun _ => Owns t none k := by
  apply Contract.Triple.modify stable_own stable_own
  intro q _ inv owns _
  obtain ⟨held, rfl⟩ := held_lock owns
  refine ⟨TxInv.unlock inv left, txLock_guarantee held (fun _ _ => nofun) rfl rfl rfl,
    nofun, ?_⟩
  have of_tail := owns.tail
  cases k <;> exact of_tail

theorem unlockCall_triple {skb : Nat} {ret : NetdevTx} {before : Nat × Nat}
    (left : rest { head with calls := head.calls ++
      [⟨skb, ret, head.txPackets - before.1, head.txDropped - before.2⟩] }) :
    (txContract size kind rest t).Triple (Owns t (some head) k) (TxAccess.unlockCall skb ret before)
      fun _ => Owns t none k := by
  apply Contract.Triple.modify stable_own stable_own
  intro q _ inv owns _
  obtain ⟨held, rfl⟩ := held_lock owns
  refine ⟨?_, txLock_guarantee held (fun _ _ => nofun) rfl rfl rfl, nofun, ?_⟩
  · have recorded := TxInv.setHead inv (h := { q.head with calls := q.head.calls ++
      [⟨skb, ret, q.head.txPackets - before.1, q.head.txDropped - before.2⟩] }) (lock_ne_none owns)
      rfl rfl rfl rfl rfl rfl rfl rfl
    exact recorded.unlock left
  · have of_tail := owns.tail
    cases k <;> exact of_tail

/-- How far a clean that began at position `start` has come: the slots before position
    `m` are released, `next_to_clean` is at `n`, and the hardware is done with the slots
    before `c`. -/
structure Cleaning (size : Nat) (t : Nat) (h : Option TxHead) (start n m c : Nat) (q : TxQueue) : Prop where
  owns : Owns t h (some q.tail) q
  completed : c ≤ q.completed
  cleaned : q.tail.cleaned = n
  released : q.tail.released.length = m
  first : q.tail.first = start
  slot : q.tail.start = start % size

theorem stable_cleaning {start n m c : Nat} :
    (txContract size kind rest t).Stable (Cleaning size t h start n m c) := by
  intro q q' here between _ _
  have same : q'.tail = q.tail := between.tail (held_bit here.owns).1
  have owns := here.owns.rely between
  rw [← same] at owns
  refine ⟨owns, here.completed.trans between.completed, ?_, ?_, ?_, ?_⟩ <;> rw [same]
  · exact here.cleaned
  · exact here.released
  · exact here.first
  · exact here.slot

theorem testAndSetBit_triple :
    (txContract size kind rest t).Triple (Owns t h none) (TxAccess.testAndSetBit t) fun busy q =>
      (busy = true → Owns t h none q) ∧ (busy = false → ∃ start, Cleaning size t h start start start 0 q) := by
  apply Contract.Triple.access stable_own
  · intro busy q q' ⟨taken, mine⟩ between okk inv
    refine ⟨fun is => (taken is).rely between, fun is => ?_⟩
    obtain ⟨start, here⟩ := mine is
    exact ⟨start, stable_cleaning q q' here between okk inv⟩
  · intro q _ busy q' _ inv owns taken _
    split at taken
    · cases taken
      exact ⟨inv, (txContract size kind rest t).guarantee_refl q, fun _ => owns, nofun⟩
    · rename_i free
      cases taken
      have none_set : q.cleaning = none := by simpa using free
      have level := TxInv.tailIdle inv none_set
      refine ⟨TxInv.setBit inv t, fun v other => ?_, nofun, fun _ =>
        ⟨q.tail.released.length, ⟨?_, rfl, rfl⟩, Nat.zero_le _, level, rfl, rfl, ?_⟩⟩
      · have now : some t ≠ some v := by simpa using other.symm
        have before : q.cleaning ≠ some v := by
          rw [none_set]
          simp
        exact ⟨Iff.rfl, ⟨fun h => absurd h now, fun h => absurd h before⟩, fun _ => rfl,
          fun held => absurd held before, Nat.le_refl _, Nat.le_refl _⟩
      · have of_head := owns.head
        cases h <;> exact of_head
      · rw [← level]
        exact TxInv.nextToClean inv

/-- The write-back is never more than one turn of the ring ahead of the clean. -/
theorem readWb_triple {start : Nat} :
    (txContract size kind rest t).Triple (Cleaning size t h start start start 0) TxAccess.readWb fun cidx q =>
      ∃ c, (cidx = c % size ∧ start ≤ c ∧ c < start + size) ∧ Cleaning size t h start start start c q := by
  apply tx_look stable_cleaning
  · intro cidx q q' ⟨c, facts, here⟩ between okk inv
    exact ⟨c, facts, stable_cleaning q q' here between okk inv⟩
  · intro q _ cidx q' inv here taken
    obtain ⟨rfl, rfl⟩ : wbCidx q.wb = cidx ∧ q = q' := by simpa using taken
    have within := inv.completed_le.trans (inv.published_le.trans inv.used_le)
    have room := inv.room
    have behind := inv.released_le
    rw [here.released] at behind
    rw [here.cleaned] at room
    exact ⟨rfl, q.completed, ⟨inv.wb, behind, by omega⟩, here.owns, Nat.le_refl _, here.cleaned,
      here.released, here.first, here.slot⟩

theorem readNextToClean_triple {start n m c : Nat} :
    (txContract size kind rest t).Triple (Cleaning size t h start n m c) TxAccess.readNextToClean fun next q =>
      next = n % size ∧ Cleaning size t h start n m c q := by
  apply tx_look stable_cleaning fun _ => stable_cleaning.pure_and
  intro q _ next q' inv here taken
  obtain ⟨rfl, rfl⟩ : q.tail.nextToClean = next ∧ q = q' := by simpa using taken
  exact ⟨rfl, by rw [inv.nextToClean, here.cleaned], here⟩

/-- A slot is released by code that releases a live buffer as due and leaves nothing. -/
theorem release_triple {start n c : Nat} {actions : TxBuffer → List TxAction} {wipe : TxBuffer → TxBuffer}
    (more : n < c) (due : ∀ frame : TxFrame, kind frame.type → actions frame.buffer = frame.due)
    (empty : ∀ frame : TxFrame, kind frame.type → (wipe frame.buffer).held = none) :
    (txContract size kind rest t).Triple (Cleaning size t h start n n c) (TxAccess.release actions wipe)
      fun _ => Cleaning size t h start n (n + 1) c := by
  apply Contract.Triple.modify stable_cleaning stable_cleaning
  intro q _ inv here _
  have level : q.tail.cleaned = q.tail.released.length := here.cleaned.trans here.released.symm
  have further : q.tail.released.length < q.completed := by
    rw [here.released]
    exact more.trans_le here.completed
  obtain ⟨frame, oldest, buffer⟩ := TxInv.oldest inv level further
  have typed : kind frame.type := TxInv.typed inv frame (List.mem_of_getElem? oldest)
  have held := (held_bit here.owns).1
  simp only [buffer, due frame typed]
  refine ⟨TxInv.release inv (bit_ne_none here.owns) level further oldest (empty frame typed) _,
    txBit_guarantee held (fun v other => other_than held other) rfl rfl rfl (Nat.le_refl _),
    ⟨?_, held, rfl⟩, here.completed, here.cleaned, ?_, here.first, here.slot⟩
  · have of_head := here.owns.head
    cases h <;> exact of_head
  · simp [here.released]

theorem writeNextToClean_triple {start n c : Nat} {next : TxQueue → Nat}
    (is : ∀ q, TxInv size kind rest q → q.tail.nextToClean = n % size → next q = (n + 1) % size) :
    (txContract size kind rest t).Triple (Cleaning size t h start n (n + 1) c) (TxAccess.writeNextToClean next)
      fun _ => Cleaning size t h start (n + 1) (n + 1) c := by
  apply Contract.Triple.modify stable_cleaning stable_cleaning
  intro q _ inv here _
  have held := (held_bit here.owns).1
  refine ⟨TxInv.advanceTail inv (bit_ne_none here.owns) ?_ ?_,
    txBit_guarantee held (fun v other => other_than held other) rfl rfl rfl (Nat.le_succ _),
    ⟨?_, held, rfl⟩, here.completed, ?_, here.released, here.first, here.slot⟩
  · rw [here.cleaned, here.released]
    exact Nat.lt_succ_self n
  · rw [here.cleaned]
    exact is q inv (by rw [TxInv.nextToClean inv, here.cleaned])
  · have of_head := here.owns.head
    cases h <;> exact of_head
  · simp [here.cleaned]

/-- A clean ends where the write-back it has seen points. -/
theorem clearBit_triple {start c : Nat} (from_start : start ≤ c) (within : c < start + size) :
    (txContract size kind rest t).Triple (Cleaning size t h start c c c) (TxAccess.clearBit (c % size))
      fun _ => Owns t h none := by
  apply Contract.Triple.modify stable_cleaning stable_own
  intro q _ inv here _
  have held := (held_bit here.owns).1
  have whole : TxClean.Exact size q.head.accepted
      ⟨q.tail.start, c % size, q.tail.released.drop q.tail.first⟩ := by
    refine ⟨⟨q.tail.first, (TxInv.releases inv).drop q.tail.first⟩, ?_⟩
    simp only
    rw [slots_of_releases (TxInv.releases inv), here.first, here.released, here.slot,
      Cyclic.slotsBetween_mod from_start within]
  refine ⟨TxInv.clearBit inv (here.cleaned.trans here.released.symm) whole,
    txBit_guarantee held (fun _ _ => nofun) rfl rfl rfl (Nat.le_refl _),
    ?_, nofun⟩
  have of_head := here.owns.head
  cases h <;> exact of_head

end

end OpenNic
