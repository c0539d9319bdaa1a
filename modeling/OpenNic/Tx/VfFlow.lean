import OpenNic.Tx.VfTeardown
import OpenNic.Tx.VfWriteBack

namespace OpenNic

/-- A transmit queue of the VF with its subqueue's stop flag. -/
structure VfTxFlow where
  queue : TxQueue
  stopped : Bool

namespace VfTxFlow

def setQueue (q : TxQueue) (s : VfTxFlow) : VfTxFlow := { s with queue := q }

def onQueue {α : Type} (p : Program TxQueue TxInput α) : Program VfTxFlow TxInput α := p.lift VfTxFlow.queue setQueue

def netifStopSubqueue : Program VfTxFlow TxInput Unit := .modify fun s => { s with stopped := true }

def netifWakeSubqueue : Program VfTxFlow TxInput Unit := .modify fun s => { s with stopped := false }

def netifTxQueueStopped : Program VfTxFlow TxInput Bool := .read VfTxFlow.stopped

/-- `onic_vf_xmit_frame` from the padding to the doorbell; whether the skb was submitted. -/
def onicVfXmitSend (priv : VfTxPriv) (skb : Skb) : Program TxQueue TxInput Bool := do
  let rv ← TxAccess.skbPutPadto skb.id
  if rv ≠ 0 then
    TxAccess.countDropped
    .done false
  else
    let len := max skb.len ethZlen
    match ← TxAccess.dmaMapSingle (some skb.id) len with
    | none =>
      let _ ← onicVfXmitDrop skb
      .done false
    | some dmaAddr =>
      TxAccess.store ⟨.skb, skb.id, dmaAddr, len⟩
      TxAccess.countPacket len
      onicVfTxRingIncrementHead
      onicVfSetTxHead priv
      .done true

def onicVfXmitSubmit (priv : VfTxPriv) (skb : Skb) : Program VfTxFlow TxInput NetdevTx := do
  if ← onQueue (onicVfXmitSend priv skb) then
    if ← onQueue onicVfTxRingFull then
      netifStopSubqueue
      .done .ok
    else .done .ok
  else .done .ok

def onicVfXmitFrame (priv : VfTxPriv) (t : Nat) (skb : Skb) : Program VfTxFlow TxInput NetdevTx := do
  if priv.numTxQueues = 0 then onQueue (onicVfXmitDrop skb)
  else if !priv.queue then onQueue (onicVfXmitDrop skb)
  else
    onQueue (onicVfTxClean priv t)
    if ← onQueue onicVfTxRingFull then
      netifStopSubqueue
      onQueue (onicVfTxClean priv t)
      if ← onQueue onicVfTxRingFull then .done .busy
      else
        netifWakeSubqueue
        onicVfXmitSubmit priv skb
    else onicVfXmitSubmit priv skb

/-- The stack's call of the transmit function: under the lock of the queue, and only while the
    subqueue is not stopped. -/
def transmit (priv : VfTxPriv) (t : Nat) (skb : Skb) : Program VfTxFlow TxInput Unit := do
  let before ← onQueue (TxAccess.lock t)
  if ← netifTxQueueStopped then onQueue TxAccess.unlock
  else
    let ret ← onicVfXmitFrame priv t skb
    onQueue (TxAccess.unlockCall skb.id ret before)

def onicVfTxMaybeWakeSubqueue : Program VfTxFlow TxInput Unit := do
  if ← netifTxQueueStopped then
    if ← onQueue onicVfTxRingFull then .done ()
    else netifWakeSubqueue
  else .done ()

/-- The turn of `onic_vf_tx_clean_work_fn` for this queue. -/
def onicVfTxCleanWork (priv : VfTxPriv) (t : Nat) : Program VfTxFlow TxInput Unit :=
  if priv.queue then do
    onQueue (onicVfTxClean priv t)
    onicVfTxMaybeWakeSubqueue
  else .done ()

/-- Thread 0 is the periodic work, of which there is one; the others transmit or poll. -/
inductive Call (priv : VfTxPriv) : Nat → Program VfTxFlow TxInput Unit → Prop
  | transmit (t : Nat) (skb : Skb) : Call priv (t + 1) (transmit priv (t + 1) skb)
  | poll (t : Nat) : Call priv (t + 1) (onQueue (onicVfTxClean priv (t + 1)))
  | work : Call priv 0 (onicVfTxCleanWork priv 0)

def rules (priv : VfTxPriv) : Pool.Rules Nat VfTxFlow TxInput where
  calls t _ := Call priv t
  env s s' := ∃ q, TxHardware s.queue q ∧ s' = setQueue q s

theorem lens : Program.Lens VfTxFlow.queue setQueue := ⟨fun _ _ => rfl, fun _ => rfl, fun _ _ _ => rfl⟩

@[simp] theorem setQueue_queue (q : TxQueue) (s : VfTxFlow) : (setQueue q s).queue = q := rfl

@[simp] theorem setQueue_stopped (q : TxQueue) (s : VfTxFlow) : (setQueue q s).stopped = s.stopped := rfl

/-- A subqueue that is not stopped has room for one frame more. -/
def Awake (size : Nat) (s : VfTxFlow) : Prop := s.stopped = false → Room size s.queue.head.used s.queue

/-- What a finished transmit leaves behind: besides the conservation no refused skb. -/
structure Rest (priv : VfTxPriv) (head : TxHead) : Prop extends VfRest priv head where
  accepted : ∀ call ∈ head.calls, call.ret = .ok

structure Inv (size : Nat) (priv : VfTxPriv) (s : VfTxFlow) : Prop where
  queue : TxInv size VfKind (Rest priv) s.queue
  awake : s.queue.txLock = none → s.Awake size

/-- To a transmit the others wake the subqueue only where there is room and never stop it; to
    the work they do not wake it and put nothing in while it is stopped. -/
structure Rely (size t : Nat) (s s' : VfTxFlow) : Prop where
  queue : TxRely t s.queue s'.queue
  wakes : s.queue.txLock = some t → s'.stopped = false → s.stopped = false ∨ Room size s'.queue.head.used s'.queue
  stays : s.queue.txLock = some t → s.stopped = false → s'.stopped = false
  work : t = 0 → s.stopped = true → s'.stopped = true ∧ s'.queue.head.used = s.queue.head.used

theorem Rely.refl (size t : Nat) (s : VfTxFlow) : Rely size t s s :=
  ⟨.refl t s.queue, fun _ => .inl, fun _ same => same, fun _ same => ⟨same, rfl⟩⟩

theorem room_later {size t : Nat} {q q' : TxQueue} (room : Room size q.head.used q) (rely : TxRely t q q')
    (used : q'.head.used = q.head.used) : Room size q'.head.used q' := by
  rw [used]
  exact lasting_room q q' room rely.cleaned rely.completed

theorem Rely.trans {size t : Nat} {a b c : VfTxFlow} (h : Rely size t a b) (h' : Rely size t b c) : Rely size t a c where
  queue := h.queue.trans h'.queue
  wakes held awake := by
    have held' := h.queue.lock.mpr held
    rcases h'.wakes held' awake with before | room
    · rcases h.wakes held before with first | room
      · exact .inl first
      · exact .inr (room_later room h'.queue (by rw [h'.queue.head held']))
    · exact .inr room
  stays held awake := h'.stays (h.queue.lock.mpr held) (h.stays held awake)
  work is stopped := by
    obtain ⟨stopped', used⟩ := h.work is stopped
    obtain ⟨stopped'', used'⟩ := h'.work is stopped'
    exact ⟨stopped'', used'.trans used⟩

def contract (size : Nat) (priv : VfTxPriv) (t : Nat) : Contract VfTxFlow where
  ok _ := True
  inv := Inv size priv
  rely := Rely size t
  guarantee s s' := ∀ v, v ≠ t → Rely size v s s'
  rely_refl := Rely.refl size t
  rely_trans := Rely.trans
  guarantee_refl s v _ := Rely.refl size v s

section

variable {size : Nat} {priv : VfTxPriv} {t : Nat} {h : Option TxHead} {k : Option TxTail} {head : TxHead} {α : Type}

/-- The contract of the queue under the flag. -/
abbrev queueContract (size : Nat) (priv : VfTxPriv) (t : Nat) : Contract TxQueue := txContract size VfKind (Rest priv) t

theorem cleaned_of_guarantee {q q' : TxQueue} (guarantee : (queueContract size priv t).guarantee q q') :
    q.tail.cleaned ≤ q'.tail.cleaned :=
  (guarantee (t + 1) (Nat.succ_ne_self t)).cleaned

/-- What the steps on the queue have to leave for the flag to stay right. -/
structure Keeps (size t : Nat) (s : VfTxFlow) (q : TxQueue) : Prop where
  awake : q.txLock = none → (setQueue q s).Awake size
  work : t ≠ 0 → s.stopped = true → q.head.used = s.queue.head.used

/-- A program on the queue under the flag. -/
theorem onQueue_triple {p : Program TxQueue TxInput α} {pre : TxQueue → Prop} {post : α → TxQueue → Prop}
    {R : TxQueue → TxQueue → Prop} {F : VfTxFlow → Prop} (triple : (queueContract size priv t).Triple pre p post)
    (steps : p.Steps R) (stable : (contract size priv t).Stable F)
    (keeps : ∀ s q, Inv size priv s → F s → (queueContract size priv t).guarantee s.queue q → R s.queue q →
      Keeps size t s q ∧ F (setQueue q s)) :
    (contract size priv t).Triple (fun s => pre s.queue ∧ F s) (onQueue p) fun a s => post a s.queue ∧ F s := by
  intro s _ inv ⟨before, frame⟩
  apply Contract.wp_lift_frame (C := queueContract size priv t) (D := contract size priv t) (R := R) lens.get_set
    (fun _ _ => trivial) (fun s inv _ => Inv.queue inv) (fun _ _ rely => Rely.queue rely) steps stable _ frame (triple s.queue trivial inv.queue before)
  intro s q _ inv frame _ queue guarantee step
  obtain ⟨kept, frame'⟩ := keeps s q inv frame guarantee step
  refine ⟨⟨queue, kept.awake⟩, fun v other => ⟨guarantee v other, fun _ => .inl, fun _ same => same, fun is stopped => ?_⟩, frame'⟩
  exact ⟨stopped, kept.work (fun same => other (is.trans same.symm)) stopped⟩

/-- What the holder of the lock knows of the flag. -/
def HolderAwake (size t : Nat) (s : VfTxFlow) : Prop := s.queue.txLock = some t → s.Awake size

theorem stable_holderAwake : (contract size priv t).Stable (HolderAwake size t) := by
  intro s s' awake between _ _ held running
  have held' := between.queue.lock.mp held
  rcases between.wakes held' running with before | room
  · exact room_later (awake held' before) between.queue (by rw [between.queue.head held'])
  · exact room

/-- Whoever has seen the subqueue awake under the lock. -/
def Sending (t : Nat) (s : VfTxFlow) : Prop := s.queue.txLock = some t ∧ s.stopped = false

theorem stable_sending : (contract size priv t).Stable (Sending t) :=
  fun _ _ ⟨held, awake⟩ between _ _ => ⟨between.queue.lock.mpr held, between.stays held awake⟩

theorem room_of_cleaned {q q' : TxQueue} (room : Room size q.head.used q) (used : q'.head.used = q.head.used)
    (cleaned : q.tail.cleaned ≤ q'.tail.cleaned) : Room size q'.head.used q' := by
  rw [used]
  exact Nat.lt_of_lt_of_le room (Nat.add_le_add_right cleaned size)

/-- A clean of the stack, the polls or the work. -/
theorem clean_keeps {s : VfTxFlow} {q : TxQueue} (inv : Inv size priv s)
    (guarantee : (queueContract size priv t).guarantee s.queue q) (same : CleanKeeps s.queue q) : Keeps size t s q where
  awake free running := room_of_cleaned (inv.awake (same.txLock.symm.trans free) running) (by rw [setQueue_queue, same.head])
    (cleaned_of_guarantee guarantee)
  work _ _ := by rw [same.head]

theorem clean_triple : (contract size priv t).Triple (fun s => Owns t h none s.queue ∧ HolderAwake size t s)
    (onQueue (onicVfTxClean priv t)) fun _ s => Owns t h none s.queue ∧ HolderAwake size t s := by
  apply onQueue_triple onicVfTxClean_triple (onicVfTxClean_keeps priv t) stable_holderAwake
  intro s q inv awake guarantee same
  refine ⟨clean_keeps inv guarantee same, fun held running => ?_⟩
  exact room_of_cleaned (awake (same.txLock.symm.trans held) running) (by rw [setQueue_queue, same.head])
    (cleaned_of_guarantee guarantee)

theorem lock_triple : (contract size priv t).Triple (fun s => Owns t none k s.queue ∧ HolderAwake size t s)
    (onQueue (TxAccess.lock t)) fun before s => (∃ head, (Rest priv head ∧ before = (head.txPackets, head.txDropped)) ∧
      Owns t (some head) k s.queue) ∧ HolderAwake size t s := by
  apply onQueue_triple (R := fun q q' => q.txLock = none ∧ q' = { q with txLock := some t }) txLock_triple
  · apply Program.Steps.access
    intro _ q before q' taken
    split at taken
    · rename_i free
      cases taken
      exact ⟨free, rfl⟩
    · cases taken
  · exact stable_holderAwake
  · rintro s q inv - - ⟨free, rfl⟩
    exact ⟨⟨nofun, fun _ _ => rfl⟩, fun _ => inv.awake free⟩

/-- Whoever gives the lock back leaves the flag right. -/
theorem unlock_keeps {s : VfTxFlow} {q : TxQueue} (inv : Inv size priv s) (awake : HolderAwake size t s)
    (guarantee : (queueContract size priv t).guarantee s.queue q) (free : q.txLock = none)
    (used : q.head.used = s.queue.head.used) : Keeps size t s q ∧ HolderAwake size t (setQueue q s) := by
  refine ⟨⟨fun _ running => ?_, fun _ _ => used⟩, fun held => ?_⟩
  · have before : s.Awake size := by
      cases lock : s.queue.txLock with
      | none => exact inv.awake lock
      | some v =>
        by_cases own : v = t
        · exact awake (by rw [lock, own])
        · have kept := (guarantee v own).lock.mpr lock
          rw [free] at kept
          cases kept
    exact room_of_cleaned (before running) used (cleaned_of_guarantee guarantee)
  · rw [setQueue_queue, free] at held
    cases held

theorem unlock_triple (left : Rest priv head) :
    (contract size priv t).Triple (fun s => Owns t (some head) k s.queue ∧ HolderAwake size t s) (onQueue TxAccess.unlock)
      fun _ s => Owns t none k s.queue ∧ HolderAwake size t s := by
  apply onQueue_triple (R := fun q q' => q'.txLock = none ∧ q'.head.used = q.head.used) (txUnlock_triple left)
  · exact .modify fun _ => ⟨rfl, rfl⟩
  · exact stable_holderAwake
  · exact fun s q inv awake guarantee step => unlock_keeps inv awake guarantee step.1 step.2

theorem unlockCall_triple {skb : Nat} {ret : NetdevTx} {before : Nat × Nat}
    (left : Rest priv { head with calls := head.calls ++
      [⟨skb, ret, head.txPackets - before.1, head.txDropped - before.2⟩] }) :
    (contract size priv t).Triple (fun s => Owns t (some head) k s.queue ∧ HolderAwake size t s)
      (onQueue (TxAccess.unlockCall skb ret before)) fun _ s => Owns t none k s.queue ∧ HolderAwake size t s := by
  apply onQueue_triple (R := fun q q' => q'.txLock = none ∧ q'.head.used = q.head.used) (OpenNic.unlockCall_triple left)
  · exact .modify fun _ => ⟨rfl, rfl⟩
  · exact stable_holderAwake
  · exact fun s q inv awake guarantee step => unlock_keeps inv awake guarantee step.1 step.2

/-- What the sender owns of the queue while it has seen no frame go in. -/
def OwnsRoom (size t : Nat) (head : TxHead) (q : TxQueue) : Prop := Owns t (some head) none q ∧ Room size head.used q

theorem stable_queue {X : TxQueue → Prop} (stable : (queueContract size priv t).Stable X) :
    (contract size priv t).Stable fun s => X s.queue :=
  fun s s' holds between _ inv => stable s.queue s'.queue holds between.queue trivial inv.queue

def SameLock (q q' : TxQueue) : Prop := q'.txLock = q.txLock

/-- What the sender does to the queue is nobody else's business as long as it keeps the lock. -/
theorem sending_triple {p : Program TxQueue TxInput α} {pre : TxQueue → Prop} {post : α → TxQueue → Prop}
    (triple : (queueContract size priv t).Triple pre p post) (lock : p.Steps SameLock) :
    (contract size priv t).Triple (fun s => pre s.queue ∧ Sending t s) (onQueue p) fun a s => post a s.queue ∧ Sending t s := by
  apply onQueue_triple triple lock stable_sending
  rintro s q inv ⟨held, awake⟩ guarantee same
  have held' : q.txLock = some t := same.trans held
  exact ⟨⟨fun free => absurd (free.symm.trans held') nofun, fun _ stopped => absurd (stopped.symm.trans awake) nofun⟩, held', awake⟩

theorem sendingClean_triple : (contract size priv t).Triple (fun s => OwnsRoom size t head s.queue ∧ Sending t s)
    (onQueue (onicVfTxClean priv t)) fun _ s => OwnsRoom size t head s.queue ∧ Sending t s := by
  have clean : (queueContract size priv t).Triple (Owns t (some head) none) (onicVfTxClean priv t)
      fun _ => Owns t (some head) none := onicVfTxClean_triple
  have framed := clean.frame (X := Room size head.used)
    (fun q q' room rely => lasting_room q q' room (TxRely.cleaned rely) (TxRely.completed rely))
    (fun q q' room guarantee => Nat.lt_of_lt_of_le room (Nat.add_le_add_right (cleaned_of_guarantee guarantee) size))
  exact sending_triple framed ((onicVfTxClean_keeps priv t).mono fun _ _ same => same.txLock)

/-- The VF's ring is full when one frame more would reach the next one to clean. -/
theorem vf_full_iff {q : TxQueue} (inv : TxInv size VfKind (Rest priv) q) :
    (if q.head.nextToUse + 1 = q.onicVfRingRealCount then 0 else q.head.nextToUse + 1) = q.tail.nextToClean ↔
      q.head.used + 1 = q.tail.cleaned + size := by
  have next := wrap_eq (Nat.mod_lt q.head.used inv.size_pos)
  have full_iff := inv.full_iff
  rw [inv.nextToUse, Nat.mod_add_mod] at full_iff
  rw [inv.vfRealCount, inv.nextToUse, next, full_iff]

/-- A ring that has room is not found full. -/
theorem roomFull_triple : (queueContract size priv t).Triple (OwnsRoom size t head) onicVfTxRingFull
    fun full q => full = false ∧ OwnsRoom size t head q := by
  have stable : (queueContract size priv t).Stable (OwnsRoom size t head) := stable_owns lasting_room
  apply tx_look stable fun _ => stable.pure_and
  intro q _ full q' inv owns taken
  cases taken
  refine ⟨rfl, ?_, owns⟩
  have room := owns.2
  rw [← (held_lock owns.1).2, Room] at room
  apply decide_eq_false
  rw [vf_full_iff inv]
  omega

/-- What came of the skb: what the transmit has counted, and that there still is room if the
    frame is not in the ring. -/
def Sent (size : Nat) (priv : VfTxPriv) (t : Nat) (head : TxHead) (skb : Nat) (sent : Bool) (q : TxQueue) : Prop :=
  ∃ head', VfOutcome priv head skb .ok head' ∧ Owns t (some head') none q ∧ (sent = false → Room size head'.used q)

theorem sent_dropped {head' : TxHead} {skb : Nat} (outcome : VfOutcome priv head skb .ok head') :
    (queueContract size priv t).Triple (OwnsRoom size t head') (.done false : Program TxQueue TxInput Bool)
      (Sent size priv t head skb) :=
  .done (stable_owns lasting_room) fun _ _ owns => ⟨head', outcome, owns.1, fun _ => owns.2⟩

theorem sent_ring {head' : TxHead} {skb : Nat} (outcome : VfOutcome priv head skb .ok head') :
    (queueContract size priv t).Triple (Owns t (some head') none) (.done true : Program TxQueue TxInput Bool)
      (Sent size priv t head skb) :=
  .done stable_own fun _ _ owns => ⟨head', outcome, owns, nofun⟩

theorem onicVfXmitSend_triple (skb : Skb) (valid : onicVfQidValid priv = true) (queue : priv.queue = true)
    (rung : Rung head) :
    (queueContract size priv t).Triple (OwnsRoom size t head) (onicVfXmitSend priv skb) (Sent size priv t head skb.id) := by
  apply Contract.Triple.bind (skbPutPadto_triple lasting_room skb.id)
  intro rv
  apply Contract.Triple.pure_pre
  intro bound
  split
  · rename_i nonzero
    have failed : rv < 0 := by omega
    rw [TxHead.padResult, if_pos failed]
    apply Contract.Triple.bind (countDropped_triple lasting_room)
    intro _
    exact sent_dropped ⟨⟨rung.whole.used, rung.whole.pending⟩, fun _ => rfl, rfl, rung.doorbell, rfl, .inr ⟨rfl, rfl⟩⟩
  · rename_i zero
    have passed : ¬ rv < 0 := by omega
    rw [TxHead.padResult, if_neg passed]
    apply Contract.Triple.bind (dmaMapSingle_triple lasting_room (some skb.id) _)
    intro mapping
    cases mapping with
    | none =>
      apply Contract.Triple.bind (countDropped_triple lasting_room)
      intro _
      apply Contract.Triple.bind (kfreeSkb_triple lasting_room skb.id)
      intro _
      exact sent_dropped ⟨⟨rung.whole.used, rung.whole.pending⟩, fun _ => rfl, rfl, rung.doorbell, rfl, .inr ⟨rfl, rfl⟩⟩
    | some dmaAddr =>
      have whole : (head.mapResult (max skb.len ethZlen) (some dmaAddr)).used =
          (head.mapResult (max skb.len ethZlen) (some dmaAddr)).accepted.length := rung.whole.used
      have pending : (head.mapResult (max skb.len ethZlen) (some dmaAddr)).pending = [⟨dmaAddr, max skb.len ethZlen⟩] := by
        simp [TxHead.mapResult, rung.whole.pending]
      have frame : VfKind (⟨.skb, skb.id, dmaAddr, max skb.len ethZlen⟩ : TxFrame).type := rfl
      apply Contract.Triple.bind (store_triple whole frame pending)
      intro _
      apply Contract.Triple.bind (countPacket_triple lasting_true _).of_true
      intro _
      apply Contract.Triple.bind (onicVfTxRingIncrementHead_triple (by simp [TxHead.stored, whole]))
      intro _
      rw [onicVfSetTxHead, if_pos valid]
      apply Contract.Triple.bind (writePidx_triple lasting_true).of_true
      intro _
      exact sent_ring ⟨⟨by simp [TxHead.stored, whole], rfl⟩, by simp [queue], rfl, fun _ => rfl, rfl, .inl ⟨rfl, rfl⟩⟩

theorem onicVfTxRingFull_lock : onicVfTxRingFull.Steps SameLock := by
  apply Program.Steps.read
  exact fun _ => rfl

theorem onicVfXmitDrop_lock (skb : Skb) : (onicVfXmitDrop skb).Steps SameLock := by
  have dropped : TxAccess.countDropped.Steps SameLock := .modify fun _ => rfl
  have freed : (TxAccess.kfreeSkb skb.id).Steps SameLock := .modify fun _ => rfl
  exact dropped.bind fun _ => freed.bind fun _ => .done _

theorem onicVfXmitSend_lock (skb : Skb) : (onicVfXmitSend priv skb).Steps SameLock := by
  have dropped : TxAccess.countDropped.Steps SameLock := .modify fun _ => rfl
  have stored (frame : TxFrame) : (TxAccess.store frame).Steps SameLock := .modify fun _ => rfl
  have counted (len : Nat) : (TxAccess.countPacket len).Steps SameLock := .modify fun _ => rfl
  have passed : onicVfTxRingIncrementHead.Steps SameLock := .modify fun _ => rfl
  have rung : TxAccess.writePidx.Steps SameLock := .modify fun _ => rfl
  apply Program.Steps.bind
  · apply Program.Steps.access
    intro input q rv q' taken
    cases taken
    show TxQueue.txLock (if _ then _ else _) = _
    split <;> rfl
  intro rv
  split
  · exact dropped.bind fun _ => .done _
  apply Program.Steps.bind
  · apply Program.Steps.access
    intro input q mapping q' taken
    cases taken
    rfl
  intro mapping
  cases mapping with
  | none => exact (onicVfXmitDrop_lock skb).bind fun _ => .done _
  | some dmaAddr =>
    apply (stored _).bind
    intro _
    apply (counted _).bind
    intro _
    apply passed.bind
    intro _
    rw [onicVfSetTxHead]
    split
    · exact rung.bind fun _ => .done _
    · exact .done _

/-- What a transmit ends with: the skb is taken, and the flag is right. -/
def Ended (size : Nat) (priv : VfTxPriv) (t : Nat) (head : TxHead) (skb : Nat) (ret : NetdevTx) (s : VfTxFlow) : Prop :=
  ret = .ok ∧ (∃ head', VfOutcome priv head skb ret head' ∧ Owns t (some head') none s.queue) ∧ HolderAwake size t s

theorem stable_ended {skb : Nat} {ret : NetdevTx} : (contract size priv t).Stable (Ended size priv t head skb ret) := by
  rintro s s' ⟨is, ⟨head', outcome, owns⟩, awake⟩ between okk inv
  exact ⟨is, ⟨head', outcome, owns.rely between.queue⟩, stable_holderAwake s s' awake between okk inv⟩

theorem ended_done {head' : TxHead} {skb : Nat} {pre : VfTxFlow → Prop} (outcome : VfOutcome priv head skb .ok head')
    (owns : ∀ s, pre s → Owns t (some head') none s.queue) (awake : ∀ s, pre s → HolderAwake size t s) :
    (contract size priv t).Triple pre (.done .ok : Program VfTxFlow TxInput NetdevTx) (Ended size priv t head skb) := by
  apply Contract.Triple.from_pre (Ended size priv t head skb .ok)
  · exact fun s _ before => ⟨rfl, ⟨head', outcome, owns s before⟩, awake s before⟩
  · exact .done stable_ended fun _ _ ended => ended

/-- Only the holder of the lock stops the subqueue. -/
theorem netifStopSubqueue_triple {head' : TxHead} :
    (contract size priv t).Triple (fun s => Owns t (some head') none s.queue ∧ Sending t s) netifStopSubqueue
      fun _ s => Owns t (some head') none s.queue ∧ HolderAwake size t s := by
  apply Contract.Triple.modify
  · exact fun s s' ⟨owns, sending⟩ between okk inv => ⟨owns.rely between.queue, stable_sending s s' sending between okk inv⟩
  · exact fun s s' ⟨owns, awake⟩ between okk inv => ⟨owns.rely between.queue, stable_holderAwake s s' awake between okk inv⟩
  rintro s - inv ⟨owns, held, awake⟩ -
  refine ⟨⟨inv.queue, fun _ => nofun⟩, fun v other => ⟨.refl v s.queue, fun _ => nofun, fun mine => ?_, fun _ _ => ⟨rfl, rfl⟩⟩, owns, fun _ => nofun⟩
  rw [held] at mine
  exact absurd (Option.some.inj mine).symm other

theorem holderAwake_of_room {head' : TxHead} {s : VfTxFlow} (owns : Owns t (some head') none s.queue)
    (room : Room size head'.used s.queue) : HolderAwake size t s := by
  intro _ _
  rw [(held_lock owns).2]
  exact room

theorem onicVfXmitSubmit_triple (skb : Skb) (valid : onicVfQidValid priv = true) (queue : priv.queue = true) (rung : Rung head) :
    (contract size priv t).Triple (fun s => OwnsRoom size t head s.queue ∧ Sending t s) (onicVfXmitSubmit priv skb)
      (Ended size priv t head skb.id) := by
  apply Contract.Triple.bind (sending_triple (onicVfXmitSend_triple skb valid queue rung) (onicVfXmitSend_lock skb))
  intro sent
  apply Contract.Triple.from_pre fun s => ∃ head', VfOutcome priv head skb.id .ok head' ∧
    (Owns t (some head') none s.queue ∧ (sent = false → Room size head'.used s.queue)) ∧ Sending t s
  · rintro s - ⟨⟨head', outcome, owns⟩, sending⟩
    exact ⟨head', outcome, owns, sending⟩
  apply Contract.Triple.exists_pre
  intro head'
  apply Contract.Triple.pure_pre
  intro outcome
  cases sent with
  | false =>
    apply Contract.Triple.from_pre fun s => OwnsRoom size t head' s.queue
    · exact fun s _ ⟨⟨owns, room⟩, _⟩ => ⟨owns, room rfl⟩
    apply Contract.Triple.from_pre (Ended size priv t head skb.id .ok)
    · exact fun s _ ⟨owns, room⟩ => ⟨rfl, ⟨head', outcome, owns⟩, holderAwake_of_room owns room⟩
    · exact .done stable_ended fun _ _ ended => ended
  | true =>
    apply Contract.Triple.from_pre fun s => Owns t (some head') none s.queue ∧ Sending t s
    · exact fun s _ ⟨⟨owns, _⟩, sending⟩ => ⟨owns, sending⟩
    apply Contract.Triple.bind (sending_triple onicVfTxRingFull_triple onicVfTxRingFull_lock)
    intro full
    cases full with
    | true =>
      apply Contract.Triple.from_pre fun s => Owns t (some head') none s.queue ∧ Sending t s
      · exact fun s _ ⟨⟨owns, _⟩, sending⟩ => ⟨owns, sending⟩
      apply Contract.Triple.bind netifStopSubqueue_triple
      intro _
      exact ended_done outcome (fun s here => here.1) fun s here => here.2
    | false =>
      apply ended_done outcome
      · exact fun s here => here.1.1
      · exact fun s here => holderAwake_of_room here.1.1 (here.1.2 rfl)

theorem xmitDrop_triple (skb : Skb) (rung : Rung head) :
    (contract size priv t).Triple (fun s => OwnsRoom size t head s.queue ∧ Sending t s) (onQueue (onicVfXmitDrop skb))
      (Ended size priv t head skb.id) := by
  have drop : (queueContract size priv t).Triple (OwnsRoom size t head) (onicVfXmitDrop skb) fun ret q =>
      ret = .ok ∧ OwnsRoom size t { head with
        txDropped := head.txDropped + 1, txErrors := head.txErrors + 1, disposed := head.disposed ++ [skb.id] } q := by
    apply Contract.Triple.bind (countDropped_triple lasting_room)
    intro _
    apply Contract.Triple.bind (kfreeSkb_triple lasting_room skb.id)
    intro _
    exact .done (stable_owns lasting_room) fun _ _ owns => ⟨rfl, owns⟩
  apply (sending_triple drop (onicVfXmitDrop_lock skb)).conseq fun _ _ before => before
  rintro ret s - ⟨⟨rfl, owns, room⟩, -⟩
  refine ⟨rfl, ⟨_, ?_, owns⟩, holderAwake_of_room owns room⟩
  exact ⟨⟨rung.whole.used, rung.whole.pending⟩, fun _ => rfl, rfl, rung.doorbell, rfl, .inr ⟨rfl, rfl⟩⟩

/-- With room in the ring the transmit takes the skb: it never comes to `NETDEV_TX_BUSY`. -/
theorem onicVfXmitFrame_triple (skb : Skb) (valid : priv.numTxQueues ≠ 0 → onicVfQidValid priv = true) (rung : Rung head) :
    (contract size priv t).Triple (fun s => OwnsRoom size t head s.queue ∧ Sending t s) (onicVfXmitFrame priv t skb)
      (Ended size priv t head skb.id) := by
  rw [onicVfXmitFrame]
  split
  · exact xmitDrop_triple skb rung
  rename_i queues
  split
  · exact xmitDrop_triple skb rung
  rename_i there
  have queue : priv.queue = true := by simpa using there
  apply Contract.Triple.bind sendingClean_triple
  intro _
  apply Contract.Triple.bind (sending_triple roomFull_triple onicVfTxRingFull_lock)
  intro full
  apply Contract.Triple.from_pre fun s => full = false ∧ OwnsRoom size t head s.queue ∧ Sending t s
  · exact fun s _ ⟨⟨free, owns⟩, sending⟩ => ⟨free, owns, sending⟩
  apply Contract.Triple.pure_pre
  rintro rfl
  exact onicVfXmitSubmit_triple skb (valid queues) queue rung

/-- What a thread has between two calls. -/
abbrev Idle (t : Nat) (s : VfTxFlow) : Prop := Owns t none none s.queue

theorem Idle.holderAwake {s : VfTxFlow} (idle : Idle t s) : HolderAwake size t s := fun held => absurd held idle.head

theorem stable_owned {head : TxHead} :
    (contract size priv t).Stable fun s => Owns t (some head) none s.queue ∧ HolderAwake size t s :=
  fun s s' ⟨owns, awake⟩ between okk inv => ⟨owns.rely between.queue, stable_holderAwake s s' awake between okk inv⟩

/-- Under the lock, a subqueue that is not stopped has room. -/
theorem lockedStopped_triple :
    (contract size priv t).Triple (fun s => Owns t (some head) none s.queue ∧ HolderAwake size t s) netifTxQueueStopped
      fun stopped s => (Owns t (some head) none s.queue ∧ HolderAwake size t s) ∧
        (stopped = false → OwnsRoom size t head s.queue ∧ Sending t s) := by
  apply Contract.Triple.read stable_owned
  · intro stopped s s' ⟨owned, sending⟩ between okk inv
    refine ⟨stable_owned s s' owned between okk inv, fun is => ?_⟩
    obtain ⟨⟨owns, room⟩, seen⟩ := sending is
    have room' := lasting_room s.queue s'.queue room between.queue.cleaned between.queue.completed
    exact ⟨⟨owns.rely between.queue, room'⟩, stable_sending s s' seen between okk inv⟩
  · intro s _ inv ⟨owns, awake⟩
    refine ⟨⟨owns, awake⟩, fun running => ?_⟩
    obtain ⟨held, is⟩ := held_lock owns
    have room := awake held running
    rw [is] at room
    exact ⟨⟨owns, room⟩, held, running⟩

theorem ended_rest {ret : NetdevTx} {skb : Nat} {head' : TxHead} (left : Rest priv head) (is : ret = .ok)
    (outcome : VfOutcome priv head skb ret head') : Rest priv { head' with calls := head'.calls ++
      [⟨skb, ret, head'.txPackets - head.txPackets, head'.txDropped - head.txDropped⟩] } where
  toVfRest := outcome.rest left.toVfRest
  accepted call mem := by
    rw [List.mem_append, outcome.calls, List.mem_singleton] at mem
    rcases mem with before | rfl
    · exact left.accepted call before
    · exact is

theorem transmit_triple (probed : priv.Probed) (skb : Skb) :
    (contract size priv t).Triple (Idle t) (transmit priv t skb) fun _ => Idle t := by
  apply Contract.Triple.from_pre fun s => Idle t s ∧ HolderAwake size t s
  · exact fun s _ idle => ⟨idle, idle.holderAwake⟩
  apply Contract.Triple.bind lock_triple
  intro before
  apply Contract.Triple.from_pre fun s => ∃ head, (Rest priv head ∧ before = (head.txPackets, head.txDropped)) ∧
    Owns t (some head) none s.queue ∧ HolderAwake size t s
  · exact fun s _ ⟨⟨head, facts, owns⟩, awake⟩ => ⟨head, facts, owns, awake⟩
  apply Contract.Triple.exists_pre
  intro head
  apply Contract.Triple.pure_pre
  rintro ⟨left, rfl⟩
  apply Contract.Triple.bind lockedStopped_triple
  intro stopped
  cases stopped with
  | true =>
    exact ((unlock_triple left).from_pre _ fun s _ here => here.1).conseq (fun _ _ here => here) fun _ _ _ here => here.1
  | false =>
    apply Contract.Triple.from_pre fun s => OwnsRoom size t head s.queue ∧ Sending t s
    · exact fun s _ here => here.2 rfl
    apply Contract.Triple.bind (onicVfXmitFrame_triple skb probed.valid left.rung)
    intro ret
    apply Contract.Triple.from_pre fun s => ∃ head', (ret = .ok ∧ VfOutcome priv head skb.id ret head') ∧
      Owns t (some head') none s.queue ∧ HolderAwake size t s
    · exact fun s _ ⟨is, ⟨head', outcome, owns⟩, awake⟩ => ⟨head', ⟨is, outcome⟩, owns, awake⟩
    apply Contract.Triple.exists_pre
    intro head'
    apply Contract.Triple.pure_pre
    rintro ⟨is, outcome⟩
    exact (unlockCall_triple (ended_rest left is outcome)).conseq (fun _ _ here => here) fun _ _ _ here => here.1

theorem poll_triple : (contract size priv t).Triple (Idle t) (onQueue (onicVfTxClean priv t)) fun _ => Idle t :=
  clean_triple.conseq (fun _ _ idle => ⟨idle, Idle.holderAwake idle⟩) fun _ _ _ here => here.1

/-- What the work has seen of a stopped subqueue stays as it is until it wakes it. -/
theorem stable_stopped : (contract size priv 0).Stable fun s => Idle 0 s ∧ s.stopped = true :=
  fun _ _ ⟨idle, stopped⟩ between _ _ => ⟨idle.rely between.queue, (between.work rfl stopped).1⟩

theorem stable_stoppedRoom :
    (contract size priv 0).Stable fun s => (Idle 0 s ∧ s.stopped = true) ∧ Room size s.queue.head.used s.queue :=
  fun s s' ⟨here, room⟩ between okk inv => ⟨stable_stopped s s' here between okk inv,
    room_later room between.queue (between.work rfl here.2).2⟩

theorem stoppedFull_triple : (contract size priv 0).Triple (fun s => Idle 0 s ∧ s.stopped = true)
    (onQueue onicVfTxRingFull) fun full s => (Idle 0 s ∧ s.stopped = true) ∧
      (full = false → Room size s.queue.head.used s.queue) := by
  apply Contract.Triple.access stable_stopped
  · intro full s s' ⟨here, room⟩ between okk inv
    exact ⟨stable_stopped s s' here between okk inv, fun free =>
      room_later (room free) between.queue (between.work rfl here.2).2⟩
  · intro s i full s' _ inv here taken _
    cases taken
    refine ⟨inv, (contract size priv 0).guarantee_refl s, here, fun free => ?_⟩
    have not_full := of_decide_eq_false free
    rw [vf_full_iff inv.queue] at not_full
    have within := inv.queue.used_le.trans_lt inv.queue.room
    show s.queue.head.used + 1 < s.queue.tail.cleaned + size
    omega

theorem netifWakeSubqueue_triple :
    (contract size priv 0).Triple (fun s => (Idle 0 s ∧ s.stopped = true) ∧ Room size s.queue.head.used s.queue)
      netifWakeSubqueue fun _ => Idle 0 := by
  apply Contract.Triple.modify stable_stoppedRoom fun s s' idle between _ _ => Owns.rely idle between.queue
  rintro s - inv ⟨⟨idle, stopped⟩, room⟩ -
  refine ⟨⟨inv.queue, fun _ _ => room⟩, fun v other => ⟨.refl v s.queue, fun _ _ => .inr room, fun _ _ => rfl, fun is => ?_⟩, idle⟩
  exact absurd is other

theorem onicVfTxCleanWork_triple :
    (contract size priv 0).Triple (Idle 0) (onicVfTxCleanWork priv 0) fun _ => Idle 0 := by
  have stable_idle : (contract size priv 0).Stable (Idle 0) := fun _ _ idle between _ _ => Owns.rely idle between.queue
  have idle_done : (contract size priv 0).Triple (Idle 0) (.done () : Program VfTxFlow TxInput Unit) fun _ => Idle 0 :=
    .done stable_idle fun _ _ idle => idle
  rw [onicVfTxCleanWork]
  split
  · apply Contract.Triple.bind poll_triple
    intro _
    apply Contract.Triple.bind (M := fun stopped s => Idle 0 s ∧ (stopped = true → s.stopped = true))
    · apply Contract.Triple.read stable_idle
      · exact fun stopped s s' ⟨idle, is⟩ between okk inv =>
          ⟨stable_idle s s' idle between okk inv, fun here => (between.work rfl (is here)).1⟩
      · exact fun s _ _ idle => ⟨idle, fun here => here⟩
    intro stopped
    cases stopped with
    | true =>
      apply Contract.Triple.from_pre fun s => Idle 0 s ∧ s.stopped = true
      · exact fun s _ ⟨idle, is⟩ => ⟨idle, is rfl⟩
      apply Contract.Triple.bind stoppedFull_triple
      intro full
      cases full with
      | true => exact .from_pre _ (fun _ _ here => here.1.1) idle_done
      | false => exact .from_pre _ (fun _ _ here => ⟨here.1, here.2 rfl⟩) netifWakeSubqueue_triple
    | false => exact .from_pre _ (fun _ _ here => here.1) idle_done
  · exact idle_done

theorem rules_fit (probed : priv.Probed) :
    Pool.Fits (rules priv) (fun _ => True) (Inv size priv) (contract size priv) Idle where
  same_ok _ := rfl
  same_inv _ := rfl
  threads _ u other _ _ _ _ guarantee := guarantee u other.symm
  env := by
    rintro s _ - - inv ⟨q, happens, rfl⟩
    obtain ⟨queue, rely⟩ := inv.queue.env happens
    have head : q.head = s.queue.head := by cases happens <;> rfl
    have tail : q.tail = s.queue.tail := by cases happens <;> rfl
    have lock : q.txLock = s.queue.txLock := by cases happens <;> rfl
    refine ⟨⟨queue, fun free running => ?_⟩, fun t => ⟨rely t, fun _ => .inl, fun _ same => same, fun _ stopped => ⟨stopped, ?_⟩⟩⟩
    · exact room_of_cleaned (inv.awake (lock.symm.trans free) running) (by rw [setQueue_queue, head])
        (by rw [setQueue_queue, tail])
    · rw [setQueue_queue, head]
  calls t s p call ok inv idle := by
    cases call with
    | transmit t skb => exact transmit_triple probed skb s ok inv idle
    | poll t => exact poll_triple s ok inv idle
    | work => exact onicVfTxCleanWork_triple s ok inv idle

theorem onicVfXmitSend_sound (skb : Skb) : (onicVfXmitSend priv skb).Steps (TxKeepsSound size) := by
  have dropped : TxAccess.countDropped.Steps (TxKeepsSound size) := .modify fun q sound => { sound with }
  have counted (len : Nat) : (TxAccess.countPacket len).Steps (TxKeepsSound size) := .modify fun q sound => { sound with }
  have stored (dmaAddr : BitVec 64) (len : Nat) : (TxAccess.store ⟨.skb, skb.id, dmaAddr, len⟩).Steps (TxKeepsSound size) :=
    .modify fun q sound => { sound with typed := sound.update _ (.inr ⟨_, rfl, rfl⟩) }
  apply Program.Steps.bind
  · apply Program.Steps.access
    intro i q rv q' taken sound
    cases taken
    split
    · exact { sound with }
    · exact sound
  intro rv
  split
  · exact dropped.bind fun _ => .done _
  apply Program.Steps.bind
  · apply Program.Steps.access
    intro i q mapping q' taken sound
    cases taken
    cases i.mapping <;> exact { sound with }
  intro mapping
  cases mapping with
  | none => exact (onicVfXmitDrop_sound skb).bind fun _ => .done _
  | some dmaAddr =>
    apply (stored _ _).bind
    intro _
    apply (counted _).bind
    intro _
    apply onicVfTxRingIncrementHead_sound.bind
    intro _
    exact onicVfSetTxHead_sound.bind fun _ => .done _

/-- The flag is beside the queue. -/
def KeepsSound (size : Nat) (s s' : VfTxFlow) : Prop := TxKeepsSound size s.queue s'.queue

theorem onQueue_sound {p : Program TxQueue TxInput α} (steps : p.Steps (TxKeepsSound size)) :
    (onQueue p).Steps (KeepsSound size) :=
  steps.lift fun _ _ keeps => keeps

theorem netifStopSubqueue_sound : netifStopSubqueue.Steps (KeepsSound size) := .modify fun _ sound => sound

theorem netifWakeSubqueue_sound : netifWakeSubqueue.Steps (KeepsSound size) := .modify fun _ sound => sound

theorem flag_read_sound {f : VfTxFlow → α} : (Program.read f : Program VfTxFlow TxInput α).Steps (KeepsSound size) := by
  apply Program.Steps.read
  exact fun _ sound => sound

theorem onicVfTxRingFull_sound : onicVfTxRingFull.Steps (TxKeepsSound size) := by
  apply Program.Steps.read
  exact fun _ sound => sound

theorem onicVfXmitSubmit_sound (skb : Skb) : (onicVfXmitSubmit priv skb).Steps (KeepsSound size) := by
  apply (onQueue_sound (onicVfXmitSend_sound skb)).bind
  intro sent
  split
  · apply (onQueue_sound onicVfTxRingFull_sound).bind
    intro full
    split
    · exact netifStopSubqueue_sound.bind fun _ => .done _
    · exact .done _
  · exact .done _

theorem onicVfXmitFrame_sound (skb : Skb) : (onicVfXmitFrame priv t skb).Steps (KeepsSound size) := by
  rw [onicVfXmitFrame]
  split
  · exact onQueue_sound (onicVfXmitDrop_sound skb)
  split
  · exact onQueue_sound (onicVfXmitDrop_sound skb)
  apply (onQueue_sound onicVfTxClean_sound).bind
  intro _
  apply (onQueue_sound onicVfTxRingFull_sound).bind
  intro full
  split
  · apply netifStopSubqueue_sound.bind
    intro _
    apply (onQueue_sound onicVfTxClean_sound).bind
    intro _
    apply (onQueue_sound onicVfTxRingFull_sound).bind
    intro still
    split
    · exact .done _
    · exact netifWakeSubqueue_sound.bind fun _ => onicVfXmitSubmit_sound skb
  · exact onicVfXmitSubmit_sound skb

theorem call_sound {p : Program VfTxFlow TxInput Unit} (call : Call priv t p) : p.Steps (KeepsSound size) := by
  have unlocked : TxAccess.unlock.Steps (TxKeepsSound size) := .modify fun q sound => { sound with }
  cases call with
  | transmit t skb =>
    apply Program.Steps.bind
    · apply onQueue_sound
      apply Program.Steps.access
      intro _ q before q' taken sound
      split at taken
      · cases taken
        exact { sound with }
      · cases taken
    intro before
    apply flag_read_sound.bind
    intro stopped
    split
    · exact onQueue_sound unlocked
    · apply (onicVfXmitFrame_sound skb).bind
      exact fun ret => onQueue_sound (.modify fun q sound => { sound with })
  | poll t => exact onQueue_sound onicVfTxClean_sound
  | work =>
    rw [onicVfTxCleanWork]
    split
    · apply (onQueue_sound onicVfTxClean_sound).bind
      intro _
      apply flag_read_sound.bind
      intro stopped
      split
      · apply (onQueue_sound onicVfTxRingFull_sound).bind
        intro full
        split
        · exact .done _
        · exact netifWakeSubqueue_sound
      · exact .done _
    · exact .done _

theorem onicVfTxCleanWork_enabled (priv : VfTxPriv) (t : Nat) : (onicVfTxCleanWork priv t).Enabled := by
  rw [onicVfTxCleanWork]
  split
  · apply (onicVfTxClean_enabled priv t).lift.bind
    intro _
    apply (Program.Enabled.read _).bind
    intro stopped
    split
    · apply (Program.Enabled.read _).lift.bind
      intro full
      split
      · trivial
      · exact .modify _
    · trivial
  · trivial

end

section

variable {priv : VfTxPriv} {q : TxQueue} {P : Pool Nat VfTxFlow TxInput}

/-- The invariant holds from the open of the VF on; a ring has two slots at least. -/
theorem reach_inv (probed : priv.Probed) (fresh : TxFresh q) (two : 2 < q.count) (calls : q.head.calls = [])
    (reach : Pool.Reach (rules priv) (fun _ => True) (Pool.start ⟨q, false⟩) P) : Inv q.size priv P.state := by
  obtain ⟨accepted, used, -, -, pending, disposed, -⟩ := fresh.head
  have left : Rest priv q.head :=
    ⟨⟨⟨⟨by rw [used, accepted]; rfl, pending⟩, fun some => absurd accepted some⟩,
      by rw [disposed, TxHead.okSkbs, calls]; rfl, by simp [calls], fun _ => accepted⟩, by simp [calls]⟩
  have awake : VfTxFlow.Awake q.size ⟨q, false⟩ := by
    intro _
    show q.head.used + 1 < q.tail.cleaned + q.size
    rw [used, fresh.tail.2.1, TxQueue.size]
    omega
  have inv : Inv q.size priv ⟨q, false⟩ := ⟨fresh.inv left, fun _ => awake⟩
  have idle (t : Nat) : (contract q.size priv t).wp (.done () : Program VfTxFlow TxInput Unit) (fun _ => Idle t) ⟨q, false⟩ := by
    have stable : (contract q.size priv t).Stable (Idle t) := fun _ _ idle between _ _ => Owns.rely idle between.queue
    have rest : (contract q.size priv t).Triple (Idle t) (.done () : Program VfTxFlow TxInput Unit) fun _ => Idle t :=
      .done stable fun _ _ idle => idle
    exact rest ⟨q, false⟩ trivial inv ⟨by simp [OwnsHead, fresh.txLock], by simp [OwnsTail, fresh.cleaning]⟩
  exact ((rules_fit probed).reach reach trivial inv idle).2.1

theorem reach_sound (fresh : TxFresh q)
    (reach : Pool.Reach (rules priv) (fun _ => True) (Pool.start ⟨q, false⟩) P) : TxSound q.size P.state.queue := by
  apply Pool.inv_of_steps reach (I := fun s => TxSound q.size s.queue)
  · exact fun t s p call => call_sound call
  · rintro s _ ⟨q', happens, rfl⟩ sound
    cases happens with
    | writeBack completed dw further within written => exact { sound with }
    | idle => exact sound
  · have start : Pool.Reach (vfTxAnyStatusRules priv) (fun _ => True) (Pool.start q) (Pool.start q) := .refl
    exact fresh.sound start

/-- After the clean of a work turn, a ring that is full is full of what the hardware is not done with. -/
theorem full_uncompleted {size t : Nat} {s : VfTxFlow} {q' : TxQueue} (inv : Inv size priv s) (sound : TxSound size s.queue)
    (there : priv.queue = true) (idle : s.queue.cleaning = none) (ran : Program.Exec (onicVfTxClean priv t) s.queue () q')
    (full : Program.Exec onicVfTxRingFull q' true q') : q'.head.used + 1 = q'.completed + size := by
  obtain ⟨skipped | busy, -⟩ | ⟨-, -, swept⟩ := onicVfTxClean_swept sound ran
  · rw [there] at skipped
    cases skipped
  · rw [idle] at busy
    cases busy
  have same : CleanKeeps s.queue q' := Program.Steps.exec (fun _ => .refl _) CleanKeeps.trans (onicVfTxClean_keeps priv t) ran
  obtain ⟨is, -⟩ := Program.exec_read.mp full
  have at_ := of_decide_eq_true is.symm
  have wb : wbCidx s.queue.wb = s.queue.completed % size := inv.queue.wb
  have inside : wbCidx s.queue.wb < size := by
    rw [wb]
    exact Nat.mod_lt _ inv.queue.size_pos
  have clean : q'.tail.nextToClean = s.queue.completed % size := by
    rw [swept.nextToClean, TxQueue.cleanRounds, sound.size_eq, if_pos inside, ← wb]
    have there := sound.cleanSlot_dist inside
    rwa [sound.size_eq] at there
  have next := wrap_eq (Nat.mod_lt s.queue.head.used inv.queue.size_pos)
  have realCount : q'.onicVfRingRealCount = size := by
    rw [TxQueue.onicVfRingRealCount, same.count]
    exact inv.queue.vfRealCount
  rw [realCount, same.head, inv.queue.nextToUse, next, clean, ← Nat.mod_add_mod] at at_
  have ordered := inv.queue.completed_le.trans inv.queue.published_le
  have released := inv.queue.cleaned_le.trans inv.queue.released_le
  have room := inv.queue.used_le.trans_lt inv.queue.room
  rw [same.head, same.completed]
  exact (Cyclic.full_iff ordered (by omega)).mp at_

end

section

variable {priv : VfTxPriv} {q : TxQueue} {P : Pool Nat VfTxFlow TxInput}

theorem vf_tx_never_busy (probed : priv.Probed) (fresh : TxFresh q) (two : 2 < q.count) (calls : q.head.calls = [])
    (reach : Pool.Reach (rules priv) (fun _ => True) (Pool.start ⟨q, false⟩) P) (free : P.state.queue.txLock = none) :
    (∀ call ∈ P.state.queue.head.calls, call.ret = .ok) ∧
      P.state.queue.head.disposed = P.state.queue.head.calls.map TxCall.skb ∧
      (P.state.stopped = false → Program.Exec onicVfTxRingFull P.state.queue false P.state.queue) := by
  have inv := reach_inv probed fresh two calls reach
  have left := inv.queue.headIdle free
  refine ⟨left.accepted, ?_, fun running => ?_⟩
  · rw [left.disposed, TxHead.okSkbs, List.filter_eq_self.mpr]
    exact fun call mem => by simp [left.accepted call mem]
  · have room : P.state.queue.head.used + 1 < P.state.queue.tail.cleaned + q.size := inv.awake free running
    apply Program.exec_read.mpr
    refine ⟨?_, rfl⟩
    symm
    apply decide_eq_false
    rw [vf_full_iff inv.queue]
    omega

theorem vf_tx_work_wakes (probed : priv.Probed) (fresh : TxFresh q) (two : 2 < q.count) (calls : q.head.calls = [])
    (reach : Pool.Reach (rules priv) (fun _ => True) (Pool.start ⟨q, false⟩) P) (there : priv.queue = true)
    (idle : P.state.queue.cleaning = none) :
    (∃ s', Program.Exec (onicVfTxCleanWork priv 0) P.state () s') ∧
      ∀ s', Program.Exec (onicVfTxCleanWork priv 0) P.state () s' →
        s'.stopped = false ∨ s'.queue.head.used + 1 = s'.queue.completed + q.size := by
  have inv := reach_inv probed fresh two calls reach
  have sound := reach_sound fresh reach
  obtain ⟨_, s', finishes⟩ := (onicVfTxCleanWork_enabled priv 0).finishes P.state
  refine ⟨⟨s', finishes⟩, fun s' ran => ?_⟩
  rw [onicVfTxCleanWork, if_pos there] at ran
  obtain ⟨_, mid, cleaned, ran⟩ := Program.exec_bind.mp ran
  obtain ⟨cleaned, -⟩ := (Program.exec_lift lens).mp cleaned
  obtain ⟨stopped, mid', read, ran⟩ := Program.exec_bind.mp ran
  obtain ⟨rfl, rfl⟩ := Program.exec_read.mp read
  split at ran
  · obtain ⟨full, last, looked, ran⟩ := Program.exec_bind.mp ran
    obtain ⟨asked, -⟩ := (Program.exec_lift lens).mp looked
    have kept : last.queue = mid'.queue := (Program.exec_read.mp asked).2
    rw [kept] at asked
    split at ran
    · rename_i is
      obtain ⟨-, rfl⟩ := Program.exec_done.mp ran
      rw [is] at asked
      rw [kept]
      exact .inr (full_uncompleted inv sound there idle cleaned asked)
    · obtain rfl := Program.exec_modify.mp ran
      exact .inl rfl
  · rename_i running
    obtain ⟨-, rfl⟩ := Program.exec_done.mp ran
    exact .inl (by simpa using running)

end

/-- A ring for one frame: the transmit of thread 1 fills it and stops the subqueue, the stack
    does not come through a second time, and the hardware is done with the frame. -/
def stopMoves : List (Pool.Move Nat VfTxFlow TxInput) :=
  .call 1 (transmit oneOfFour 1 ⟨7, 42⟩) :: List.replicate 18 (.access 1 ⟨0, some 4096, false⟩) ++
    .call 1 (transmit oneOfFour 1 ⟨8, 42⟩) :: List.replicate 3 (.access 1 ⟨0, some 8192, false⟩) ++
    [.env fun s => setQueue (completeOne s.queue) s]

theorem stopMoves_allowed : ∀ m ∈ stopMoves, m.Allowed (rules oneOfFour) := by
  intro m mem
  simp only [stopMoves, List.cons_append, List.mem_cons, List.mem_append, List.mem_replicate] at mem
  rcases mem with rfl | (⟨-, rfl⟩ | rfl | ⟨-, rfl⟩) | rfl | none
  · exact fun _ => .transmit 0 _
  · trivial
  · exact fun _ => .transmit 0 _
  · trivial
  · exact fun s => ⟨_, completeOne_hardware s.queue, rfl⟩
  · cases none

theorem oneOfFour_probed : oneOfFour.Probed := ⟨rfl, rfl, fun _ => by decide, Nat.le_refl 4⟩

theorem vf_tx_never_busy_stopped :
    ∃ P, Pool.Reach (rules oneOfFour) (fun _ => True) (Pool.start ⟨.initial 3, false⟩) P ∧ P.state.stopped = true ∧
      P.state.queue.head.disposed = [7] ∧ ∀ call ∈ P.state.queue.head.calls, call.ret = .ok := by
  have played : ((Pool.start ⟨.initial 3, false⟩).play (fun _ => true) stopMoves).map (fun P =>
      (P.state.queue.txLock, P.state.stopped, P.state.queue.head.calls.map TxCall.skb)) = some (none, true, [7]) := by
    decide +kernel
  obtain ⟨P, ran, is⟩ := Option.map_eq_some_iff.mp played
  simp only [Prod.mk.injEq] at is
  obtain ⟨free, stopped, skbs⟩ := is
  have reach : Pool.Reach (rules oneOfFour) (fun _ => True) _ P :=
    Pool.reach_of_play (fun _ _ => trivial) stopMoves_allowed ran
  obtain ⟨accepted, disposed, -⟩ := vf_tx_never_busy oneOfFour_probed (TxQueue.initial_fresh (by decide)) (by decide) rfl reach free
  exact ⟨P, reach, stopped, disposed.trans skbs, accepted⟩

theorem vf_tx_work_wakes_stopped :
    ∃ P s', Pool.Reach (rules oneOfFour) (fun _ => True) (Pool.start ⟨.initial 3, false⟩) P ∧ P.state.stopped = true ∧
      Program.Exec (onicVfTxCleanWork oneOfFour 0) P.state () s' ∧ s'.stopped = false ∧
      (s'.stopped = false ∨ s'.queue.head.used + 1 = s'.queue.completed + 2) := by
  have played : ((Pool.start ⟨.initial 3, false⟩).play (fun _ => true) stopMoves).bind (fun P =>
      ((onicVfTxCleanWork oneOfFour 0).eval ⟨0, none, false⟩ P.state).map fun r =>
        (P.state.queue.cleaning, P.state.stopped, r.2.stopped)) = some (none, true, false) := by
    decide +kernel
  obtain ⟨P, ran, is⟩ := Option.bind_eq_some_iff.mp played
  obtain ⟨⟨_, s'⟩, worked, is⟩ := Option.map_eq_some_iff.mp is
  simp only [Prod.mk.injEq] at is
  obtain ⟨idle, stopped, awake⟩ := is
  have reach : Pool.Reach (rules oneOfFour) (fun _ => True) _ P :=
    Pool.reach_of_play (fun _ _ => trivial) stopMoves_allowed ran
  have worked := Program.Exec.of_eval worked
  have wakes := (vf_tx_work_wakes oneOfFour_probed (TxQueue.initial_fresh (by decide)) (by decide) rfl reach rfl idle).2 s' worked
  exact ⟨P, s', reach, stopped, worked, awake, wakes⟩

end VfTxFlow

end OpenNic
