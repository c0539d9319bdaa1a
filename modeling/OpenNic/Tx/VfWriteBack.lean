import OpenNic.Tx.VfTeardown

namespace OpenNic

/-- The hardware writes any status word whatever. -/
inductive TxAnyStatus (q : TxQueue) : TxQueue → Prop
  | writeBack (dw : BitVec 64) : TxAnyStatus q { q with wb := dw }

def vfTxAnyStatusRules (priv : VfTxPriv) : Pool.Rules Nat TxQueue TxInput where
  calls t _ := VfTxCall priv t
  env := TxAnyStatus

/-- What holds of a VF's queue whatever the hardware writes. -/
structure TxSound (size : Nat) (q : TxQueue) : Prop where
  size_pos : 0 < size
  count : q.count = size + 1
  wbMapped : q.wbMapped = true
  nextToUse : q.head.nextToUse < size
  nextToClean : q.tail.nextToClean < size
  typed : ∀ i, q.buffer i = .zero ∨ ∃ frame : TxFrame, VfKind frame.type ∧ q.buffer i = frame.buffer

def TxKeepsSound (size : Nat) (q q' : TxQueue) : Prop := TxSound size q → TxSound size q'

section

variable {size : Nat} {priv : VfTxPriv} {t : Nat} {q q' : TxQueue}

theorem TxSound.realCount (sound : TxSound size q) : q.onicVfRingRealCount = size := by
  rw [TxQueue.onicVfRingRealCount, sound.count, Nat.add_sub_cancel]

/-- A slot is written. -/
theorem TxSound.update (sound : TxSound size q) (slot : Nat) {buf : TxBuffer}
    (is : buf = .zero ∨ ∃ frame : TxFrame, VfKind frame.type ∧ buf = frame.buffer) (i : Nat) :
    Function.update q.buffer slot buf i = .zero ∨
      ∃ frame : TxFrame, VfKind frame.type ∧ Function.update q.buffer slot buf i = frame.buffer := by
  by_cases here : i = slot
  · rw [here, Function.update_self]
    exact is
  · rw [Function.update_of_ne here]
    exact sound.typed i

theorem next_lt {n : Nat} (less : n < size) : (if n + 1 = size then 0 else n + 1) < size := by
  split <;> omega

theorem onicVfRingIncrementClean_sound : onicVfRingIncrementClean.Steps (TxKeepsSound size) := by
  apply Program.Steps.modify
  intro q sound
  have next := next_lt sound.nextToClean
  rw [← sound.realCount] at next
  exact { sound with nextToClean := sound.realCount ▸ next }

theorem onicVfTxRingIncrementHead_sound : onicVfTxRingIncrementHead.Steps (TxKeepsSound size) := by
  apply Program.Steps.modify
  intro q sound
  have next := next_lt sound.nextToUse
  rw [← sound.realCount] at next
  exact { sound with nextToUse := sound.realCount ▸ next }

theorem onicVfTxCleanLoop_sound (cidx left : Nat) :
    (onicVfTxCleanLoop cidx left).Steps (TxKeepsSound size) := by
  induction left with
  | zero => trivial
  | succ left ih =>
    apply Program.Steps.bind (.read (fun _ => id) _)
    intro clean
    split
    · trivial
    · apply Program.Steps.bind (.modify fun q sound => { sound with typed := sound.update _ (.inl rfl) })
      intro _
      exact .bind onicVfRingIncrementClean_sound fun _ => ih

theorem onicVfTxClean_sound : (onicVfTxClean priv t).Steps (TxKeepsSound size) := by
  rw [onicVfTxClean]
  split
  · apply Program.Steps.bind (.read (fun _ => id) _)
    intro mapped
    split
    · apply Program.Steps.bind (.access ?_)
      · intro busy
        split
        · trivial
        · apply Program.Steps.bind (.read (fun _ => id) _)
          intro realCount
          apply Program.Steps.bind (.read (fun _ => id) _)
          intro cidx
          apply Program.Steps.bind (onicVfTxCleanLoop_sound cidx realCount)
          exact fun _ => .modify fun q sound => { sound with }
      · intro _ q busy q' taken sound
        split at taken <;> cases taken
        · exact sound
        · exact { sound with }
    · trivial
  · trivial

theorem onicVfSetTxHead_sound : (onicVfSetTxHead priv).Steps (TxKeepsSound size) := by
  rw [onicVfSetTxHead]
  split
  · exact .modify fun q sound => { sound with }
  · trivial

theorem onicVfXmitDrop_sound (skb : Skb) : (onicVfXmitDrop skb).Steps (TxKeepsSound size) := by
  apply Program.Steps.bind (.modify fun q sound => { sound with })
  intro _
  apply Program.Steps.bind (.modify fun q sound => { sound with })
  exact fun _ => trivial

theorem onicVfXmitEnqueue_sound (skb : Skb) : (onicVfXmitEnqueue priv skb).Steps (TxKeepsSound size) := by
  apply Program.Steps.bind (.access ?_)
  · intro rv
    split
    · exact .bind (.modify fun q sound => { sound with }) fun _ => trivial
    · apply Program.Steps.bind (.access ?_)
      · intro mapping
        cases mapping with
        | none => exact onicVfXmitDrop_sound skb
        | some dmaAddr =>
          apply Program.Steps.bind (.modify fun q sound =>
            { sound with typed := sound.update _ (.inr ⟨_, rfl, rfl⟩) })
          intro _
          apply Program.Steps.bind (.modify fun q sound => { sound with })
          intro _
          apply Program.Steps.bind onicVfTxRingIncrementHead_sound
          exact fun _ => .bind onicVfSetTxHead_sound fun _ => trivial
      · intro i q mapping q' taken sound
        cases taken
        cases i.mapping <;> exact { sound with }
  · intro i q rv q' taken sound
    cases taken
    split
    · exact { sound with }
    · exact sound

theorem onicVfXmitFrame_sound (skb : Skb) : (onicVfXmitFrame priv t skb).Steps (TxKeepsSound size) := by
  rw [onicVfXmitFrame]
  split
  · exact onicVfXmitDrop_sound skb
  · split
    · exact onicVfXmitDrop_sound skb
    · apply Program.Steps.bind onicVfTxClean_sound
      intro _
      apply Program.Steps.bind (.read (fun _ => id) _)
      intro full
      split
      · apply Program.Steps.bind onicVfTxClean_sound
        intro _
        apply Program.Steps.bind (.read (fun _ => id) _)
        intro still
        split
        · trivial
        · exact onicVfXmitEnqueue_sound skb
      · exact onicVfXmitEnqueue_sound skb

theorem vfTxCall_sound {p : Program TxQueue TxInput Unit} (call : VfTxCall priv t p) : p.Steps (TxKeepsSound size) := by
  cases call with
  | xmitFrame skb =>
    apply Program.Steps.bind (.access ?_)
    · intro before
      apply Program.Steps.bind (onicVfXmitFrame_sound skb)
      exact fun _ => .modify fun q sound => { sound with }
    · intro _ q before q' taken sound
      split at taken
      · cases taken
        exact { sound with }
      · cases taken
  | txClean => exact onicVfTxClean_sound

/-- Transmits, cleans and write-backs of any kind leave the queue sound. -/
theorem TxFresh.sound {P : Pool Nat TxQueue TxInput} (fresh : TxFresh q)
    (reach : Pool.Reach (vfTxAnyStatusRules priv) (fun _ => True) (Pool.start q) P) : TxSound q.size P.state := by
  have count := fresh.count
  apply Pool.inv_of_steps reach (I := TxSound q.size)
  · exact fun t s p call => vfTxCall_sound call
  · intro s s' happens sound
    cases happens with
    | writeBack dw => exact { sound with }
  · refine ⟨?_, ?_, fresh.wbMapped, ?_, ?_, fun i => .inl (fresh.buffer i)⟩
    · rw [TxQueue.size]
      omega
    · rw [TxQueue.size]
      omega
    · rw [fresh.nextToUse, TxQueue.size]
      omega
    · rw [fresh.nextToClean, TxQueue.size]
      omega

end

namespace TxQueue

/-- The write-back is a position between `next_to_clean` and `next_to_use`. -/
def WbValid (q : TxQueue) : Prop :=
  wbCidx q.wb < q.size ∧
    Cyclic.dist q.size q.tail.nextToClean (wbCidx q.wb) ≤ Cyclic.dist q.size q.tail.nextToClean q.head.nextToUse

/-- The hardware is done with the descriptor of slot `i`. -/
def Consumed (q : TxQueue) (i : Nat) : Prop :=
  q.WbValid ∧ Cyclic.Between q.size q.tail.nextToClean (wbCidx q.wb) i

def cleanSlot (q : TxQueue) (j : Nat) : Nat := (q.tail.nextToClean + j) % q.size

/-- Round `j` of a clean that begins in `q`. -/
def cleanRound (q : TxQueue) (j : Nat) : TxRelease :=
  ⟨q.cleanSlot j, q.buffer (q.cleanSlot j), onicVfTxRelease (q.buffer (q.cleanSlot j))⟩

end TxQueue

/-- Between `q` and `q'` exactly the releases `rs` were made. -/
structure TxReleased (q q' : TxQueue) (rs : List TxRelease) : Prop where
  released : q'.tail.released = q.tail.released ++ rs
  freed : q'.freed = q.freed ++ (rs.flatMap TxRelease.actions).filterMap TxAction.skb?
  unmapped : q'.tail.unmapped = q.tail.unmapped ++ (rs.flatMap TxRelease.actions).filterMap TxAction.mapping?

/-- A clean that goes from `q` to `q'` and does no harm, whatever the write-back of `q` is. -/
structure CleanHarmless (q q' : TxQueue) : Prop where
  releases : ∃ rs, TxReleased q q' rs ∧ ∀ r ∈ rs, r.actions ≠ [] → q.Consumed r.slot
  unconsumed : ∀ i, ¬ q.Consumed i → q'.buffer i = q.buffer i
  invalid : ¬ q.WbValid → q'.tail.nextToClean = q.tail.nextToClean
  ordered : Cyclic.dist q.size q.tail.nextToClean q'.tail.nextToClean ≤
    Cyclic.dist q.size q.tail.nextToClean q.head.nextToUse

/-- The loop of a clean that began in `q` has gone `k` rounds. -/
structure Swept (q : TxQueue) (k : Nat) (q' : TxQueue) : Prop where
  count : q'.count = q.count
  nextToClean : q'.tail.nextToClean = q.cleanSlot k
  releases : TxReleased q q' ((List.range k).map q.cleanRound)
  others : ∀ i, (∀ j, j < k → q.cleanSlot j ≠ i) → q'.buffer i = q.buffer i
  emptied : ∀ j, j < k → q'.buffer (q.cleanSlot j) = .zero

section

variable {size : Nat} {priv : VfTxPriv} {t : Nat} {q q' q'' : TxQueue}

theorem TxSound.size_eq (sound : TxSound size q) : q.size = size := by
  rw [TxQueue.size, sound.count, Nat.add_sub_cancel]

theorem TxReleased.append {first second : List TxRelease} (h : TxReleased q q' first) (h' : TxReleased q' q'' second) :
    TxReleased q q'' (first ++ second) where
  released := by rw [h'.released, h.released, List.append_assoc]
  freed := by rw [h'.freed, h.freed, List.flatMap_append, List.filterMap_append, List.append_assoc]
  unmapped := by rw [h'.unmapped, h.unmapped, List.flatMap_append, List.filterMap_append, List.append_assoc]

theorem TxReleased.nil (released : q'.tail.released = q.tail.released) (freed : q'.freed = q.freed)
    (unmapped : q'.tail.unmapped = q.tail.unmapped) : TxReleased q q' [] :=
  ⟨by simp [released], by simp [freed], by simp [unmapped]⟩

theorem Swept.zero (sound : TxSound size q) (count : q'.count = q.count) (tail : q'.tail.nextToClean = q.tail.nextToClean)
    (buffer : q'.buffer = q.buffer) (releases : TxReleased q q' []) : Swept q 0 q' where
  count := count
  nextToClean := by
    rw [tail, TxQueue.cleanSlot, Nat.add_zero, sound.size_eq, Nat.mod_eq_of_lt sound.nextToClean]
  releases := releases
  others i _ := by rw [buffer]
  emptied j less := absurd less (Nat.not_lt_zero j)

theorem TxSound.cleanSlot_lt (sound : TxSound size q) (j : Nat) : q.cleanSlot j < size := by
  rw [TxQueue.cleanSlot, sound.size_eq]
  exact Nat.mod_lt _ sound.size_pos

/-- The rounds of one turn of the ring come to different slots. -/
theorem TxSound.cleanSlot_inj (sound : TxSound size q) {i j : Nat} (hi : i < size) (hj : j < size)
    (same : q.cleanSlot i = q.cleanSlot j) : i = j := by
  rw [TxQueue.cleanSlot, TxQueue.cleanSlot, sound.size_eq] at same
  have equal := Cyclic.mod_inj (Nat.le_add_right _ i) (by omega) (Nat.le_add_right q.tail.nextToClean j) (by omega) same
  omega

theorem TxSound.dist_cleanSlot (sound : TxSound size q) {j : Nat} (less : j < size) :
    Cyclic.dist q.size q.tail.nextToClean (q.cleanSlot j) = j := by
  have far := Cyclic.dist_mod (Nat.le_add_right q.tail.nextToClean j) (R := size) (by omega)
  rw [Nat.mod_eq_of_lt sound.nextToClean, Nat.add_sub_cancel_left] at far
  rw [TxQueue.cleanSlot, sound.size_eq, far]

theorem TxSound.cleanSlot_dist (sound : TxSound size q) {i : Nat} (less : i < size) :
    q.cleanSlot (Cyclic.dist q.size q.tail.nextToClean i) = i := by
  have there : (q.tail.nextToClean + Cyclic.dist size (q.tail.nextToClean % size) i) % size = i := Cyclic.add_dist less
  rw [Nat.mod_eq_of_lt sound.nextToClean] at there
  rw [TxQueue.cleanSlot, sound.size_eq, there]

/-- One round: the next slot is released and emptied. -/
theorem Swept.round {k : Nat} (sound : TxSound size q) (swept : Swept q k q') (more : k < size)
    (released : Program.Exec (TxAccess.release onicVfTxRelease fun _ => .zero) q' () q'')
    {last : TxQueue} (moved : Program.Exec onicVfRingIncrementClean q'' () last) : Swept q (k + 1) last := by
  obtain rfl := Program.exec_modify.mp released
  obtain rfl := Program.exec_modify.mp moved
  have here := swept.others (q.cleanSlot k) fun j less same => by
    have := sound.cleanSlot_inj (by omega) more same
    omega
  have realCount : q'.count - 1 = size := by rw [swept.count, sound.count, Nat.add_sub_cancel]
  constructor
  case count => exact swept.count
  case nextToClean =>
    have next := wrap_eq (Nat.mod_lt (q.tail.nextToClean + k) sound.size_pos)
    simp only [TxQueue.onicVfRingRealCount, realCount, swept.nextToClean, TxQueue.cleanSlot, sound.size_eq]
    exact next
  case releases =>
    rw [List.range_succ, List.map_append]
    apply swept.releases.append
    simp only [List.map_singleton, TxQueue.cleanRound, swept.nextToClean, here]
    exact ⟨rfl, by simp, by simp⟩
  case others =>
    intro i apart
    have other : i ≠ q.cleanSlot k := (apart k (Nat.lt_succ_self k)).symm
    simp only [swept.nextToClean, Function.update_of_ne other]
    exact swept.others i fun j less => apart j (by omega)
  case emptied =>
    intro j less
    simp only [swept.nextToClean]
    by_cases last : j = k
    · rw [last, Function.update_self]
    · have other : q.cleanSlot j ≠ q.cleanSlot k := fun same => last (sound.cleanSlot_inj (by omega) more same)
      rw [Function.update_of_ne other]
      exact swept.emptied j (by omega)

/-- The loop goes `m` rounds: up to the write-back, or until its count is up. -/
theorem onicVfTxCleanLoop_swept {cidx left k m : Nat} (sound : TxSound size q) (within : m ≤ size) (reached : k ≤ m)
    (apart : ∀ j, j < m → q.cleanSlot j ≠ cidx) (ends : q.cleanSlot m = cidx ∧ m ≤ k + left ∨ m = k + left)
    (swept : Swept q k q') (ran : Program.Exec (onicVfTxCleanLoop cidx left) q' () q'') : Swept q m q'' := by
  induction left generalizing k q' with
  | zero =>
    obtain ⟨-, rfl⟩ := Program.exec_done.mp ran
    have all : k = m := by omega
    exact all ▸ swept
  | succ left ih =>
    obtain ⟨clean, mid, read, rest⟩ := Program.exec_bind.mp ran
    obtain ⟨rfl, rfl⟩ := Program.exec_read.mp read
    rw [swept.nextToClean] at rest
    split at rest
    · rename_i same
      obtain ⟨-, rfl⟩ := Program.exec_done.mp rest
      have all : k = m := Nat.le_antisymm reached (Nat.le_of_not_lt fun less => apart k less same)
      exact all ▸ swept
    · rename_i other
      have more : k < m := by
        rcases Nat.lt_or_eq_of_le reached with less | rfl
        · exact less
        · rcases ends with ⟨same, -⟩ | all
          · exact absurd same other
          · omega
      obtain ⟨_, mid, released, rest⟩ := Program.exec_bind.mp rest
      obtain ⟨_, mid', moved, rest⟩ := Program.exec_bind.mp rest
      exact ih more (by omega) (swept.round sound (by omega) released moved) rest

/-- How many rounds a clean goes: a write-back outside the ring takes it once around. -/
def TxQueue.cleanRounds (q : TxQueue) : Nat :=
  if wbCidx q.wb < q.size then Cyclic.dist q.size q.tail.nextToClean (wbCidx q.wb) else q.size

theorem onicVfTxClean_swept (sound : TxSound size q) (ran : Program.Exec (onicVfTxClean priv t) q () q') :
    (priv.queue = false ∨ q.cleaning.isSome) ∧ q' = q ∨
      priv.queue = true ∧ q.cleaning = none ∧ Swept q q.cleanRounds q' := by
  rw [onicVfTxClean] at ran
  split at ran
  · rename_i queue
    obtain ⟨mapped, mid, read, ran⟩ := Program.exec_bind.mp ran
    obtain ⟨rfl, rfl⟩ := Program.exec_read.mp read
    rw [if_pos sound.wbMapped] at ran
    obtain ⟨busy, mid', taken, ran⟩ := Program.exec_bind.mp ran
    obtain ⟨_, taken⟩ := Program.exec_access.mp taken
    split at taken
    · rename_i set
      cases taken
      obtain ⟨-, rfl⟩ := Program.exec_done.mp ran
      exact .inl ⟨.inr set, rfl⟩
    · rename_i free
      cases taken
      obtain ⟨realCount, mid', read, ran⟩ := Program.exec_bind.mp ran
      obtain ⟨rfl, rfl⟩ := Program.exec_read.mp read
      obtain ⟨cidx, mid', read, ran⟩ := Program.exec_bind.mp ran
      obtain ⟨rfl, rfl⟩ := Program.exec_read.mp read
      obtain ⟨_, mid', loop, ran⟩ := Program.exec_bind.mp ran
      obtain rfl := Program.exec_modify.mp ran
      refine .inr ⟨queue, by simpa using free, ?_⟩
      have start : Swept mid 0 { mid with
          cleaning := some t
          tail := { mid.tail with first := mid.tail.released.length, start := mid.tail.nextToClean } } :=
        .zero sound rfl rfl rfl (.nil rfl rfl rfl)
      have swept : Swept mid mid.cleanRounds mid' := by
        have realCount := sound.realCount
        rw [TxQueue.onicVfRingRealCount] at realCount
        rw [TxQueue.cleanRounds, sound.size_eq]
        split
        · rename_i inside
          have less : Cyclic.dist size mid.tail.nextToClean (wbCidx mid.wb) < size := Nat.mod_lt _ sound.size_pos
          have at_ := sound.cleanSlot_dist inside
          rw [sound.size_eq] at at_
          refine onicVfTxCleanLoop_swept sound (Nat.le_of_lt less) (Nat.zero_le _) ?_ (.inl ⟨at_, ?_⟩) start loop
          · intro j earlier same
            have equal := sound.cleanSlot_inj (by omega) less (same.trans at_.symm)
            omega
          · simp only [TxQueue.onicVfRingRealCount, realCount]
            omega
        · rename_i outside
          refine onicVfTxCleanLoop_swept sound (Nat.le_refl _) (Nat.zero_le _) ?_ (.inr ?_) start loop
          · intro j _ same
            have less : mid.cleanSlot j < size := sound.cleanSlot_lt j
            have inside : wbCidx mid.wb < size := same ▸ less
            exact outside inside
          · simp only [TxQueue.onicVfRingRealCount, realCount]
            omega
      exact ⟨swept.count, swept.nextToClean, ⟨swept.releases.released, swept.releases.freed, swept.releases.unmapped⟩,
        swept.others, swept.emptied⟩
  · rename_i queue
    obtain ⟨-, rfl⟩ := Program.exec_done.mp ran
    exact .inl ⟨.inl (by simpa using queue), rfl⟩

/-- The call does not come to its loop, the write-back is valid, or it is outside a ring that
    holds nothing. -/
def TxQueue.CleanSafe (q : TxQueue) (priv : VfTxPriv) : Prop :=
  priv.queue = false ∨ q.cleaning.isSome ∨ q.WbValid ∨
    q.size ≤ wbCidx q.wb ∧ ∀ i, i < q.size → (q.buffer i).ptr = none

theorem CleanHarmless.refl : CleanHarmless q q where
  releases := ⟨[], .nil rfl rfl rfl, by simp⟩
  unconsumed _ _ := rfl
  invalid _ := rfl
  ordered := by
    rw [Cyclic.dist, Nat.add_sub_cancel_left, Nat.mod_self]
    exact Nat.zero_le _

/-- Up to a valid write-back only what the hardware is done with is released. -/
theorem Swept.valid (sound : TxSound size q) (valid : q.WbValid) (swept : Swept q q.cleanRounds q') :
    CleanHarmless q q' := by
  have inside : wbCidx q.wb < size := sound.size_eq ▸ valid.1
  have rounds : q.cleanRounds = Cyclic.dist q.size q.tail.nextToClean (wbCidx q.wb) := if_pos valid.1
  have less : q.cleanRounds < size := by
    rw [rounds, sound.size_eq]
    exact Nat.mod_lt _ sound.size_pos
  have consumed {j : Nat} (earlier : j < q.cleanRounds) : q.Consumed (q.cleanSlot j) := by
    refine ⟨valid, ?_⟩
    rw [Cyclic.Between, sound.dist_cleanSlot (by omega), ← rounds]
    exact earlier
  constructor
  case releases =>
    refine ⟨_, swept.releases, fun r mem _ => ?_⟩
    obtain ⟨j, earlier, rfl⟩ := List.mem_map.mp mem
    exact consumed (List.mem_range.mp earlier)
  case unconsumed =>
    exact fun i live => swept.others i fun j earlier same => live (same ▸ consumed earlier)
  case invalid => exact fun not => absurd valid not
  case ordered =>
    rw [swept.nextToClean, rounds, sound.cleanSlot_dist inside]
    exact valid.2

theorem onicVfTxRelease_nil {buf : TxBuffer} (typed : buf = .zero ∨ ∃ frame : TxFrame, VfKind frame.type ∧ buf = frame.buffer) :
    onicVfTxRelease buf = [] ↔ buf.ptr = none := by
  rcases typed with rfl | ⟨⟨type, id, dmaAddr, len⟩, rfl, rfl⟩ <;> simp [onicVfTxRelease, TxBuffer.zero, TxFrame.buffer]

/-- A write-back outside the ring releases whatever the ring holds. -/
theorem Swept.outside (sound : TxSound size q) (outside : q.size ≤ wbCidx q.wb) (swept : Swept q q.cleanRounds q') :
    CleanHarmless q q' ↔ ∀ i, i < q.size → (q.buffer i).ptr = none := by
  have rounds : q.cleanRounds = size := by
    rw [TxQueue.cleanRounds, if_neg (Nat.not_lt.mpr outside), sound.size_eq]
  have invalid : ¬ q.WbValid := fun valid => absurd valid.1 (Nat.not_lt.mpr outside)
  rw [rounds] at swept
  constructor
  · intro harmless i less
    obtain ⟨rs, made, only⟩ := harmless.releases
    have same : rs = (List.range size).map q.cleanRound :=
      List.append_cancel_left (made.released.symm.trans swept.releases.released)
    rw [sound.size_eq] at less
    have far : Cyclic.dist q.size q.tail.nextToClean i < size := by
      rw [sound.size_eq]
      exact Nat.mod_lt _ sound.size_pos
    have mem : q.cleanRound (Cyclic.dist q.size q.tail.nextToClean i) ∈ rs := by
      rw [same]
      exact List.mem_map_of_mem (List.mem_range.mpr far)
    by_contra held
    refine invalid (only _ mem ?_).1
    rw [TxQueue.cleanRound, sound.cleanSlot_dist less, Ne, onicVfTxRelease_nil (sound.typed i)]
    exact held
  · intro empty
    have back : q'.tail.nextToClean = q.tail.nextToClean := by
      rw [swept.nextToClean, TxQueue.cleanSlot, sound.size_eq, Nat.add_mod_right, Nat.mod_eq_of_lt sound.nextToClean]
    have nothing (i : Nat) (less : i < size) : q.buffer i = .zero := by
      rcases sound.typed i with zero | ⟨frame, -, is⟩
      · exact zero
      · have none := empty i (sound.size_eq ▸ less)
        rw [is] at none
        cases none
    constructor
    case releases =>
      refine ⟨_, swept.releases, fun r mem some => ?_⟩
      obtain ⟨j, -, rfl⟩ := List.mem_map.mp mem
      refine absurd ?_ some
      rw [TxQueue.cleanRound, nothing _ (sound.cleanSlot_lt j)]
      rfl
    case unconsumed =>
      intro i _
      by_cases here : ∃ j, j < size ∧ q.cleanSlot j = i
      · obtain ⟨j, earlier, rfl⟩ := here
        rw [swept.emptied j earlier, nothing _ (sound.cleanSlot_lt j)]
      · exact swept.others i fun j earlier same => here ⟨j, earlier, same⟩
    case invalid => exact fun _ => back
    case ordered =>
      rw [back]
      exact (CleanHarmless.refl (q := q)).ordered

/-- Inside the ring an invalid write-back moves `next_to_clean` past `next_to_use`. -/
theorem Swept.beyond (sound : TxSound size q) (inside : wbCidx q.wb < q.size) (invalid : ¬ q.WbValid)
    (swept : Swept q q.cleanRounds q') : ¬ CleanHarmless q q' := by
  intro harmless
  have rounds : q.cleanRounds = Cyclic.dist q.size q.tail.nextToClean (wbCidx q.wb) := if_pos inside
  have moved := swept.nextToClean
  rw [rounds, sound.cleanSlot_dist (sound.size_eq ▸ inside)] at moved
  have far := harmless.ordered
  rw [moved] at far
  exact invalid ⟨inside, far⟩

theorem onicVfTxClean_harmless_iff (sound : TxSound size q) (ran : Program.Exec (onicVfTxClean priv t) q () q') :
    CleanHarmless q q' ↔ q.CleanSafe priv := by
  rcases onicVfTxClean_swept sound ran with ⟨early, rfl⟩ | ⟨queue, free, swept⟩
  · refine ⟨fun _ => ?_, fun _ => .refl⟩
    rcases early with absent | set
    · exact .inl absent
    · exact .inr (.inl set)
  · have safe : q.CleanSafe priv ↔ q.WbValid ∨ q.size ≤ wbCidx q.wb ∧ ∀ i, i < q.size → (q.buffer i).ptr = none := by
      simp [TxQueue.CleanSafe, queue, free]
    rw [safe]
    by_cases valid : q.WbValid
    · exact ⟨fun _ => .inl valid, fun _ => swept.valid sound valid⟩
    · rcases Nat.lt_or_ge (wbCidx q.wb) q.size with inside | outside
      · have harmful := swept.beyond sound inside valid
        simp [harmful, valid, Nat.not_le.mpr inside]
      · rw [swept.outside sound outside]
        simp [valid, outside]

end

/-- In every state that transmits, cleans and write-backs of any kind lead to, and for every
    write-back, the clean ends, and does no harm exactly when it is safe. -/
theorem vf_tx_write_back_iff {priv : VfTxPriv} {q : TxQueue} {P : Pool Nat TxQueue TxInput} (fresh : TxFresh q)
    (reach : Pool.Reach (vfTxAnyStatusRules priv) (fun _ => True) (Pool.start q) P) (dw : BitVec 64) (t : Nat) :
    (∃ q', Program.Exec (onicVfTxClean priv t) { P.state with wb := dw } () q') ∧
      ∀ q', Program.Exec (onicVfTxClean priv t) { P.state with wb := dw } () q' →
        (CleanHarmless { P.state with wb := dw } q' ↔ ({ P.state with wb := dw } : TxQueue).CleanSafe priv) := by
  have sound : TxSound q.size { P.state with wb := dw } := { fresh.sound reach with }
  refine ⟨?_, fun q' ran => onicVfTxClean_harmless_iff sound ran⟩
  obtain ⟨_, q', ran⟩ := (onicVfTxClean_enabled priv t).finishes { P.state with wb := dw }
  exact ⟨q', ran⟩

/-- One frame is in the ring. -/
def vfOneFrameMoves : List (Pool.Move Nat TxQueue TxInput) :=
  .call 0 (transmit 0 ⟨7, 42⟩ (onicVfXmitFrame oneOfFour 0 ⟨7, 42⟩)) ::
    List.replicate 15 (.access 0 ⟨0, some 4096, false⟩)

theorem vfOneFrameMoves_allowed {m : Pool.Move Nat TxQueue TxInput} (mem : m ∈ vfOneFrameMoves) :
    m.Allowed (vfTxAnyStatusRules oneOfFour) := by
  simp only [vfOneFrameMoves, List.mem_cons, List.mem_replicate] at mem
  rcases mem with rfl | ⟨-, rfl⟩
  · exact fun _ => .xmitFrame _
  · trivial

/-- The ring holds one frame and the write-back is 1. -/
theorem vf_tx_write_back_one :
    ∃ P q', Pool.Reach (vfTxAnyStatusRules oneOfFour) (fun _ => True) (Pool.start (.initial 4096)) P ∧
      Program.Exec (onicVfTxClean oneOfFour 0) { P.state with wb := 1 <<< 16 } () q' ∧ q'.freed = [7] ∧
      CleanHarmless { P.state with wb := 1 <<< 16 } q' := by
  have played : ((Pool.start (.initial 4096)).play (fun _ => true) vfOneFrameMoves).bind (fun P =>
      ((onicVfTxClean oneOfFour 0).eval ⟨0, none, false⟩ { P.state with wb := 1 <<< 16 }).map fun r =>
        (P.state.tail.nextToClean, P.state.head.nextToUse, P.state.count, r.2.freed)) = some (0, 1, 4096, [7]) := by
    decide +kernel
  obtain ⟨P, ran, is⟩ := Option.bind_eq_some_iff.mp played
  obtain ⟨⟨_, q'⟩, cleaned, is⟩ := Option.map_eq_some_iff.mp is
  simp only [Prod.mk.injEq] at is
  obtain ⟨clean, use, count, freed⟩ := is
  have reach : Pool.Reach (vfTxAnyStatusRules oneOfFour) (fun _ => True) _ P :=
    Pool.reach_of_play (fun _ _ => trivial) (fun _ => vfOneFrameMoves_allowed) ran
  have exec := Program.Exec.of_eval cleaned
  have valid : ({ P.state with wb := 1 <<< 16 } : TxQueue).WbValid := by
    rw [TxQueue.WbValid, TxQueue.size]
    simp only [clean, use, count]
    decide
  obtain ⟨-, harmless⟩ := vf_tx_write_back_iff (TxQueue.initial_fresh (by decide)) reach (1 <<< 16) 0
  exact ⟨P, q', reach, exec, freed, (harmless q' exec).mpr (.inr (.inr (.inl valid)))⟩

/-- With the same frame in the ring the write-back is 5: the frame is freed, and
    `next_to_clean` goes past `next_to_use`. -/
theorem vf_tx_write_back_beyond :
    ∃ P q', Pool.Reach (vfTxAnyStatusRules oneOfFour) (fun _ => True) (Pool.start (.initial 4096)) P ∧
      Program.Exec (onicVfTxClean oneOfFour 0) { P.state with wb := 5 <<< 16 } () q' ∧
      ¬ ({ P.state with wb := 5 <<< 16 } : TxQueue).WbValid ∧ P.state.freed = [] ∧ q'.freed = [7] ∧
      P.state.head.nextToUse = 1 ∧ P.state.tail.nextToClean = 0 ∧ q'.tail.nextToClean = 5 ∧
      ¬ CleanHarmless { P.state with wb := 5 <<< 16 } q' := by
  have played : ((Pool.start (.initial 4096)).play (fun _ => true) vfOneFrameMoves).bind (fun P =>
      ((onicVfTxClean oneOfFour 0).eval ⟨0, none, false⟩ { P.state with wb := 5 <<< 16 }).map fun r =>
        (P.state.tail.nextToClean, P.state.head.nextToUse, P.state.count, P.state.freed, r.2.freed,
          r.2.tail.nextToClean)) = some (0, 1, 4096, [], [7], 5) := by
    decide +kernel
  obtain ⟨P, ran, is⟩ := Option.bind_eq_some_iff.mp played
  obtain ⟨⟨_, q'⟩, cleaned, is⟩ := Option.map_eq_some_iff.mp is
  simp only [Prod.mk.injEq] at is
  obtain ⟨clean, use, count, before, freed, moved⟩ := is
  have reach : Pool.Reach (vfTxAnyStatusRules oneOfFour) (fun _ => True) _ P :=
    Pool.reach_of_play (fun _ _ => trivial) (fun _ => vfOneFrameMoves_allowed) ran
  have invalid : ¬ ({ P.state with wb := 5 <<< 16 } : TxQueue).WbValid := by
    rw [TxQueue.WbValid, TxQueue.size]
    simp only [clean, use, count]
    decide
  refine ⟨P, q', reach, .of_eval cleaned, invalid, before, freed, use, clean, moved, fun harmless => ?_⟩
  have still := harmless.invalid invalid
  simp only [moved, clean] at still
  cases still

end OpenNic
