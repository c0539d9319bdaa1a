import OpenNic.Tx.Contract

namespace OpenNic

section

variable {size : Nat} {rest : TxHead → Prop} {kind : TxBufType → Prop} {t : Nat} {h : Option TxHead}
  {k : Option TxTail} {head : TxHead}

theorem TxInv.cleaned_le_used {q : TxQueue} (inv : TxInv size kind rest q) : q.tail.cleaned ≤ q.head.used :=
  inv.cleaned_le.trans (inv.released_le.trans (inv.completed_le.trans inv.published_le))

/-- The ring is full exactly when one more frame would close the circle. -/
theorem TxInv.full_iff {q : TxQueue} (inv : TxInv size kind rest q) :
    (q.head.nextToUse + 1) % size = q.tail.nextToClean ↔ q.head.used + 1 = q.tail.cleaned + size := by
  rw [inv.nextToUse, inv.nextToClean]
  exact Cyclic.full_iff inv.cleaned_le_used (inv.used_le.trans_lt inv.room)

/-- What every transmit leaves behind: nothing that is half done. -/
structure Whole (head : TxHead) : Prop where
  used : head.used = head.accepted.length
  pending : head.pending = []

def OwnsWhole (t : Nat) (k : Option TxTail) (q : TxQueue) : Prop := ∃ head, Whole head ∧ Owns t (some head) k q

theorem stable_ownsWhole : (txContract size kind rest t).Stable (OwnsWhole t k) :=
  fun _ _ ⟨head, whole, owns⟩ between _ _ => ⟨head, whole, owns.rely between⟩

theorem ownsWhole_done {α : Type} (a : α) (whole : Whole head) :
    (txContract size kind rest t).Triple (Owns t (some head) k) (.done a : Program TxQueue TxInput α)
      fun _ => OwnsWhole t k :=
  (owns_done a).conseq (fun _ _ owns => owns) fun _ _ _ owns => ⟨head, whole, owns⟩

end

/-- What a clean leaves as it is. -/
structure CleanKeeps (q q' : TxQueue) : Prop where
  count : q'.count = q.count
  wbMapped : q'.wbMapped = q.wbMapped
  wb : q'.wb = q.wb
  txLock : q'.txLock = q.txLock
  head : q'.head = q.head
  misused : q'.misused = q.misused
  completed : q'.completed = q.completed
  /-- Only what is released is returned. -/
  returned : ∃ more, q'.tail.released = q.tail.released ++ more ∧
    q'.returned = q.returned ++ (more.flatMap TxRelease.actions).filterMap TxAction.xdpf?

namespace CleanKeeps

theorem of_same {q q' : TxQueue} (count : q'.count = q.count) (wbMapped : q'.wbMapped = q.wbMapped)
    (wb : q'.wb = q.wb) (txLock : q'.txLock = q.txLock) (head : q'.head = q.head)
    (misused : q'.misused = q.misused) (completed : q'.completed = q.completed)
    (released : q'.tail.released = q.tail.released) (returned : q'.returned = q.returned) : CleanKeeps q q' :=
  ⟨count, wbMapped, wb, txLock, head, misused, completed, [], by simp [released], by simp [returned]⟩

theorem refl (q : TxQueue) : CleanKeeps q q := of_same rfl rfl rfl rfl rfl rfl rfl rfl rfl

theorem trans (a b c : TxQueue) (h : CleanKeeps a b) (h' : CleanKeeps b c) : CleanKeeps a c := by
  obtain ⟨more, released, returned⟩ := h.returned
  obtain ⟨more', released', returned'⟩ := h'.returned
  exact ⟨h'.count.trans h.count, h'.wbMapped.trans h.wbMapped, h'.wb.trans h.wb, h'.txLock.trans h.txLock,
    h'.head.trans h.head, h'.misused.trans h.misused, h'.completed.trans h.completed, more ++ more',
    by rw [released', released, List.append_assoc],
    by rw [returned', returned, List.flatMap_append, List.filterMap_append, List.append_assoc]⟩

end CleanKeeps

theorem testAndSetBit_keeps (t : Nat) : (TxAccess.testAndSetBit t).Steps CleanKeeps := by
  apply Program.Steps.access
  intro _ q busy q' taken
  split at taken <;> cases taken
  · exact .refl q
  · exact .of_same rfl rfl rfl rfl rfl rfl rfl rfl rfl

theorem release_keeps (actions : TxBuffer → List TxAction) (wipe : TxBuffer → TxBuffer) :
    (TxAccess.release actions wipe).Steps CleanKeeps :=
  .modify fun _ => ⟨rfl, rfl, rfl, rfl, rfl, rfl, rfl, _, rfl, by simp⟩

theorem writeNextToClean_keeps (next : TxQueue → Nat) : (TxAccess.writeNextToClean next).Steps CleanKeeps :=
  .modify fun _ => .of_same rfl rfl rfl rfl rfl rfl rfl rfl rfl

theorem clearBit_keeps (cidx : Nat) : (TxAccess.clearBit cidx).Steps CleanKeeps :=
  .modify fun _ => .of_same rfl rfl rfl rfl rfl rfl rfl rfl rfl

theorem testAndSetBit_enabled (t : Nat) : (TxAccess.testAndSetBit t).Enabled := by
  apply Program.Enabled.access
  intro _ q
  split <;> rfl

/-- The hardware advances the write-back within the descriptors that are published. -/
inductive TxHardware (q : TxQueue) : TxQueue → Prop
  | writeBack (completed : Nat) (dw : BitVec 64) (further : q.completed ≤ completed)
      (within : completed ≤ q.head.published) (written : wbCidx dw = completed % q.size) :
      TxHardware q { q with wb := dw, completed := completed }
  | idle : TxHardware q q

section

variable {size : Nat}

theorem TxInv.env {kind : TxBufType → Prop} {rest : TxHead → Prop} {q q' : TxQueue} (inv : TxInv size kind rest q) (happens : TxHardware q q') :
    TxInv size kind rest q' ∧ ∀ t, TxRely t q q' := by
  cases happens with
  | writeBack completed dw further within written =>
    have slots : q.size = size := by rw [TxQueue.size, inv.count, Nat.add_sub_cancel]
    rw [slots] at written
    exact ⟨inv.hardware further within written,
      fun t => ⟨Iff.rfl, Iff.rfl, fun _ => rfl, fun _ => rfl, Nat.le_refl _, further⟩⟩
  | idle => exact ⟨inv, fun t => .refl t q⟩

/-- Calls that keep their contracts one by one keep them together. -/
theorem txRules_fit {kind : TxBufType → Prop} {rest : TxHead → Prop} {calls : Nat → TxQueue → Program TxQueue TxInput Unit → Prop}
    (each : ∀ t q p, calls t q p →
      (txContract size kind rest t).Triple (Owns t none none) p fun _ => Owns t none none) :
    Pool.Fits ⟨calls, TxHardware⟩ (fun _ => True) (TxInv size kind rest) (txContract size kind rest)
      fun t => Owns t none none where
  same_ok _ := rfl
  same_inv _ := rfl
  threads _ u other _ _ _ _ guarantee := guarantee u other.symm
  env _ _ _ _ inv happens := inv.env happens
  calls t q p call ok inv idle := each t q p call q ok inv idle

end

/-- The queue as it is set up: nothing in the ring and nobody at it. -/
structure TxFresh (q : TxQueue) : Prop where
  count : 2 ≤ q.count
  wbMapped : q.wbMapped = true
  wb : wbCidx q.wb = 0
  buffer : ∀ i, q.buffer i = .zero
  txLock : q.txLock = none
  cleaning : q.cleaning = none
  nextToUse : q.head.nextToUse = 0
  nextToClean : q.tail.nextToClean = 0
  completed : q.completed = 0
  head : q.head.accepted = [] ∧ q.head.used = 0 ∧ q.head.published = 0 ∧ q.head.mapped = [] ∧
    q.head.pending = [] ∧ q.head.disposed = [] ∧ q.head.clobbered = false
  tail : q.tail.released = [] ∧ q.tail.cleaned = 0 ∧ q.tail.cleans = [] ∧ q.tail.unmapped = []
  freed : q.freed = []

theorem TxFresh.inv {kind : TxBufType → Prop} {rest : TxHead → Prop} {q : TxQueue} (fresh : TxFresh q) (left : rest q.head) :
    TxInv q.size kind rest q := by
  obtain ⟨accepted, used, published, mapped, pending, disposed, clobbered⟩ := fresh.head
  obtain ⟨released, cleaned, cleans, unmapped⟩ := fresh.tail
  have count := fresh.count
  constructor
  case count =>
    rw [TxQueue.size]
    omega
  case slots =>
    rw [accepted, released]
    refine ⟨Nat.le_refl _, ?_, fun n less => absurd less (Nat.not_lt_zero n), fun i _ => ?_⟩
    · simp only [List.length_nil, TxQueue.size]
      omega
    · rw [TxQueue.slots, fresh.buffer]
      rfl
  case room =>
    simp only [accepted, List.length_nil, cleaned, TxQueue.size]
    omega
  case wbMapped => exact fresh.wbMapped
  case headIdle => exact fun _ => left
  all_goals simp [accepted, used, published, mapped, pending, disposed, clobbered, released, cleaned, cleans,
    unmapped, fresh.nextToUse, fresh.nextToClean, fresh.completed, fresh.wb, fresh.freed, TxQueue.live]

/-- A ring that loses, repeats and overwrites nothing. -/
structure RingConserved (q : TxQueue) : Prop where
  nextToUse_lt : q.head.nextToUse < q.count - 1
  nextToClean_lt : q.tail.nextToClean < q.count - 1
  live : q.txLock = none → q.cleaning = none → ∀ i, i < q.count - 1 →
    ((q.buffer i).ptr.isSome ↔ Cyclic.Between (q.count - 1) q.tail.nextToClean q.head.nextToUse i)
  /-- While a frame is being stored or released, its slot counts as live from the store to
      the release. -/
  held : q.head.used ≤ q.head.accepted.length ∧ q.head.accepted.length ≤ q.head.used + 1 ∧
    q.head.nextToUse = q.head.used % (q.count - 1) ∧
    q.tail.cleaned ≤ q.tail.released.length ∧ q.tail.released.length ≤ q.tail.cleaned + 1 ∧
    q.tail.nextToClean = q.tail.cleaned % (q.count - 1) ∧
    Cyclic.Slots q.slots q.head.accepted (q.count - 1) q.tail.released.length
  unclobbered : q.head.clobbered = false
  released : q.tail.released <+: q.head.accepted.mapIdx (dueAt (q.count - 1))
  cleans : ∀ c ∈ q.tail.cleans, c.Exact (q.count - 1) q.head.accepted

theorem TxInv.conserved {size : Nat} {kind : TxBufType → Prop} {rest : TxHead → Prop} {q : TxQueue} (inv : TxInv size kind rest q)
    (used : q.txLock = none → q.head.used = q.head.accepted.length) : RingConserved q := by
  have slots : q.count - 1 = size := by rw [inv.count, Nat.add_sub_cancel]
  have positive := inv.size_pos
  constructor
  case live =>
    intro unlocked idle i less
    rw [slots] at less ⊢
    rw [inv.nextToClean, inv.nextToUse, inv.tailIdle idle, used unlocked, ← inv.slots.isSome_iff less]
    simp [TxQueue.slots, TxBuffer.held]
  case held =>
    rw [slots]
    exact ⟨inv.used_le, inv.used_ge, inv.nextToUse, inv.cleaned_le, inv.cleaned_ge, inv.nextToClean, inv.slots⟩
  case nextToUse_lt =>
    rw [slots, inv.nextToUse]
    exact Nat.mod_lt _ positive
  case nextToClean_lt =>
    rw [slots, inv.nextToClean]
    exact Nat.mod_lt _ positive
  case unclobbered => exact inv.unclobbered
  case released =>
    rw [slots]
    exact inv.releases
  case cleans =>
    rw [slots]
    exact inv.cleans

/-- A queue of `count` descriptors as it is set up. -/
def TxQueue.initial (count : Nat) : TxQueue where
  count := count
  wbMapped := true
  wb := 0
  buffer _ := .zero
  txLock := none
  cleaning := none
  head := {
    nextToUse := 0
    desc := fun _ => ⟨0, 0, 0⟩
    doorbell := none
    txPackets := 0
    txBytes := 0
    txDropped := 0
    txErrors := 0
    accepted := []
    used := 0
    published := 0
    mapped := []
    pending := []
    disposed := []
    calls := []
    padFailed := false
    clobbered := false }
  tail := {
    nextToClean := 0
    released := []
    cleaned := 0
    first := 0
    start := 0
    cleans := []
    unmapped := [] }
  freed := []
  misused := []
  returned := []
  completed := 0

theorem TxQueue.initial_fresh {count : Nat} (some : 2 ≤ count) : TxFresh (.initial count) where
  count := some
  wbMapped := rfl
  wb := show wbCidx 0 = 0 by decide
  buffer _ := rfl
  txLock := rfl
  cleaning := rfl
  nextToUse := rfl
  nextToClean := rfl
  completed := rfl
  head := ⟨rfl, rfl, rfl, rfl, rfl, rfl, rfl⟩
  tail := ⟨rfl, rfl, rfl, rfl⟩
  freed := rfl

/-- The hardware is done with one frame. -/
def completeOne (q : TxQueue) : TxQueue :=
  if q.completed ≤ 1 ∧ 1 ≤ q.head.published ∧ wbCidx (1 <<< 16) = 1 % q.size then
    { q with wb := 1 <<< 16, completed := 1 }
  else q

theorem completeOne_hardware (q : TxQueue) : TxHardware q (completeOne q) := by
  rw [completeOne]
  split
  · rename_i within
    exact .writeBack 1 _ within.1 within.2.1 within.2.2
  · exact .idle

end OpenNic
