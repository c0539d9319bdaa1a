import OpenNic.Tx.Queue

namespace OpenNic

open Cyclic (slotsBetween)

/-- A call of `onic_tx_clean` that released exactly the slots from its `next_to_clean` up
    to the write-back, in order and each as due. -/
def TxClean.Exact (size : Nat) (accepted : List TxFrame) (c : TxClean) : Prop :=
  (∃ first, c.released <+: (accepted.mapIdx (dueAt size)).drop first) ∧
    c.released.map TxRelease.slot = slotsBetween size c.nextToClean c.cidx

namespace TxQueue

/-- The frames that are in the ring. -/
def live (q : TxQueue) : List TxFrame := q.head.accepted.drop q.tail.released.length

end TxQueue

/-- `kind` are the kinds of frames that are put in, `rest` is what the holder of the lock
    leaves behind. -/
structure TxInv (size : Nat) (kind : TxBufType → Prop) (rest : TxHead → Prop) (q : TxQueue) : Prop where
  count : q.count = size + 1
  wbMapped : q.wbMapped = true
  nextToUse : q.head.nextToUse = q.head.used % size
  nextToClean : q.tail.nextToClean = q.tail.cleaned % size
  slots : Cyclic.Slots q.slots q.head.accepted size q.tail.released.length
  used_le : q.head.used ≤ q.head.accepted.length
  used_ge : q.head.accepted.length ≤ q.head.used + 1
  cleaned_le : q.tail.cleaned ≤ q.tail.released.length
  cleaned_ge : q.tail.released.length ≤ q.tail.cleaned + 1
  room : q.head.accepted.length < q.tail.cleaned + size
  released_le : q.tail.released.length ≤ q.completed
  completed_le : q.completed ≤ q.head.published
  published_le : q.head.published ≤ q.head.used
  wb : wbCidx q.wb = q.completed % size
  headIdle : q.txLock = none → rest q.head
  tailIdle : q.cleaning = none → q.tail.cleaned = q.tail.released.length
  releases : q.tail.released <+: q.head.accepted.mapIdx (dueAt size)
  cleans : ∀ c ∈ q.tail.cleans, c.Exact size q.head.accepted
  skbs : q.head.disposed.Perm (q.freed ++ q.live.filterMap TxFrame.skb?)
  mappings : q.head.mapped.Perm (q.tail.unmapped ++ q.live.filterMap TxFrame.mapping? ++ q.head.pending)
  typed : ∀ frame ∈ q.head.accepted, kind frame.type
  unclobbered : q.head.clobbered = false

variable {size : Nat} {kind : TxBufType → Prop} {rest : TxHead → Prop} {q : TxQueue}

theorem prefix_concat_of_getElem? {α : Type} {l whole : List α} {a : α} (h : l <+: whole)
    (next : whole[l.length]? = some a) : l ++ [a] <+: whole := by
  obtain ⟨more, rfl⟩ := h
  rw [List.getElem?_append_right (Nat.le_refl _), Nat.sub_self] at next
  obtain ⟨tail, rfl⟩ := List.head?_eq_some_iff.mp (List.head?_eq_getElem?.trans next)
  exact ⟨tail, by simp⟩

theorem mapIdx_append_grows {α β : Type} (f : Nat → α → β) (l more : List α) :
    l.mapIdx f <+: (l ++ more).mapIdx f := by
  rw [List.mapIdx_append]
  exact List.prefix_append _ _

theorem TxClean.Exact.grow {accepted : List TxFrame} {c : TxClean} (h : c.Exact size accepted)
    (more : List TxFrame) : c.Exact size (accepted ++ more) := by
  obtain ⟨⟨first, part⟩, slots⟩ := h
  exact ⟨⟨first, part.trans (List.IsPrefix.drop (mapIdx_append_grows _ _ _) first)⟩, slots⟩

/-- The slots that were released one after another from position `first` on. -/
theorem slots_of_releases {accepted : List TxFrame} {released : List TxRelease} {first : Nat}
    (part : released <+: accepted.mapIdx (dueAt size)) :
    (released.drop first).map TxRelease.slot =
      (List.range (released.length - first)).map fun i => (first + i) % size := by
  apply List.ext_getElem
  · simp
  · intro i less less'
    have inside : first + i < released.length := by
      rw [List.length_map, List.length_drop] at less
      omega
    simp only [List.getElem_map, List.getElem_drop, List.getElem_range]
    rw [part.getElem inside, List.getElem_mapIdx]
    rfl

namespace TxInv

theorem size_pos (inv : TxInv size kind rest q) : 0 < size := by
  have ordered := inv.slots.first_le
  have room := inv.room
  have cleaned := inv.cleaned_le
  omega

/-- A change of the head that the ring and the ledgers do not see. -/
theorem setHead (inv : TxInv size kind rest q) {h : TxHead} (held : q.txLock ≠ none)
    (nextToUse : h.nextToUse = q.head.nextToUse) (used : h.used = q.head.used)
    (accepted : h.accepted = q.head.accepted) (published : h.published = q.head.published)
    (mapped : h.mapped = q.head.mapped) (pending : h.pending = q.head.pending)
    (disposed : h.disposed = q.head.disposed) (clobbered : h.clobbered = q.head.clobbered) :
    TxInv size kind rest { q with head := h } where
  count := inv.count
  wbMapped := inv.wbMapped
  nextToUse := by rw [nextToUse, used, inv.nextToUse]
  nextToClean := inv.nextToClean
  slots := by
    have same := inv.slots
    rw [← accepted] at same
    exact same
  used_le := by simpa only [used, accepted] using inv.used_le
  used_ge := by simpa only [used, accepted] using inv.used_ge
  cleaned_le := inv.cleaned_le
  cleaned_ge := inv.cleaned_ge
  room := by simpa only [accepted] using inv.room
  released_le := inv.released_le
  completed_le := by simpa only [published] using inv.completed_le
  published_le := by simpa only [published, used] using inv.published_le
  wb := inv.wb
  headIdle free := absurd free held
  tailIdle := inv.tailIdle
  releases := by simpa only [accepted] using inv.releases
  cleans := by simpa only [accepted] using inv.cleans
  skbs := by simpa only [disposed, TxQueue.live, accepted] using inv.skbs
  mappings := by simpa only [mapped, pending, TxQueue.live, accepted] using inv.mappings
  typed := by simpa only [accepted] using inv.typed
  unclobbered := by simpa only [clobbered] using inv.unclobbered

theorem lock (inv : TxInv size kind rest q) (t : Nat) : TxInv size kind rest { q with txLock := some t } :=
  { inv with headIdle := fun free => by cases free }

theorem unlock (inv : TxInv size kind rest q) (left : rest q.head) : TxInv size kind rest { q with txLock := none } :=
  { inv with headIdle := fun _ => left }

theorem setLogs (inv : TxInv size kind rest q) (misused returned : List Nat) :
    TxInv size kind rest { q with misused := misused, returned := returned } := { inv with }

/-- An skb that is freed on the spot is disposed of. -/
theorem dispose (inv : TxInv size kind rest q) (held : q.txLock ≠ none) (skb : Nat) (failed : Bool) :
    TxInv size kind rest { q with
      freed := q.freed ++ [skb]
      head := { q.head with disposed := q.head.disposed ++ [skb], padFailed := failed } } :=
  { inv with
    headIdle := fun free => absurd free held
    skbs := by
      have moved : (q.head.disposed ++ [skb]).Perm (q.freed ++ q.live.filterMap TxFrame.skb? ++ [skb]) :=
        inv.skbs.append_right [skb]
      rw [List.append_assoc] at moved
      refine moved.trans ?_
      rw [List.append_assoc]
      exact List.perm_append_comm.append_left q.freed }

theorem map (inv : TxInv size kind rest q) (held : q.txLock ≠ none) (mapping : Mapping) :
    TxInv size kind rest { q with head := { q.head with
      mapped := q.head.mapped ++ [mapping], pending := q.head.pending ++ [mapping] } } :=
  { inv with
    headIdle := fun free => absurd free held
    mappings := by
      have more := inv.mappings.append_right [mapping]
      rwa [List.append_assoc] at more }

theorem hardware (inv : TxInv size kind rest q) {completed : Nat} {dw : BitVec 64} (further : q.completed ≤ completed)
    (within : completed ≤ q.head.published) (written : wbCidx dw = completed % size) :
    TxInv size kind rest { q with wb := dw, completed := completed } :=
  { inv with
    released_le := inv.released_le.trans further
    completed_le := within
    wb := written }

theorem publish (inv : TxInv size kind rest q) (held : q.txLock ≠ none) :
    TxInv size kind rest { q with
      head := { q.head with doorbell := some (descPidx q.head.nextToUse), published := q.head.used } } :=
  { inv with
    headIdle := fun free => absurd free held
    completed_le := inv.completed_le.trans inv.published_le
    published_le := Nat.le_refl _ }

/-- `next_to_use` passes the frame that was stored last. -/
theorem advanceHead (inv : TxInv size kind rest q) (held : q.txLock ≠ none) {next : Nat}
    (stored : q.head.used < q.head.accepted.length) (is : next = (q.head.used + 1) % size) :
    TxInv size kind rest { q with head := { q.head with nextToUse := next, used := q.head.used + 1 } } :=
  { inv with
    headIdle := fun free => absurd free held
    nextToUse := is
    used_le := stored
    used_ge := inv.used_ge.trans (Nat.le_succ _)
    published_le := inv.published_le.trans (Nat.le_succ _) }

/-- A frame is stored where the ring is free. -/
theorem store (inv : TxInv size kind rest q) (held : q.txLock ≠ none) (whole : q.head.used = q.head.accepted.length)
    (room : q.head.used + 1 < q.tail.cleaned + size) {frame : TxFrame}
    (typed : kind frame.type) (pending : q.head.pending = frame.mapping?.toList) (desc : Nat → H2cStDesc) :
    TxInv size kind rest { q with
      buffer := Function.update q.buffer q.head.nextToUse frame.buffer
      head := { q.head with
        desc := desc
        accepted := q.head.accepted ++ [frame]
        pending := []
        disposed := q.head.disposed ++ frame.skb?.toList
        clobbered := q.head.clobbered || (q.slots q.head.nextToUse).isSome } } :=
  have slot : q.head.nextToUse = q.head.accepted.length % size := by rw [inv.nextToUse, whole]
  have drop : (q.head.accepted ++ [frame]).drop q.tail.released.length = q.live ++ [frame] := by
    rw [List.drop_append_of_le_length inv.slots.first_le, TxQueue.live]
  { inv with
    slots := by
      have pushed := inv.slots.push frame (by have := inv.cleaned_le; omega)
      have same : (fun i => (Function.update q.buffer q.head.nextToUse frame.buffer i).held) =
          Function.update q.slots (q.head.accepted.length % size) (some frame) := by
        funext i
        rw [← slot]
        by_cases here : i = q.head.nextToUse
        · rw [here, Function.update_self, Function.update_self]
          rfl
        · rw [Function.update_of_ne here, Function.update_of_ne here]
          rfl
      rw [← same] at pushed
      exact pushed
    used_le := by simp [whole]
    used_ge := by simp [whole]
    room := by
      simp only [List.length_append, List.length_singleton]
      omega
    headIdle := fun free => absurd free held
    releases := inv.releases.trans (mapIdx_append_grows _ _ _)
    cleans := fun c mem => (inv.cleans c mem).grow [frame]
    skbs := by
      simp only [TxQueue.live] at drop ⊢
      rw [drop, List.filterMap_append, ← List.append_assoc]
      have single : [frame].filterMap TxFrame.skb? = frame.skb?.toList := by
        cases h : frame.skb? <;> simp [h]
      rw [single]
      exact inv.skbs.append_right _
    mappings := by
      simp only [TxQueue.live] at drop ⊢
      rw [drop, List.filterMap_append, List.append_nil, ← List.append_assoc]
      have single : [frame].filterMap TxFrame.mapping? = frame.mapping?.toList := by
        cases h : frame.mapping? <;> simp [h]
      rw [single, ← pending]
      exact inv.mappings
    typed := by
      intro f mem
      rcases List.mem_append.mp mem with before | last
      · exact inv.typed f before
      · rw [List.mem_singleton.mp last]
        exact typed
    unclobbered := by
      have free := inv.slots.back
      rw [← slot] at free
      simp [inv.unclobbered, free] }

/-- The slot that a clean comes to next holds the oldest frame. -/
theorem oldest (inv : TxInv size kind rest q) (level : q.tail.cleaned = q.tail.released.length)
    (more : q.tail.released.length < q.completed) :
    ∃ frame, q.head.accepted[q.tail.released.length]? = some frame ∧
      q.buffer q.tail.nextToClean = frame.buffer := by
  have less : q.tail.released.length < q.head.accepted.length :=
    more.trans_le (inv.completed_le.trans (inv.published_le.trans inv.used_le))
  refine ⟨_, List.getElem?_eq_getElem less, TxBuffer.eq_buffer ?_⟩
  rw [inv.nextToClean, level]
  exact inv.slots.front less

/-- The oldest frame is released as due. -/
theorem release (inv : TxInv size kind rest q) (held : q.cleaning ≠ none) {frame : TxFrame}
    (level : q.tail.cleaned = q.tail.released.length) (more : q.tail.released.length < q.completed)
    (oldest : q.head.accepted[q.tail.released.length]? = some frame) {wiped : TxBuffer}
    (empty : wiped.held = none) (returned : List Nat) :
    TxInv size kind rest { q with
      buffer := Function.update q.buffer q.tail.nextToClean wiped
      tail := { q.tail with
        released := q.tail.released ++ [⟨q.tail.nextToClean, frame.buffer, frame.due⟩]
        unmapped := q.tail.unmapped ++ frame.due.filterMap TxAction.mapping? }
      freed := q.freed ++ frame.due.filterMap TxAction.skb?
      returned := returned } :=
  have less : q.tail.released.length < q.head.accepted.length := (List.getElem?_eq_some_iff.mp oldest).1
  have frame_is : q.head.accepted[q.tail.released.length] = frame := (List.getElem?_eq_some_iff.mp oldest).2
  have slot : q.tail.nextToClean = q.tail.released.length % size := by rw [inv.nextToClean, level]
  have live : q.live = frame :: q.head.accepted.drop (q.tail.released.length + 1) := by
    rw [TxQueue.live, List.drop_eq_getElem_cons less, frame_is]
  { inv with
    slots := by
      have popped := inv.slots.pop less
      have same : (fun i => (Function.update q.buffer q.tail.nextToClean wiped i).held) =
          Function.update q.slots (q.tail.released.length % size) none := by
        funext i
        rw [← slot]
        by_cases here : i = q.tail.nextToClean
        · rw [here, Function.update_self, Function.update_self, empty]
        · rw [Function.update_of_ne here, Function.update_of_ne here]
          rfl
      rw [← same] at popped
      rw [List.length_append, List.length_singleton]
      exact popped
    cleaned_le := by
      simp only [List.length_append, List.length_singleton]
      omega
    cleaned_ge := by simp [level]
    released_le := by
      simp only [List.length_append, List.length_singleton]
      exact more
    tailIdle := fun free => absurd free held
    releases := by
      refine prefix_concat_of_getElem? inv.releases ?_
      rw [List.getElem?_mapIdx, oldest, slot]
      rfl
    skbs := by
      simp only [TxQueue.live, List.length_append, List.length_singleton]
      have before := inv.skbs
      rw [live, List.filterMap_cons] at before
      rw [TxFrame.due_skbs, List.append_assoc]
      cases h : frame.skb? with
      | none => simpa [h] using before
      | some skb => simpa [h] using before
    mappings := by
      simp only [TxQueue.live, List.length_append, List.length_singleton]
      have before := inv.mappings
      rw [live, List.filterMap_cons] at before
      rw [TxFrame.due_mappings]
      cases h : frame.mapping? with
      | none => simpa [h] using before
      | some mapping => simpa [h] using before }

theorem advanceTail (inv : TxInv size kind rest q) (held : q.cleaning ≠ none) {next : Nat}
    (ahead : q.tail.cleaned < q.tail.released.length) (is : next = (q.tail.cleaned + 1) % size) :
    TxInv size kind rest { q with tail := { q.tail with nextToClean := next, cleaned := q.tail.cleaned + 1 } } :=
  { inv with
    nextToClean := is
    cleaned_le := ahead
    cleaned_ge := inv.cleaned_ge.trans (Nat.le_succ _)
    room := by
      have := inv.room
      simp only
      omega
    tailIdle := fun free => absurd free held }

theorem setBit (inv : TxInv size kind rest q) (t : Nat) :
    TxInv size kind rest { q with
      cleaning := some t
      tail := { q.tail with first := q.tail.released.length, start := q.tail.nextToClean } } :=
  { inv with tailIdle := fun free => by cases free }

theorem clearBit (inv : TxInv size kind rest q) {cidx : Nat} (level : q.tail.cleaned = q.tail.released.length)
    (whole : TxClean.Exact size q.head.accepted ⟨q.tail.start, cidx, q.tail.released.drop q.tail.first⟩) :
    TxInv size kind rest { q with
      cleaning := none
      tail := { q.tail with
        cleans := q.tail.cleans ++ [⟨q.tail.start, cidx, q.tail.released.drop q.tail.first⟩] } } :=
  { inv with
    tailIdle := fun _ => level
    cleans := by
      intro c mem
      rcases List.mem_append.mp mem with before | last
      · exact inv.cleans c before
      · rw [List.mem_singleton.mp last]
        exact whole }

end TxInv

end OpenNic
