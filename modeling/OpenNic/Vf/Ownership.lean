import OpenNic.Common.Ledger
import OpenNic.Vf.Invariant

namespace OpenNic

/-- The entries that the calls of the stack fill. -/
def vfSlots (priv : VfQueues) : List VfSlot :=
  (List.range priv.numTxQueues).map VfSlot.tx ++ (List.range priv.numRxQueues).map VfSlot.rx

theorem vfSlots_nodup (priv : VfQueues) : (vfSlots priv).Nodup := by
  rw [vfSlots, List.nodup_append]
  refine ⟨?_, ?_, ?_⟩
  · exact List.nodup_range.map fun _ _ same => VfSlot.tx.inj same
  · exact List.nodup_range.map fun _ _ same => VfSlot.rx.inj same
  · intro a first b second same
    rcases List.mem_map.mp first with ⟨_, -, rfl⟩
    rcases List.mem_map.mp second with ⟨_, -, rfl⟩
    cases same

@[simp] theorem tx_mem_vfSlots {priv : VfQueues} {qid : Nat} : VfSlot.tx qid ∈ vfSlots priv ↔ qid < priv.numTxQueues := by
  simp [vfSlots]

@[simp] theorem rx_mem_vfSlots {priv : VfQueues} {qid : Nat} : VfSlot.rx qid ∈ vfSlots priv ↔ qid < priv.numRxQueues := by
  simp [vfSlots]

theorem mem_vfSlots {priv : VfQueues} {slot : VfSlot} :
    slot ∈ vfSlots priv ↔ (∃ qid < priv.numTxQueues, slot = .tx qid) ∨ ∃ qid < priv.numRxQueues, slot = .rx qid := by
  simp [vfSlots, eq_comm]

namespace VfQueue

@[simp] theorem setConfigured_id (b : Bool) (q : VfQueue) : (q.setConfigured b).id = q.id := by cases q <;> rfl

@[simp] theorem setConfigured_mem (b : Bool) (q : VfQueue) : (q.setConfigured b).mem = q.mem := by cases q <;> rfl

@[simp] theorem setConfigured_rings (b : Bool) (q : VfQueue) : (q.setConfigured b).rings = q.rings := by cases q <;> rfl

@[simp] theorem setConfigured_napiEnabled (b : Bool) (q : VfQueue) : (q.setConfigured b).napiEnabled = q.napiEnabled := by
  cases q <;> rfl

@[simp] theorem setConfigured_configured (b : Bool) (q : VfQueue) : (q.setConfigured b).configured = b := by
  cases q <;> rfl

@[simp] theorem setNapiEnabled_id (b : Bool) (q : VfQueue) : (q.setNapiEnabled b).id = q.id := by cases q <;> rfl

@[simp] theorem setNapiEnabled_mem (b : Bool) (q : VfQueue) : (q.setNapiEnabled b).mem = q.mem := by cases q <;> rfl

@[simp] theorem setNapiEnabled_rings (b : Bool) (q : VfQueue) : (q.setNapiEnabled b).rings = q.rings := by cases q <;> rfl

@[simp] theorem setNapiEnabled_configured (b : Bool) (q : VfQueue) : (q.setNapiEnabled b).configured = q.configured := by
  cases q <;> rfl

theorem setNapiEnabled_false (q : VfQueue) : (q.setNapiEnabled false).napiEnabled = false := by cases q <;> rfl

theorem id_mem (q : VfQueue) : q.id ∈ q.mem := by simp [mem]

theorem rings_mem {q : VfQueue} {m : Nat} (ring : m ∈ q.rings) : m ∈ q.mem := by simp [mem, ring]

end VfQueue

namespace VfCtl

/-- What belongs to an entry; a queue that is being freed is in the hands of the code. -/
def own (c : VfCtl) (slot : VfSlot) : List Nat :=
  if c.point = .releasing slot ∨ c.point = .nulling slot then [] else c.mem slot

def ledger (c : VfCtl) (hand : List Nat) : Ledger VfSlot := ⟨c.next, c.freed, hand, c.own, c.leaked⟩

variable {c : VfCtl}

theorem own_elsewhere (elsewhere : c.point = .elsewhere) : c.own = c.mem := by
  funext slot
  simp [own, elsewhere]

theorem own_of_queue {slot : VfSlot} {id : Nat} (here : c.queue slot = some id) (one : c.point ≠ .releasing slot)
    (two : c.point ≠ .nulling slot) : c.own slot = (c.obj id).mem := by
  have away : ¬ (c.point = .releasing slot ∨ c.point = .nulling slot) := fun at_ => at_.elim one two
  rw [own, if_neg away]
  simp [mem, VfCtl.at_, here]

theorem mem_of_at {slot : VfSlot} {q : VfQueue} (here : c.at_ slot = some q) : c.mem slot = q.mem := by
  simp [mem, here]

/-- With all entries NULL and nothing in hand, what is not freed is lost. -/
theorem balanced_empty {slots : List VfSlot} (entries : ∀ slot, c.at_ slot = none) :
    (c.ledger []).Balanced slots ↔ (c.freed ++ c.leaked).Perm (List.range c.next) := by
  have none : slots.flatMap c.own = [] := List.flatMap_eq_nil_iff.mpr fun slot _ => by simp [own, mem, entries slot]
  rw [Ledger.Balanced, ledger, none]
  exact Iff.rfl

end VfCtl

/-- What besides interrupts may reach the queues. -/
structure VfOn where
  up : Bool
  rxPollWork : Bool
  txCleanWork : Bool
  napi : Bool

def VfOn.off : VfOn := ⟨false, false, false, false⟩

/-- What the call of the stack knows: which entries may be freed, what is in the entries, what may be
    on, and, where it is tight, what has been lost. -/
structure VfKnown where
  free : VfSlot → Prop
  facts : (VfSlot → Option VfQueue) → Prop
  on : VfOn
  running : Bool
  caller : VfCaller
  tight : Prop
  lost : List Nat

/-- Where it is: what it has in hand, how far it is with the freeing of a queue, which instance it is
    switching and which queue it is configuring. -/
structure VfView extends VfKnown where
  hand : List Nat
  point : VfPoint
  switching : Option Nat
  configuring : Option VfSlot

/-- It is with nothing. -/
def VfKnown.rest (k : VfKnown) : VfView where
  toVfKnown := k
  hand := []
  point := .elsewhere
  switching := none
  configuring := none

/-- What the call of the stack keeps up. -/
structure VfAt (slots : List VfSlot) (v : VfView) (s : VfNetdev) : Prop where
  balanced : (s.ledger v.hand).Balanced slots
  tight : v.tight → s.leaked = v.lost
  shape : ∀ slot id, s.queue slot = some id → slot ∈ slots ∧ (s.obj id).id = id
  bits : ∀ qid id, s.queue (.rx qid) = some id → (s.obj id).napiEnabled = true → s.napi id = true
  switched : ∀ id, v.switching = some id → s.napi id = true
  polls : ∀ id, s.napi id = true →
    ∃ qid, s.queue (.rx qid) = some id ∧ ((s.obj id).napiEnabled = true ∨ v.switching = some id)
  tied : s.NoLapse → ∀ slot, ∀ m ∈ s.ctxt slot,
    m ∈ s.leaked ∨ ∃ q, s.at_ slot = some q ∧ m ∈ q.rings ∧ (q.configured = true ∨ v.configuring = some slot)
  free : ∀ slot, v.free slot → s.NoLapse → ∀ m ∈ s.ctxt slot, m ∈ s.leaked
  released : ∀ slot, v.point = .releasing slot ∨ v.point = .nulling slot → v.free slot
  body : ∀ slot id, v.point = .releasing slot → s.queue slot = some id → id ∈ v.hand
  gone : ∀ slot, v.point = .nulling slot → ∃ id, s.queue slot = some id ∧ id ∈ s.freed
  point : s.point = v.point
  facts : v.facts s.at_
  up : s.up = true → v.on.up = true
  rxPollWork : s.rxPollWork = true → v.on.rxPollWork = true
  txCleanWork : s.txCleanWork = true → v.on.txCleanWork = true
  napi : ∀ id, s.napi id = true → v.on.napi = true
  still : v.point ≠ .elsewhere → v.on = .off
  running : s.running = v.running
  caller : s.caller = v.caller

namespace VfAt

variable {slots : List VfSlot} {v : VfView} {s s' : VfNetdev}

theorem quiet (at_ : VfAt slots v s) (off : v.on = .off) : s.Quiet := by
  have no {b c : Bool} (h : b = true → c = true) (none : c = false) : b = false := by
    rw [Bool.eq_false_iff]
    intro on
    rw [h on] at none
    cases none
  exact ⟨no at_.up (by rw [off]; rfl), no at_.txCleanWork (by rw [off]; rfl), no at_.rxPollWork (by rw [off]; rfl),
    fun id => no (at_.napi id) (by rw [off]; rfl)⟩

theorem own_of_queue (at_ : VfAt slots v s) {slot : VfSlot} {id : Nat} (here : s.queue slot = some id)
    (one : v.point ≠ .releasing slot) (two : v.point ≠ .nulling slot) : (s.ledger v.hand).own slot = (s.obj id).mem :=
  VfCtl.own_of_queue here (at_.point ▸ one) (at_.point ▸ two)

theorem leaked_not_freed (at_ : VfAt slots v s) {m : Nat} (lost : m ∈ s.leaked) : m ∉ s.freed := by
  intro freed
  have there : m ∈ v.hand ++ (slots.flatMap s.own ++ s.leaked) :=
    List.mem_append_right _ (List.mem_append_right _ lost)
  exact (List.nodup_append.mp at_.balanced.nodup).2.2 m freed m there rfl

/-- What the call keeps up is what everyone else relies on. -/
theorem safe (at_ : VfAt slots v s) (faults : s.faults = [] ↔ .interrupt ∉ s.lapses) : VfSafe s where
  ids slot id here := (at_.shape slot id here).2
  structs slot id here away := by
    by_cases releasing : v.point = .releasing slot
    · exact at_.balanced.hand_not_freed (at_.body slot id releasing here)
    · have own := at_.own_of_queue here releasing (at_.point ▸ away)
      have mem : id ∈ (s.obj id).mem := by
        have first := VfQueue.id_mem (s.obj id)
        rwa [(at_.shape slot id here).2] at first
      exact at_.balanced.own_not_freed (at_.shape slot id here).1 (own ▸ mem)
  live elsewhere slot m mem := by
    cases here : s.queue slot with
    | none => simp [VfCtl.mem, VfCtl.at_, here] at mem
    | some id =>
      have own : (s.ledger v.hand).own slot = s.mem slot := congrFun (VfCtl.own_elsewhere elsewhere) slot
      exact at_.balanced.own_not_freed (at_.shape slot id here).1 (own ▸ mem)
  nulled slot nulling := at_.gone slot (at_.point ▸ nulling)
  quiet away := at_.quiet (at_.still (at_.point ▸ away))
  bits := at_.bits
  polls id on := by
    rcases at_.polls id on with ⟨qid, here, -⟩
    exact ⟨qid, here⟩
  dma none slot m mem := by
    by_cases gone : v.point = .releasing slot ∨ v.point = .nulling slot
    · exact at_.leaked_not_freed (at_.free slot (at_.released slot gone) none m mem)
    · rcases at_.tied none slot m mem with lost | ⟨q, here, ring, -⟩
      · exact at_.leaked_not_freed lost
      · rcases VfNetdev.at_some here with ⟨id, queue, rfl⟩
        have own := at_.own_of_queue queue (fun at_ => gone (.inl at_)) fun at_ => gone (.inr at_)
        exact at_.balanced.own_not_freed (at_.shape slot id queue).1 (own ▸ VfQueue.rings_mem ring)
  faults := faults

theorem rely (at_ : VfAt slots v s) (rely : VfRely s s') : VfAt slots v s' := by
  have ctl := rely.ctl
  have same : s'.at_ = s.at_ := congrArg VfCtl.at_ ctl
  refine ⟨?_, ?_, ?_, ?_, ?_, ?_, fun none slot m mem => ?_, fun slot may none m mem => ?_, at_.released, ?_, ?_, ?_, ?_, ?_,
    fun on => at_.rxPollWork (rely.rxPollWork on), fun on => at_.txCleanWork (rely.txCleanWork on), ?_, at_.still, ?_, ?_⟩
  · rw [ctl]; exact at_.balanced
  · rw [ctl]; exact at_.tight
  · rw [ctl]; exact at_.shape
  · rw [ctl]; exact at_.bits
  · rw [ctl]; exact at_.switched
  · rw [ctl]; exact at_.polls
  · rw [ctl]
    exact at_.tied (none.earlier rely.lapses) slot m (rely.ctxt none slot mem)
  · rw [ctl]
    exact at_.free slot may (none.earlier rely.lapses) m (rely.ctxt none slot mem)
  · rw [ctl]; exact at_.body
  · rw [ctl]; exact at_.gone
  · rw [ctl]; exact at_.point
  · rw [ctl]; exact at_.facts
  · rw [ctl]; exact at_.up
  · rw [ctl]; exact at_.napi
  · rw [ctl]; exact at_.running
  · rw [ctl]; exact at_.caller

theorem live (at_ : VfAt slots v s) (elsewhere : v.point = .elsewhere) {slot : VfSlot} {id : Nat}
    (here : s.queue slot = some id) : ∀ m ∈ (s.obj id).mem, m ∉ s.freed := by
  intro m mem
  have own := at_.own_of_queue here (by simp [elsewhere]) (by simp [elsewhere])
  exact at_.balanced.own_not_freed (at_.shape slot id here).1 (own ▸ mem)

/-- No two entries point to one queue. -/
theorem apart (at_ : VfAt slots v s) (elsewhere : v.point = .elsewhere) {one two : VfSlot} {id : Nat}
    (first : s.queue one = some id) (second : s.queue two = some id) : one = two := by
  have mem : id ∈ (s.obj id).mem := by
    have first := VfQueue.id_mem (s.obj id)
    rwa [(at_.shape one id ‹_›).2] at first
  have left := at_.own_of_queue first (by simp [elsewhere]) (by simp [elsewhere])
  have right := at_.own_of_queue second (by simp [elsewhere]) (by simp [elsewhere])
  exact at_.balanced.own_apart (at_.shape one id first).1 (at_.shape two id second).1 (left ▸ mem) (right ▸ mem)

/-- The call knows less than before. -/
theorem weaken (at_ : VfAt slots v s) (elsewhere : v.point = .elsewhere) {w : VfView}
    (same : w = { v with free := w.free, facts := w.facts, tight := w.tight })
    (free : ∀ slot, w.free slot → s.NoLapse → ∀ m ∈ s.ctxt slot, m ∈ s.leaked) (facts : w.facts s.at_)
    (tight : w.tight → v.tight) : VfAt slots w s := by
  rw [same]
  exact { at_ with
    free := free
    facts := facts
    tight := fun now => at_.tight (tight now)
    released := fun slot gone => by simp [elsewhere] at gone }

/-- A thread that has an allocation. -/
theorem alloc (at_ : VfAt slots v s) :
    VfAt slots { v with hand := v.hand ++ [s.next] } { s with next := s.next + 1 } :=
  { at_ with
    balanced := at_.balanced.alloc
    body := fun slot id gone here => List.mem_append_left _ (at_.body slot id gone here) }

theorem hand_live (at_ : VfAt slots v s) {m : Nat} (mem : m ∈ v.hand) : s.touch [m] = s := by
  apply VfNetdev.touch_live
  intro id one
  rw [List.mem_singleton.mp one]
  exact at_.balanced.hand_not_freed mem

theorem freeHead (at_ : VfAt slots v s) {id : Nat} {rest : List Nat} (hand : v.hand = id :: rest)
    (body : ∀ slot m, v.point = .releasing slot → s.queue slot = some m → m ∈ rest) :
    VfAt slots { v with hand := rest } (s.free id) ∧ (s.free id).faults = s.faults := by
  have live : s.touch [id] = s := at_.hand_live (hand ▸ List.mem_cons_self)
  rw [VfNetdev.free, live]
  refine ⟨?_, rfl⟩
  exact { at_ with
    balanced := at_.balanced.free hand
    body := body
    gone := fun slot nulling => by
      rcases at_.gone slot nulling with ⟨m, here, freed⟩
      exact ⟨m, here, List.mem_append_left _ freed⟩ }

theorem tie (at_ : VfAt slots v s) (settled : v.configuring = none) (none : s.NoLapse) {slot : VfSlot}
    (free : ∀ q, s.at_ slot = some q → q.configured = false) : ∀ m ∈ s.ctxt slot, m ∈ s.leaked := by
  intro m mem
  rcases at_.tied none slot m mem with lost | ⟨q, here, -, held⟩
  · exact lost
  · simp [free q here, settled] at held

theorem at_publish (at_ : VfAt slots v s) (elsewhere : v.point = .elsewhere) (slot : VfSlot) {q : VfQueue}
    (mine : q.id ∈ v.hand) : (s.publish slot q).at_ = Function.update s.at_ slot (some q) := by
  funext other
  by_cases same : other = slot
  · subst same
    simp [VfCtl.at_, VfNetdev.publish]
  · rw [Function.update_of_ne same]
    simp only [VfCtl.at_, VfNetdev.publish, Function.update_of_ne same]
    cases here : s.queue other with
    | none => rfl
    | some id =>
      have differ : id ≠ q.id := by
        rintro rfl
        have own := at_.own_of_queue here (by simp [elsewhere]) (by simp [elsewhere])
        have mem := VfQueue.id_mem (s.obj q.id)
        rw [(at_.shape other _ here).2, ← own] at mem
        exact at_.balanced.own_not_hand (at_.shape other _ here).1 mem mine
      simp [Function.update_of_ne differ]

theorem publish (at_ : VfAt slots v s) (nodup : slots.Nodup) (elsewhere : v.point = .elsewhere) (off : v.on = .off)
    {slot : VfSlot} {q : VfQueue} {rest : List Nat} (here : slot ∈ slots) (parts : v.hand.Perm (q.mem ++ rest))
    (idle : q.napiEnabled = false) :
    VfAt slots
      { v with
        hand := rest
        facts := fun e => ∃ e', v.facts e' ∧ e = Function.update e' slot (some q)
        tight := v.tight ∧ ∀ e, v.facts e → e slot = none }
      (s.publish slot q) := by
  have mine : q.id ∈ v.hand := parts.mem_iff.mpr (List.mem_append_left _ q.id_mem)
  have entries := at_.at_publish elsewhere slot mine
  have point : s.point = .elsewhere := at_.point.trans elsewhere
  have owns : (s.publish slot q).own = Function.update s.own slot q.mem := by
    rw [VfCtl.own_elsewhere point]
    funext other
    have same : (s.publish slot q).own other = (s.publish slot q).mem other :=
      congrFun (VfCtl.own_elsewhere (c := (s.publish slot q).toVfCtl) point) other
    rw [same, VfCtl.mem, entries]
    by_cases eq : other = slot
    · subst eq
      simp
    · simp [Function.update_of_ne eq, VfCtl.mem]
  have mem : s.mem slot = (s.ledger v.hand).own slot := (congrFun (VfCtl.own_elsewhere point) slot).symm
  have noNapi (id : Nat) : s.napi id = false := (at_.quiet off).napi id
  have entry {other : VfSlot} {id : Nat} (there : (s.publish slot q).queue other = some id) :
      (s.publish slot q).at_ other = some ((s.publish slot q).obj id) := by simp [VfCtl.at_, there]
  have old {other : VfSlot} {id : Nat} (differ : other ≠ slot) (there : (s.publish slot q).queue other = some id) :
      s.queue other = some id ∧ (s.publish slot q).obj id = s.obj id := by
    have before : s.queue other = some id := by
      simpa [VfNetdev.publish, Function.update_of_ne differ] using there
    have after := entry there
    rw [entries, Function.update_of_ne differ] at after
    simp only [VfCtl.at_, before, Option.map_some, Option.some.injEq] at after
    exact ⟨before, after.symm⟩
  have new {id : Nat} (there : (s.publish slot q).queue slot = some id) :
      id = q.id ∧ (s.publish slot q).obj id = q := by
    have is : q.id = id := by simpa [VfNetdev.publish] using there
    exact ⟨is.symm, by simp [VfNetdev.publish, ← is]⟩
  exact { at_ with
    balanced := by
      have given := at_.balanced.give nodup here parts
      have same : (s.publish slot q).ledger rest =
          ⟨s.next, s.freed, rest, Function.update s.own slot q.mem, s.leaked ++ s.own slot⟩ := by
        rw [VfCtl.ledger, owns, VfCtl.own_elsewhere point]
        rfl
      rw [same]
      exact given
    tight := by
      rintro ⟨tight, empty⟩
      have unset := empty _ at_.facts
      simp [VfNetdev.publish, at_.tight tight, VfCtl.mem, unset]
    shape := by
      intro other id there
      by_cases eq : other = slot
      · subst eq
        rcases new there with ⟨rfl, obj⟩
        exact ⟨here, by rw [obj]⟩
      · rcases old eq there with ⟨before, obj⟩
        rw [obj]
        exact at_.shape other id before
    bits := by
      intro qid id there bit
      by_cases eq : VfSlot.rx qid = slot
      · subst eq
        rw [(new there).2, idle] at bit
        cases bit
      · rcases old eq there with ⟨before, obj⟩
        rw [obj] at bit
        exact at_.bits qid id before bit
    polls := by
      intro id on
      have off := noNapi id
      rw [show s.napi id = true from on] at off
      cases off
    tied := by
      intro none other m mem
      by_cases eq : other = slot
      · subst eq
        rcases at_.tied none other m mem with lost | ⟨q', there, ring, -⟩
        · exact .inl (List.mem_append_left _ lost)
        · refine .inl (List.mem_append_right _ ?_)
          rw [VfCtl.mem_of_at there]
          exact VfQueue.rings_mem ring
      · rcases at_.tied none other m mem with lost | ⟨q', there, held⟩
        · exact .inl (List.mem_append_left _ lost)
        · refine .inr ⟨q', ?_, held⟩
          rw [entries, Function.update_of_ne eq]
          exact there
    free := fun other may none m mem => List.mem_append_left _ (at_.free other may none m mem)
    body := fun other id releasing => by simp [elsewhere] at releasing
    gone := fun other nulling => by simp [elsewhere] at nulling
    facts := ⟨s.at_, at_.facts, entries⟩ }

theorem release (at_ : VfAt slots v s) (nodup : slots.Nodup) (elsewhere : v.point = .elsewhere) (off : v.on = .off)
    {slot : VfSlot} {q : VfQueue} (here : s.at_ slot = some q) (may : v.free slot) :
    VfAt slots { v with hand := q.mem ++ v.hand, point := .releasing slot } { s with point := .releasing slot } := by
  have point : s.point = .elsewhere := at_.point.trans elsewhere
  rcases VfNetdev.at_some here with ⟨id, queue, rfl⟩
  have owns : ({ s with point := .releasing slot } : VfNetdev).own = Function.update s.own slot [] := by
    funext other
    rw [VfCtl.own_elsewhere point]
    by_cases same : other = slot
    · subst same
      simp [VfCtl.own]
    · have away : VfPoint.releasing slot ≠ .releasing other := fun eq => same (VfPoint.releasing.inj eq).symm
      simp [VfCtl.own, away, Function.update_of_ne same, VfCtl.mem, VfCtl.at_]
  exact { at_ with
    balanced := by
      have taken := at_.balanced.take nodup (at_.shape slot id queue).1
      have mine : (s.ledger v.hand).own slot = (s.obj id).mem :=
        at_.own_of_queue queue (by simp [elsewhere]) (by simp [elsewhere])
      rw [mine] at taken
      rw [VfCtl.ledger, owns]
      exact taken
    body := by
      intro other m gone there
      cases gone
      have same : m = id := Option.some.inj (there.symm.trans queue)
      have first := VfQueue.id_mem (s.obj id)
      rw [(at_.shape slot id queue).2] at first
      rw [same]
      exact List.mem_append_left _ first
    gone := fun other nulling => by cases nulling
    released := by
      intro other gone
      rcases gone with gone | gone
      · cases gone
        exact may
      · cases gone
    point := rfl
    still := fun _ => off }

theorem kfree (at_ : VfAt slots v s) {slot : VfSlot} {id : Nat} {rest : List Nat} (releasing : v.point = .releasing slot)
    (hand : v.hand = id :: rest) (here : s.queue slot = some id) :
    VfAt slots { v with hand := rest, point := .nulling slot } { s.free id with point := .nulling slot } ∧
      (s.free id).faults = s.faults := by
  have live : s.touch [id] = s := at_.hand_live (hand ▸ List.mem_cons_self)
  have point : s.point = .releasing slot := at_.point.trans releasing
  rw [VfNetdev.free, live]
  refine ⟨?_, rfl⟩
  have owns : ({ s with freed := s.freed ++ [id], point := .nulling slot } : VfNetdev).own = s.own := by
    funext other
    simp [VfCtl.own, point, VfCtl.mem, VfCtl.at_]
  exact { at_ with
    balanced := by
      rw [VfCtl.ledger, owns]
      exact at_.balanced.free hand
    body := fun other m releasing => by cases releasing
    gone := by
      intro other nulling
      cases nulling
      exact ⟨id, here, List.mem_append_right _ (List.mem_singleton_self _)⟩
    released := by
      intro other gone
      rcases gone with gone | gone
      · cases gone
      · cases gone
        exact at_.released slot (.inl releasing)
    point := rfl
    still := fun _ => at_.still (by simp [releasing]) }

theorem unset (at_ : VfAt slots v s) {slot : VfSlot} (nulling : v.point = .nulling slot) :
    VfAt slots
      { v with
        point := .elsewhere
        facts := fun e => ∃ e', v.facts e' ∧ e = Function.update e' slot none }
      { s with queue := Function.update s.queue slot none, point := .elsewhere } := by
  have point : s.point = .nulling slot := at_.point.trans nulling
  have off := at_.still (by simp [nulling])
  have entries : ({ s with queue := Function.update s.queue slot none, point := .elsewhere } : VfNetdev).at_ =
      Function.update s.at_ slot none := by
    funext other
    by_cases same : other = slot
    · subst same
      simp [VfCtl.at_]
    · simp [VfCtl.at_, Function.update_of_ne same]
  have owns : ({ s with queue := Function.update s.queue slot none, point := .elsewhere } : VfNetdev).own = s.own := by
    funext other
    by_cases same : other = slot
    · subst same
      simp [VfCtl.own, point, VfCtl.mem, VfCtl.at_]
    · have away : ¬ slot = other := fun eq => same eq.symm
      simp [VfCtl.own, point, VfCtl.mem, VfCtl.at_, Function.update_of_ne same, away]
  have old {other : VfSlot} {id : Nat} (there : (Function.update s.queue slot none) other = some id) :
      s.queue other = some id := by
    by_cases same : other = slot
    · subst same
      simp at there
    · rwa [Function.update_of_ne same] at there
  exact { at_ with
    balanced := by
      rw [VfCtl.ledger, owns]
      exact at_.balanced
    shape := fun other id there => at_.shape other id (old there)
    bits := fun qid id there => at_.bits qid id (old there)
    polls := by
      intro id on
      have none := (at_.quiet off).napi id
      rw [show s.napi id = true from on] at none
      cases none
    tied := by
      intro none other m mem
      by_cases same : other = slot
      · subst same
        exact .inl (at_.free other (at_.released other (.inr nulling)) none m mem)
      · rcases at_.tied none other m mem with lost | ⟨q, there, held⟩
        · exact .inl lost
        · refine .inr ⟨q, ?_, held⟩
          rw [entries, Function.update_of_ne same]
          exact there
    released := fun other gone => by simp at gone
    body := fun other id releasing => by simp at releasing
    gone := fun other nulling => by simp at nulling
    point := rfl
    facts := ⟨s.at_, at_.facts, entries⟩
    still := fun away => absurd rfl away }

/-- What the PF executes, where a queue is not configured. -/
theorem cleared (at_ : VfAt slots v s) (slot : VfSlot) (late : List VfCmd) :
    VfAt slots { v with free := fun other => v.free other ∨ other = slot }
      { s with ctxt := Function.update s.ctxt slot [], late := late } := by
  have sub (other : VfSlot) : Function.update s.ctxt slot [] other ⊆ s.ctxt other := by
    intro m mem
    by_cases same : other = slot
    · subst same
      simp at mem
    · rwa [Function.update_of_ne same] at mem
  exact { at_ with
    tied := fun none other m mem => at_.tied none other m (sub other mem)
    free := by
      intro other may none m mem
      rcases may with may | same
      · exact at_.free other may none m (sub other mem)
      · simp [same] at mem
    released := fun other gone => .inl (at_.released other gone) }

/-- After a lapse the contexts do not matter. -/
theorem lapsed (at_ : VfAt slots v s) (elsewhere : v.point = .elsewhere) {ctxt : VfSlot → List Nat} {lapses : List VfLapse}
    {late : List VfCmd} {w : VfView} (same : w = { v with free := w.free, configuring := w.configuring })
    (lapsed : ¬ ({ s with ctxt := ctxt, late := late, lapses := lapses } : VfNetdev).NoLapse) :
    VfAt slots w { s with ctxt := ctxt, late := late, lapses := lapses } := by
  rw [same]
  exact { at_ with
    tied := fun none => absurd none lapsed
    free := fun _ _ none => absurd none lapsed
    released := fun slot gone => by simp [elsewhere] at gone }

theorem delayed (at_ : VfAt slots v s) (late : List VfCmd) : VfAt slots v { s with late := late } :=
  { at_ with }

theorem configured (at_ : VfAt slots v s) (elsewhere : v.point = .elsewhere) (settled : v.configuring = none) {slot : VfSlot} {q : VfQueue}
    (here : s.at_ slot = some q) :
    VfAt slots { v with free := fun _ => False, configuring := some slot }
      { s with ctxt := Function.update s.ctxt slot q.rings } :=
  { at_ with
    tied := by
      intro none other m mem
      by_cases same : other = slot
      · subst same
        simp only [Function.update_self] at mem
        exact .inr ⟨q, here, mem, .inr rfl⟩
      · simp only [Function.update_of_ne same] at mem
        rcases at_.tied none other m mem with lost | ⟨q', there, ring, held⟩
        · exact .inl lost
        · simp only [settled, reduceCtorEq, or_false] at held
          exact .inr ⟨q', there, ring, .inl held⟩
    free := fun _ may => may.elim
    released := fun other gone => by simp [elsewhere] at gone }

theorem touch_entry (at_ : VfAt slots v s) (elsewhere : v.point = .elsewhere) {slot : VfSlot} {id : Nat}
    (here : s.queue slot = some id) : s.touch [id] = s := by
  apply VfNetdev.touch_live
  intro m one
  rw [List.mem_singleton.mp one]
  have first := VfQueue.id_mem (s.obj id)
  rw [(at_.shape slot id here).2] at first
  exact at_.live elsewhere here id first

theorem at_setObj (at_ : VfAt slots v s) (elsewhere : v.point = .elsewhere) {slot : VfSlot} {id : Nat} {f : VfQueue → VfQueue}
    (here : s.queue slot = some id) :
    (s.setObj id f).at_ = Function.update s.at_ slot (some (f (s.obj id))) := by
  funext other
  by_cases same : other = slot
  · subst same
    simp [VfCtl.at_, VfNetdev.setObj, VfNetdev.touch, here]
  · rw [Function.update_of_ne same]
    simp only [VfCtl.at_, VfNetdev.setObj, VfNetdev.touch]
    cases there : s.queue other with
    | none => rfl
    | some other_id =>
      have differ : other_id ≠ id := fun eq => same (at_.apart elsewhere (eq ▸ there) here)
      simp [Function.update_of_ne differ]

/-- A write of a bit of a queue. -/
theorem setObj (at_ : VfAt slots v s) (elsewhere : v.point = .elsewhere) {slot : VfSlot} {id : Nat} {f : VfQueue → VfQueue}
    (here : s.queue slot = some id) (same_id : (f (s.obj id)).id = (s.obj id).id) (same_mem : (f (s.obj id)).mem = (s.obj id).mem)
    (same_rings : (f (s.obj id)).rings = (s.obj id).rings) {switching : Option Nat} {configuring : Option VfSlot}
    (bit : ∀ qid, slot = .rx qid → (f (s.obj id)).napiEnabled = true → s.napi id = true)
    (switched : ∀ other, switching = some other → s.napi other = true)
    (polls : ∀ other, s.napi other = true → ∃ qid, s.queue (.rx qid) = some other ∧
      (((if other = id then f (s.obj id) else s.obj other)).napiEnabled = true ∨ switching = some other))
    (tied : s.NoLapse → ∀ other, ∀ m ∈ s.ctxt other, m ∈ s.leaked ∨
      ∃ q, Function.update s.at_ slot (some (f (s.obj id))) other = some q ∧ m ∈ q.rings ∧
        (q.configured = true ∨ configuring = some other)) :
    VfAt slots
      { v with
        switching := switching
        configuring := configuring
        facts := fun e => ∃ e' q, v.facts e' ∧ e' slot = some q ∧ e = Function.update e' slot (some (f q)) }
      (s.setObj id f) ∧ (s.setObj id f).faults = s.faults := by
  have entries := at_.at_setObj elsewhere (f := f) here
  have point : s.point = .elsewhere := at_.point.trans elsewhere
  have found : s.at_ slot = some (s.obj id) := by simp [VfCtl.at_, here]
  have live := at_.touch_entry elsewhere here
  have objs (other : Nat) : (s.setObj id f).obj other = if other = id then f (s.obj id) else s.obj other := by
    by_cases same : other = id
    · subst same
      simp [VfNetdev.setObj, VfNetdev.touch]
    · simp [VfNetdev.setObj, VfNetdev.touch, same]
  have owns : (s.setObj id f).own = s.own := by
    have still : (s.setObj id f).point = .elsewhere := point
    rw [VfCtl.own_elsewhere point, VfCtl.own_elsewhere still]
    funext other
    rw [VfCtl.mem, VfCtl.mem, entries]
    by_cases same : other = slot
    · subst same
      simp [found, same_mem]
    · rw [Function.update_of_ne same]
  have faults : (s.setObj id f).faults = s.faults := by rw [VfNetdev.setObj, live]
  refine ⟨?_, faults⟩
  exact { at_ with
    balanced := by
      rw [VfCtl.ledger, owns]
      exact at_.balanced
    shape := by
      intro other m there
      rw [objs]
      split
      · rename_i same
        subst same
        rw [same_id]
        exact at_.shape other m there
      · exact at_.shape other m there
    bits := by
      intro qid m there on
      rw [objs] at on
      split at on
      · rename_i same
        subst same
        exact bit qid (at_.apart elsewhere here there) on
      · exact at_.bits qid m there on
    switched := switched
    polls := by
      intro other on
      rcases polls other on with ⟨qid, there, held⟩
      rw [← objs] at held
      exact ⟨qid, there, held⟩
    tied := by
      intro none other m mem
      rw [entries]
      exact tied none other m mem
    facts := ⟨s.at_, s.obj id, at_.facts, found, entries⟩ }

theorem setConfigured (at_ : VfAt slots v s) (elsewhere : v.point = .elsewhere) (settled : v.switching = none) {slot : VfSlot}
    {id : Nat} {b : Bool} (here : s.queue slot = some id)
    (mid : if b then v.configuring = some slot else v.free slot ∧ v.configuring = none) :
    VfAt slots
      { v with
        switching := none
        configuring := none
        facts := fun e => ∃ e' q, v.facts e' ∧ e' slot = some q ∧ e = Function.update e' slot (some (q.setConfigured b)) }
      (s.setObj id (VfQueue.setConfigured b)) ∧ (s.setObj id (VfQueue.setConfigured b)).faults = s.faults := by
  have found : s.at_ slot = some (s.obj id) := by simp [VfCtl.at_, here]
  refine at_.setObj elsewhere here (VfQueue.setConfigured_id b _) (VfQueue.setConfigured_mem b _)
    (VfQueue.setConfigured_rings b _) ?_ (fun other none => by cases none) ?_ ?_
  · intro qid same on
    rw [VfQueue.setConfigured_napiEnabled] at on
    exact at_.bits qid id (same ▸ here) on
  · intro other on
    rcases at_.polls other on with ⟨qid, there, held⟩
    refine ⟨qid, there, ?_⟩
    rw [settled] at held
    split
    · rename_i same
      rw [VfQueue.setConfigured_napiEnabled, ← same]
      exact held
    · exact held
  · intro none other m mem
    have tied := at_.tied none other m mem
    by_cases same : other = slot
    · subst same
      cases b with
      | true =>
        rcases tied with lost | ⟨q, there, ring, -⟩
        · exact .inl lost
        · cases found.symm.trans there
          refine .inr ⟨_, Function.update_self .., ?_, .inl ?_⟩
          · rw [VfQueue.setConfigured_rings]
            exact ring
          · exact VfQueue.setConfigured_configured ..
      | false => exact .inl (at_.free other mid.1 none m mem)
    · rcases tied with lost | ⟨q, there, ring, held⟩
      · exact .inl lost
      · refine .inr ⟨q, by rw [Function.update_of_ne same, there], ring, .inl ?_⟩
        rcases held with held | held
        · exact held
        · cases b with
          | true =>
            rw [show v.configuring = some slot from mid] at held
            exact absurd (Option.some.inj held).symm same
          | false =>
            rw [mid.2] at held
            cases held

/-- The bit of the instance that is switched. -/
theorem setNapiEnabled (at_ : VfAt slots v s) (elsewhere : v.point = .elsewhere) (settled : v.configuring = none) {qid id : Nat}
    {b : Bool} (here : s.queue (.rx qid) = some id)
    (mid : v.switching = if b then some id else none) (was : (s.obj id).napiEnabled = !b)
    (is : ((s.obj id).setNapiEnabled b).napiEnabled = b) :
    VfAt slots
      { v with
        switching := if b then none else some id
        configuring := none
        facts := fun e => ∃ e' q, v.facts e' ∧ e' (.rx qid) = some q ∧
          e = Function.update e' (.rx qid) (some (q.setNapiEnabled b)) }
      (s.setObj id (VfQueue.setNapiEnabled b)) ∧ (s.setObj id (VfQueue.setNapiEnabled b)).faults = s.faults := by
  have found : s.at_ (.rx qid) = some (s.obj id) := by simp [VfCtl.at_, here]
  have on : s.napi id = true := by
    cases b with
    | true => exact at_.switched id mid
    | false => exact at_.bits qid id here was
  refine at_.setObj elsewhere here (VfQueue.setNapiEnabled_id b _) (VfQueue.setNapiEnabled_mem b _)
    (VfQueue.setNapiEnabled_rings b _) (fun _ _ _ => on) ?_ ?_ ?_
  · intro other switched
    cases b with
    | true => cases switched
    | false => cases switched; exact on
  · intro other enabled
    rcases at_.polls other enabled with ⟨other_qid, there, held⟩
    refine ⟨other_qid, there, ?_⟩
    by_cases same : other = id
    · subst same
      cases b with
      | true =>
        rw [if_pos rfl]
        exact .inl is
      | false => exact .inr rfl
    · rw [if_neg same]
      rcases held with held | held
      · exact .inl held
      · cases b with
        | true => exact absurd (Option.some.inj (mid.symm.trans held)).symm same
        | false => cases mid.symm.trans held
  · intro none other m mem
    rcases at_.tied none other m mem with lost | ⟨q, there, ring, held⟩
    · exact .inl lost
    · by_cases same : other = .rx qid
      · subst same
        cases found.symm.trans there
        refine .inr ⟨_, Function.update_self .., ?_, ?_⟩
        · rw [VfQueue.setNapiEnabled_rings]
          exact ring
        · rw [VfQueue.setNapiEnabled_configured, ← settled]
          exact held
      · refine .inr ⟨q, by rw [Function.update_of_ne same, there], ring, ?_⟩
        rw [← settled]
        exact held

/-- An instance whose bit is not set is not enabled. -/
theorem napi_off (at_ : VfAt slots v s) (settled : v.switching = none) {id : Nat} (off : (s.obj id).napiEnabled = false) :
    s.napi id = false := by
  rw [Bool.eq_false_iff]
  intro on
  rcases at_.polls id on with ⟨qid, there, held⟩
  simp [off, settled] at held

theorem napiEnable (at_ : VfAt slots v s) (elsewhere : v.point = .elsewhere) (settled : v.switching = none) {qid id : Nat}
    (here : s.queue (.rx qid) = some id) (off : (s.obj id).napiEnabled = false) :
    VfAt slots { v with switching := some id, on := { v.on with napi := true } } (s.napiEnable id) ∧
      (s.napiEnable id).faults = s.faults := by
  have live := at_.touch_entry elsewhere here
  have disabled := at_.napi_off settled off
  have faults : (s.napiEnable id).faults = s.faults := by simp [VfNetdev.napiEnable, live, disabled]
  refine ⟨?_, faults⟩
  have napi (other : Nat) : (s.napiEnable id).napi other = if other = id then true else s.napi other := by
    simp [VfNetdev.napiEnable, Function.update_apply]
  exact { at_ with
    bits := by
      intro other_qid m there on
      rw [napi]
      split
      · rfl
      · exact at_.bits other_qid m there on
    switched := by
      intro m same
      cases same
      rw [napi, if_pos rfl]
    polls := by
      intro m on
      rw [napi] at on
      split at on
      · rename_i same
        subst same
        exact ⟨qid, here, .inr rfl⟩
      · rcases at_.polls m on with ⟨other_qid, there, held⟩
        simp only [settled, reduceCtorEq, or_false] at held
        exact ⟨other_qid, there, .inl held⟩
    napi := fun _ _ => rfl
    still := fun away => absurd elsewhere away }

theorem napiDisable (at_ : VfAt slots v s) (elsewhere : v.point = .elsewhere) {qid id : Nat}
    (settled : v.switching = some id) (here : s.queue (.rx qid) = some id) (off : (s.obj id).napiEnabled = false) :
    VfAt slots { v with switching := none } (s.napiDisable id) ∧ (s.napiDisable id).faults = s.faults := by
  have live := at_.touch_entry elsewhere here
  have enabled := at_.switched id settled
  have faults : (s.napiDisable id).faults = s.faults := by simp [VfNetdev.napiDisable, live, enabled]
  refine ⟨?_, faults⟩
  have napi (other : Nat) : (s.napiDisable id).napi other = if other = id then false else s.napi other := by
    simp [VfNetdev.napiDisable, Function.update_apply]
  exact { at_ with
    bits := by
      intro other_qid m there on
      rw [napi, if_neg]
      · exact at_.bits other_qid m there on
      · rintro rfl
        rw [show (s.obj m).napiEnabled = true from on] at off
        cases off
    switched := nofun
    polls := by
      intro m on
      rw [napi] at on
      split at on
      · cases on
      · rename_i other
        rcases at_.polls m on with ⟨other_qid, there, held⟩
        refine ⟨other_qid, there, .inl ?_⟩
        rw [settled] at held
        exact held.resolve_right fun same => other (Option.some.inj same).symm
    napi := by
      intro m on
      rw [napi] at on
      split at on
      · cases on
      · exact at_.napi m on }

/-- Open frees the rings after this only. -/
theorem checked (at_ : VfAt slots v s) (elsewhere : v.point = .elsewhere) (settled : v.configuring = none)
    (small : ∀ slot ∈ slots, ∃ qid < onicMaxQueues, slot = .tx qid ∨ slot = .rx qid) :
    VfAt slots { v with free := fun _ => True } (if s.Retains then s.lapse .retained else s) := by
  split
  · refine { at_ with
      tied := fun none => absurd (List.mem_append_right _ (List.mem_singleton_self _)) none.2.2
      free := fun _ _ none => absurd (List.mem_append_right _ (List.mem_singleton_self _)) none.2.2
      released := fun slot gone => by simp [elsewhere] at gone }
  · rename_i kept
    refine { at_ with
      free := fun slot _ none m mem => ?_
      released := fun slot gone => by simp [elsewhere] at gone }
    rcases at_.tied none slot m mem with lost | ⟨q, here, ring, held⟩
    · exact lost
    · exfalso
      rw [settled] at held
      have bit := held.resolve_right nofun
      rcases VfNetdev.at_some here with ⟨id, queue, rfl⟩
      rcases small slot (at_.shape slot id queue).1 with ⟨qid, few, same⟩
      have both : s.Held slot := ⟨by simp [here, bit], List.ne_nil_of_mem mem⟩
      refine kept ⟨qid, few, ?_⟩
      rcases same with rfl | rfl
      · exact .inl both
      · exact .inr both

theorem setRing (at_ : VfAt slots v s) (id : Nat) (q : RxQueue) : VfAt slots v (s.setRing id q) := { at_ with }

/-- What may be on changes with what is. -/
theorem switch (at_ : VfAt slots v s) (elsewhere : v.point = .elsewhere) {txCleanWork rxPollWork : Bool} (on : VfOn)
    (up : v.on.up = true → on.up = true) (napi : v.on.napi = true → on.napi = true)
    (rx : rxPollWork = true → on.rxPollWork = true) (tx : txCleanWork = true → on.txCleanWork = true) :
    VfAt slots { v with on := on } { s with txCleanWork := txCleanWork, rxPollWork := rxPollWork } :=
  { at_ with
    up := fun now => up (at_.up now)
    napi := fun id now => napi (at_.napi id now)
    rxPollWork := rx
    txCleanWork := tx
    still := fun away => absurd elsewhere away }

/-- No instance is enabled once no bit is set. -/
theorem all_off (at_ : VfAt slots v s) (settled : v.switching = none)
    (off : ∀ qid, VfSlot.rx qid ∈ slots → ∀ q, s.at_ (.rx qid) = some q → q.napiEnabled = false) (on : VfOn)
    (same : on = { v.on with napi := false }) : VfAt slots { v with on := on } s := by
  subst same
  refine { at_ with
    napi := fun id enabled => ?_
    still := fun away => by rw [at_.still away]; rfl }
  rcases at_.polls id enabled with ⟨qid, here, held⟩
  have bit := off qid (at_.shape _ id here).1 (s.obj id) (by simp [VfCtl.at_, here])
  simp [bit, settled] at held

end VfAt

end OpenNic
