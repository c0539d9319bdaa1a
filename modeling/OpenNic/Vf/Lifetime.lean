import OpenNic.Vf.Ownership

namespace OpenNic

/-- What the calls of the stack and everything else owe one another. -/
def vfContract : Contract VfNetdev where
  ok := fun _ => True
  inv := VfSafe
  rely := VfRely
  guarantee := fun _ _ => True
  rely_refl := VfRely.refl
  rely_trans := VfRely.trans
  guarantee_refl := fun _ => True.intro

variable {slots : List VfSlot} {k : VfKnown} {v : VfView}

theorem VfAt.stable (slots : List VfSlot) (v : VfView) : vfContract.Stable (VfAt slots v) :=
  fun _ _ at_ rely _ _ => at_.rely rely

/-- An access that causes no fault. -/
theorem VfAt.access {α : Type} {act : VfInput → VfNetdev → Option (α × VfNetdev)} {w : α → VfView}
    (h : ∀ i s a s', VfAt slots v s → act i s = some (a, s') →
      VfAt slots (w a) s' ∧ s'.faults = s.faults ∧ (.interrupt ∈ s'.lapses ↔ .interrupt ∈ s.lapses)) :
    vfContract.Triple (VfAt slots v) (.access act) fun a => VfAt slots (w a) := by
  apply Contract.Triple.access (VfAt.stable slots v) fun a => VfAt.stable slots (w a)
  intro s i a s' _ safe at_ taken _
  have after := h i s a s' at_ taken
  have safe : VfSafe s := safe
  refine ⟨after.1.safe ?_, True.intro, after.1⟩
  rw [after.2.1, after.2.2]
  exact safe.faults

theorem VfAt.modify {f : VfNetdev → VfNetdev} {w : VfView}
    (h : ∀ s, VfAt slots v s → VfAt slots w (f s) ∧ (f s).faults = s.faults ∧ (.interrupt ∈ (f s).lapses ↔ .interrupt ∈ s.lapses)) :
    vfContract.Triple (VfAt slots v) (.modify f : Program VfNetdev VfInput Unit) fun _ => VfAt slots w := by
  apply VfAt.access (w := fun _ => w)
  intro i s u s' at_ taken
  obtain rfl : f s = s' := by simpa using taken
  exact h s at_

theorem VfAt.finish {α : Type} {a : α} {w : α → VfView} (h : ∀ s, VfAt slots v s → VfAt slots (w a) s) :
    vfContract.Triple (VfAt slots v) (.done a : Program VfNetdev VfInput α) fun a => VfAt slots (w a) :=
  Contract.Triple.done (VfAt.stable slots v) fun s _ at_ => h s at_

namespace VfNetdev

theorem kalloc_triple : vfContract.Triple (VfAt slots v) kalloc
    fun id => VfAt slots { v with hand := v.hand ++ id.toList } := by
  apply VfAt.access
  intro i s id s' at_ taken
  split at taken
  · cases taken
    exact ⟨at_.alloc, rfl, Iff.rfl⟩
  · cases taken
    refine ⟨?_, rfl, Iff.rfl⟩
    simpa using at_

theorem dmaAllocCoherent_triple : vfContract.Triple (VfAt slots v) dmaAllocCoherent
    fun mem => VfAt slots { v with hand := v.hand ++ (mem.map DmaMem.id).toList } := by
  apply VfAt.access
  intro i s mem s' at_ taken
  split at taken
  · cases taken
    exact ⟨at_.alloc, rfl, Iff.rfl⟩
  · cases taken
    refine ⟨?_, rfl, Iff.rfl⟩
    simpa using at_

theorem onicVfCreateRxPagePool_triple : vfContract.Triple (VfAt slots v) onicVfCreateRxPagePool
    fun r => VfAt slots { v with hand := v.hand ++ r.toOption.toList } := by
  apply VfAt.access
  intro i s r s' at_ taken
  split at taken
  · cases taken
    exact ⟨at_.alloc, rfl, Iff.rfl⟩
  · cases taken
    refine ⟨?_, rfl, Iff.rfl⟩
    simpa [Except.toOption] using at_

theorem freeAll_triple {ids rest : List Nat}
    (body : ∀ slot e q, v.point = .releasing slot → v.facts e → e slot = some q → q.id ∈ rest) :
    vfContract.Triple (VfAt slots { v with hand := ids ++ rest }) (freeAll ids)
      fun _ => VfAt slots { v with hand := rest } := by
  induction ids with
  | nil => exact VfAt.finish fun s at_ => at_
  | cons id ids ih =>
    apply Contract.Triple.bind (M := fun _ => VfAt slots { v with hand := ids ++ rest })
    · apply VfAt.modify
      intro s at_
      have freed := at_.freeHead rfl fun slot m gone here => by
        have found : s.at_ slot = some (s.obj m) := by simp [VfCtl.at_, here]
        have mem := body slot s.at_ (s.obj m) gone at_.facts found
        rw [(at_.shape slot m here).2] at mem
        exact List.mem_append_right _ mem
      exact ⟨freed.1, freed.2, Iff.rfl⟩
    · exact fun _ => ih

/-- What is in hand may be listed in any order. -/
theorem hand_perm_triple {α : Type} {ids ids' : List Nat} {p : Program VfNetdev VfInput α} {post : α → VfNetdev → Prop}
    (same : ids'.Perm ids) (h : vfContract.Triple (VfAt slots { v with hand := ids' }) p post) :
    vfContract.Triple (VfAt slots { v with hand := ids }) p post := by
  apply Contract.Triple.from_pre _ _ h
  intro s _ at_
  exact { at_ with
    balanced := at_.balanced.hand_perm same
    body := fun slot id gone here => same.mem_iff.mpr (at_.body slot id gone here) }

theorem readQueue_triple {slot : VfSlot} (elsewhere : v.point = .elsewhere) :
    vfContract.Triple (VfAt slots v) (readQueue slot)
      fun q => VfAt slots { v with facts := fun e => v.facts e ∧ e slot = q } := by
  apply VfAt.access
  intro i s q s' at_ taken
  cases taken
  have live : s.touch (s.queue slot).toList = s := by
    cases here : s.queue slot with
    | none => exact touch_live nofun
    | some id => exact at_.touch_entry elsewhere here
  rw [live]
  exact ⟨{ at_ with facts := ⟨at_.facts, rfl⟩ }, rfl, Iff.rfl⟩


theorem onRing_triple {α : Type} (id : Nat) (p : Program RxQueue RxInput α) :
    vfContract.Triple (VfAt slots v) (onRing id p) fun _ => VfAt slots v := by
  apply Contract.Triple.lift_steps (Program.Steps.trivial _) (VfAt.stable slots v)
  intro q s _ safe at_ _ _
  have after := at_.setRing id q
  have safe : VfSafe s := safe
  exact ⟨after.safe safe.faults, True.intro, after⟩

theorem setRing_triple (f : VfNetdev → RxQueue) (id : Nat) :
    vfContract.Triple (VfAt slots v) (.modify (fun s => s.setRing id (f s)) : Program VfNetdev VfInput Unit) fun _ => VfAt slots v :=
  VfAt.modify fun s at_ => ⟨at_.setRing id (f s), rfl, Iff.rfl⟩

theorem onicVfFreeRxPages_triple {id : Nat} {buffers : List Nat} (mine : buffers ⊆ v.hand) :
    vfContract.Triple (VfAt slots v) (onicVfFreeRxPages id buffers) fun _ => VfAt slots v := by
  apply VfAt.modify
  intro s at_
  have live : s.touch buffers = s := touch_live fun m mem => at_.balanced.hand_not_freed (mine mem)
  rw [live]
  exact ⟨at_.setRing id _, rfl, Iff.rfl⟩

end VfNetdev

/-- What the alloc functions publish. -/
inductive VfFresh (priv : VfQueues) : VfSlot → VfQueue → Prop
  | tx (qid id buffer : Nat) (mem : DmaMem) : VfFresh priv (.tx qid) (.tx (onicVfTxQueueOf priv qid id buffer mem))
  | rx (qid id buffer pagePool : Nat) (pages : List Nat) (desc cmpl : DmaMem) :
    VfFresh priv (.rx qid) (.rx (onicVfRxQueueOf priv qid id buffer pagePool pages desc cmpl))

theorem VfFresh.idle {priv : VfQueues} {slot : VfSlot} {q : VfQueue} (fresh : VfFresh priv slot q) :
    q.napiEnabled = false := by
  cases fresh <;> rfl

/-- After an entry may have been filled. -/
def VfKnown.filled (priv : VfQueues) (slot : VfSlot) (k : VfKnown) : VfKnown :=
  { k with
    facts := fun e => ∃ e', k.facts e' ∧ (e = e' ∨ ∃ q, VfFresh priv slot q ∧ e = Function.update e' slot (some q))
    tight := k.tight ∧ ∀ e, k.facts e → e slot = none }

/-- What is known depends on the error. -/
def VfKnown.after (err : Int) (ok failed : VfKnown) : VfKnown := if err = 0 then ok else failed

theorem VfKnown.after_zero (ok failed : VfKnown) : VfKnown.after 0 ok failed = ok := if_pos rfl

theorem VfKnown.after_err {err : Int} (ne : err ≠ 0) (ok failed : VfKnown) : VfKnown.after err ok failed = failed :=
  if_neg ne

theorem VfAt.unfilled {priv : VfQueues} {slot : VfSlot} {err : Int} {s : VfNetdev} (at_ : VfAt slots k.rest s) :
    VfAt slots (VfKnown.after err (k.filled priv slot) k).rest s := by
  rw [VfKnown.after]
  split
  · exact { at_ with
      facts := ⟨s.at_, at_.facts, .inl rfl⟩
      tight := fun tight => at_.tight tight.1 }
  · exact at_

namespace VfNetdev

theorem unwind_triple {priv : VfQueues} {slot : VfSlot} {ids hand : List Nat} (same : ids.Perm hand) (err : Int) :
    vfContract.Triple (VfAt slots { k.rest with hand := hand }) (freeAll ids >>= fun _ => .done err)
      fun err => VfAt slots (VfKnown.after err (k.filled priv slot) k).rest := by
  apply hand_perm_triple (by simpa using same : (ids ++ []).Perm hand)
  apply Contract.Triple.bind
  · exact freeAll_triple fun slot e q gone => by cases gone
  · exact fun _ => VfAt.finish fun s at_ => at_.unfilled

theorem publish_triple {priv : VfQueues} {slot : VfSlot} {hand : List Nat} {f : VfNetdev → VfQueue} (nodup : slots.Nodup)
    (here : slot ∈ slots) (off : k.on = .off) (fresh : ∀ s, VfFresh priv slot (f s)) (parts : ∀ s, hand.Perm (f s).mem) :
    vfContract.Triple (VfAt slots { k.rest with hand := hand })
      (do Program.modify fun s => s.publish slot (f s); .done 0 : Program VfNetdev VfInput Int)
      fun err => VfAt slots (VfKnown.after err (k.filled priv slot) k).rest := by
  apply Contract.Triple.bind (M := fun _ => VfAt slots (k.filled priv slot).rest)
  · apply VfAt.modify
    intro s at_
    have all : hand.Perm ((f s).mem ++ []) := by simpa using parts s
    have published := at_.publish nodup rfl off here all (fresh s).idle
    refine ⟨?_, rfl, Iff.rfl⟩
    refine { published with facts := ?_ }
    obtain ⟨e, facts, same⟩ := published.facts
    exact ⟨e, facts, .inr ⟨f s, fresh s, same⟩⟩
  · exact fun _ => VfAt.finish fun s at_ => at_

theorem onicVfAllocTxRing_triple {priv : VfQueues} {qid : Nat} (nodup : slots.Nodup) (here : .tx qid ∈ slots)
    (off : k.on = .off) :
    vfContract.Triple (VfAt slots k.rest) (onicVfAllocTxRing priv qid)
      fun err => VfAt slots (VfKnown.after err (k.filled priv (.tx qid)) k).rest := by
  apply Contract.Triple.bind kalloc_triple
  intro id
  cases id with
  | none => exact VfAt.finish fun s at_ => at_.unfilled
  | some id =>
    apply Contract.Triple.bind dmaAllocCoherent_triple
    intro mem
    cases mem with
    | none => exact unwind_triple (List.Perm.refl _) _
    | some mem =>
      apply Contract.Triple.bind kalloc_triple
      intro buffer
      cases buffer with
      | none => exact unwind_triple (List.Perm.swap ..) _
      | some buffer =>
        apply publish_triple nodup here off fun _ => .tx qid id buffer mem
        intro s
        have parts : ([id] ++ [mem.id, buffer]).Perm ([mem.id, buffer] ++ [id]) := List.perm_append_comm
        exact parts

theorem onicVfAllocRxRing_triple {priv : VfQueues} {qid : Nat} (nodup : slots.Nodup) (here : .rx qid ∈ slots)
    (off : k.on = .off) :
    vfContract.Triple (VfAt slots k.rest) (onicVfAllocRxRing priv qid)
      fun err => VfAt slots (VfKnown.after err (k.filled priv (.rx qid)) k).rest := by
  apply Contract.Triple.bind kalloc_triple
  intro id
  cases id with
  | none => exact VfAt.finish fun s at_ => at_.unfilled
  | some id =>
    apply Contract.Triple.bind (setRing_triple (fun _ => .zeroed) id)
    intro _
    apply Contract.Triple.bind dmaAllocCoherent_triple
    intro desc
    cases desc with
    | none => exact unwind_triple (List.Perm.refl _) _
    | some desc =>
      apply Contract.Triple.bind kalloc_triple
      intro buffer
      cases buffer with
      | none => exact unwind_triple (List.Perm.swap ..) _
      | some buffer =>
        apply Contract.Triple.bind onicVfCreateRxPagePool_triple
        intro pagePool
        cases pagePool with
        | error err => exact unwind_triple (List.reverse_perm [id, desc.id, buffer]) err
        | ok pagePool =>
          have mine : [pagePool, buffer] ⊆ [id] ++ [desc.id] ++ [buffer] ++ [pagePool] := by simp
          have unwound (err : Int) : vfContract.Triple
              (VfAt slots { k.rest with hand := [id] ++ [desc.id] ++ [buffer] ++ [pagePool] })
              (do onicVfFreeRxPages id [pagePool, buffer]; freeAll [pagePool, buffer, desc.id, id]; .done err)
              fun err => VfAt slots (VfKnown.after err (k.filled priv (.rx qid)) k).rest := by
            apply Contract.Triple.bind (onicVfFreeRxPages_triple mine)
            exact fun _ => unwind_triple (List.reverse_perm [id, desc.id, buffer, pagePool]) err
          apply Contract.Triple.bind (onRing_triple id _)
          intro filled
          cases filled with
          | false => exact unwound _
          | true =>
            apply Contract.Triple.bind dmaAllocCoherent_triple
            intro cmpl
            cases cmpl with
            | none => exact unwound 0
            | some cmpl =>
              apply Contract.Triple.bind (setRing_triple (fun s => (s.ring id).initCmplRing) id)
              intro _
              apply publish_triple nodup here off fun s => .rx qid id buffer pagePool (slotPages (s.ring id)) desc cmpl
              intro s
              have parts : [id, desc.id, buffer, pagePool, cmpl.id].Perm [desc.id, cmpl.id, pagePool, buffer, id] := by
                rw [List.perm_iff_count]
                intro a
                simp only [List.count_cons, List.count_nil]
                omega
              exact parts

end VfNetdev

/-- After an entry has been freed. -/
def VfKnown.freed (slot : VfSlot) (k : VfKnown) : VfKnown :=
  { k with facts := fun e => ∃ e', k.facts e' ∧ e = Function.update e' slot none }

/-- While a queue is being freed. -/
def VfKnown.releasing (slot : VfSlot) (q : VfQueue) (hand : List Nat) (k : VfKnown) : VfView :=
  { k.rest with facts := fun e => k.facts e ∧ e slot = some q, hand := hand, point := .releasing slot }

theorem VfAt.unfilled_freed {slot : VfSlot} {s : VfNetdev}
    (at_ : VfAt slots { k.rest with facts := fun e => k.facts e ∧ e slot = none } s) :
    VfAt slots (k.freed slot).rest s := by
  have facts : k.facts s.at_ ∧ s.at_ slot = none := at_.facts
  refine { at_ with facts := ⟨s.at_, facts.1, ?_⟩ }
  rw [← facts.2, Function.update_eq_self]

namespace VfNetdev

theorem freeQueue_triple {slot : VfSlot} {q : VfQueue} :
    vfContract.Triple (VfAt slots (k.releasing slot q [q.id])) (freeQueue slot q.id)
      fun _ => VfAt slots (k.freed slot).rest := by
  apply Contract.Triple.bind (M := fun _ => VfAt slots
    { k.rest with facts := fun e => k.facts e ∧ e slot = some q, hand := [], point := .nulling slot })
  · apply VfAt.modify
    intro s at_
    rcases VfNetdev.at_some at_.facts.2 with ⟨id, queue, same⟩
    have is : q.id = id := by rw [← same, (at_.shape slot id queue).2]
    have freed := at_.kfree rfl rfl (is ▸ queue)
    exact ⟨freed.1, freed.2, Iff.rfl⟩
  · intro _
    apply VfAt.modify
    intro s at_
    have unset := at_.unset rfl
    refine ⟨{ unset with facts := ?_ }, rfl, Iff.rfl⟩
    obtain ⟨e, facts, same⟩ := unset.facts
    exact ⟨e, facts.1, same⟩

/-- The entries of `slots` may be freed. -/
theorem release_triple {slot : VfSlot} {q : VfQueue} (nodup : slots.Nodup) (off : k.on = .off)
    (may : ∀ slot ∈ slots, k.free slot) {f : VfNetdev → VfNetdev}
    (same : ∀ s, VfAt slots { k.rest with facts := fun e => k.facts e ∧ e slot = some q } s →
      f s = { s with point := .releasing slot }) :
    vfContract.Triple (VfAt slots { k.rest with facts := fun e => k.facts e ∧ e slot = some q })
      (.modify f : Program VfNetdev VfInput Unit) fun _ => VfAt slots (k.releasing slot q q.mem) := by
  apply VfAt.modify
  intro s at_
  have here : k.facts s.at_ ∧ s.at_ slot = some q := at_.facts
  rcases VfNetdev.at_some here.2 with ⟨id, queue, -⟩
  have released := at_.release nodup rfl off here.2 (may slot (at_.shape slot id queue).1)
  rw [same s at_]
  refine ⟨{ released with balanced := ?_ , body := ?_ }, rfl, Iff.rfl⟩
  · exact List.append_nil q.mem ▸ released.balanced
  · exact List.append_nil q.mem ▸ released.body

theorem freeAll_releasing {slot : VfSlot} {q : VfQueue} (ids rest : List Nat) :
    vfContract.Triple (VfAt slots (k.releasing slot q (ids ++ (rest ++ [q.id])))) (freeAll ids)
      fun _ => VfAt slots (k.releasing slot q (rest ++ [q.id])) := by
  apply freeAll_triple (v := k.releasing slot q [])
  intro other e q' gone known here
  cases gone
  cases known.2.symm.trans here
  exact List.mem_append_right _ (List.mem_singleton_self _)

theorem onicVfFreeTxRing_triple {qid : Nat} (nodup : slots.Nodup) (off : k.on = .off) (may : ∀ slot ∈ slots, k.free slot) :
    vfContract.Triple (VfAt slots k.rest) (onicVfFreeTxRing qid) fun _ => VfAt slots (k.freed (.tx qid)).rest := by
  apply Contract.Triple.bind (readQueue_triple rfl)
  intro q
  cases q with
  | none => exact VfAt.finish fun s at_ => VfAt.unfilled_freed at_
  | some q =>
    apply Contract.Triple.bind
    · apply release_triple nodup off may
      intro s at_
      have here : k.facts s.at_ ∧ s.at_ (.tx qid) = some q := at_.facts
      rcases VfNetdev.at_some here.2 with ⟨id, queue, rfl⟩
      rw [touch_live (at_.live rfl queue)]
    · intro _
      apply Contract.Triple.bind (freeAll_releasing (q.rings ++ q.buffers) [])
      exact fun _ => freeQueue_triple

theorem onicVfFreeRxRing_triple {qid : Nat} (nodup : slots.Nodup) (off : k.on = .off) (may : ∀ slot ∈ slots, k.free slot) :
    vfContract.Triple (VfAt slots k.rest) (onicVfFreeRxRing qid) fun _ => VfAt slots (k.freed (.rx qid)).rest := by
  apply Contract.Triple.bind (readQueue_triple rfl)
  intro q
  cases q with
  | none => exact VfAt.finish fun s at_ => VfAt.unfilled_freed at_
  | some q =>
    apply Contract.Triple.bind (release_triple nodup off may fun s at_ => rfl)
    intro _
    apply Contract.Triple.bind
    · rw [VfQueue.mem, List.append_assoc]
      exact freeAll_releasing q.rings q.buffers
    · intro _
      apply Contract.Triple.bind (onicVfFreeRxPages_triple (List.subset_append_left ..))
      intro _
      apply Contract.Triple.bind (freeAll_releasing q.buffers [])
      exact fun _ => freeQueue_triple

end VfNetdev

/-- The entries are those of probed queues. -/
structure VfFew (slots : List VfSlot) : Prop where
  nodup : slots.Nodup
  small : ∀ slot ∈ slots, ∃ qid < onicMaxQueues, slot = .tx qid ∨ slot = .rx qid

/-- When all entries may be freed. -/
def VfKnown.freeable (k : VfKnown) : VfKnown := { k with free := fun _ => True }

/-- After all entries have been freed. -/
def VfKnown.closed (k : VfKnown) : VfKnown := { k with facts := fun e => ∀ slot, e slot = none }

namespace VfNetdev

theorem onicVfRingsClear_triple (few : VfFew slots) (off : k.on = .off) (may : ∀ slot ∈ slots, k.free slot) :
    vfContract.Triple (VfAt slots k.rest) onicVfRingsClear fun _ => VfAt slots k.closed.rest := by
  let known (i : Nat) : VfKnown := { k with facts := fun e => ∀ qid < i, e (.tx qid) = none ∧ e (.rx qid) = none }
  have loop : vfContract.Triple (VfAt slots (known 0).rest) onicVfRingsClear
      fun _ => VfAt slots (known (0 + onicMaxQueues)).rest := by
    apply Contract.Triple.fold (I := fun i _ => VfAt slots (known i).rest) fun i _ => VfAt.stable slots _
    intro qid _ _ _
    apply Contract.Triple.bind (onicVfFreeTxRing_triple (k := known qid) few.nodup off may)
    intro _
    apply Contract.Triple.conseq (onicVfFreeRxRing_triple (k := (known qid).freed (.tx qid)) few.nodup off may)
    · exact fun s _ at_ => at_
    · intro _ s _ at_
      refine { at_ with facts := ?_ }
      obtain ⟨e', ⟨e, facts, rfl⟩, same⟩ := at_.facts
      rw [same]
      intro other below
      by_cases last : other = qid
      · subst last
        simp
      · have fresh := facts other (by omega)
        have one : VfSlot.tx other ≠ .tx qid := fun eq => last (VfSlot.tx.inj eq)
        have two : VfSlot.rx other ≠ .rx qid := fun eq => last (VfSlot.rx.inj eq)
        simpa [Function.update_of_ne one, Function.update_of_ne two] using fresh
  apply Contract.Triple.conseq loop
  · exact fun s _ at_ => { at_ with facts := fun qid below => absurd below (Nat.not_lt_zero qid) }
  · intro _ s _ at_
    refine { at_ with facts := fun slot => ?_ }
    cases here : s.queue slot with
    | none => simp [VfCtl.at_, here]
    | some id =>
      rcases few.small slot (at_.shape slot id here).1 with ⟨qid, below, same⟩
      have cleared := at_.facts qid (by omega)
      rcases same with rfl | rfl
      · exact cleared.1
      · exact cleared.2

theorem checkRetained_triple (few : VfFew slots) :
    vfContract.Triple (VfAt slots k.rest) checkRetained
      fun _ => VfAt slots k.freeable.rest := by
  apply VfAt.modify
  intro s at_
  refine ⟨at_.checked rfl rfl few.small, ?_, ?_⟩
  · split <;> rfl
  · split
    · simp [lapse]
    · exact Iff.rfl

end VfNetdev

/-- The entries are all NULL at first. -/
def VfKnown.Empty (k : VfKnown) : Prop := ∀ e, k.facts e → ∀ slot, e slot = none

/-- While the entries are filled. -/
def VfKnown.filling (priv : VfQueues) (done : VfSlot → Prop) (k : VfKnown) : VfKnown :=
  { k with
    facts := fun e => k.Empty → ∀ slot q, e slot = some q → done slot ∧ VfFresh priv slot q
    tight := k.tight ∧ k.Empty }

/-- After an open has failed. -/
def VfKnown.undone (k : VfKnown) : VfKnown :=
  { k with
    free := fun _ => False
    facts := fun e => ∀ slot, e slot = none
    tight := k.tight ∧ k.Empty }

namespace VfNetdev

/-- One entry more. -/
theorem fill {priv : VfQueues} {slot : VfSlot} {done done' : VfSlot → Prop} {s : VfNetdev}
    (at_ : VfAt slots ((k.filling priv done).filled priv slot).rest s) (left : ¬ done slot)
    (more : ∀ other, done other ∨ other = slot → done' other) : VfAt slots (k.filling priv done').rest s := by
  refine { at_ with facts := ?_, tight := fun tight => at_.tight ⟨tight, fun e facts => ?_⟩ }
  · cases here : e slot with
    | none => rfl
    | some q => exact absurd (facts tight.2 slot q here).1 left
  · obtain ⟨e, facts, same⟩ := at_.facts
    intro empty other q here
    rcases same with same | ⟨q', fresh, same⟩
    · rw [same] at here
      have old := facts empty other q here
      exact ⟨more other (.inl old.1), old.2⟩
    · rw [same] at here
      by_cases eq : other = slot
      · subst eq
        cases (Function.update_self other (some q') e).symm.trans here
        exact ⟨more other (.inr rfl), fresh⟩
      · rw [Function.update_of_ne eq] at here
        have old := facts empty other q here
        exact ⟨more other (.inl old.1), old.2⟩

/-- Every round has its own view; an error ends in one. -/
theorem untilErr_triple {body : Nat → Program VfNetdev VfInput Int} (known : Nat → VfKnown) {failed : VfKnown} (count : Nat)
    (round : ∀ i < count, vfContract.Triple (VfAt slots (known i).rest) (body i)
      fun err => VfAt slots (VfKnown.after err (known (i + 1)) failed).rest) :
    vfContract.Triple (VfAt slots (known 0).rest) (.untilErr body 0 count)
      fun err => VfAt slots (VfKnown.after err (known count) failed).rest := by
  have cases_err (err : Int) (ok : VfKnown) : VfAt slots (VfKnown.after err ok failed).rest =
      fun s => if err = 0 then VfAt slots ok.rest s else VfAt slots failed.rest s := by
    rw [VfKnown.after]
    split <;> rfl
  have loop := Contract.Triple.untilErr (I := fun i => VfAt slots (known i).rest) (F := fun _ => VfAt slots failed.rest)
    body 0 count (fun i => VfAt.stable slots _) (fun _ => VfAt.stable slots _) fun i _ below => by
      have one := round i (by omega)
      simp only [cases_err] at one
      exact one
  rw [Nat.zero_add] at loop
  simp only [cases_err]
  exact loop

/-- A round that fills an entry. -/
theorem fill_round {priv : VfQueues} {slot : VfSlot} {p : Program VfNetdev VfInput Int} {done done' : VfSlot → Prop}
    (alloc : vfContract.Triple (VfAt slots (k.filling priv done).rest) p
      fun err => VfAt slots (VfKnown.after err ((k.filling priv done).filled priv slot) (k.filling priv done)).rest)
    (left : ¬ done slot) (more : ∀ other, done other ∨ other = slot → done' other) :
    vfContract.Triple (VfAt slots (k.filling priv done).rest) p
      fun err => VfAt slots (VfKnown.after err (k.filling priv done') (k.filling priv fun _ => True)).rest := by
  apply Contract.Triple.conseq alloc fun _ _ at_ => at_
  intro err s _ at_
  rw [VfKnown.after] at at_ ⊢
  split
  · rename_i made
    rw [if_pos made] at at_
    exact fill at_ left more
  · rename_i failed
    rw [if_neg failed] at at_
    exact { at_ with facts := fun empty other q here => ⟨True.intro, (at_.facts empty other q here).2⟩ }

theorem onicVfRingsInit_triple {priv : VfQueues} (few : VfFew (vfSlots priv)) (vectors : priv.numQVectors ≠ 0)
    (off : k.on = .off) :
    vfContract.Triple (VfAt (vfSlots priv) k.rest) (onicVfRingsInit priv)
      fun err => VfAt (vfSlots priv) (VfKnown.after err (k.filling priv fun _ => True) k.undone).rest := by
  rw [onicVfRingsInit, if_neg vectors]
  let tx (i : Nat) : VfSlot → Prop := fun slot => ∃ qid < i, slot = .tx qid
  let rx (i : Nat) : VfSlot → Prop := fun slot => (∃ qid, slot = .tx qid) ∨ ∃ qid < i, slot = .rx qid
  let failed : VfKnown := k.filling priv fun _ => True
  apply Contract.Triple.bind (M := fun err => VfAt (vfSlots priv) (VfKnown.after err (k.filling priv (tx priv.numTxQueues)) failed).rest)
  · apply Contract.Triple.from_pre (VfAt (vfSlots priv) (k.filling priv (tx 0)).rest)
    · intro s _ at_
      exact { at_ with
        facts := fun empty slot q here => by simp [empty _ at_.facts slot] at here
        tight := fun tight => at_.tight tight.1 }
    · apply untilErr_triple (fun i => k.filling priv (tx i))
      intro i below
      apply fill_round (onicVfAllocTxRing_triple few.nodup (by simpa using below) off)
      · rintro ⟨qid, less, same⟩
        cases same
        omega
      · rintro other (⟨qid, less, rfl⟩ | rfl)
        · exact ⟨qid, by omega, rfl⟩
        · exact ⟨i, by omega, rfl⟩
  have tail (err : Int) : vfContract.Triple
      (VfAt (vfSlots priv) (VfKnown.after err (k.filling priv (rx priv.numRxQueues)) failed).rest)
      (if err ≠ 0 then do checkRetained; onicVfRingsClear; .done err else .done 0)
      fun err => VfAt (vfSlots priv) (VfKnown.after err failed k.undone).rest := by
    by_cases ne : err = 0
    · subst ne
      rw [if_neg (by simp)]
      apply VfAt.finish
      intro s at_
      rw [VfKnown.after_zero] at at_ ⊢
      exact { at_ with facts := fun empty other q here => ⟨True.intro, (at_.facts empty other q here).2⟩ }
    · rw [if_pos ne, VfKnown.after_err ne]
      apply Contract.Triple.bind (checkRetained_triple few)
      intro _
      apply Contract.Triple.bind (onicVfRingsClear_triple (k := failed.freeable) few off fun _ _ => True.intro)
      intro _
      apply VfAt.finish
      intro s at_
      rw [VfKnown.after_err ne]
      exact at_.weaken rfl rfl (fun _ none => none.elim) at_.facts id
  intro err
  by_cases ne : err = 0
  · subst ne
    rw [if_neg (by simp), VfKnown.after_zero]
    refine Contract.Triple.bind ?_ tail
    apply Contract.Triple.from_pre (VfAt (vfSlots priv) (k.filling priv (rx 0)).rest)
    · intro s _ at_
      refine { at_ with facts := fun empty slot q here => ?_ }
      have known := at_.facts empty slot q here
      rcases known.1 with ⟨qid, -, same⟩
      exact ⟨.inl ⟨qid, same⟩, known.2⟩
    · apply untilErr_triple (fun i => k.filling priv (rx i))
      intro i below
      apply fill_round (onicVfAllocRxRing_triple few.nodup (by simpa using below) off)
      · rintro (⟨qid, same⟩ | ⟨qid, less, same⟩)
        · cases same
        · cases same
          omega
      · rintro other ((⟨qid, rfl⟩ | ⟨qid, less, rfl⟩) | rfl)
        · exact .inl ⟨qid, rfl⟩
        · exact .inr ⟨qid, by omega, rfl⟩
        · exact .inr ⟨i, by omega, rfl⟩
  · rw [if_pos ne]
    apply Contract.Triple.from_pre _ _ (tail err)
    intro s _ at_
    rw [VfKnown.after_err ne] at at_ ⊢
    exact at_

end VfNetdev

/-- After a try to clear the context of an entry. -/
def VfKnown.cleared (slot : VfSlot) (err : Int) (k : VfKnown) : VfKnown :=
  { k with free := fun other => k.free other ∨ (other = slot ∧ (err = 0 ∨ k.caller ≠ .stopping)) }

/-- While queues are configured, no entry may be freed. -/
def VfKnown.held (k : VfKnown) : VfKnown := { k with free := fun _ => False }

/-- After a bit of the queue of an entry has been written. -/
def VfKnown.wrote (slot : VfSlot) (f : VfQueue → VfQueue) (k : VfKnown) : VfKnown :=
  { k with facts := fun e => ∃ e' q, k.facts e' ∧ e' slot = some q ∧ e = Function.update e' slot (some (f q)) }

theorem VfInput.err_neg (input : VfInput) : input.err < 0 := by
  rw [VfInput.err]
  omega

theorem VfInput.err_ne (input : VfInput) : input.err ≠ 0 := Int.ne_of_lt input.err_neg

namespace VfNetdev

theorem onicVfMboxSend_clear {slot : VfSlot} :
    vfContract.Triple (VfAt slots k.rest) (onicVfMboxSend (.clear slot))
      fun err => VfAt slots (k.cleared slot err).rest := by
  apply VfAt.access
  intro input s err s' at_ taken
  have caller : s.caller = k.caller := at_.caller
  have unexecuted (late : List VfCmd) (failed : err ≠ 0) :
      VfAt slots (k.cleared slot err).rest { s.unexecuted (.clear slot) with late := late } ∧
        (s.unexecuted (.clear slot)).faults = s.faults ∧
          (.interrupt ∈ (s.unexecuted (.clear slot)).lapses ↔ .interrupt ∈ s.lapses) := by
    rw [VfNetdev.unexecuted, caller]
    split
    · rename_i stopping
      refine ⟨?_, rfl, Iff.rfl⟩
      refine (at_.delayed late).weaken rfl rfl (fun other may => ?_) at_.facts id
      rcases may with may | ⟨-, zero | away⟩
      · exact at_.free other may
      · exact absurd zero failed
      · exact absurd stopping away
    · refine ⟨?_, rfl, by simp [lapse]⟩
      apply at_.lapsed rfl rfl
      exact fun none => none.2.1 (List.mem_append_right _ (List.mem_singleton_self _))
  have executed (late : List VfCmd) :
      VfAt slots (k.cleared slot err).rest { s with ctxt := Function.update s.ctxt slot [], late := late } := by
    have cleared := at_.cleared slot late
    refine cleared.weaken rfl rfl (fun other may => ?_) at_.facts id
    rcases may with may | ⟨same, -⟩
    · exact cleared.free other (.inl may)
    · exact cleared.free other (.inr same)
  split at taken
  · cases taken
    exact ⟨executed s.late, rfl, Iff.rfl⟩
  · cases taken
    exact unexecuted (s.unexecuted (.clear slot)).late input.err_ne
  · cases taken
    exact ⟨executed s.late, rfl, Iff.rfl⟩
  · cases taken
    exact unexecuted (s.late ++ [.clear slot]) (by simp [ETIMEDOUT])

theorem clearOneContext_triple {slot : VfSlot} :
    vfContract.Triple (VfAt slots k.rest) (clearOneContext slot)
      fun err => VfAt slots ({ k with facts := fun _ => True }.cleared slot err).rest := by
  have unconfigured {q : Option VfQueue} (off : ∀ q', q = some q' → q'.configured = false) :
      vfContract.Triple (VfAt slots { k.rest with facts := fun e => k.facts e ∧ e slot = q })
        (.done 0 : Program VfNetdev VfInput Int)
        fun err => VfAt slots ({ k with facts := fun _ => True }.cleared slot err).rest := by
    apply VfAt.finish
    intro s at_
    refine at_.weaken rfl rfl (fun other may none => ?_) True.intro id
    rcases may with may | ⟨same, -⟩
    · exact at_.free other may none
    · subst same
      exact at_.tie rfl none fun q' here => off q' (at_.facts.2.symm.trans here)
  apply Contract.Triple.bind (readQueue_triple rfl)
  intro q
  cases q with
  | none => exact unconfigured nofun
  | some q =>
    cases bit : q.configured with
    | false =>
      simp only [bit]
      apply unconfigured
      intro q' same
      cases same
      exact bit
    | true =>
      simp only [bit]
      let known : VfKnown := { k with facts := fun e => k.facts e ∧ e slot = some q }
      apply Contract.Triple.bind (onicVfMboxSend_clear (k := known))
      intro err
      split
      · apply VfAt.finish
        intro s at_
        exact at_.weaken rfl rfl at_.free True.intro id
      · rename_i ok
        have ok : err = 0 := by simpa using ok
        apply Contract.Triple.bind (M := fun _ => VfAt slots ((known.cleared slot err).wrote slot (VfQueue.setConfigured false)).rest)
        · apply VfAt.modify
          intro s at_
          rcases VfNetdev.at_some at_.facts.2 with ⟨id, queue, same⟩
          have is : q.id = id := by rw [← same, (at_.shape slot id queue).2]
          rw [is]
          have wrote := at_.setConfigured (b := false) rfl rfl queue ⟨.inr ⟨rfl, .inl ok⟩, rfl⟩
          exact ⟨wrote.1, wrote.2, Iff.rfl⟩
        · intro _
          apply VfAt.finish
          intro s at_
          refine at_.weaken rfl rfl (fun other may => at_.free other ?_) True.intro id
          rcases may with may | ⟨same, -⟩
          · exact .inl may
          · exact .inr ⟨same, .inl ok⟩

theorem onicVfMboxSend_config {slot : VfSlot} {cfg : QueueCfg} {q : VfQueue} (here : ∀ e, k.facts e → e slot = some q) :
    vfContract.Triple (VfAt slots k.rest) (onicVfMboxSend (.config slot cfg q.rings))
      fun err => VfAt slots { k.held.rest with configuring := if err = 0 then some slot else none } := by
  apply VfAt.access
  intro input s err s' at_ taken
  have held : VfAt slots k.held.rest s := at_.weaken rfl rfl (fun _ none => none.elim) at_.facts id
  split at taken
  · cases taken
    exact ⟨at_.configured rfl rfl (here s.at_ at_.facts), rfl, Iff.rfl⟩
  · cases taken
    rw [if_neg input.err_ne]
    exact ⟨held, rfl, Iff.rfl⟩
  · cases taken
    refine ⟨?_, rfl, by simp [executeStray, execute, lapse]⟩
    apply at_.lapsed rfl rfl
    exact fun none => none.1 (List.mem_append_right _ (List.mem_singleton_self _))
  · cases taken
    rw [if_neg (by simp [ETIMEDOUT])]
    exact ⟨held.delayed _, rfl, Iff.rfl⟩

theorem slotCfg_err {slot : VfSlot} {q : Option VfQueue} {err : Int} (failed : slotCfg slot q = .error err) : err ≠ 0 := by
  unfold slotCfg at failed
  split at failed
  · unfold onicVfTxCfg at failed
    grind [EINVAL, EALREADY]
  · unfold onicVfRxCfg at failed
    grind [EINVAL, EALREADY]
  · cases failed
    decide

theorem configOneContext_triple {slot : VfSlot} :
    vfContract.Triple (VfAt slots k.rest) (configOneContext slot)
      fun err => VfAt slots (VfKnown.after err (k.held.wrote slot (VfQueue.setConfigured true)) k.held).rest := by
  apply Contract.Triple.bind (readQueue_triple rfl)
  intro q
  have failing {err : Int} (failed : err ≠ 0) :
      vfContract.Triple (VfAt slots { k.rest with facts := fun e => k.facts e ∧ e slot = q })
        (.done err : Program VfNetdev VfInput Int)
        fun err => VfAt slots (VfKnown.after err (k.held.wrote slot (VfQueue.setConfigured true)) k.held).rest := by
    apply VfAt.finish
    intro s at_
    rw [VfKnown.after_err failed]
    exact at_.weaken rfl rfl (fun _ none => none.elim) at_.facts.1 id
  split
  · rename_i q cfg same
    let known : VfKnown := { k with facts := fun e => k.facts e ∧ e slot = some q }
    apply Contract.Triple.bind (onicVfMboxSend_config (k := known) fun e facts => facts.2)
    intro err
    by_cases ok : err = 0
    · subst ok
      rw [if_pos rfl, if_neg (by simp)]
      apply Contract.Triple.bind (M := fun _ => VfAt slots (known.held.wrote slot (VfQueue.setConfigured true)).rest)
      · apply VfAt.modify
        intro s at_
        rcases VfNetdev.at_some at_.facts.2 with ⟨id, queue, same⟩
        have is : q.id = id := by rw [← same, (at_.shape slot id queue).2]
        rw [is]
        have wrote := at_.setConfigured (b := true) rfl rfl queue rfl
        exact ⟨wrote.1, wrote.2, Iff.rfl⟩
      · intro _
        apply VfAt.finish
        intro s at_
        rw [VfKnown.after_zero]
        obtain ⟨e, q', facts, here, same⟩ := at_.facts
        exact at_.weaken rfl rfl (fun _ none => none.elim) ⟨e, q', facts.1, here, same⟩ id
    · rw [if_neg ok, if_pos ok]
      apply VfAt.finish
      intro s at_
      rw [VfKnown.after_err ok]
      exact at_.weaken rfl rfl (fun _ none => none.elim) at_.facts.1 id
  · exact failing (by decide)
  · rename_i err failed
    exact failing (slotCfg_err failed)

/-- After a try to clear the contexts of the first entries of a kind. -/
def contextsCleared (mk : Nat → VfSlot) (count : Nat) (err : Int) (k : VfKnown) : VfKnown :=
  { k with
    free := fun slot => k.free slot ∨ ((∃ qid < count, slot = mk qid) ∧ (err = 0 ∨ k.caller ≠ .stopping))
    facts := fun _ => True }

theorem contextsClear_triple (mk : Nat → VfSlot) (count : Nat) :
    vfContract.Triple (VfAt slots k.rest) (.firstErr (fun qid => clearOneContext (mk qid)) 0 count)
      fun err => VfAt slots (contextsCleared mk count err k).rest := by
  have loop := Contract.Triple.firstErr (C := vfContract) (I := fun i first => VfAt slots (contextsCleared mk i first k).rest)
    (fun qid => clearOneContext (mk qid)) 0 count (fun _ _ => VfAt.stable _ _) fun i first _ _ => ?_
  · rw [Nat.zero_add] at loop
    apply Contract.Triple.from_pre _ _ loop
    intro s _ at_
    refine at_.weaken rfl rfl (fun slot may => ?_) True.intro id
    rcases may with may | ⟨⟨qid, below, -⟩, -⟩
    · exact at_.free slot may
    · exact absurd below (Nat.not_lt_zero qid)
  · apply Contract.Triple.conseq (clearOneContext_triple (k := contextsCleared mk i first k)) fun _ _ at_ => at_
    intro err s _ at_
    refine at_.weaken rfl rfl (fun slot may => ?_) True.intro id
    rcases may with may | ⟨⟨qid, below, same⟩, tried⟩
    · exact at_.free slot (.inl (.inl may))
    · have both : (err = 0 ∧ first = 0) ∨ k.caller ≠ .stopping := by
        rcases tried with zero | away
        · split at zero
          · rename_i new
            exact absurd zero new.1
          · rename_i old
            exact .inl ⟨by_contra fun ne => old ⟨ne, zero⟩, zero⟩
        · exact .inr away
      by_cases last : qid = i
      · subst last
        refine at_.free slot (.inr ⟨same, ?_⟩)
        exact both.imp_left And.left
      · refine at_.free slot (.inl (.inr ⟨⟨qid, by omega, same⟩, ?_⟩))
        exact both.imp_left And.right

theorem onicVfTxContextsClear_triple (priv : VfQueues) :
    vfContract.Triple (VfAt slots k.rest) (onicVfTxContextsClear priv)
      fun err => VfAt slots (contextsCleared .tx priv.numTxQueues err k).rest :=
  contextsClear_triple .tx priv.numTxQueues

theorem onicVfRxContextsClear_triple (priv : VfQueues) :
    vfContract.Triple (VfAt slots k.rest) (onicVfRxContextsClear priv)
      fun err => VfAt slots (contextsCleared .rx priv.numRxQueues err k).rest :=
  contextsClear_triple .rx priv.numRxQueues

/-- After the contexts of the first entries of a kind have been configured. -/
def contextsConfigured (mk : Nat → VfSlot) (count : Nat) (k : VfKnown) : VfKnown :=
  { k.held with facts := fun e => k.facts e ∧ ∀ qid < count, ∃ q, e (mk qid) = some q ∧ q.configured = true }


theorem configContexts_triple (mk : Nat → VfSlot) (count : Nat)
    (blind : ∀ e slot q, k.facts e → e slot = some q → k.facts (Function.update e slot (some (q.setConfigured true)))) :
    vfContract.Triple (VfAt slots k.rest) (.untilErr (fun qid => configOneContext (mk qid)) 0 count)
      fun err => VfAt slots (VfKnown.after err (contextsConfigured mk count k) k.held).rest := by
  apply Contract.Triple.from_pre (VfAt slots (contextsConfigured mk 0 k).rest)
  · intro s _ at_
    exact at_.weaken rfl rfl (fun _ none => none.elim) ⟨at_.facts, fun qid below => absurd below (Nat.not_lt_zero qid)⟩ id
  · apply untilErr_triple (fun i => contextsConfigured mk i k)
    intro i _
    apply Contract.Triple.conseq (configOneContext_triple (k := contextsConfigured mk i k)) fun _ _ at_ => at_
    intro err s _ at_
    by_cases ok : err = 0
    · subst ok
      rw [VfKnown.after_zero] at at_ ⊢
      obtain ⟨e, q, facts, here, same⟩ := at_.facts
      refine at_.weaken rfl rfl (fun _ none => none.elim) ⟨?_, fun qid below => ?_⟩ id
      · rw [same]
        exact blind e (mk i) q facts.1 here
      · rw [same]
        by_cases eq : mk qid = mk i
        · exact ⟨q.setConfigured true, by rw [eq, Function.update_self], VfQueue.setConfigured_configured ..⟩
        · rw [Function.update_of_ne eq]
          exact facts.2 qid (by
            have : qid ≠ i := fun same => eq (congrArg mk same)
            omega)
    · rw [VfKnown.after_err ok] at at_ ⊢
      exact at_.weaken rfl rfl (fun _ none => none.elim) at_.facts.1 id

/-- What may be on once no instance is enabled. -/
def napiOff (k : VfKnown) : VfKnown := { k with facts := fun _ => True, on := { k.on with napi := false } }

/-- The first instances are off. -/
def datapathsCleared (count : Nat) (k : VfKnown) : VfKnown :=
  { k with facts := fun e => ∀ qid < count, ∀ q, e (.rx qid) = some q → q.napiEnabled = false }

theorem clearOneDatapath_triple {qid : Nat} :
    vfContract.Triple (VfAt slots (datapathsCleared qid k).rest) (clearOneDatapath qid)
      fun _ => VfAt slots (datapathsCleared (qid + 1) k).rest := by
  apply Contract.Triple.bind (readQueue_triple rfl)
  intro q
  have unset {q : Option VfQueue} (off : ∀ q', q = some q' → q'.napiEnabled = false) :
      vfContract.Triple
        (VfAt slots { (datapathsCleared qid k).rest with facts := fun e => (datapathsCleared qid k).facts e ∧ e (.rx qid) = q })
        (.done () : Program VfNetdev VfInput Unit) fun _ => VfAt slots (datapathsCleared (qid + 1) k).rest := by
    apply VfAt.finish
    intro s at_
    refine at_.weaken rfl rfl at_.free (fun other below q' here => ?_) id
    by_cases last : other = qid
    · subst last
      exact off q' (at_.facts.2.symm.trans here)
    · exact at_.facts.1 other (by omega) q' here
  cases q with
  | none => exact unset nofun
  | some q =>
    cases bit : q.napiEnabled with
    | false =>
      simp only [bit]
      apply unset
      intro q' same
      cases same
      exact bit
    | true =>
      simp only [bit]
      apply Contract.Triple.bind
        (setRing_triple (fun s => { s.ring q.id with cidx := ((s.ring q.id).cmplRing.nextToClean, false) }) q.id)
      intro _
      let known : VfKnown := { k with facts := fun e => (datapathsCleared qid k).facts e ∧ e (.rx qid) = some q }
      apply Contract.Triple.bind (M := fun _ => VfAt slots
        { (known.wrote (.rx qid) (VfQueue.setNapiEnabled false)).rest with switching := some q.id })
      · apply VfAt.modify
        intro s at_
        rcases VfNetdev.at_some at_.facts.2 with ⟨id, queue, same⟩
        have is : q.id = id := by rw [← same, (at_.shape _ id queue).2]
        rw [is]
        have wrote := at_.setNapiEnabled (b := false) rfl rfl queue rfl (by rw [same]; exact bit)
          (VfQueue.setNapiEnabled_false _)
        exact ⟨wrote.1, wrote.2, Iff.rfl⟩
      · intro _
        apply VfAt.modify
        intro s at_
        obtain ⟨e, q', facts, here, same⟩ := at_.facts
        cases facts.2.symm.trans here
        have found : s.at_ (.rx qid) = some (q.setNapiEnabled false) := by rw [same, Function.update_self]
        rcases VfNetdev.at_some found with ⟨id, queue, obj⟩
        have is : q.id = id := by rw [← (at_.shape _ id queue).2, obj, VfQueue.setNapiEnabled_id]
        rw [is]
        have off := at_.napiDisable rfl (by rw [is]) queue (by rw [obj, VfQueue.setNapiEnabled_false])
        refine ⟨?_, off.2, Iff.rfl⟩
        refine off.1.weaken rfl rfl off.1.free (fun other below q' there => ?_) fun tight => tight
        have there : s.at_ (.rx other) = some q' := there
        rw [same] at there
        by_cases last : other = qid
        · subst last
          rw [Function.update_self] at there
          cases there
          exact VfQueue.setNapiEnabled_false q
        · rw [Function.update_of_ne fun eq => last (VfSlot.rx.inj eq)] at there
          exact facts.1 other (by omega) q' there

theorem onicVfRxDatapathClear_triple (priv : VfQueues) :
    vfContract.Triple (VfAt (vfSlots priv) k.rest) (onicVfRxDatapathClear priv)
      fun _ => VfAt (vfSlots priv) (napiOff k).rest := by
  have loop : vfContract.Triple (VfAt (vfSlots priv) (datapathsCleared 0 k).rest) (onicVfRxDatapathClear priv)
      fun _ => VfAt (vfSlots priv) (datapathsCleared (0 + priv.numRxQueues) k).rest :=
    Contract.Triple.fold (I := fun i _ => VfAt (vfSlots priv) (datapathsCleared i k).rest)
      (fun _ _ => VfAt.stable _ _) fun _ _ _ _ => clearOneDatapath_triple
  apply Contract.Triple.conseq loop
  · intro s _ at_
    exact at_.weaken rfl rfl at_.free (fun qid below => absurd below (Nat.not_lt_zero qid)) id
  · intro _ s _ at_
    have off := at_.all_off rfl (fun qid here q found => at_.facts qid (by simpa using here) q found) _ rfl
    exact off.weaken rfl rfl off.free True.intro id

/-- While the instances are switched on from one on. -/
def datapathsInit (count : Nat) (k : VfKnown) : VfKnown :=
  { k with
    facts := fun e => k.facts e ∧ (∀ qid, count ≤ qid → ∀ q, e (.rx qid) = some q → q.napiEnabled = false) ∧
      ∀ qid < count, ∃ q, e (.rx qid) = some q ∧ q.napiEnabled = true
    on := { k.on with napi := true } }

theorem initOneDatapath_triple {qid : Nat}
    (blind : ∀ e slot q, k.facts e → e slot = some q → k.facts (Function.update e slot (some (q.setNapiEnabled true)))) :
    vfContract.Triple (VfAt slots (datapathsInit qid k).rest) (initOneDatapath qid)
      fun err => VfAt slots (VfKnown.after err (datapathsInit (qid + 1) k) { k with on := { k.on with napi := true } }).rest := by
  have failing {q : Option VfQueue} :
      vfContract.Triple
        (VfAt slots { (datapathsInit qid k).rest with facts := fun e => (datapathsInit qid k).facts e ∧ e (.rx qid) = q })
        (.done (- EINVAL) : Program VfNetdev VfInput Int)
        fun err => VfAt slots (VfKnown.after err (datapathsInit (qid + 1) k) { k with on := { k.on with napi := true } }).rest := by
    apply VfAt.finish
    intro s at_
    rw [VfKnown.after_err (by decide)]
    exact at_.weaken rfl rfl at_.free at_.facts.1.1 id
  apply Contract.Triple.bind (readQueue_triple rfl)
  intro q
  rcases q with _ | q | q
  · exact failing
  · exact failing
  · simp only
    split
    · exact failing
    · let known : VfKnown := { datapathsInit qid k with
        facts := fun e => (datapathsInit qid k).facts e ∧ e (.rx qid) = some (.rx q) }
      apply Contract.Triple.bind (M := fun _ => VfAt slots { known.rest with switching := some q.id })
      · apply VfAt.modify
        intro s at_
        have here : s.at_ (.rx qid) = some (.rx q) := at_.facts.2
        rcases VfNetdev.at_some here with ⟨id, queue, same⟩
        have is : q.id = id := by rw [← (at_.shape _ id queue).2, same, VfQueue.id]
        rw [is]
        have on := at_.napiEnable rfl rfl queue (by rw [same]; exact at_.facts.1.2.1 qid (Nat.le_refl qid) _ here)
        exact ⟨on.1, on.2, Iff.rfl⟩
      intro _
      apply Contract.Triple.bind (M := fun _ => VfAt slots (known.wrote (.rx qid) (VfQueue.setNapiEnabled true)).rest)
      · apply VfAt.modify
        intro s at_
        have here : s.at_ (.rx qid) = some (.rx q) := at_.facts.2
        rcases VfNetdev.at_some here with ⟨id, queue, same⟩
        have is : q.id = id := by rw [← (at_.shape _ id queue).2, same, VfQueue.id]
        have was : (VfQueue.rx q).napiEnabled = false := at_.facts.1.2.1 qid (Nat.le_refl qid) _ here
        have wrote := at_.setNapiEnabled (b := true) rfl rfl queue (by rw [is]; rfl) (by rw [same]; exact was)
          (by rw [same]; rfl)
        rw [is]
        exact ⟨wrote.1, wrote.2, Iff.rfl⟩
      intro _
      apply Contract.Triple.bind (setRing_triple (fun s => (s.ring q.id).datapathInit) q.id)
      intro _
      apply VfAt.finish
      intro s at_
      rw [VfKnown.after_zero]
      obtain ⟨e, q', ⟨⟨facts, off, on⟩, found⟩, here, same⟩ := at_.facts
      cases found.symm.trans here
      refine at_.weaken rfl rfl at_.free ⟨?_, fun other above q' there => ?_, fun other below => ?_⟩ id
      · rw [same]
        exact blind e _ _ facts here
      · have differ : VfSlot.rx other ≠ .rx qid := fun eq => absurd (VfSlot.rx.inj eq) (by omega)
        rw [same, Function.update_of_ne differ] at there
        exact off other (by omega) q' there
      · rw [same]
        by_cases last : other = qid
        · subst last
          exact ⟨_, Function.update_self .., rfl⟩
        · rw [Function.update_of_ne fun eq => last (VfSlot.rx.inj eq)]
          exact on other (by omega)

theorem onicVfRxDatapathInit_triple {priv : VfQueues} (off : k.on = .off)
    (blind : ∀ e slot q, k.facts e → e slot = some q → k.facts (Function.update e slot (some (q.setNapiEnabled true)))) :
    vfContract.Triple (VfAt (vfSlots priv) k.rest) (onicVfRxDatapathInit priv)
      fun err => VfAt (vfSlots priv) (VfKnown.after err (datapathsInit priv.numRxQueues k) { k with facts := fun _ => True }).rest := by
  apply Contract.Triple.bind (M := fun err => VfAt (vfSlots priv)
    (VfKnown.after err (datapathsInit priv.numRxQueues k) { k with on := { k.on with napi := true } }).rest)
  · apply Contract.Triple.from_pre (VfAt (vfSlots priv) (datapathsInit 0 k).rest)
    · intro s _ at_
      have facts : (datapathsInit 0 k).facts s.at_ := by
        refine ⟨at_.facts, fun qid _ q here => ?_, fun qid below => absurd below (Nat.not_lt_zero qid)⟩
        rcases VfNetdev.at_some here with ⟨id, queue, rfl⟩
        rw [Bool.eq_false_iff]
        intro bit
        have on := at_.bits qid id queue bit
        rw [(at_.quiet off).napi id] at on
        cases on
      exact { at_ with
        facts := facts
        napi := fun _ _ => rfl
        still := fun away => absurd rfl away }
    · apply untilErr_triple (fun i => datapathsInit i k)
      exact fun i _ => initOneDatapath_triple blind
  · intro err
    by_cases ok : err = 0
    · subst ok
      rw [if_neg (by simp)]
      apply VfAt.finish
      intro s at_
      rw [VfKnown.after_zero] at at_ ⊢
      exact at_
    · rw [if_pos ok, VfKnown.after_err ok]
      apply Contract.Triple.bind (onicVfRxDatapathClear_triple priv)
      intro _
      apply VfAt.finish
      intro s at_
      rw [VfKnown.after_err ok]
      have same : napiOff { k with on := { k.on with napi := true } } = { k with facts := fun _ => True } := by
        simp only [napiOff, off]
        rfl
      rw [same] at at_
      exact at_

/-- After the contexts of the entries of a kind have been cleared, or it has been tried in vain. -/
def unconfigured (mk : Nat → VfSlot) (count : Nat) (k : VfKnown) : VfKnown :=
  { k with free := fun slot => ∃ qid < count, slot = mk qid, facts := fun _ => True }

theorem contextsInit_triple (mk : Nat → VfSlot) (count : Nat) (away : k.caller ≠ .stopping)
    (blind : ∀ e slot q, k.facts e → e slot = some q → k.facts (Function.update e slot (some (q.setConfigured true)))) :
    vfContract.Triple (VfAt slots k.rest)
      (do
        let err ← .untilErr (fun qid => configOneContext (mk qid)) 0 count
        if err ≠ 0 then
          let _ ← .firstErr (fun qid => clearOneContext (mk qid)) 0 count
          .done err
        else .done 0)
      fun err => VfAt slots (VfKnown.after err (contextsConfigured mk count k) (unconfigured mk count k)).rest := by
  apply Contract.Triple.bind (configContexts_triple mk count blind)
  intro err
  by_cases ok : err = 0
  · subst ok
    rw [if_neg (by simp)]
    apply VfAt.finish
    intro s at_
    rw [VfKnown.after_zero] at at_ ⊢
    exact at_
  · rw [if_pos ok, VfKnown.after_err ok]
    apply Contract.Triple.bind (contextsClear_triple mk count)
    intro _
    apply VfAt.finish
    intro s at_
    rw [VfKnown.after_err ok]
    refine at_.weaken rfl rfl (fun slot may => at_.free slot (.inr ⟨may, .inr away⟩)) True.intro id

end VfNetdev

/-- A queue as it has been published, up to its bits. -/
def VfMade (priv : VfQueues) (slot : VfSlot) (q : VfQueue) : Prop :=
  ∃ fresh b c, VfFresh priv slot fresh ∧ q = (fresh.setConfigured b).setNapiEnabled c

namespace VfMade

variable {priv : VfQueues} {slot : VfSlot} {q : VfQueue}

theorem fresh (made : VfFresh priv slot q) : VfMade priv slot q := by
  refine ⟨q, q.configured, q.napiEnabled, made, ?_⟩
  cases q <;> rfl

theorem setConfigured (made : VfMade priv slot q) (b : Bool) : VfMade priv slot (q.setConfigured b) := by
  rcases made with ⟨q', _, c, published, rfl⟩
  refine ⟨q', b, c, published, ?_⟩
  cases q' <;> rfl

theorem setNapiEnabled (made : VfMade priv slot q) (c : Bool) : VfMade priv slot (q.setNapiEnabled c) := by
  rcases made with ⟨q', b, _, published, rfl⟩
  refine ⟨q', b, c, published, ?_⟩
  cases q' <;> rfl

end VfMade

/-- What an open has made of the entries. -/
structure VfOpened (priv : VfQueues) (e : VfSlot → Option VfQueue) : Prop where
  tx : ∀ qid < priv.numTxQueues, ∃ q, e (.tx qid) = some q ∧ q.configured = true
  rx : ∀ qid < priv.numRxQueues, ∃ q, e (.rx qid) = some q ∧ q.configured = true ∧ q.napiEnabled = true

/-- After an open that has succeeded. -/
def VfKnown.opened (priv : VfQueues) (k : VfKnown) : VfKnown :=
  { k with
    free := fun _ => False
    facts := fun e => (k.Empty → ∀ slot q, e slot = some q → VfMade priv slot q) ∧ VfOpened priv e
    tight := k.tight ∧ k.Empty
    on := ⟨false, true, true, true⟩ }

namespace VfNetdev

/-- Whatever bit is written, the entries stay as they have been made. -/
theorem made_update {priv : VfQueues} {e : VfSlot → Option VfQueue} {slot : VfSlot} {q : VfQueue} {f : VfQueue → VfQueue}
    (f_made : ∀ q, VfMade priv slot q → VfMade priv slot (f q)) (made : ∀ slot q, e slot = some q → VfMade priv slot q)
    (here : e slot = some q) :
    ∀ other q', Function.update e slot (some (f q)) other = some q' → VfMade priv other q' := by
  intro other q' there
  by_cases same : other = slot
  · subst same
    cases (Function.update_self other (some (f q)) e).symm.trans there
    exact f_made q (made other q here)
  · rw [Function.update_of_ne same] at there
    exact made other q' there

/-- Configured queues stay configured when a bit is written. -/
theorem configured_update {e : VfSlot → Option VfQueue} {slot : VfSlot} {q : VfQueue} {f : VfQueue → VfQueue} {mk : Nat → VfSlot}
    {count : Nat} (keeps : q.configured = true → (f q).configured = true) (here : e slot = some q)
    (all : ∀ qid < count, ∃ q, e (mk qid) = some q ∧ q.configured = true) :
    ∀ qid < count, ∃ q', Function.update e slot (some (f q)) (mk qid) = some q' ∧ q'.configured = true := by
  intro qid below
  rcases all qid below with ⟨q', there, bit⟩
  by_cases same : mk qid = slot
  · rw [same] at there
    cases here.symm.trans there
    exact ⟨f q, by rw [same, Function.update_self], keeps bit⟩
  · exact ⟨q', by rw [Function.update_of_ne same, there], bit⟩

theorem txCleanWork_triple (on : Bool) :
    vfContract.Triple (VfAt slots k.rest) (.modify (fun s => { s with txCleanWork := on }) : Program VfNetdev VfInput Unit)
      fun _ => VfAt slots { k with on := { k.on with txCleanWork := on } }.rest :=
  VfAt.modify fun _ at_ =>
    ⟨at_.switch rfl { k.on with txCleanWork := on } (fun up => up) (fun napi => napi) at_.rxPollWork (fun now => now),
      rfl, Iff.rfl⟩

theorem rxPollWork_triple (on : Bool) :
    vfContract.Triple (VfAt slots k.rest) (.modify (fun s => { s with rxPollWork := on }) : Program VfNetdev VfInput Unit)
      fun _ => VfAt slots { k with on := { k.on with rxPollWork := on } }.rest :=
  VfAt.modify fun _ at_ =>
    ⟨at_.switch rfl { k.on with rxPollWork := on } (fun up => up) (fun napi => napi) (fun now => now) at_.txCleanWork,
      rfl, Iff.rfl⟩

theorem onicVfOpenNetdev_triple {priv : VfQueues} (few : VfFew (vfSlots priv)) (vectors : priv.numQVectors ≠ 0)
    (off : k.on = .off) (away : k.caller ≠ .stopping) :
    vfContract.Triple (VfAt (vfSlots priv) k.rest) (onicVfOpenNetdev priv)
      fun err => VfAt (vfSlots priv) (VfKnown.after err (k.opened priv) k.undone).rest := by
  let made : VfKnown := { k with
    facts := fun e => k.Empty → ∀ slot q, e slot = some q → VfMade priv slot q
    tight := k.tight ∧ k.Empty }
  have closing (known : VfKnown) (same : known = { made with free := known.free, facts := known.facts })
      (may : ∀ slot ∈ vfSlots priv, known.free slot) (err : Int) (failed : err ≠ 0) :
      vfContract.Triple (VfAt (vfSlots priv) known.rest) (do onicVfRingsClear; .done err)
        fun err => VfAt (vfSlots priv) (VfKnown.after err (k.opened priv) k.undone).rest := by
    apply Contract.Triple.bind (onicVfRingsClear_triple few (by rw [same]; exact off) may)
    intro _
    apply VfAt.finish
    intro s at_
    rw [VfKnown.after_err failed]
    have undone : k.undone = { known.closed with free := fun _ => False } := by rw [same]; rfl
    rw [undone]
    exact at_.weaken rfl rfl (fun _ none => none.elim) at_.facts id
  apply Contract.Triple.bind (onicVfRingsInit_triple few vectors off)
  intro err
  by_cases ok : err = 0
  · subst ok
    rw [if_neg (by simp), VfKnown.after_zero]
    apply Contract.Triple.bind (M := fun err => VfAt (vfSlots priv)
      (VfKnown.after err (contextsConfigured .tx priv.numTxQueues made) (unconfigured .tx priv.numTxQueues made)).rest)
    · apply Contract.Triple.from_pre (VfAt (vfSlots priv) made.rest)
      · intro s _ at_
        exact at_.weaken rfl rfl at_.free (fun empty slot q here => .fresh (at_.facts empty slot q here).2) id
      · apply contextsInit_triple (k := made) .tx priv.numTxQueues away
        intro e slot q known here empty
        exact made_update (fun q made => made.setConfigured true) (known empty) here
    intro err
    by_cases ok : err = 0
    · subst ok
      let txs : VfKnown := contextsConfigured .tx priv.numTxQueues made
      rw [if_neg (by simp), VfKnown.after_zero]
      apply Contract.Triple.bind (M := fun err => VfAt (vfSlots priv)
        (VfKnown.after err (contextsConfigured .rx priv.numRxQueues txs) (unconfigured .rx priv.numRxQueues txs)).rest)
      · apply contextsInit_triple (k := txs) .rx priv.numRxQueues away
        intro e slot q known here
        refine ⟨fun empty => made_update (fun q made => made.setConfigured true) (known.1 empty) here, ?_⟩
        exact configured_update (fun _ => VfQueue.setConfigured_configured ..) here known.2
      intro err
      by_cases ok : err = 0
      · subst ok
        let rxs : VfKnown := contextsConfigured .rx priv.numRxQueues txs
        rw [if_neg (by simp), VfKnown.after_zero]
        apply Contract.Triple.bind (onicVfRxDatapathInit_triple (k := rxs) off ?_)
        · intro err
          by_cases ok : err = 0
          · subst ok
            rw [if_neg (by simp), VfKnown.after_zero]
            apply Contract.Triple.bind (txCleanWork_triple true)
            intro _
            apply Contract.Triple.bind (rxPollWork_triple true)
            intro _
            apply VfAt.finish
            intro s at_
            rw [VfKnown.after_zero]
            have facts : (k.opened priv).facts s.at_ := by
              rcases at_.facts with ⟨⟨⟨known, tx⟩, rx⟩, -, on⟩
              refine ⟨known, ⟨tx, fun qid below => ?_⟩⟩
              rcases rx qid below with ⟨q, here, bit⟩
              rcases on qid below with ⟨q', there, enabled⟩
              cases here.symm.trans there
              exact ⟨q, here, bit, enabled⟩
            have same : k.opened priv = { rxs with
                facts := (k.opened priv).facts
                on := { k.on with napi := true, txCleanWork := true, rxPollWork := true } } := by
              rw [off]
              rfl
            rw [same]
            exact at_.weaken rfl rfl at_.free facts id
          · rw [if_pos ok, VfKnown.after_err ok]
            apply Contract.Triple.bind (onicVfRxContextsClear_triple priv)
            intro _
            apply Contract.Triple.bind (onicVfTxContextsClear_triple priv)
            intro _
            refine closing _ (by rfl) (fun slot here => ?_) err ok
            rcases mem_vfSlots.mp here with tx | rx
            · exact .inr ⟨tx, .inr away⟩
            · exact .inl (.inr ⟨rx, .inr away⟩)
        · intro e slot q known here
          have keeps (bit : q.configured = true) : (q.setNapiEnabled true).configured = true := by
            rw [VfQueue.setNapiEnabled_configured]
            exact bit
          refine ⟨⟨fun empty => ?_, ?_⟩, ?_⟩
          · exact made_update (fun q made => made.setNapiEnabled true) (known.1.1 empty) here
          · exact configured_update keeps here known.1.2
          · exact configured_update keeps here known.2
      · rw [if_pos ok, VfKnown.after_err ok]
        apply Contract.Triple.bind (onicVfTxContextsClear_triple priv)
        intro _
        refine closing _ (by rfl) (fun slot here => ?_) err ok
        rcases mem_vfSlots.mp here with tx | rx
        · exact .inr ⟨tx, .inr away⟩
        · exact .inl rx
    · rw [if_pos ok, VfKnown.after_err ok]
      apply Contract.Triple.bind (checkRetained_triple few)
      intro _
      exact closing _ (by rfl) (fun _ _ => True.intro) err ok
  · rw [if_pos ok, VfKnown.after_err ok]
    apply VfAt.finish
    intro s at_
    rw [VfKnown.after_err ok]
    exact at_

end VfNetdev

/-- After a stop; the entries are not known where the rings are retained. -/
def VfKnown.stopped (facts : (VfSlot → Option VfQueue) → Prop) (k : VfKnown) : VfKnown :=
  { k with free := fun _ => False, facts := facts, on := .off }

/-- All entries are NULL. -/
def allNull (e : VfSlot → Option VfQueue) : Prop := ∀ slot, e slot = none

namespace VfNetdev

/-- Works and instances are stopped. -/
theorem quiesce_triple (priv : VfQueues) (down : k.on.up = false) :
    vfContract.Triple (VfAt (vfSlots priv) k.rest)
      (do onicVfRxPollWorkStop; onicVfTxCleanWorkStop; onicVfRxDatapathClear priv)
      fun _ => VfAt (vfSlots priv) { k with facts := fun _ => True, on := .off }.rest := by
  apply Contract.Triple.bind (rxPollWork_triple false)
  intro _
  apply Contract.Triple.bind (txCleanWork_triple false)
  intro _
  apply Contract.Triple.conseq (onicVfRxDatapathClear_triple priv) fun _ _ at_ => at_
  intro _ s _ at_
  have same : napiOff { { k with on := { k.on with rxPollWork := false } } with
      on := { k.on with rxPollWork := false, txCleanWork := false } } = { k with facts := fun _ => True, on := .off } := by
    simp only [napiOff, down]
    rfl
  rw [same] at at_
  exact at_

theorem onicVfStopNetdev_triple {priv : VfQueues} (few : VfFew (vfSlots priv)) (down : k.on.up = false) :
    vfContract.Triple (VfAt (vfSlots priv) k.rest) (onicVfStopNetdev priv)
      fun err => VfAt (vfSlots priv) (VfKnown.after err (k.stopped allNull) (k.stopped fun _ => True)).rest := by
  let quiet : VfKnown := { k with facts := fun _ => True, on := .off }
  have retained (known : VfKnown) (same : known = { quiet with free := known.free }) (err : Int) (failed : err ≠ 0) :
      vfContract.Triple (VfAt (vfSlots priv) known.rest) (.done err : Program VfNetdev VfInput Int)
        fun err => VfAt (vfSlots priv) (VfKnown.after err (k.stopped allNull) (k.stopped fun _ => True)).rest := by
    apply VfAt.finish
    intro s at_
    rw [VfKnown.after_err failed]
    rw [same] at at_
    exact at_.weaken rfl rfl (fun _ none => none.elim) True.intro id
  have whole : onicVfStopNetdev priv = ((do onicVfRxPollWorkStop; onicVfTxCleanWorkStop; onicVfRxDatapathClear priv) >>= fun _ => do
      let err ← onicVfRxContextsClear priv
      if err ≠ 0 then .done err
      else
        let err ← onicVfTxContextsClear priv
        if err ≠ 0 then .done err
        else
          onicVfRingsClear
          .done 0) := by
    simp only [onicVfStopNetdev, Program.bind_assoc]
  rw [whole]
  apply Contract.Triple.bind (quiesce_triple priv down)
  intro _
  apply Contract.Triple.bind (onicVfRxContextsClear_triple priv)
  intro err
  by_cases ok : err = 0
  · subst ok
    rw [if_neg (by simp)]
    apply Contract.Triple.bind (onicVfTxContextsClear_triple priv)
    intro err
    by_cases ok : err = 0
    · subst ok
      rw [if_neg (by simp)]
      apply Contract.Triple.bind (onicVfRingsClear_triple few (by rfl) fun slot here => ?_)
      · intro _
        apply VfAt.finish
        intro s at_
        rw [VfKnown.after_zero]
        exact at_.weaken rfl rfl (fun _ none => none.elim) at_.facts id
      · rcases mem_vfSlots.mp here with tx | rx
        · exact .inr ⟨tx, .inl rfl⟩
        · exact .inl (.inr ⟨rx, .inl rfl⟩)
    · rw [if_pos ok]
      exact retained _ (by rfl) err ok
  · rw [if_pos ok]
    exact retained _ (by rfl) err ok

/-- The stack notes what it does. -/
theorem call_triple {f : VfNetdev → VfNetdev} (running : Bool) (caller : VfCaller) (on : VfOn) (up : VfNetdev → Bool)
    (is : ∀ s, s.running = k.running → s.caller = k.caller → f s = { s with running := running, caller := caller, up := up s })
    (same : on = { k.on with up := on.up }) (may : ∀ s, (s.up = true → k.on.up = true) → up s = true → on.up = true) :
    vfContract.Triple (VfAt slots k.rest) (.modify f : Program VfNetdev VfInput Unit)
      fun _ => VfAt slots { k with running := running, caller := caller, on := on }.rest := by
  apply VfAt.modify
  intro s at_
  rw [is s at_.running at_.caller]
  refine ⟨?_, rfl, Iff.rfl⟩
  refine { at_ with
    running := rfl
    caller := rfl
    up := may s at_.up
    rxPollWork := ?_
    txCleanWork := ?_
    napi := ?_
    still := fun away => absurd rfl away }
  · rw [same]
    exact at_.rxPollWork
  · rw [same]
    exact at_.txCleanWork
  · rw [same]
    exact at_.napi

end VfNetdev

/-- While a call runs. -/
def VfKnown.calling (running : Bool) (caller : VfCaller) (k : VfKnown) : VfKnown :=
  { k with running := running, caller := caller }

/-- After `ndo_open`. -/
def VfKnown.up (priv : VfQueues) (k : VfKnown) : VfKnown :=
  { (k.calling true .opening).opened priv with on := ⟨true, true, true, true⟩ }

/-- After `ndo_open` has failed. -/
def VfKnown.down (k : VfKnown) : VfKnown := (k.calling false .opening).undone

namespace VfNetdev

theorem devOpen_triple {priv : VfQueues} (few : VfFew (vfSlots priv)) (vectors : priv.numQVectors ≠ 0) (off : k.on = .off) :
    vfContract.Triple (VfAt (vfSlots priv) k.rest) (devOpen priv)
      fun _ s => VfAt (vfSlots priv) (k.up priv).rest s ∨ VfAt (vfSlots priv) k.down.rest s := by
  apply Contract.Triple.bind (M := fun _ => VfAt (vfSlots priv) (k.calling true .opening).rest)
  · exact call_triple true .opening k.on (fun s => s.up) (fun _ _ _ => rfl) rfl fun _ may => may
  intro _
  apply Contract.Triple.bind (onicVfOpenNetdev_triple (k := k.calling true .opening) few vectors off nofun)
  intro err
  by_cases ok : err = 0
  · subst ok
    rw [if_neg (by simp), VfKnown.after_zero]
    apply Contract.Triple.conseq (call_triple true .opening ⟨true, true, true, true⟩ (fun _ => true) (fun s running caller => ?_) rfl
      fun _ _ _ => rfl) fun _ _ at_ => at_
    · exact fun _ s _ at_ => .inl at_
    · rw [show s.running = true from running, show s.caller = .opening from caller]
  · rw [if_pos ok, VfKnown.after_err ok]
    let undone : VfKnown := (k.calling true .opening).undone
    apply Contract.Triple.conseq (call_triple (k := undone) false .opening k.on (fun s => s.up)
      (fun s running caller => ?_) rfl fun _ may => may) fun _ _ at_ => at_
    · exact fun _ s _ at_ => .inr at_
    · rw [show s.caller = .opening from caller]

theorem devClose_triple {priv : VfQueues} (few : VfFew (vfSlots priv)) :
    vfContract.Triple (VfAt (vfSlots priv) k.rest) (devClose priv)
      fun _ => VfAt (vfSlots priv) ((k.calling false .stopping).stopped fun _ => True).rest := by
  apply Contract.Triple.bind (M := fun _ => VfAt (vfSlots priv)
    { k.calling false .stopping with on := { k.on with up := false } }.rest)
  · exact call_triple false .stopping { k.on with up := false } (fun _ => false) (fun _ _ _ => rfl) rfl fun _ _ none => none
  intro _
  apply Contract.Triple.bind (onicVfStopNetdev_triple few (by rfl))
  intro err
  apply VfAt.finish
  intro s at_
  rw [VfKnown.after] at at_
  split at at_
  · exact at_.weaken rfl rfl at_.free True.intro id
  · exact at_

theorem onicVfRemove_triple {priv : VfQueues} (few : VfFew (vfSlots priv)) (idle : k.running = false → k.on = .off) :
    vfContract.Triple (VfAt (vfSlots priv) k.rest) (onicVfRemove priv)
      fun _ => VfAt (vfSlots priv) ((k.calling false .removing).stopped allNull).rest := by
  have rest (known : VfKnown) (running : known.running = false) (tight : known.tight = k.tight)
      (lost : known.lost = k.lost) (off : known.on = .off) :
      vfContract.Triple (VfAt (vfSlots priv) known.rest)
        (do
          .modify fun s => { s with caller := .removing }
          onicVfRxPollWorkStop
          onicVfTxCleanWorkStop
          onicVfRxDatapathClear priv
          let _ ← onicVfRxContextsClear priv
          let _ ← onicVfTxContextsClear priv
          onicVfRingsClear
          .modify fun s => { s with qIrq := false })
        fun _ => VfAt (vfSlots priv) ((k.calling false .removing).stopped allNull).rest := by
    apply Contract.Triple.bind (M := fun _ => VfAt (vfSlots priv) (known.calling false .removing).rest)
    · exact call_triple false .removing known.on (fun s => s.up) (fun s now _ => by rw [running] at now; rw [← now]) rfl
        fun _ may => may
    intro _
    have whole : (do
        onicVfRxPollWorkStop
        onicVfTxCleanWorkStop
        onicVfRxDatapathClear priv
        let _ ← onicVfRxContextsClear priv
        let _ ← onicVfTxContextsClear priv
        onicVfRingsClear
        .modify fun s => { s with qIrq := false } : Program VfNetdev VfInput Unit) =
        ((do onicVfRxPollWorkStop; onicVfTxCleanWorkStop; onicVfRxDatapathClear priv) >>= fun _ => do
          let _ ← onicVfRxContextsClear priv
          let _ ← onicVfTxContextsClear priv
          onicVfRingsClear
          .modify fun s => { s with qIrq := false }) := by
      simp only [Program.bind_assoc]
    rw [whole]
    apply Contract.Triple.bind (quiesce_triple (k := known.calling false .removing) priv (by rw [VfKnown.calling, off]; rfl))
    intro _
    apply Contract.Triple.bind (onicVfRxContextsClear_triple priv)
    intro _
    apply Contract.Triple.bind (onicVfTxContextsClear_triple priv)
    intro _
    apply Contract.Triple.bind (onicVfRingsClear_triple few (by rfl) fun slot here => ?_)
    · intro _
      apply VfAt.modify
      intro s at_
      refine ⟨?_, rfl, Iff.rfl⟩
      have closed := at_.weaken (w := { known.calling false .removing with
        free := fun _ => False, facts := allNull, on := .off }.rest) rfl rfl (fun _ => False.elim) at_.facts id
      have same : (k.calling false .removing).stopped allNull =
          { known.calling false .removing with free := fun _ => False, facts := allNull, on := .off } := by
        rw [VfKnown.stopped, VfKnown.calling, ← tight, ← lost]
        rfl
      rw [same]
      exact { closed with }
    · rcases mem_vfSlots.mp here with tx | rx
      · exact .inr ⟨tx, .inr nofun⟩
      · exact .inl (.inr ⟨rx, .inr nofun⟩)
  apply Contract.Triple.bind (M := fun b s => b = k.running ∧ VfAt (vfSlots priv) k.rest s)
  · apply Contract.Triple.read (VfAt.stable _ _) fun b => (VfAt.stable _ _).pure_and
    exact fun s _ _ at_ => ⟨at_.running, at_⟩
  · intro b
    apply Contract.Triple.pure_pre
    intro same
    subst same
    cases running : k.running with
    | false =>
      rw [if_neg (by simp)]
      exact rest k running rfl rfl (idle running)
    | true =>
      rw [if_pos rfl]
      apply Contract.Triple.bind (devClose_triple few)
      exact fun _ => rest _ (by rfl) (by rfl) (by rfl) (by rfl)

end VfNetdev

end OpenNic
