import OpenNic.Rx.VfPages
import OpenNic.Vf.Netdev

namespace OpenNic

/-- Where the RX ring of one queue is in its life. -/
inductive RxStage
  | closed
  | filling (id n : Nat)
  | ready (id : Nat)
  | allocated (id : Nat)
  | releasing (id : Nat)
  | emptied (id : Nat)

/-- All pages of all other rings have gone where they belong. -/
def OthersSettled (id : Nat) (s : VfNetdev) : Prop := ∀ j, j ≠ id → RxSettled (s.ring j)

def RxStage.Holds (qid : Nat) (s : VfNetdev) : RxStage → Prop
  | .closed => s.queue (.rx qid) = none ∧ ∀ j, RxSettled (s.ring j)
  | .filling id n => s.queue (.rx qid) = none ∧ OthersSettled id s ∧ RxPrivate n (s.ring id)
  | .ready id => s.queue (.rx qid) = none ∧ OthersSettled id s ∧ RxFull (s.ring id) ∧ PagesKept [] (s.ring id)
  | .allocated id => (s.queue (.rx qid) = some id ∧ (s.obj id).id = id ∧ OthersSettled id s) ∧
      RxFull (s.ring id) ∧ PagesKept [] (s.ring id)
  | .releasing id => s.point ≠ .elsewhere ∧ s.queue (.rx qid) = some id ∧ OthersSettled id s ∧ RxFull (s.ring id) ∧
      PagesKept [] (s.ring id)
  | .emptied id => s.point ≠ .elsewhere ∧ s.queue (.rx qid) = some id ∧ ∀ j, RxSettled (s.ring j)

/-- While a ring is published and nobody has begun to free it, its slots and descriptors are in
    step; between two accesses of the driver only completions are written. -/
def rxRing (qid : Nat) : Contract VfNetdev where
  ok _ := True
  inv s := ∀ id, s.queue (.rx qid) = some id → s.point = .elsewhere → RxOwned (s.ring id)
  rely s s' := s' = { s with ring := s'.ring } ∧ ∀ id, rxPages.rely (s.ring id) (s'.ring id)
  guarantee _ _ := True
  rely_refl _ := ⟨rfl, fun id => rxPages.rely_refl _⟩
  rely_trans {a b c} first second := by
    refine ⟨?_, fun id => rxPages.rely_trans (first.2 id) (second.2 id)⟩
    rw [second.1, first.1]
  guarantee_refl _ := trivial

section

variable {qid : Nat}

theorem RxSettled.completions {s s' : VfNetdev} {j : Nat} (settled : RxSettled (s.ring j)) (rely : (rxRing qid).rely s s') :
    RxSettled (s'.ring j) := by
  rw [rely.2 j]
  exact settled.same rfl rfl rfl rfl

/-- What is said of the entry, of its queue and of all other rings. -/
theorem entry_stable (qid id : Nat) (P : Option Nat → VfQueue → Prop) :
    (rxRing qid).Stable fun s => P (s.queue (.rx qid)) (s.obj id) ∧ OthersSettled id s := by
  rintro s s' ⟨entry, others⟩ rely _ _
  have settled := fun j other => (others j other).completions rely
  rcases rely with ⟨frame, -⟩
  rw [frame] at settled ⊢
  exact ⟨entry, settled⟩

/-- A stage says nothing about the completions. -/
theorem RxStage.Holds.completions {stage : RxStage} {s s' : VfNetdev} (holds : stage.Holds qid s)
    (rely : (rxRing qid).rely s s') : stage.Holds qid s' := by
  have settled (j : Nat) (here : RxSettled (s.ring j)) := here.completions rely
  rcases rely with ⟨frame, rings⟩
  have queue : s'.queue = s.queue := by rw [frame]
  have point : s'.point = s.point := by rw [frame]
  have full (j : Nat) (here : RxFull (s.ring j)) : RxFull (s'.ring j) := by
    rw [rings j]
    exact here.same rfl rfl rfl rfl
  have kept (j : Nat) (here : PagesKept [] (s.ring j)) : PagesKept [] (s'.ring j) := by
    rw [rings j]
    exact here.same rfl rfl rfl rfl
  have filling (n j : Nat) (here : RxFilling n (s.ring j)) : RxFilling n (s'.ring j) := by
    rw [rings j]
    exact here.same rfl rfl
  have obj : s'.obj = s.obj := by rw [frame]
  cases stage with
  | closed => exact ⟨by rw [queue, holds.1], fun j => settled j (holds.2 j)⟩
  | filling id n =>
    rcases holds with ⟨none, others, priv, pages⟩
    exact ⟨by rw [queue, none], fun j other => settled j (others j other), filling n id priv, kept id pages⟩
  | ready id =>
    rcases holds with ⟨none, others, slots, pages⟩
    exact ⟨by rw [queue, none], fun j other => settled j (others j other), full id slots, kept id pages⟩
  | allocated id =>
    rcases holds with ⟨⟨some, named, others⟩, slots, pages⟩
    exact ⟨⟨by rw [queue, some], by rwa [obj], fun j other => settled j (others j other)⟩, full id slots, kept id pages⟩
  | releasing id =>
    rcases holds with ⟨away, some, others, slots, pages⟩
    exact ⟨by rwa [point], by rw [queue, some], fun j other => settled j (others j other), full id slots, kept id pages⟩
  | emptied id =>
    rcases holds with ⟨away, some, all⟩
    exact ⟨by rwa [point], by rw [queue, some], fun j => settled j (all j)⟩

theorem RxStage.Holds.stable (stage : RxStage) : (rxRing qid).Stable (stage.Holds qid) :=
  fun _ _ holds rely _ _ => holds.completions rely

/-- What a stage says of the invariant. -/
theorem RxStage.Holds.owned {stage : RxStage} {s : VfNetdev} (holds : stage.Holds qid s) : (rxRing qid).inv s := by
  intro id here elsewhere
  cases stage with
  | closed => simp [holds.1] at here
  | filling _ _ => simp [holds.1] at here
  | ready _ => simp [holds.1] at here
  | allocated _ =>
    rcases holds with ⟨⟨some, -, -⟩, full, kept⟩
    rw [some] at here
    cases here
    exact ⟨full, [], kept⟩
  | releasing _ => exact absurd elsewhere holds.1
  | emptied _ => exact absurd elsewhere holds.1

/-- An access that leaves the rings and the entry as they are. -/
def Aside (s s' : VfNetdev) : Prop :=
  s'.queue = s.queue ∧ s'.obj = s.obj ∧ s'.point = s.point ∧ s'.ring = s.ring

theorem RxStage.Holds.aside {stage : RxStage} {s s' : VfNetdev} (holds : stage.Holds qid s) (aside : Aside s s') :
    stage.Holds qid s' := by
  rcases aside with ⟨queue, obj, point, ring⟩
  cases stage <;> simpa only [RxStage.Holds, OthersSettled, queue, obj, point, ring] using holds

theorem stage_access {α : Type} {stage : RxStage} {act : VfInput → VfNetdev → Option (α × VfNetdev)} (next : α → RxStage)
    (step : ∀ i s a s', stage.Holds qid s → act i s = some (a, s') → (next a).Holds qid s') :
    (rxRing qid).Triple (stage.Holds qid) (.access act) fun a => (next a).Holds qid := by
  apply Contract.Triple.access (RxStage.Holds.stable stage) fun a => RxStage.Holds.stable (next a)
  intro s i a s' _ _ holds taken _
  have after := step i s a s' holds taken
  exact ⟨after.owned, trivial, after⟩

theorem stage_modify {stage : RxStage} {f : VfNetdev → VfNetdev} (next : RxStage)
    (step : ∀ s, stage.Holds qid s → next.Holds qid (f s)) :
    (rxRing qid).Triple (stage.Holds qid) (.modify f : Program VfNetdev VfInput Unit) fun _ => next.Holds qid := by
  apply stage_access fun _ => next
  intro _ s _ s' holds taken
  cases taken
  exact step s holds

theorem stage_done {α : Type} (stage : RxStage) (a : α) :
    (rxRing qid).Triple (stage.Holds qid) (.done a : Program VfNetdev VfInput α) fun _ => stage.Holds qid :=
  .done (RxStage.Holds.stable stage) fun _ _ holds => holds

theorem freeAll_stage (stage : RxStage) (ids : List Nat) :
    (rxRing qid).Triple (stage.Holds qid) (VfNetdev.freeAll ids) fun _ => stage.Holds qid := by
  induction ids with
  | nil => exact stage_done stage ()
  | cons id rest ih => exact .bind (stage_modify stage fun _ holds => holds.aside ⟨rfl, rfl, rfl, rfl⟩) fun _ => ih

theorem kalloc_stage (stage : RxStage) :
    (rxRing qid).Triple (stage.Holds qid) VfNetdev.kalloc fun _ => stage.Holds qid := by
  apply stage_access fun _ => stage
  intro input s a s' holds taken
  split at taken
  · cases taken
    exact holds.aside ⟨rfl, rfl, rfl, rfl⟩
  · cases taken
    exact holds

theorem dmaAllocCoherent_stage (stage : RxStage) :
    (rxRing qid).Triple (stage.Holds qid) VfNetdev.dmaAllocCoherent fun _ => stage.Holds qid := by
  apply stage_access fun _ => stage
  intro input s a s' holds taken
  split at taken
  · cases taken
    exact holds.aside ⟨rfl, rfl, rfl, rfl⟩
  · cases taken
    exact holds

theorem createRxPagePool_stage (stage : RxStage) :
    (rxRing qid).Triple (stage.Holds qid) VfNetdev.onicVfCreateRxPagePool fun _ => stage.Holds qid := by
  apply stage_access fun _ => stage
  intro input s a s' holds taken
  split at taken
  · cases taken
    exact holds.aside ⟨rfl, rfl, rfl, rfl⟩
  · cases taken
    exact holds

/-- A program on the ring of one queue, with what it leaves as it is. -/
theorem onRing_triple {α : Type} {id : Nat} {p : Program RxQueue RxInput α} {P : RxQueue → Prop} {post : α → RxQueue → Prop}
    {F : VfNetdev → Prop} (triple : rxPages.Triple P p post) (stable : (rxRing qid).Stable F)
    (frame : ∀ q s, F s → F (s.setRing id q)) :
    (rxRing qid).Triple (fun s => F s ∧ P (s.ring id)) (VfNetdev.onRing id p) fun a s => post a (s.ring id) ∧ F s := by
  intro s _ _ holds
  refine Contract.wp_lift_frame (C := rxPages) (R := fun _ _ => True) (fun q s => ?_) (fun _ _ => trivial)
    (fun _ _ _ => trivial) (fun s s' rely => rely.2 id) (.trivial _) stable (fun s q _ owned held _ _ step _ => ?_) holds.1
    (Contract.wp_comap (triple _ trivial trivial holds.2) VfInput.rx)
  · exact Function.update_self ..
  · refine ⟨fun j here elsewhere => ?_, trivial, frame q s held⟩
    have before := owned j here elsewhere
    by_cases same : j = id
    · subst same
      have after := step before
      simpa [VfNetdev.setRing] using after
    · simpa [VfNetdev.setRing, Function.update_of_ne same] using before

theorem othersSettled_setRing {id : Nat} {s : VfNetdev} (others : OthersSettled id s) (q : RxQueue) :
    OthersSettled id (s.setRing id q) := by
  intro j other
  have same : (s.setRing id q).ring j = s.ring j := Function.update_of_ne other _ _
  rw [same]
  exact others j other

/-- The last page of a ring is settled. -/
theorem settled_setRing {id : Nat} {s : VfNetdev} {q : RxQueue} (others : OthersSettled id s) (settled : RxSettled q) (j : Nat) :
    RxSettled ((s.setRing id q).ring j) := by
  by_cases here : j = id
  · subst here
    have same : (s.setRing j q).ring j = q := Function.update_self ..
    rwa [same]
  · exact othersSettled_setRing others q j here

theorem onicVfFillRxPages_stage (id : Nat) :
    (rxRing qid).Triple ((RxStage.filling id 0).Holds qid)
      (VfNetdev.onRing id (onicVfFillRxPages 0 (onicVfRxRingCount - 1)))
      fun filled s => ∃ n, (filled = true → n = vfRxSlots) ∧ (RxStage.filling id n).Holds qid s := by
  have fill := onicVfFillRxPages_pages 0 (onicVfRxRingCount - 1) (by decide)
  have frame := entry_stable qid id fun entry _ => entry = none
  have lifted := onRing_triple fill frame fun q s holds => ⟨holds.1, othersSettled_setRing holds.2 q⟩
  apply lifted.conseq
  · intro s _ holds
    exact ⟨⟨holds.1, holds.2.1⟩, holds.2.2⟩
  · rintro filled s _ ⟨⟨n, -, all, priv⟩, none, others⟩
    exact ⟨n, fun ok => all ok, none, others, priv⟩

/-- A poll, with whatever it finds. -/
theorem onicVfRxPoll_stage (id budget : Nat) :
    (rxRing qid).Triple ((RxStage.allocated id).Holds qid) (VfNetdev.onRing id (onicVfRxPoll budget))
      fun _ => (RxStage.allocated id).Holds qid := by
  have frame := entry_stable qid id fun entry q => entry = some id ∧ q.id = id
  have lifted := onRing_triple (onicVfRxPoll_pages budget) frame
    fun q s holds => ⟨holds.1, othersSettled_setRing holds.2 q⟩
  apply lifted.conseq
  · rintro s _ ⟨⟨some, named, others⟩, ring⟩
    exact ⟨⟨⟨some, named⟩, others⟩, ring⟩
  · rintro _ s _ ⟨ring, ⟨some, named⟩, others⟩
    exact ⟨⟨some, named, others⟩, ring⟩

theorem RxPrivate.settled {n : Nat} {q : RxQueue} (priv : RxPrivate n q) : RxSettled q.freePages :=
  priv.2.freePages priv.1.count

theorem onicVfFreeRxPages_private (id n : Nat) (buffers : List Nat) :
    (rxRing qid).Triple ((RxStage.filling id n).Holds qid) (VfNetdev.onicVfFreeRxPages id buffers)
      fun _ => RxStage.closed.Holds qid := by
  apply stage_modify .closed
  rintro s ⟨none, others, priv⟩
  exact ⟨none, settled_setRing others priv.settled⟩

theorem onicVfFreeRxPages_releasing (id : Nat) (buffers : List Nat) :
    (rxRing qid).Triple ((RxStage.releasing id).Holds qid) (VfNetdev.onicVfFreeRxPages id buffers)
      fun _ => (RxStage.emptied id).Holds qid := by
  apply stage_modify (.emptied id)
  rintro s ⟨away, some, others, full, kept⟩
  exact ⟨away, some, settled_setRing others (kept.freePages full.count)⟩

/-- Nothing is in the slots of a ring that has just been allocated. -/
theorem filling_closed {id : Nat} {s : VfNetdev} (holds : (RxStage.filling id 0).Holds qid s) : RxStage.closed.Holds qid s := by
  rcases holds with ⟨none, others, filling, kept⟩
  have slots : (s.ring id).slotPages = [] := List.filterMap_eq_nil_iff.mpr fun i _ => filling.rest i (Nat.zero_le i)
  refine ⟨none, fun j => ?_⟩
  by_cases here : j = id
  · subst here
    exact kept.settled slots
  · exact others j here

/-- A failing exit: what is allocated is freed, and an error returned. -/
theorem freeAll_closed (qid : Nat) (ids : List Nat) (err : Int) :
    (rxRing qid).Triple (RxStage.closed.Holds qid) (do VfNetdev.freeAll ids; .done err)
      fun _ s => RxStage.closed.Holds qid s ∨ ∃ id, (RxStage.allocated id).Holds qid s := by
  refine .bind (freeAll_stage .closed ids) fun _ => ?_
  exact .done (RxStage.Holds.stable .closed) fun _ _ holds => .inl holds

theorem setRing_stage (id : Nat) :
    (rxRing qid).Triple (RxStage.closed.Holds qid)
      (.modify (VfNetdev.setRing id .zeroed) : Program VfNetdev VfInput Unit) fun _ => (RxStage.filling id 0).Holds qid := by
  apply stage_modify (.filling id 0)
  rintro s ⟨none, all⟩
  have same : (s.setRing id .zeroed).ring id = .zeroed := Function.update_self ..
  refine ⟨none, othersSettled_setRing (fun j _ => all j) _, ?_⟩
  rw [same]
  exact ⟨.zeroed, .zeroed⟩

theorem initCmplRing_stage (id : Nat) :
    (rxRing qid).Triple ((RxStage.filling id vfRxSlots).Holds qid)
      (.modify fun s => s.setRing id (s.ring id).initCmplRing : Program VfNetdev VfInput Unit)
      fun _ => (RxStage.ready id).Holds qid := by
  apply stage_modify (.ready id)
  rintro s ⟨none, others, filling, kept⟩
  have same : (s.setRing id (s.ring id).initCmplRing).ring id = (s.ring id).initCmplRing := Function.update_self ..
  refine ⟨none, othersSettled_setRing others _, ?_⟩
  rw [same]
  exact ⟨filling.full, kept.same rfl rfl rfl rfl⟩

theorem publish_stage (priv : VfQueues) (qid id buffer pagePool : Nat) (desc cmpl : DmaMem) :
    (rxRing qid).Triple ((RxStage.ready id).Holds qid)
      (.modify fun s => s.publish (.rx qid)
        (.rx (onicVfRxQueueOf priv qid id buffer pagePool (VfNetdev.slotPages (s.ring id)) desc cmpl)) :
        Program VfNetdev VfInput Unit)
      fun _ => (RxStage.allocated id).Holds qid := by
  apply stage_modify (.allocated id)
  rintro s ⟨-, others, ring⟩
  refine ⟨⟨Function.update_self .., ?_, others⟩, ring⟩
  simp [VfNetdev.publish, VfQueue.id, onicVfRxQueueOf]

theorem onicVfAllocRxRing_stage (priv : VfQueues) :
    (rxRing qid).Triple (RxStage.closed.Holds qid) (VfNetdev.onicVfAllocRxRing priv qid)
      fun _ s => RxStage.closed.Holds qid s ∨ ∃ id, (RxStage.allocated id).Holds qid s := by
  have unfilled (id : Nat) (ids : List Nat) (err : Int) := (freeAll_closed qid ids err).from_pre _
    fun s _ (holds : (RxStage.filling id 0).Holds qid s) => filling_closed holds
  refine .bind (kalloc_stage .closed) fun q => ?_
  cases q with
  | none => exact .done (RxStage.Holds.stable .closed) fun _ _ holds => .inl holds
  | some id =>
    refine .bind (setRing_stage id) fun _ => .bind (dmaAllocCoherent_stage _) fun desc => ?_
    cases desc with
    | none => exact unfilled id _ _
    | some desc =>
      refine .bind (kalloc_stage _) fun buffer => ?_
      cases buffer with
      | none => exact unfilled id _ _
      | some buffer =>
        refine .bind (createRxPagePool_stage _) fun pagePool => ?_
        cases pagePool with
        | error err => exact unfilled id _ _
        | ok pagePool =>
          refine .bind (onicVfFillRxPages_stage id) fun filled => .exists_pre fun n => .pure_pre fun all => ?_
          have unwind (err : Int) : (rxRing qid).Triple ((RxStage.filling id n).Holds qid) (do
              VfNetdev.onicVfFreeRxPages id [pagePool, buffer]
              VfNetdev.freeAll [pagePool, buffer, desc.id, id]
              .done err) fun _ s => RxStage.closed.Holds qid s ∨ ∃ id, (RxStage.allocated id).Holds qid s :=
            .bind (onicVfFreeRxPages_private id n _) fun _ => freeAll_closed qid _ err
          cases filled with
          | false => exact unwind _
          | true =>
            refine .bind (dmaAllocCoherent_stage _) fun cmpl => ?_
            cases cmpl with
            | none => exact unwind 0
            | some cmpl =>
              have published := publish_stage priv qid id buffer pagePool desc cmpl
              refine .bind ((initCmplRing_stage id).from_pre _ fun s _ holds => ?_) fun _ => .bind published fun _ => ?_
              · exact all rfl ▸ holds
              · exact .done (RxStage.Holds.stable _) fun _ _ holds => .inr ⟨id, holds⟩

/-- The two statements that end the freeing of a queue. -/
theorem freeQueue_stage (id : Nat) :
    (rxRing qid).Triple ((RxStage.emptied id).Holds qid) (VfNetdev.freeQueue (.rx qid) id)
      fun _ => RxStage.closed.Holds qid := by
  refine .bind (stage_modify (.emptied id) fun s holds => ?_) fun _ => stage_modify .closed fun s holds => ?_
  · exact ⟨VfPoint.noConfusion, holds.2⟩
  · exact ⟨Function.update_self .., holds.2.2⟩

/-- What reading the entry finds. -/
theorem readQueue_found {P : Option VfQueue → Prop} (stage : RxStage)
    (is : ∀ s : VfNetdev, stage.Holds qid s → P (s.at_ (.rx qid))) :
    (rxRing qid).Triple (stage.Holds qid) (VfNetdev.readQueue (.rx qid)) fun q s => P q ∧ stage.Holds qid s := by
  apply Contract.Triple.access (RxStage.Holds.stable _) fun _ => (RxStage.Holds.stable _).pure_and
  intro s _ q s' _ _ holds taken _
  cases taken
  have aside : Aside s (s.touch (s.queue (.rx qid)).toList) := ⟨rfl, rfl, rfl, rfl⟩
  have after := holds.aside aside
  exact ⟨after.owned, trivial, is s holds, after⟩

theorem onicVfFreeRxRing_closed :
    (rxRing qid).Triple (RxStage.closed.Holds qid) (VfNetdev.onicVfFreeRxRing qid) fun _ => RxStage.closed.Holds qid := by
  have found : (rxRing qid).Triple (RxStage.closed.Holds qid) (VfNetdev.readQueue (.rx qid))
      fun q s => q = none ∧ RxStage.closed.Holds qid s := by
    apply readQueue_found
    intro s holds
    rw [VfCtl.at_, holds.1]
    rfl
  refine .bind found fun q => .pure_pre fun is => ?_
  rw [is]
  exact stage_done .closed ()

theorem onicVfFreeRxRing_stage (id : Nat) :
    (rxRing qid).Triple ((RxStage.allocated id).Holds qid) (VfNetdev.onicVfFreeRxRing qid)
      fun _ => RxStage.closed.Holds qid := by
  have found : (rxRing qid).Triple ((RxStage.allocated id).Holds qid) (VfNetdev.readQueue (.rx qid))
      fun q s => (∃ own, q = some own ∧ own.id = id) ∧ (RxStage.allocated id).Holds qid s := by
    apply readQueue_found
    intro s holds
    refine ⟨s.obj id, ?_, holds.1.2.1⟩
    rw [VfCtl.at_, holds.1.1]
    rfl
  refine .bind found fun q => .pure_pre fun is => ?_
  rcases is with ⟨own, rfl, rfl⟩
  refine .bind (stage_modify (.releasing own.id) fun s holds => ?_) fun _ => ?_
  · exact ⟨VfPoint.noConfusion, holds.1.1, holds.1.2.2, holds.2⟩
  · refine .bind (freeAll_stage _ _) fun _ => .bind (onicVfFreeRxPages_releasing _ _) fun _ => ?_
    exact .bind (freeAll_stage _ _) fun _ => freeQueue_stage own.id

end

/-- The calls for one RX ring, one at a time: the ring is allocated where there is none, polled while
    it is there, and freed. Completions are written whenever the hardware likes. -/
def rxRingRules (priv : VfQueues) (qid : Nat) : Pool.Rules Unit VfNetdev VfInput where
  calls _ s p :=
    (s.queue (.rx qid) = none ∧ p = do let _ ← VfNetdev.onicVfAllocRxRing priv qid; .done ()) ∨
    (∃ id budget, s.queue (.rx qid) = some id ∧ p = do let _ ← VfNetdev.onRing id (onicVfRxPoll budget); .done ()) ∨
    p = VfNetdev.onicVfFreeRxRing qid
  env s s' := ∃ id desc, s' = s.setRing id { s.ring id with cmplRing := { (s.ring id).cmplRing with desc := desc } }

/-- Between two calls: the ring is there, or it is not. -/
def RxIdle (qid : Nat) (s : VfNetdev) : Prop := RxStage.closed.Holds qid s ∨ ∃ id, (RxStage.allocated id).Holds qid s

theorem RxIdle.stable (qid : Nat) : (rxRing qid).Stable (RxIdle qid) := by
  rintro s s' (closed | ⟨id, allocated⟩) rely _ _
  · exact .inl (closed.completions rely)
  · exact .inr ⟨id, allocated.completions rely⟩

theorem rxRingRules_fit (priv : VfQueues) (qid : Nat) :
    Pool.Fits (rxRingRules priv qid) (fun _ => True) (rxRing qid).inv (fun _ => rxRing qid) fun _ => RxIdle qid where
  same_ok _ := rfl
  same_inv _ := rfl
  threads t u apart := absurd rfl apart
  env s s' _ _ inv happens := by
    rcases happens with ⟨id, desc, rfl⟩
    let s' := s.setRing id { s.ring id with cmplRing := { (s.ring id).cmplRing with desc := desc } }
    have rings (j : Nat) : rxPages.rely (s.ring j) (s'.ring j) := by
      by_cases here : j = id
      · subst here
        have now : s'.ring j = { s.ring j with cmplRing := { (s.ring j).cmplRing with desc := desc } } :=
          Function.update_self ..
        rw [now]
        exact rfl
      · have now : s'.ring j = s.ring j := Function.update_of_ne here _ _
        rw [now]
        exact rxPages.rely_refl _
    refine ⟨fun j here elsewhere => ?_, fun _ => ⟨rfl, rings⟩⟩
    rcases inv j here elsewhere with ⟨full, hand, kept⟩
    have now := rings j
    have same : s'.ring j = { s.ring j with cmplRing := { (s.ring j).cmplRing with desc := (s'.ring j).cmplRing.desc } } := now
    rw [same]
    exact ⟨full.same rfl rfl rfl rfl, hand, kept.same rfl rfl rfl rfl⟩
  calls _ s p call _ inv idle := by
    rcases call with ⟨none, rfl⟩ | ⟨id, budget, some, rfl⟩ | rfl
    · rcases idle with closed | ⟨id, allocated⟩
      · exact Contract.Triple.bind (onicVfAllocRxRing_stage priv)
          (fun _ => .done (RxIdle.stable qid) fun _ _ idle => idle) s trivial inv closed
      · simp [allocated.1.1] at none
    · rcases idle with closed | ⟨own, allocated⟩
      · simp [closed.1] at some
      · rw [allocated.1.1] at some
        cases some
        exact Contract.Triple.bind (onicVfRxPoll_stage id budget)
          (fun _ => .done (RxStage.Holds.stable _) fun _ _ idle => Or.inr ⟨id, idle⟩) s trivial inv allocated
    · rcases idle with closed | ⟨id, allocated⟩
      · exact Contract.wp_mono (onicVfFreeRxRing_closed s trivial inv closed) fun _ _ _ _ after => .inl after
      · exact Contract.wp_mono (onicVfFreeRxRing_stage id s trivial inv allocated) fun _ _ _ _ after => .inl after

/-- Of two slots with pages the earlier one's is another page. -/
theorem PagesKept.slots_apart {q : RxQueue} {hand : List RxPage} (kept : PagesKept hand q) {i j : Nat} (before : i < j)
    (small : j < vfRxSlots) {a b : RxPage} (first : (q.buffer i).pg = some a) (second : (q.buffer j).pg = some b) :
    a.id ≠ b.id := by
  have nodup := kept.nodup
  rw [RxQueue.allPages, List.append_assoc, List.append_assoc, List.map_append, List.nodup_append] at nodup
  have slots : (q.slotPages.map RxPage.id).Pairwise (· ≠ ·) := nodup.1
  rw [List.pairwise_map, RxQueue.slotPages, List.pairwise_filterMap, List.pairwise_iff_getElem] at slots
  have apart := slots i j (by rw [List.length_range]; omega) (by rwa [List.length_range]) before
  rw [List.getElem_range, List.getElem_range] at apart
  exact apart a first b second

/-- A page in a slot is not with the stack. -/
theorem PagesKept.slot_not_given {q : RxQueue} {hand : List RxPage} (kept : PagesKept hand q) {i : Nat}
    (small : i < vfRxSlots) {a b : RxPage} (slot : (q.buffer i).pg = some a) (given : b ∈ q.givenPages) : a.id ≠ b.id := by
  have nodup := kept.nodup
  rw [RxQueue.allPages, List.append_assoc, List.append_assoc, List.map_append, List.nodup_append] at nodup
  have here : a ∈ q.slotPages := List.mem_filterMap.mpr ⟨i, List.mem_range.mpr small, slot⟩
  apply nodup.2.2 a.id (List.mem_map_of_mem here)
  exact List.mem_map_of_mem (List.mem_append_left _ given)

/-- Each slot has a page of its own that the stack does not have, and the descriptor of the slot
    the address behind the headroom of that page. -/
structure RxPagesOwned (q : RxQueue) : Prop where
  desc : ∀ i < q.descRing.count - 1, ∃ pg, (q.buffer i).pg = some pg ∧
    q.descRing.desc i = pg.dma + BitVec.ofNat 64 xdpPacketHeadroom
  distinct : ∀ i < q.descRing.count - 1, ∀ j < q.descRing.count - 1, ∀ a b, (q.buffer i).pg = some a →
    (q.buffer j).pg = some b → a.id = b.id → i = j
  notGiven : ∀ i < q.descRing.count - 1, ∀ a, (q.buffer i).pg = some a → ∀ b ∈ q.givenPages, a.id ≠ b.id

theorem RxOwned.pages {q : RxQueue} (owned : RxOwned q) : RxPagesOwned q := by
  rcases owned with ⟨full, hand, kept⟩
  have slots : q.descRing.count - 1 = vfRxSlots := by
    rw [full.count]
    rfl
  refine ⟨fun i low => ?_, fun i low j high a b first second same => ?_, fun i low a slot b given => ?_⟩
  · rw [slots] at low
    rcases full.slots i low with ⟨pg, slot, desc⟩
    exact ⟨pg, by rw [slot], desc⟩
  · rw [slots] at low high
    rcases Nat.lt_trichotomy i j with before | here | after
    · exact absurd same (kept.slots_apart before high first second)
    · exact here
    · exact absurd same.symm (kept.slots_apart after low second first)
  · rw [slots] at low
    exact kept.slot_not_given low slot given

/-- What every run keeps. -/
theorem rx_ring_reach {priv : VfQueues} {qid : Nat} {s : VfNetdev} (closed : s.queue (.rx qid) = none)
    (before : ∀ id, RxSettled (s.ring id)) {P : Pool Unit VfNetdev VfInput}
    (reach : Pool.Reach (rxRingRules priv qid) (fun _ => True) (Pool.start s) P) :
    (rxRing qid).inv P.state ∧ (P.thread () = .done () → RxIdle qid P.state) := by
  have start : RxStage.closed.Holds qid s := ⟨closed, before⟩
  have idle (t : Unit) : (rxRing qid).wp ((Pool.start (T := Unit) (ι := VfInput) s).thread t) (fun _ => RxIdle qid) s :=
    fun s' rely _ _ => .inl (start.completions rely)
  rcases (rxRingRules_fit priv qid).reach reach trivial start.owned idle with ⟨-, inv, threads⟩
  refine ⟨inv, fun done => ?_⟩
  have last := threads ()
  rw [done] at last
  exact last P.state ((rxRing qid).rely_refl _) trivial inv

/-- While the ring is published and nobody frees it, its slots, pages and descriptors are in step. When
    no call is under way, every page that a pool of a ring no longer there has given has gone to the
    stack once or come back once. -/
theorem vf_rx_pages {priv : VfQueues} {qid : Nat} {s : VfNetdev} (closed : s.queue (.rx qid) = none)
    (before : ∀ id, RxSettled (s.ring id)) {P : Pool Unit VfNetdev VfInput}
    (reach : Pool.Reach (rxRingRules priv qid) (fun _ => True) (Pool.start s) P) :
    (∀ id, P.state.queue (.rx qid) = some id → P.state.point = .elsewhere → RxPagesOwned (P.state.ring id)) ∧
    (P.thread () = .done () → ∀ id, P.state.queue (.rx qid) ≠ some id →
      (((P.state.ring id).givenPages ++ (P.state.ring id).returned).map RxPage.id).Perm
        (List.range (P.state.ring id).taken)) := by
  rcases rx_ring_reach closed before reach with ⟨inv, idle⟩
  refine ⟨fun id here elsewhere => (inv id here elsewhere).pages, fun done id gone => ?_⟩
  rcases idle done with closed | ⟨own, allocated⟩
  · exact (closed.2 id).pages
  · have other : id ≠ own := by
      rintro rfl
      exact gone allocated.1.1
    exact (allocated.1.2.2 id other).pages

/-- Every allocation succeeds, and every page that the pool gives lies at the same address. -/
def grantedInput : VfInput := ⟨true, 0, 0, ⟨some 4096, true, true⟩, .ok⟩

/-- The ring of queue 0 is allocated, and the hardware has written some completions. -/
theorem vfRxRing_received (desc : Nat → BitVec 64) : ∃ P : Pool Unit VfNetdev VfInput,
    Pool.Reach (rxRingRules ⟨1, 1, 1, onicVfQIrqInit 1⟩ 0) (fun _ => True) (Pool.start .probed) P ∧
    P.state.queue (.rx 0) = some 0 ∧ P.state.point = .elsewhere ∧ (P.state.ring 0).cmplRing.count = onicVfCmplRingCount ∧
    (P.state.ring 0).cmplRing.desc = desc ∧ (P.state.ring 0).cmplRing.nextToClean = 0 ∧
    (P.state.ring 0).cmplRing.color = 1 := by
  let alloc : Program VfNetdev VfInput Unit := do
    let _ ← VfNetdev.onicVfAllocRxRing ⟨1, 1, 1, onicVfQIrqInit 1⟩ 0
    .done ()
  have seen : (alloc.eval grantedInput .probed).map (fun r => (r.2.queue (.rx 0), r.2.point,
      (r.2.ring 0).cmplRing.count, (r.2.ring 0).cmplRing.nextToClean, (r.2.ring 0).cmplRing.color)) =
      some (some 0, .elsewhere, 1024, 0, 1) := by decide +kernel
  rcases Option.map_eq_some_iff.mp seen with ⟨⟨_, mid⟩, allocated, values⟩
  simp only [Prod.mk.injEq] at values
  rcases values with ⟨queue, point, count, clean, color⟩
  let start : Pool Unit VfNetdev VfInput := Pool.start .probed
  have one : Pool.Reach (rxRingRules ⟨1, 1, 1, onicVfQIrqInit 1⟩ 0) (fun _ => True) start ⟨mid, start.thread⟩ :=
    Pool.reach_of_exec (t := ()) rfl (.inl ⟨rfl, rfl⟩) (.of_eval allocated)
  let q : RxQueue := { mid.ring 0 with cmplRing := { (mid.ring 0).cmplRing with desc := desc } }
  have two : Pool.Reach (rxRingRules ⟨1, 1, 1, onicVfQIrqInit 1⟩ 0) (fun _ => True) start ⟨mid.setRing 0 q, start.thread⟩ :=
    one.tail ⟨.env ⟨0, desc, rfl⟩, trivial⟩
  have ring : (mid.setRing 0 q).ring 0 = q := by simp [VfNetdev.setRing]
  refine ⟨_, two, queue, point, ?_⟩
  simp only [ring]
  exact ⟨count, rfl, clean, color⟩

theorem rxSettled_zeroed : RxSettled .zeroed :=
  PagesKept.zeroed.settled (List.filterMap_eq_nil_iff.mpr fun _ _ => rfl)

/-- A ring is allocated, and a packet of 64 bytes is polled from it. -/
theorem vf_rx_pages_one_packet : ∃ P : Pool Unit VfNetdev VfInput,
    ((∀ id, P.state.queue (.rx 0) = some id → P.state.point = .elsewhere → RxPagesOwned (P.state.ring id)) ∧
      (P.thread () = .done () → ∀ id, P.state.queue (.rx 0) ≠ some id →
        (((P.state.ring id).givenPages ++ (P.state.ring id).returned).map RxPage.id).Perm
          (List.range (P.state.ring id).taken))) ∧
    P.state.queue (.rx 0) = some 0 ∧ (P.state.ring 0).givenPages = [⟨0, 4096⟩] := by
  let alloc : Program VfNetdev VfInput Unit := do
    let _ ← VfNetdev.onicVfAllocRxRing ⟨1, 1, 1, onicVfQIrqInit 1⟩ 0
    .done ()
  let poll : Program VfNetdev VfInput Unit := do
    let _ ← VfNetdev.onRing 0 (onicVfRxPoll 1)
    .done ()
  let received (s : VfNetdev) : VfNetdev := s.setRing 0 { s.ring 0 with
    cmplRing := { (s.ring 0).cmplRing with desc := fun i => if i = 0 then 0x4000000002 else 1 } }
  let played := (alloc.eval grantedInput .probed).bind fun r =>
    (poll.eval grantedInput (received r.2)).map fun last => (r.2, last.2)
  have seen : played.map (fun states => (states.1.queue (.rx 0), (received states.1).queue (.rx 0),
      states.2.queue (.rx 0), (states.2.ring 0).givenPages)) = some (some 0, some 0, some 0, [⟨0, 4096⟩]) := by
    decide +kernel
  rcases Option.map_eq_some_iff.mp seen with ⟨⟨first, last⟩, all, values⟩
  rcases Option.bind_eq_some_iff.mp all with ⟨⟨_, mid⟩, allocated, rest⟩
  rcases Option.map_eq_some_iff.mp rest with ⟨⟨_, done⟩, polled, same⟩
  cases same
  simp only [Prod.mk.injEq] at values
  rcases values with ⟨-, here, there, given⟩
  let start : Pool Unit VfNetdev VfInput := Pool.start .probed
  have one : Pool.Reach (rxRingRules ⟨1, 1, 1, onicVfQIrqInit 1⟩ 0) (fun _ => True) start ⟨mid, start.thread⟩ :=
    Pool.reach_of_exec (t := ()) rfl (.inl ⟨rfl, rfl⟩) (.of_eval allocated)
  have two : Pool.Reach (rxRingRules ⟨1, 1, 1, onicVfQIrqInit 1⟩ 0) (fun _ => True) start ⟨received mid, start.thread⟩ :=
    one.tail ⟨.env ⟨0, _, rfl⟩, trivial⟩
  have three : Pool.Reach (rxRingRules ⟨1, 1, 1, onicVfQIrqInit 1⟩ 0) (fun _ => True)
      ⟨received mid, start.thread⟩ ⟨done, start.thread⟩ :=
    Pool.reach_of_exec (t := ()) rfl (.inr (.inl ⟨0, 1, here, rfl⟩)) (.of_eval polled)
  exact ⟨_, vf_rx_pages rfl (fun _ => rxSettled_zeroed) (two.trans three), there, given⟩

end OpenNic
