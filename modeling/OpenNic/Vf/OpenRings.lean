import OpenNic.Vf.Runs

namespace OpenNic

/-- Each slot has its page, and the stack has none. -/
structure RxFilled (q : RxQueue) : Prop where
  full : RxFull q
  kept : PagesKept [] q
  given : q.given = []

/-- Each page that was taken from the pool has come back to it once. -/
structure RxReturned (q : RxQueue) : Prop where
  slots : q.slotPages = []
  pages : (q.returned.map RxPage.id).Perm (List.range q.taken)

section

variable {q : RxQueue}

theorem RxSettled.allReturned (settled : RxSettled q) (given : q.given = []) : RxReturned q := by
  have pages := settled.pages
  rw [RxQueue.givenPages, given] at pages
  exact ⟨settled.slots, pages⟩

theorem freeSlots_given (slots : List Nat) : (slots.foldl RxQueue.freeSlot q).given = q.given := by
  induction slots generalizing q with
  | nil => rfl
  | cons i rest ih =>
    have here : (q.freeSlot i).given = q.given := by
      unfold RxQueue.freeSlot
      split <;> rfl
    exact ih.trans here

theorem RxPrivate.allReturned {n : Nat} (priv : RxPrivate n q) (given : q.given = []) : RxReturned q.freePages :=
  priv.settled.allReturned ((freeSlots_given _).trans given)

theorem RxFilled.allReturned (filled : RxFilled q) : RxReturned q.freePages :=
  (filled.kept.freePages filled.full.count).allReturned ((freeSlots_given _).trans filled.given)

/-- A ring of which nothing has been filled yet has no page. -/
theorem RxPrivate.noneTaken (priv : RxPrivate 0 q) (given : q.given = []) : RxReturned q := by
  have slots : q.slotPages = [] := List.filterMap_eq_nil_iff.mpr fun i _ => priv.1.rest i (Nat.zero_le i)
  exact (priv.2.settled slots).allReturned given

theorem onicVfFillRxPages_given (i left : Nat) : (onicVfFillRxPages i left).Steps fun q q' => q'.given = q.given := by
  induction left generalizing i with
  | zero => exact True.intro
  | succ left ih =>
    apply Program.Steps.bind
    · apply Program.Steps.access
      intro input q filled q' taken
      split at taken <;> cases taken <;> rfl
    · intro filled
      split
      · exact ih (i + 1)
      · exact True.intro

end

/-- What has become of the rings since the state `s`: entries from `n` on are not filled, and nothing is
    said of the ring `away`. -/
structure RingsSince (s : VfNetdev) (n : Nat) (away : Option Nat) (t : VfNetdev) : Prop where
  next : s.next ≤ t.next
  entry : ∀ qid id, t.queue (.rx qid) = some id → qid < n ∧ s.next ≤ id ∧ id < t.next ∧ (t.obj id).id = id
  apart : ∀ one two id, t.queue (.rx one) = some id → t.queue (.rx two) = some id → one = two
  filled : ∀ qid id, t.queue (.rx qid) = some id → away ≠ some id → RxFilled (t.ring id)
  others : ∀ id, (∀ qid, t.queue (.rx qid) ≠ some id) → away ≠ some id →
    t.ring id = s.ring id ∨ s.next ≤ id ∧ RxReturned (t.ring id)

/-- An allocation since `s` that is not the queue of an RX entry. -/
structure Unpublished (s : VfNetdev) (id : Nat) (t : VfNetdev) : Prop where
  low : s.next ≤ id
  high : id < t.next
  entry : ∀ qid, t.queue (.rx qid) ≠ some id

/-- `onic_vf_alloc_rx_ring` has filled `m` slots of the ring `id`. -/
structure RingMaking (s : VfNetdev) (n id m : Nat) (t : VfNetdev) : Prop where
  since : RingsSince s n (some id) t
  fresh : Unpublished s id t
  ring : RxPrivate m (t.ring id)
  given : (t.ring id).given = []

/-- The queue of the entry `qid` is being freed, and its ring has no page any more. -/
structure RingEmptied (s : VfNetdev) (n qid id : Nat) (t : VfNetdev) : Prop where
  since : RingsSince s n (some id) t
  entry : t.queue (.rx qid) = some id
  low : s.next ≤ id
  returned : RxReturned (t.ring id)

/-- A step that is not about the rings of RX entries. -/
structure Beside (s s' : VfNetdev) : Prop where
  queue : ∀ qid, s'.queue (.rx qid) = s.queue (.rx qid)
  obj : ∀ qid id, s.queue (.rx qid) = some id → (s'.obj id).id = (s.obj id).id
  ring : s'.ring = s.ring
  next : s.next ≤ s'.next

theorem Beside.refl (s : VfNetdev) : Beside s s := ⟨fun _ => rfl, fun _ _ _ => rfl, rfl, Nat.le_refl _⟩

theorem Beside.trans (a b c : VfNetdev) (first : Beside a b) (second : Beside b c) : Beside a c where
  queue qid := (second.queue qid).trans (first.queue qid)
  obj qid id here := by
    rw [second.obj qid id ((first.queue qid).trans here), first.obj qid id here]
  ring := second.ring.trans first.ring
  next := Nat.le_trans first.next second.next

section

variable {s t t' : VfNetdev} {n m id qid : Nat} {away : Option Nat}

theorem RingsSince.beside (since : RingsSince s n away t) (beside : Beside t t') : RingsSince s n away t' where
  next := Nat.le_trans since.next beside.next
  entry qid id here := by
    rw [beside.queue] at here
    have known := since.entry qid id here
    rw [beside.obj qid id here]
    exact ⟨known.1, known.2.1, Nat.lt_of_lt_of_le known.2.2.1 beside.next, known.2.2.2⟩
  apart one two id first second := by
    rw [beside.queue] at first second
    exact since.apart one two id first second
  filled qid id here other := by
    rw [beside.queue] at here
    rw [beside.ring]
    exact since.filled qid id here other
  others id none other := by
    rw [beside.ring]
    exact since.others id (fun qid here => none qid ((beside.queue qid).trans here)) other

theorem Unpublished.beside (fresh : Unpublished s id t) (beside : Beside t t') : Unpublished s id t' where
  low := fresh.low
  high := Nat.lt_of_lt_of_le fresh.high beside.next
  entry qid := by
    rw [beside.queue]
    exact fresh.entry qid

theorem RingMaking.beside (making : RingMaking s n id m t) (beside : Beside t t') : RingMaking s n id m t' where
  since := making.since.beside beside
  fresh := making.fresh.beside beside
  ring := by
    rw [beside.ring]
    exact making.ring
  given := by
    rw [beside.ring]
    exact making.given

theorem RingEmptied.beside (emptied : RingEmptied s n qid id t) (beside : Beside t t') : RingEmptied s n qid id t' where
  since := emptied.since.beside beside
  entry := (beside.queue qid).trans emptied.entry
  low := emptied.low
  returned := by
    rw [beside.ring]
    exact emptied.returned

theorem RingsSince.mono {n' : Nat} (since : RingsSince s n away t) (le : n ≤ n') : RingsSince s n' away t :=
  { since with entry := fun qid id here => ⟨Nat.lt_of_lt_of_le (since.entry qid id here).1 le, (since.entry qid id here).2⟩ }

/-- Nothing more is to be said of the ring that was under way. -/
theorem RingsSince.settle (since : RingsSince s n (some id) t)
    (filled : ∀ qid, t.queue (.rx qid) = some id → RxFilled (t.ring id))
    (others : (∀ qid, t.queue (.rx qid) ≠ some id) → s.next ≤ id ∧ RxReturned (t.ring id)) : RingsSince s n none t :=
  { since with
    filled := fun qid j here _ => by
      by_cases same : id = j
      · subst same
        exact filled qid here
      · exact since.filled qid j here (by simpa using same)
    others := fun j none _ => by
      by_cases same : id = j
      · subst same
        exact .inr (others none)
      · exact since.others j none (by simpa using same) }

/-- The ring of one queue is written. -/
theorem RingsSince.setRing (since : RingsSince s n away t) (may : away = none ∨ away = some id) (q : RxQueue) :
    RingsSince s n (some id) (t.setRing id q) := by
  have apart {j : Nat} (other : some id ≠ some j) : away ≠ some j := by
    rcases may with none | same
    · rw [none]
      exact nofun
    · rwa [same]
  have same {j : Nat} (other : some id ≠ some j) : (t.setRing id q).ring j = t.ring j :=
    Function.update_of_ne (fun same => other (congrArg some same.symm)) _ _
  refine ⟨since.next, since.entry, since.apart, fun qid j here other => ?_, fun j none other => ?_⟩
  · rw [same other]
    exact since.filled qid j here (apart other)
  · rw [same other]
    exact since.others j none (apart other)

theorem setRing_ring (s : VfNetdev) (id : Nat) (q : RxQueue) : (s.setRing id q).ring id = q := Function.update_self ..

/-- The next entry is filled. -/
theorem RingsSince.publish {q : VfQueue} (since : RingsSince s qid (some id) t) (fresh : Unpublished s id t)
    (filled : RxFilled (t.ring id)) (named : q.id = id) : RingsSince s (qid + 1) none (t.publish (.rx qid) q) := by
  have queue (other : Nat) : (t.publish (.rx qid) q).queue (.rx other) =
      if other = qid then some id else t.queue (.rx other) := by
    simp [VfNetdev.publish, Function.update_apply, named]
  have old {other j : Nat} (here : t.queue (.rx other) = some j) : other ≠ qid ∧ j ≠ id := by
    have known := since.entry other j here
    refine ⟨by omega, fun same => fresh.entry other (same ▸ here)⟩
  refine ⟨since.next, fun other j here => ?_, fun one two j first second => ?_, fun other j here _ => ?_, fun j none _ => ?_⟩
  · rw [queue] at here
    split at here
    · rename_i same
      cases here
      refine ⟨by omega, fresh.low, fresh.high, ?_⟩
      simp [VfNetdev.publish, named]
    · have known := since.entry other j here
      refine ⟨by omega, known.2.1, known.2.2.1, ?_⟩
      simp only [VfNetdev.publish, named, Function.update_of_ne (old here).2]
      exact known.2.2.2
  · rw [queue] at first second
    split at first
    · rename_i here
      cases first
      split at second
      · omega
      · exact absurd second (fresh.entry two)
    · split at second
      · cases second
        exact absurd first (fresh.entry one)
      · exact since.apart one two j first second
  · rw [queue] at here
    split at here
    · cases here
      exact filled
    · have other := (old here).2
      exact since.filled _ j here fun same => other (Option.some.inj same).symm
  · have others (other : Nat) : t.queue (.rx other) ≠ some j := by
      intro here
      have entry := none other
      rw [queue, if_neg (old here).1] at entry
      exact entry here
    have away : some id ≠ some j := by
      rintro same
      have entry := none qid
      rw [queue, if_pos rfl] at entry
      exact entry same
    exact since.others j others away

/-- All pages of the ring of an entry go back. -/
theorem RingsSince.empty (since : RingsSince s n none t) (here : t.queue (.rx qid) = some id) :
    RingEmptied s n qid id (t.setRing id (t.ring id).freePages) where
  since := since.setRing (.inl rfl) _
  entry := here
  low := (since.entry qid id here).2.1
  returned := by
    rw [setRing_ring]
    exact (since.filled qid id here nofun).allReturned

theorem RingEmptied.unset (emptied : RingEmptied s n qid id t) :
    RingsSince s n none { t with queue := Function.update t.queue (.rx qid) none, point := .elsewhere } := by
  have since := emptied.since
  have left {other j : Nat} (here : Function.update t.queue (.rx qid) none (.rx other) = some j) :
      other ≠ qid ∧ t.queue (.rx other) = some j := by
    by_cases same : other = qid
    · subst same
      simp at here
    · have differ : VfSlot.rx other ≠ .rx qid := fun eq => same (VfSlot.rx.inj eq)
      rw [Function.update_of_ne differ] at here
      exact ⟨same, here⟩
  refine ⟨since.next, fun other j here => since.entry other j (left here).2,
    fun one two j first second => since.apart one two j (left first).2 (left second).2, fun other j here _ => ?_, fun j none _ => ?_⟩
  · refine since.filled other j (left here).2 fun same => ?_
    cases same
    exact (left here).1 (since.apart other qid id (left here).2 emptied.entry)
  · by_cases same : some id = some j
    · cases same
      exact .inr ⟨emptied.low, emptied.returned⟩
    · refine since.others j (fun other here => none other ?_) same
      have differ : other ≠ qid := by
        rintro rfl
        exact same (emptied.entry.symm.trans here)
      have apart : VfSlot.rx other ≠ .rx qid := fun eq => differ (VfSlot.rx.inj eq)
      exact (Function.update_of_ne apart _ _).trans here

/-- The ring under way is a new one. -/
theorem RingsSince.making {q : RxQueue} (since : RingsSince s n (some id) t) (fresh : Unpublished s id t) (same : t.ring id = q)
    (ring : RxPrivate m q) (given : q.given = []) : RingMaking s n id m t := by
  subst same
  exact ⟨since, fresh, ring, given⟩

theorem touch_beside (ids : List Nat) (t : VfNetdev) : Beside t (t.touch ids) :=
  ⟨fun _ => rfl, fun _ _ _ => rfl, rfl, Nat.le_refl _⟩

theorem RingMaking.since_closed (making : RingMaking s n id 0 t) : RingsSince s n none t :=
  making.since.settle (fun qid here => absurd here (making.fresh.entry qid))
    fun _ => ⟨making.fresh.low, making.ring.noneTaken making.given⟩

end

namespace VfNetdev

/-- Rings are filled and emptied while nothing else reaches them. -/
abbrev alone : Contract VfNetdev := .alone VfNetdev

theorem beside_alone {α : Type} {X : VfNetdev → Prop} {p : Program VfNetdev VfInput α} (steps : p.Steps Beside)
    (keeps : ∀ t t', X t → Beside t t' → X t') : alone.Triple X p fun _ => X := by
  apply Contract.Triple.alone_of_exec
  intro t a t' holds ran
  exact keeps t t' holds (steps.exec Beside.refl Beside.trans ran)

theorem kalloc_beside : kalloc.Steps Beside := by
  apply Program.Steps.access
  intro i s a s' taken
  split at taken
  · cases taken
    exact ⟨fun _ => rfl, fun _ _ _ => rfl, rfl, Nat.le_succ _⟩
  · cases taken
    exact .refl s

theorem dmaAllocCoherent_beside : dmaAllocCoherent.Steps Beside := by
  apply Program.Steps.access
  intro i s a s' taken
  split at taken
  · cases taken
    exact ⟨fun _ => rfl, fun _ _ _ => rfl, rfl, Nat.le_succ _⟩
  · cases taken
    exact .refl s

theorem onicVfCreateRxPagePool_beside : onicVfCreateRxPagePool.Steps Beside := by
  apply Program.Steps.access
  intro i s a s' taken
  split at taken
  · cases taken
    exact ⟨fun _ => rfl, fun _ _ _ => rfl, rfl, Nat.le_succ _⟩
  · cases taken
    exact .refl s

theorem freeAll_beside (ids : List Nat) : (freeAll ids).Steps Beside := by
  induction ids with
  | nil => exact .done ()
  | cons id rest ih => exact .bind (.modify fun s => ⟨fun _ => rfl, fun _ _ _ => rfl, rfl, Nat.le_refl _⟩) fun _ => ih

theorem readQueue_beside (slot : VfSlot) : (readQueue slot).Steps Beside := by
  apply Program.Steps.access
  intro i s a s' taken
  cases taken
  exact ⟨fun _ => rfl, fun _ _ _ => rfl, rfl, Nat.le_refl _⟩

/-- Freeing what is in hand, and returning. -/
theorem unwind_beside {α : Type} (ids : List Nat) (a : α) : (do freeAll ids; .done a : Program VfNetdev VfInput α).Steps Beside :=
  .bind (freeAll_beside ids) fun _ => .done a

theorem onicVfFreeTxRing_beside (qid : Nat) : (onicVfFreeTxRing qid).Steps Beside := by
  apply Program.Steps.bind (readQueue_beside (.tx qid))
  intro q
  cases q with
  | none => exact .done ()
  | some q =>
    apply Program.Steps.bind (.modify fun s => ⟨fun _ => rfl, fun _ _ _ => rfl, rfl, Nat.le_refl _⟩)
    intro _
    apply Program.Steps.bind (freeAll_beside _)
    intro _
    apply Program.Steps.bind (.modify fun s => ⟨fun _ => rfl, fun _ _ _ => rfl, rfl, Nat.le_refl _⟩)
    intro _
    apply Program.Steps.modify
    intro s
    exact ⟨fun other => Function.update_of_ne (f := s.queue) (VfSlot.noConfusion : VfSlot.rx other ≠ .tx qid) none,
      fun _ _ _ => rfl, rfl, Nat.le_refl _⟩

theorem checkRetained_beside : checkRetained.Steps Beside := by
  apply Program.Steps.modify
  intro s
  split
  · exact ⟨fun _ => rfl, fun _ _ _ => rfl, rfl, Nat.le_refl _⟩
  · exact .refl s

section

variable {s : VfNetdev} {n : Nat}

/-- The queue of an entry is numbered like no other. -/
theorem kalloc_alone : alone.Triple (RingsSince s n none) kalloc
    fun id t => RingsSince s n none t ∧ ∀ m, id = some m → Unpublished s m t := by
  apply Contract.Triple.alone_access
  intro t i id t' since taken
  split at taken
  · cases taken
    have beside : Beside t { t with next := t.next + 1 } := ⟨fun _ => rfl, fun _ _ _ => rfl, rfl, Nat.le_succ _⟩
    refine ⟨since.beside beside, fun m same => ?_⟩
    cases same
    refine ⟨since.next, Nat.lt_succ_self _, fun qid here => ?_⟩
    have old := (since.entry qid _ here).2.2.1
    omega
  · cases taken
    exact ⟨since, nofun⟩

theorem onicVfAllocTxRing_alone (priv : VfQueues) (qid : Nat) :
    alone.Triple (RingsSince s n none) (onicVfAllocTxRing priv qid) fun _ => RingsSince s n none := by
  apply Contract.Triple.bind kalloc_alone
  intro id
  cases id with
  | none => exact .alone_done fun _ holds => holds.1
  | some id =>
    let X (t : VfNetdev) : Prop := RingsSince s n none t ∧ Unpublished s id t
    have keeps : ∀ t t', X t → Beside t t' → X t' := fun t t' holds beside =>
      ⟨holds.1.beside beside, holds.2.beside beside⟩
    have unwound (ids : List Nat) : alone.Triple X
        (do freeAll ids; .done (- ENOMEM) : Program VfNetdev VfInput Int) fun _ => RingsSince s n none :=
      (beside_alone (unwind_beside ids _) keeps).conseq (fun _ _ holds => holds) fun _ _ _ holds => holds.1
    apply Contract.Triple.from_pre X fun _ _ holds => ⟨holds.1, holds.2 id rfl⟩
    apply Contract.Triple.bind (beside_alone dmaAllocCoherent_beside keeps)
    intro mem
    cases mem with
    | none => exact unwound _
    | some mem =>
      apply Contract.Triple.bind (beside_alone kalloc_beside keeps)
      intro buffer
      cases buffer with
      | none => exact unwound _
      | some buffer =>
        apply Contract.Triple.bind (M := fun _ => RingsSince s n none)
        · apply Contract.Triple.alone_modify
          intro t holds
          apply holds.1.beside
          refine ⟨fun other => ?_, fun other j here => ?_, rfl, Nat.le_refl _⟩
          · exact Function.update_of_ne (f := t.queue) (VfSlot.noConfusion : VfSlot.rx other ≠ .tx qid) (some id)
          · have differ : j ≠ id := fun same => holds.2.entry other (same ▸ here)
            have kept := Function.update_of_ne (f := t.obj) differ (.tx (onicVfTxQueueOf priv qid id buffer mem))
            exact congrArg VfQueue.id kept
        · exact fun _ => .alone_done fun _ holds => holds

theorem fill_alone (id : Nat) :
    alone.Triple (RingMaking s n id 0) (onRing id (onicVfFillRxPages 0 (onicVfRxRingCount - 1)))
      fun filled t => ∃ m, (filled = true → m = vfRxSlots) ∧ RingMaking s n id m t := by
  apply Contract.Triple.alone_of_exec
  intro t filled t' making ran
  have written := exec_onRing ran
  have inner := ((Program.exec_lift (onRing_lens id)).mp ran).1
  have fill := Contract.Triple.conseq (onicVfFillRxPages_pages 0 (onicVfRxRingCount - 1) (by decide))
    (fun _ _ holds => holds) fun _ _ _ holds => holds
  have pages := (Contract.wp_exec inner (fun _ => True.intro) True.intro
    (Contract.wp_comap (fill _ True.intro True.intro making.ring) VfInput.rx)).2
  have steps := (onicVfFillRxPages_given 0 (onicVfRxRingCount - 1)).comap VfInput.rx
  have given : (t'.ring id).given = (t.ring id).given :=
    Program.Steps.exec (R := fun q q' => q'.given = q.given) (fun _ => rfl)
      (fun a b c (first : b.given = a.given) (second : c.given = b.given) => second.trans first) steps inner
  rcases pages with ⟨m, -, all, priv⟩
  refine ⟨m, fun ok => all ok, ?_, ?_, priv, given.trans making.given⟩
  · rw [written]
    exact making.since.setRing (.inr rfl) _
  · rw [written]
    exact ⟨making.fresh.low, making.fresh.high, making.fresh.entry⟩

theorem onicVfAllocRxRing_alone (priv : VfQueues) (qid : Nat) :
    alone.Triple (RingsSince s qid none) (onicVfAllocRxRing priv qid) fun _ => RingsSince s (qid + 1) none := by
  suffices alloc : alone.Triple (RingsSince s qid none) (onicVfAllocRxRing priv qid)
      fun _ t => RingsSince s qid none t ∨ RingsSince s (qid + 1) none t by
    apply alloc.conseq fun _ _ since => since
    rintro _ t - (same | filled)
    · exact same.mono (Nat.le_succ qid)
    · exact filled
  apply Contract.Triple.bind kalloc_alone
  intro id
  cases id with
  | none => exact .alone_done fun _ holds => .inl holds.1
  | some id =>
    have keeps (m : Nat) : ∀ t t', RingMaking s qid id m t → Beside t t' → RingMaking s qid id m t' :=
      fun t t' making beside => making.beside beside
    have unwound (ids : List Nat) (err : Int) : alone.Triple (RingsSince s qid none)
        (do freeAll ids; .done err : Program VfNetdev VfInput Int)
        fun _ t => RingsSince s qid none t ∨ RingsSince s (qid + 1) none t :=
      (beside_alone (unwind_beside ids _) fun _ _ since beside => since.beside beside).conseq
        (fun _ _ holds => holds) fun _ _ _ holds => .inl holds
    have unfilled (ids : List Nat) (err : Int) : alone.Triple (RingMaking s qid id 0)
        (do freeAll ids; .done err : Program VfNetdev VfInput Int)
        fun _ t => RingsSince s qid none t ∨ RingsSince s (qid + 1) none t :=
      (unwound ids err).from_pre _ fun _ _ making => making.since_closed
    have pages (m : Nat) (ids rest : List Nat) (err : Int) : alone.Triple (RingMaking s qid id m)
        (do onicVfFreeRxPages id ids; freeAll rest; .done err : Program VfNetdev VfInput Int)
        fun _ t => RingsSince s qid none t ∨ RingsSince s (qid + 1) none t := by
      apply Contract.Triple.bind (M := fun _ => RingsSince s qid none)
      · apply Contract.Triple.alone_modify
        intro t making
        have touched := making.beside (touch_beside ids t)
        apply (touched.since.setRing (.inr rfl) _).settle
        · exact fun other here => absurd here (making.fresh.entry other)
        · rw [setRing_ring]
          exact fun _ => ⟨making.fresh.low, touched.ring.allReturned touched.given⟩
      · exact fun _ => unwound rest err
    apply Contract.Triple.bind (M := fun _ => RingMaking s qid id 0)
    · apply Contract.Triple.alone_modify
      intro t holds
      have fresh := holds.2 id rfl
      exact (holds.1.setRing (.inl rfl) _).making ⟨fresh.low, fresh.high, fresh.entry⟩ (setRing_ring ..) ⟨.zeroed, .zeroed⟩ rfl
    intro _
    apply Contract.Triple.bind (beside_alone dmaAllocCoherent_beside (keeps 0))
    intro desc
    cases desc with
    | none => exact unfilled _ _
    | some desc =>
      apply Contract.Triple.bind (beside_alone kalloc_beside (keeps 0))
      intro buffer
      cases buffer with
      | none => exact unfilled _ _
      | some buffer =>
        apply Contract.Triple.bind (beside_alone onicVfCreateRxPagePool_beside (keeps 0))
        intro pool
        cases pool with
        | error err => exact unfilled _ _
        | ok pagePool =>
          apply Contract.Triple.bind (fill_alone id)
          intro filled
          cases filled with
          | false => exact Contract.Triple.exists_pre fun m => (pages m _ _ _).from_pre _ fun _ _ holds => holds.2
          | true =>
            apply Contract.Triple.from_pre (RingMaking s qid id vfRxSlots)
            · rintro t - ⟨m, all, making⟩
              exact all rfl ▸ making
            apply Contract.Triple.bind (beside_alone dmaAllocCoherent_beside (keeps vfRxSlots))
            intro cmpl
            cases cmpl with
            | none => exact pages vfRxSlots _ _ 0
            | some cmpl =>
              apply Contract.Triple.bind (M := fun _ t => RingsSince s qid (some id) t ∧ Unpublished s id t ∧ RxFilled (t.ring id))
              · apply Contract.Triple.alone_modify
                intro t making
                have fresh := making.fresh
                refine ⟨making.since.setRing (.inr rfl) _, ⟨fresh.low, fresh.high, fresh.entry⟩, ?_⟩
                rw [setRing_ring]
                exact ⟨making.ring.1.full, making.ring.2.same rfl rfl rfl rfl, making.given⟩
              intro _
              apply Contract.Triple.bind (M := fun _ => RingsSince s (qid + 1) none)
              · apply Contract.Triple.alone_modify
                exact fun t holds => holds.1.publish holds.2.1 holds.2.2 rfl
              · exact fun _ => .alone_done fun _ since => .inr since

/-- The entry of a queue whose ring is empty goes. -/
theorem freeQueue_alone (qid id : Nat) :
    alone.Triple (RingEmptied s n qid id) (freeQueue (.rx qid) id) fun _ => RingsSince s n none := by
  apply Contract.Triple.bind (M := fun _ => RingEmptied s n qid id)
  · apply Contract.Triple.alone_modify
    exact fun t emptied => emptied.beside ⟨fun _ => rfl, fun _ _ _ => rfl, rfl, Nat.le_refl _⟩
  · intro _
    apply Contract.Triple.alone_modify
    exact fun t emptied => emptied.unset

/-- The queue of an RX entry that has been read. -/
theorem readRx_alone (qid : Nat) : alone.Triple (RingsSince s n none) (readQueue (.rx qid))
    fun q t => RingsSince s n none t ∧ ∀ p, q = some p → t.queue (.rx qid) = some p.id := by
  apply Contract.Triple.alone_access
  intro t i q t' since taken
  cases taken
  refine ⟨since.beside (touch_beside _ t), fun p same => ?_⟩
  rcases at_some same with ⟨id, here, rfl⟩
  rw [(since.entry qid id here).2.2.2]
  exact here

theorem onicVfFreeRxRing_alone (qid : Nat) :
    alone.Triple (RingsSince s n none) (onicVfFreeRxRing qid) fun _ => RingsSince s n none := by
  apply Contract.Triple.bind (readRx_alone qid)
  intro q
  cases q with
  | none => exact .alone_done fun _ holds => holds.1
  | some q =>
    let X (t : VfNetdev) : Prop := RingsSince s n none t ∧ t.queue (.rx qid) = some q.id
    have keeps : ∀ t t', X t → Beside t t' → X t' := fun t t' holds beside =>
      ⟨holds.1.beside beside, (beside.queue qid).trans holds.2⟩
    apply Contract.Triple.from_pre X fun _ _ holds => ⟨holds.1, holds.2 q rfl⟩
    apply Contract.Triple.bind (M := fun _ => X)
    · apply Contract.Triple.alone_modify
      exact fun t holds => keeps t _ holds ⟨fun _ => rfl, fun _ _ _ => rfl, rfl, Nat.le_refl _⟩
    intro _
    apply Contract.Triple.bind (beside_alone (freeAll_beside _) keeps)
    intro _
    apply Contract.Triple.bind (M := fun _ => RingEmptied s n qid q.id)
    · apply Contract.Triple.alone_modify
      intro t holds
      exact (holds.1.beside (touch_beside q.buffers t)).empty holds.2
    intro _
    apply Contract.Triple.bind (beside_alone (freeAll_beside _) fun _ _ emptied => emptied.beside)
    exact fun _ => freeQueue_alone qid q.id

theorem onicVfRingsClear_alone : alone.Triple (RingsSince s n none) onicVfRingsClear fun _ => RingsSince s n none := by
  apply Contract.Triple.fold (I := fun _ _ => RingsSince s n none) fun _ _ => Contract.stable_alone _
  intro qid _ _ _
  apply Contract.Triple.bind (beside_alone (onicVfFreeTxRing_beside qid) fun _ _ since => since.beside)
  exact fun _ => onicVfFreeRxRing_alone qid

/-- A loop that an error ends. -/
theorem untilErr_alone {body : Nat → Program VfNetdev VfInput Int} (I : Nat → VfNetdev → Prop) {F : VfNetdev → Prop} (count : Nat)
    (round : ∀ i < count, alone.Triple (I i) (body i) fun _ => I (i + 1)) (finish : ∀ i ≤ count, ∀ t, I i t → F t) :
    alone.Triple (I 0) (.untilErr body 0 count) fun _ => F := by
  have loop := Contract.Triple.untilErr (C := alone) (I := I) (F := fun _ => F) body 0 count
    (fun _ => Contract.stable_alone _) (fun _ => Contract.stable_alone _) fun i _ below => by
      apply (round i (by omega)).conseq (fun _ _ holds => holds)
      intro err t _ holds
      split
      · exact holds
      · exact finish (i + 1) (by omega) t holds
  apply loop.conseq (fun _ _ holds => holds)
  intro err t _ holds
  split at holds
  · exact finish (0 + count) (by omega) t holds
  · exact holds

theorem onicVfRingsInit_alone (priv : VfQueues) :
    alone.Triple (RingsSince s 0 none) (onicVfRingsInit priv) fun _ => RingsSince s priv.numRxQueues none := by
  rw [onicVfRingsInit]
  split
  · exact .alone_done fun _ since => since.mono (Nat.zero_le _)
  apply Contract.Triple.bind (M := fun _ => RingsSince s 0 none)
  · exact untilErr_alone (fun _ => RingsSince s 0 none) _ (fun i _ => onicVfAllocTxRing_alone priv i) fun _ _ _ since => since
  have tail (err : Int) : alone.Triple (RingsSince s priv.numRxQueues none)
      (if err ≠ 0 then do checkRetained; onicVfRingsClear; .done err else .done 0)
      fun _ => RingsSince s priv.numRxQueues none := by
    split
    · apply Contract.Triple.bind (beside_alone checkRetained_beside fun _ _ since => since.beside)
      intro _
      apply Contract.Triple.bind onicVfRingsClear_alone
      exact fun _ => .alone_done fun _ since => since
    · exact .alone_done fun _ since => since
  intro err
  by_cases failed : err ≠ 0
  · rw [if_pos failed]
    exact (tail err).from_pre _ fun _ _ since => since.mono (Nat.zero_le _)
  · rw [if_neg failed]
    apply Contract.Triple.bind _ tail
    exact untilErr_alone (fun i => RingsSince s i none) _ (fun i _ => onicVfAllocRxRing_alone priv i)
      fun i le _ since => since.mono le

end

end VfNetdev

end OpenNic
