import OpenNic.Rx.VfStream

namespace OpenNic

namespace RxQueue

/-- The pages in the slots. -/
def slotPages (q : RxQueue) : List RxPage := (List.range vfRxSlots).filterMap fun i => (q.buffer i).pg

/-- The pages that the stack has. -/
def givenPages (q : RxQueue) : List RxPage := q.given.filterMap RxDelivery.page

def allPages (q : RxQueue) : List RxPage := q.slotPages ++ q.givenPages ++ q.returned

end RxQueue

/-- Every page that the pool has given is in one place: in a slot, with the stack, back in the
    pool, or in the hands of the code. -/
def PagesKept (hand : List RxPage) (q : RxQueue) : Prop :=
  ((q.allPages ++ hand).map RxPage.id).Perm (List.range q.taken)

/-- A slot has a page, and its descriptor the address of that page. -/
def SlotFull (q : RxQueue) (i : Nat) : Prop :=
  ∃ pg, q.buffer i = ⟨some pg, xdpPacketHeadroom⟩ ∧ q.descRing.desc i = pg.dstAddr

structure RxFull (q : RxQueue) : Prop where
  count : q.descRing.count = onicVfRxRingCount
  clean : q.descRing.nextToClean < vfRxSlots
  cmplCount : q.cmplRing.count = onicVfCmplRingCount
  cmplClean : q.cmplRing.nextToClean < vfRxSlots
  slots : ∀ i < vfRxSlots, SlotFull q i

/-- Before `onic_vf_alloc_rx_ring` fills slot `n`. -/
structure RxFilling (n : Nat) (q : RxQueue) : Prop where
  count : q.descRing.count = onicVfRxRingCount
  clean : q.descRing.nextToClean = 0
  slots : ∀ i < n, SlotFull q i
  rest : ∀ i, n ≤ i → (q.buffer i).pg = none

/-- No page is in a slot; each has gone to the stack or come back to the pool. -/
structure RxSettled (q : RxQueue) : Prop where
  slots : q.slotPages = []
  pages : ((q.givenPages ++ q.returned).map RxPage.id).Perm (List.range q.taken)

section

variable {q : RxQueue} {hand : List RxPage}

/-- The pages have changed places only. -/
theorem PagesKept.move {q' : RxQueue} {hand' : List RxPage} (kept : PagesKept hand q) (taken : q'.taken = q.taken)
    (moved : (q'.allPages ++ hand').Perm (q.allPages ++ hand)) : PagesKept hand' q' := by
  unfold PagesKept
  rw [taken]
  exact (moved.map RxPage.id).trans kept

theorem PagesKept.nodup (kept : PagesKept hand q) : ((q.allPages ++ hand).map RxPage.id).Nodup :=
  (List.Perm.nodup_iff kept).mpr List.nodup_range

/-- The pool gives a page. -/
theorem PagesKept.take (kept : PagesKept hand q) (dma : BitVec 64) :
    PagesKept (hand ++ [⟨q.taken, dma⟩]) { q with taken := q.taken + 1 } := by
  unfold PagesKept
  rw [List.range_succ, ← List.append_assoc, List.map_append]
  exact List.Perm.append_right _ kept

/-- The pages in the slots after one slot is written. -/
theorem slotPages_swap {q' : RxQueue} {i : Nat} {buf : RxBuff} (small : i < vfRxSlots)
    (buffer : q'.buffer = Function.update q.buffer i buf) :
    (q'.slotPages ++ (q.buffer i).pg.toList).Perm (q.slotPages ++ buf.pg.toList) := by
  have others : ∀ j, j ≠ i → (q'.buffer j).pg = (q.buffer j).pg := by
    intro j other
    rw [buffer, Function.update_of_ne other]
  have swap := Cyclic.Slots.filterMap_range_swap (f := fun j => (q.buffer j).pg) (g := fun j => (q'.buffer j).pg)
    small others
  have here : (q'.buffer i).pg = buf.pg := by rw [buffer, Function.update_self]
  simp only [here] at swap
  exact swap

theorem SlotFull.same {q' : RxQueue} {i : Nat} (full : SlotFull q i) (buffer : q'.buffer i = q.buffer i)
    (desc : q'.descRing.desc i = q.descRing.desc i) : SlotFull q' i := by
  unfold SlotFull
  rw [buffer, desc]
  exact full

/-- A slot and its descriptor are written together. -/
theorem SlotFull.write {q' : RxQueue} {i k : Nat} {pg : RxPage} (full : i ≠ k → SlotFull q i)
    (buffer : q'.buffer = Function.update q.buffer k ⟨some pg, xdpPacketHeadroom⟩)
    (desc : q'.descRing.desc = Function.update q.descRing.desc k pg.dstAddr) : SlotFull q' i := by
  by_cases here : i = k
  · subst here
    refine ⟨pg, ?_, ?_⟩
    · rw [buffer, Function.update_self]
    · rw [desc, Function.update_self]
  · apply (full here).same
    · rw [buffer, Function.update_of_ne here]
    · rw [desc, Function.update_of_ne here]

/-- An index that goes on by one and wraps stays on the ring. -/
theorem incrementClean_lt {ring : RxRing} (real : ring.realCount = vfRxSlots) (clean : ring.nextToClean < vfRxSlots) :
    (onicVfRingIncrementCleanRx ring).nextToClean = (ring.nextToClean + 1) % vfRxSlots := by
  unfold onicVfRingIncrementCleanRx
  rw [real]
  rw [vfRxSlots] at clean ⊢
  simp only
  split <;> omega

theorem RxFull.descReal (full : RxFull q) : q.descRing.realCount = vfRxSlots := by
  rw [RxRing.realCount, full.count]
  rfl

theorem RxFull.cmplReal (full : RxFull q) : q.cmplRing.realCount = vfRxSlots := by
  rw [RxRing.realCount, full.cmplCount]
  rfl

/-- The completion ring after a packet. -/
theorem deliver_cmplRing (q : RxQueue) (len : Nat) (pg : RxPage) : ∃ color, (q.deliver len pg).cmplRing =
    { onicVfRingIncrementCleanRx q.cmplRing with color := color } := by
  unfold RxQueue.deliver
  simp only
  split
  · exact ⟨_, rfl⟩
  · exact ⟨_, rfl⟩

theorem RxFull.deliver (full : RxFull q) (len : Nat) (pg : RxPage) : RxFull (q.deliver len pg) := by
  have count : (q.deliver len pg).descRing.count = q.descRing.count := rfl
  have desc : (q.descRing.setDesc q.descRing.nextToClean pg.dstAddr).realCount = vfRxSlots := full.descReal
  have clean : (q.deliver len pg).descRing.nextToClean = (q.descRing.nextToClean + 1) % vfRxSlots :=
    incrementClean_lt desc full.clean
  rcases deliver_cmplRing q len pg with ⟨color, cmpl⟩
  have cmplClean := incrementClean_lt full.cmplReal full.cmplClean
  refine ⟨count.trans full.count, ?_, ?_, ?_, fun i low => ?_⟩
  · rw [clean]
    exact mod_lt_slots _
  · rw [cmpl]
    exact full.cmplCount
  · rw [cmpl]
    exact cmplClean ▸ mod_lt_slots _
  · exact SlotFull.write (fun _ => full.slots i low) rfl rfl

/-- A packet's page goes to the stack, the page in hand takes its place. -/
theorem PagesKept.deliver {pg : RxPage} (kept : PagesKept (hand ++ [pg]) q) (full : RxFull q) (len : Nat) :
    PagesKept hand (q.deliver len pg) := by
  rcases full.slots _ full.clean with ⟨old, slot, -⟩
  have buffer : (q.deliver len pg).buffer =
      Function.update q.buffer q.descRing.nextToClean ⟨some pg, xdpPacketHeadroom⟩ := rfl
  have swap := slotPages_swap full.clean buffer
  rw [slot] at swap
  have given : (q.deliver len pg).givenPages = q.givenPages ++ [old] := by
    simp [RxQueue.givenPages, RxQueue.deliver, slot]
  have returned : (q.deliver len pg).returned = q.returned := rfl
  have moved : ((q.deliver len pg).allPages ++ hand).Perm (q.allPages ++ (hand ++ [pg])) := by
    rw [RxQueue.allPages, RxQueue.allPages, given, returned]
    rw [List.perm_iff_count] at swap ⊢
    intro a
    have counts := swap a
    simp only [List.count_append, Option.toList] at counts ⊢
    omega
  exact kept.move rfl moved

/-- What of the queue its pages are about. -/
theorem PagesKept.same {q' : RxQueue} (kept : PagesKept hand q) (buffer : q'.buffer = q.buffer)
    (given : q'.given = q.given) (returned : q'.returned = q.returned) (taken : q'.taken = q.taken) :
    PagesKept hand q' := by
  unfold PagesKept RxQueue.allPages RxQueue.slotPages RxQueue.givenPages
  rw [buffer, given, returned, taken]
  exact kept

theorem RxFull.same {q' : RxQueue} (full : RxFull q) (descRing : q'.descRing = q.descRing)
    (buffer : q'.buffer = q.buffer) (cmplCount : q'.cmplRing.count = q.cmplRing.count)
    (cmplClean : q'.cmplRing.nextToClean = q.cmplRing.nextToClean) : RxFull q' := by
  refine ⟨?_, ?_, ?_, ?_, fun i low => (full.slots i low).same ?_ ?_⟩
  · rw [descRing, full.count]
  · rw [descRing]
    exact full.clean
  · rw [cmplCount, full.cmplCount]
  · rw [cmplClean]
    exact full.cmplClean
  · rw [buffer]
  · rw [descRing]

theorem RxFull.refillCredit (full : RxFull q) : RxFull q.refillCredit := by
  unfold RxQueue.refillCredit
  split
  · exact full
  · exact ⟨full.count, full.clean, full.cmplCount, full.cmplClean, full.slots⟩

theorem PagesKept.refillCredit (kept : PagesKept hand q) : PagesKept hand q.refillCredit := by
  unfold RxQueue.refillCredit
  split
  · exact kept
  · exact kept

/-- A page comes back to the pool. -/
theorem PagesKept.putPage {pg : RxPage} (kept : PagesKept (hand ++ [pg]) q) : PagesKept hand (q.putPage pg) := by
  have moved : ((q.putPage pg).allPages ++ hand).Perm (q.allPages ++ (hand ++ [pg])) := by
    have pages : (q.putPage pg).allPages = q.allPages ++ [pg] := (List.append_assoc ..).symm
    rw [pages, List.append_assoc]
    exact List.Perm.append_left _ List.perm_append_comm
  exact kept.move rfl moved

/-- A page is put into a slot that has none. -/
theorem PagesKept.fillSlot {i : Nat} {pg : RxPage} (kept : PagesKept (hand ++ [pg]) q) (small : i < vfRxSlots)
    (empty : (q.buffer i).pg = none) : PagesKept hand (q.fillSlot i pg) := by
  have buffer : (q.fillSlot i pg).buffer = Function.update q.buffer i ⟨some pg, xdpPacketHeadroom⟩ := rfl
  have swap := slotPages_swap small buffer
  have others : (q.fillSlot i pg).allPages = (q.fillSlot i pg).slotPages ++ q.givenPages ++ q.returned := rfl
  have moved : ((q.fillSlot i pg).allPages ++ hand).Perm (q.allPages ++ (hand ++ [pg])) := by
    rw [others, RxQueue.allPages]
    rw [empty, List.perm_iff_count] at swap
    rw [List.perm_iff_count]
    intro a
    have counts := swap a
    simp only [List.count_append, Option.toList, List.count_nil] at counts ⊢
    omega
  exact kept.move rfl moved

theorem RxFilling.fillSlot {n : Nat} (filling : RxFilling n q) (pg : RxPage) : RxFilling (n + 1) (q.fillSlot n pg) := by
  refine ⟨filling.count, filling.clean, fun i low => ?_, fun i high => ?_⟩
  · exact SlotFull.write (fun other => filling.slots i (by omega)) rfl rfl
  · have other : i ≠ n := by omega
    have same : (q.fillSlot n pg).buffer i = q.buffer i := Function.update_of_ne other _ _
    rw [same]
    exact filling.rest i (by omega)

theorem RxFilling.same {n : Nat} {q' : RxQueue} (filling : RxFilling n q) (descRing : q'.descRing = q.descRing)
    (buffer : q'.buffer = q.buffer) : RxFilling n q' := by
  refine ⟨?_, ?_, fun i low => (filling.slots i low).same ?_ ?_, fun i high => ?_⟩
  · rw [descRing, filling.count]
  · rw [descRing, filling.clean]
  · rw [buffer]
  · rw [descRing]
  · rw [buffer, filling.rest i high]

theorem RxFilling.not_full {n : Nat} (filling : RxFilling n q) (low : n < vfRxSlots) : ¬ RxFull q := by
  intro full
  rcases full.slots n low with ⟨pg, slot, -⟩
  have empty := filling.rest n (Nat.le_refl n)
  rw [slot] at empty
  cases empty

theorem RxFilling.zeroed : RxFilling 0 RxQueue.zeroed :=
  ⟨rfl, rfl, fun i low => absurd low (Nat.not_lt_zero i), fun _ _ => rfl⟩

theorem PagesKept.zeroed : PagesKept [] RxQueue.zeroed := by
  have none : RxQueue.zeroed.slotPages = [] := List.filterMap_eq_nil_iff.mpr fun _ _ => rfl
  unfold PagesKept RxQueue.allPages
  rw [none]
  exact .refl _

theorem RxFilling.full (filling : RxFilling vfRxSlots q) : RxFull q.initCmplRing := by
  have first : 0 < vfRxSlots := by decide
  refine ⟨filling.count, ?_, rfl, first, filling.slots⟩
  have clean : q.initCmplRing.descRing.nextToClean = q.descRing.nextToClean := rfl
  rw [clean, filling.clean]
  exact first

/-- With no page in the slots or in hand, all are settled. -/
theorem PagesKept.settled (kept : PagesKept [] q) (slots : q.slotPages = []) : RxSettled q := by
  refine ⟨slots, ?_⟩
  unfold PagesKept at kept
  rwa [RxQueue.allPages, slots, List.nil_append, List.append_nil] at kept

theorem PagesKept.freeSlot {i : Nat} (kept : PagesKept hand q) (small : i < vfRxSlots) :
    PagesKept hand (q.freeSlot i) := by
  cases slot : (q.buffer i).pg with
  | none =>
    have same : q.freeSlot i = q := by simp [RxQueue.freeSlot, slot]
    rw [same]
    exact kept
  | some pg =>
    have freed : q.freeSlot i =
        { q.putPage pg with buffer := Function.update q.buffer i { q.buffer i with pg := none } } := by
      simp [RxQueue.freeSlot, slot]
    have buffer : (q.freeSlot i).buffer = Function.update q.buffer i { q.buffer i with pg := none } := by rw [freed]
    have swap := slotPages_swap small buffer
    have others : (q.freeSlot i).allPages = (q.freeSlot i).slotPages ++ q.givenPages ++ (q.returned ++ [pg]) := by
      rw [freed]
      rfl
    have moved : ((q.freeSlot i).allPages ++ hand).Perm (q.allPages ++ hand) := by
      rw [others, RxQueue.allPages]
      rw [slot, List.perm_iff_count] at swap
      rw [List.perm_iff_count]
      intro a
      have counts := swap a
      simp only [List.count_append, Option.toList, List.count_nil] at counts ⊢
      omega
    have taken : (q.freeSlot i).taken = q.taken := by
      rw [freed]
      rfl
    exact kept.move taken moved

theorem freeSlot_here (q : RxQueue) (i : Nat) : ((q.freeSlot i).buffer i).pg = none := by
  unfold RxQueue.freeSlot
  split
  · assumption
  · simp

theorem freeSlot_none (q : RxQueue) (i j : Nat) (empty : (q.buffer j).pg = none) :
    ((q.freeSlot i).buffer j).pg = none := by
  by_cases here : j = i
  · subst here
    exact freeSlot_here q j
  · unfold RxQueue.freeSlot
    split
    · exact empty
    · simp only [Function.update_of_ne here]
      exact empty

/-- The induction is on the slots that are still to free. -/
theorem freeSlots_kept (slots : List Nat) (small : ∀ i ∈ slots, i < vfRxSlots) (kept : PagesKept hand q) :
    PagesKept hand (slots.foldl RxQueue.freeSlot q) := by
  induction slots generalizing q with
  | nil => exact kept
  | cons i rest ih =>
    have here := kept.freeSlot (small i List.mem_cons_self)
    exact ih (fun j mem => small j (List.mem_cons_of_mem i mem)) here

theorem freeSlots_none (slots : List Nat) (j : Nat) (freed : j ∈ slots ∨ (q.buffer j).pg = none) :
    ((slots.foldl RxQueue.freeSlot q).buffer j).pg = none := by
  induction slots generalizing q with
  | nil =>
    rcases freed with mem | empty
    · cases mem
    · exact empty
  | cons i rest ih =>
    apply ih
    rcases freed with mem | empty
    · rcases List.mem_cons.mp mem with rfl | mem
      · exact .inr (freeSlot_here q j)
      · exact .inl mem
    · exact .inr (freeSlot_none q i j empty)

theorem PagesKept.freePages (kept : PagesKept [] q) (count : q.descRing.count = onicVfRxRingCount) :
    RxSettled q.freePages := by
  have real : q.descRing.realCount = vfRxSlots := by
    rw [RxRing.realCount, count]
    rfl
  have freed : q.freePages = (List.range vfRxSlots).foldl RxQueue.freeSlot q := by rw [RxQueue.freePages, real]
  have after : PagesKept [] q.freePages := by
    rw [freed]
    exact freeSlots_kept _ (fun i mem => List.mem_range.mp mem) kept
  have slots : q.freePages.slotPages = [] := by
    rw [RxQueue.slotPages, List.filterMap_eq_nil_iff]
    intro i mem
    rw [freed]
    exact freeSlots_none _ i (.inl mem)
  exact after.settled slots

theorem RxSettled.same {q q' : RxQueue} (settled : RxSettled q) (buffer : q'.buffer = q.buffer) (given : q'.given = q.given)
    (returned : q'.returned = q.returned) (taken : q'.taken = q.taken) : RxSettled q' := by
  refine ⟨?_, ?_⟩
  · rw [RxQueue.slotPages, buffer]
    exact settled.slots
  · rw [RxQueue.givenPages, given, returned, taken]
    exact settled.pages

end

/-- Some of the pages may be in the hands of the code. -/
def RxOwned (q : RxQueue) : Prop := RxFull q ∧ ∃ hand, PagesKept hand q

/-- Between two accesses of the code only completions are written. -/
def rxPages : Contract RxQueue where
  ok _ := True
  inv _ := True
  rely q q' := q' = { q with cmplRing := { q.cmplRing with desc := q'.cmplRing.desc } }
  guarantee q q' := RxOwned q → RxOwned q'
  rely_refl _ := rfl
  rely_trans {a b c} first second := by rw [second, first]
  guarantee_refl _ owned := owned

section

variable {hand : List RxPage}

theorem rxPages_stable {P : RxQueue → Prop}
    (keeps : ∀ q desc, P q → P { q with cmplRing := { q.cmplRing with desc := desc } }) :
    rxPages.Stable P := by
  intro q q' holds rely _ _
  have same : q' = { q with cmplRing := { q.cmplRing with desc := q'.cmplRing.desc } } := rely
  rw [same]
  exact keeps q q'.cmplRing.desc holds

theorem full_kept_stable : rxPages.Stable fun q => RxFull q ∧ PagesKept hand q :=
  rxPages_stable fun _ _ holds => ⟨holds.1.same rfl rfl rfl rfl, holds.2.same rfl rfl rfl rfl⟩

/-- A read or a decision in the poll. -/
theorem poll_access {α : Type} {act : RxInput → RxQueue → Option (α × RxQueue)}
    (same : ∀ i q a q', act i q = some (a, q') → q' = q) :
    rxPages.Triple (fun q => RxFull q ∧ PagesKept hand q) (.access act) fun _ q => RxFull q ∧ PagesKept hand q := by
  apply Contract.Triple.access full_kept_stable fun _ => full_kept_stable
  intro q i a q' _ _ holds taken _
  rw [same i q a q' taken]
  exact ⟨trivial, id, holds⟩

theorem poll_read {α : Type} (f : RxQueue → α) :
    rxPages.Triple (fun q => RxFull q ∧ PagesKept hand q) (.read f : Program RxQueue RxInput α)
      fun _ q => RxFull q ∧ PagesKept hand q := by
  apply poll_access
  intro _ q a q' taken
  have := (Prod.mk.inj (Option.some.inj taken)).2
  exact this.symm

theorem poll_modify {hand' : List RxPage} {f : RxQueue → RxQueue}
    (full : ∀ q, RxFull q → RxFull (f q)) (kept : ∀ q, RxFull q → PagesKept hand q → PagesKept hand' (f q)) :
    rxPages.Triple (fun q => RxFull q ∧ PagesKept hand q) (.modify f : Program RxQueue RxInput Unit)
      fun _ q => RxFull q ∧ PagesKept hand' q := by
  apply Contract.Triple.modify full_kept_stable full_kept_stable
  intro q _ _ holds _
  have after : RxFull (f q) ∧ PagesKept hand' (f q) := ⟨full q holds.1, kept q holds.1 holds.2⟩
  exact ⟨trivial, fun _ => ⟨after.1, hand', after.2⟩, after⟩

theorem onicVfAllocPage_pages :
    rxPages.Triple (fun q => RxFull q ∧ PagesKept [] q) onicVfAllocPage
      fun pg q => RxFull q ∧ PagesKept pg.toList q := by
  apply Contract.Triple.access full_kept_stable fun _ => full_kept_stable
  intro q input pg q' _ _ holds taken _
  cases page : input.page with
  | none =>
    rw [page] at taken
    cases taken
    exact ⟨trivial, id, holds⟩
  | some dma =>
    rw [page] at taken
    cases taken
    have after := holds.2.take dma
    have full : RxFull { q with taken := q.taken + 1 } := holds.1.same rfl rfl rfl rfl
    exact ⟨trivial, fun _ => ⟨full, _, after⟩, full, after⟩

theorem deliver_pages (len : Nat) (pg : RxPage) :
    rxPages.Triple (fun q => RxFull q ∧ PagesKept [pg] q) (.modify (RxQueue.deliver len pg) : Program RxQueue RxInput Unit)
      fun _ q => RxFull q ∧ PagesKept [] q := by
  apply poll_modify
  · intro q full
    exact full.deliver len pg
  · intro q full kept
    have inHand : PagesKept ([] ++ [pg]) q := kept
    exact inHand.deliver full len

theorem refill_pages : rxPages.Triple (fun q => RxFull q ∧ PagesKept [] q) onicVfRxRefillCredit
    fun _ q => RxFull q ∧ PagesKept [] q := by
  apply poll_modify
  · intro q full
    exact full.refillCredit
  · intro q _ kept
    exact kept.refillCredit

theorem put_pages (pg : RxPage) :
    rxPages.Triple (fun q => RxFull q ∧ PagesKept [pg] q) (.modify (RxQueue.putPage pg) : Program RxQueue RxInput Unit)
      fun _ q => RxFull q ∧ PagesKept [] q := by
  apply poll_modify
  · intro q full
    exact full.same rfl rfl rfl rfl
  · intro q _ kept
    have inHand : PagesKept ([] ++ [pg]) q := kept
    exact inHand.putPage

/-- The induction is on the budget that is left. -/
theorem onicVfRxLoop_pages (pidx left work : Nat) :
    rxPages.Triple (fun q => RxFull q ∧ PagesKept [] q) (onicVfRxLoop pidx left work)
      fun _ q => RxFull q ∧ PagesKept [] q := by
  have stop (work : Nat) : rxPages.Triple (fun q => RxFull q ∧ PagesKept [] q)
      (.done work : Program RxQueue RxInput Nat) fun _ q => RxFull q ∧ PagesKept [] q :=
    .done full_kept_stable fun _ _ holds => holds
  induction left generalizing work with
  | zero => exact stop work
  | succ left ih =>
    refine .bind (poll_read _) fun clean => ?_
    split
    · exact stop work
    · refine .bind (poll_read _) fun cmpl => .bind (poll_read _) fun invalid => ?_
      split
      · exact stop work
      · refine .bind onicVfAllocPage_pages fun newPg => ?_
        cases newPg with
        | none => exact stop work
        | some newPg =>
          refine .bind (poll_access fun _ _ _ _ taken => ?_) fun built => ?_
          · exact (Prod.mk.inj (Option.some.inj taken)).2.symm
          split
          · refine .bind (deliver_pages cmpl.pktLen newPg) fun _ => ?_
            exact .bind refill_pages fun _ => ih (work + 1)
          · exact .bind (put_pages newPg) fun _ => stop work

theorem onicVfRxPoll_pages (budget : Nat) :
    rxPages.Triple (fun q => RxFull q ∧ PagesKept [] q) (onicVfRxPoll budget)
      fun _ q => RxFull q ∧ PagesKept [] q := by
  have tail (arm : Bool) (work : Nat) : rxPages.Triple (fun q => RxFull q ∧ PagesKept [] q)
      (do onicVfSetCompletionTail arm; .done work) fun _ q => RxFull q ∧ PagesKept [] q := by
    refine .bind (poll_modify (fun _ full => full.same rfl rfl rfl rfl) fun _ _ kept => kept.same rfl rfl rfl rfl) fun _ => ?_
    exact .done full_kept_stable fun _ _ holds => holds
  refine .bind (poll_read _) fun pidx => .bind (onicVfRxLoop_pages pidx budget 0) fun work => ?_
  split
  · refine .bind (poll_access fun _ _ _ _ taken => ?_) fun complete => tail complete work
    exact (Prod.mk.inj (Option.some.inj taken)).2.symm
  · exact tail false work

/-- The pages of a queue that is not published yet; `onic_vf_rx_poll` has not seen it. -/
def RxPrivate (n : Nat) (q : RxQueue) : Prop := RxFilling n q ∧ PagesKept [] q

theorem onicVfFillRxPages_pages (i left : Nat) (fits : i + left ≤ vfRxSlots) :
    rxPages.Triple (RxPrivate i) (onicVfFillRxPages i left)
      fun filled q => ∃ n ≤ i + left, (filled = true → n = i + left) ∧ RxPrivate n q := by
  have stable (n : Nat) : rxPages.Stable (RxPrivate n) := rxPages_stable fun _ _ holds =>
    ⟨⟨holds.1.count, holds.1.clean, holds.1.slots, holds.1.rest⟩, holds.2.same rfl rfl rfl rfl⟩
  induction left generalizing i with
  | zero => exact .done (stable i) fun _ _ holds => ⟨i, Nat.le_refl i, fun _ => rfl, holds⟩
  | succ left ih =>
    apply Contract.Triple.bind (M := fun filled q => RxPrivate (if filled then i + 1 else i) q)
    · apply Contract.Triple.access (stable i) fun _ => stable _
      intro q input filled q' _ _ holds taken _
      cases page : input.page with
      | none =>
        rw [page] at taken
        cases taken
        exact ⟨trivial, id, holds⟩
      | some dma =>
        rw [page] at taken
        cases taken
        have after := (holds.2.take dma).fillSlot (by omega) (holds.1.rest i (Nat.le_refl i))
        exact ⟨trivial, fun owned => absurd owned.1 (holds.1.not_full (by omega)),
          (holds.1.fillSlot _).same rfl rfl, after.same rfl rfl rfl rfl⟩
    · intro filled
      cases filled with
      | false => exact .done (stable i) fun _ _ holds => ⟨i, by omega, fun ok => by simp at ok, holds⟩
      | true =>
        apply (ih (i + 1) (by omega)).conseq fun _ _ holds => holds
        rintro filled q _ ⟨n, low, all, holds⟩
        exact ⟨n, by omega, fun ok => by have := all ok; omega, holds⟩

end

end OpenNic
