import OpenNic.Program.Labelled
import OpenNic.Vf.OpenRings
import OpenNic.Vf.Release

namespace OpenNic

/-- The allocations of `onic_vf_rings_init`. -/
inductive VfAlloc
  | txQueue (qid : Nat)
  | txRing (qid : Nat)
  | txBuffer (qid : Nat)
  | rxQueue (qid : Nat)
  | rxRing (qid : Nat)
  | rxBuffer (qid : Nat)
  | rxPool (qid : Nat)
  | rxPage (qid i : Nat)
  | rxCmplRing (qid : Nat)

/-- What each allocation of a call finds. -/
abbrev VfAllocs := VfAlloc → VfInput

namespace VfAllocs

variable (found : VfAllocs)

def Refused : VfAlloc → Prop
  | .rxPage qid i => (found (.rxPage qid i)).rx.page = none
  | a => (found a).alloc = false

def TxRefused (qid : Nat) : Prop :=
  found.Refused (.txQueue qid) ∨ found.Refused (.txRing qid) ∨ found.Refused (.txBuffer qid)

/-- An allocation of `onic_vf_alloc_rx_ring` fails, the completion ring apart. -/
def RxRefused (qid : Nat) : Prop :=
  found.Refused (.rxQueue qid) ∨ found.Refused (.rxRing qid) ∨ found.Refused (.rxBuffer qid) ∨
    found.Refused (.rxPool qid) ∨ ∃ i < onicVfRxRingCount - 1, found.Refused (.rxPage qid i)

variable {found} {qid : Nat}

theorem rxRefused_pages (queue : (found (.rxQueue qid)).alloc = true) (ring : (found (.rxRing qid)).alloc = true)
    (buffer : (found (.rxBuffer qid)).alloc = true) (pool : (found (.rxPool qid)).alloc = true) :
    found.RxRefused qid ↔ ∃ i < onicVfRxRingCount - 1, found.Refused (.rxPage qid i) := by
  constructor
  · rintro (refused | refused | refused | refused | page)
    · exact Bool.noConfusion (queue.symm.trans refused)
    · exact Bool.noConfusion (ring.symm.trans refused)
    · exact Bool.noConfusion (buffer.symm.trans refused)
    · exact Bool.noConfusion (pool.symm.trans refused)
    · exact page
  · exact fun page => .inr (.inr (.inr (.inr page)))

end VfAllocs

namespace VfNetdev

/-- `onic_vf_alloc_tx_ring`, with the label of each allocation. -/
def namedAllocTxRing (priv : VfQueues) (qid : Nat) : Program VfNetdev VfAllocs Int := do
  match ← kalloc.named (.txQueue qid) with
  | none => .done (- ENOMEM)
  | some id =>
    match ← dmaAllocCoherent.named (.txRing qid) with
    | none =>
      (freeAll [id]).named (.txRing qid)
      .done (- ENOMEM)
    | some mem =>
      match ← kalloc.named (.txBuffer qid) with
      | none =>
        (freeAll [mem.id, id]).named (.txBuffer qid)
        .done (- ENOMEM)
      | some buffer =>
        Program.named (.txBuffer qid) (.modify (publish (.tx qid) (.tx (onicVfTxQueueOf priv qid id buffer mem))))
        .done 0

/-- The loop over the slots from `i` on. -/
def namedFillRxPages (qid id : Nat) : Nat → Nat → Program VfNetdev VfAllocs Bool
  | _, 0 => .done true
  | i, left + 1 => do
    if ← (onRing id (onicVfFillRxPages i 1)).named (.rxPage qid i) then namedFillRxPages qid id (i + 1) left
    else .done false

/-- `onic_vf_alloc_rx_ring` from the first page on. -/
def namedFillRxRing (priv : VfQueues) (qid id buffer pagePool : Nat) (desc : DmaMem) : Program VfNetdev VfAllocs Int := do
  if ← namedFillRxPages qid id 0 (onicVfRxRingCount - 1) then
    match ← dmaAllocCoherent.named (.rxCmplRing qid) with
    | none =>
      (onicVfFreeRxPages id [pagePool, buffer]).named (.rxCmplRing qid)
      (freeAll [pagePool, buffer, desc.id, id]).named (.rxCmplRing qid)
      .done 0
    | some cmpl =>
      Program.named (.rxCmplRing qid) (.modify fun s => s.setRing id (s.ring id).initCmplRing)
      Program.named (.rxCmplRing qid) (.modify fun s => s.publish (.rx qid)
        (.rx (onicVfRxQueueOf priv qid id buffer pagePool (slotPages (s.ring id)) desc cmpl)))
      .done 0
  else
    (onicVfFreeRxPages id [pagePool, buffer]).named (.rxPool qid)
    (freeAll [pagePool, buffer, desc.id, id]).named (.rxPool qid)
    .done (- ENOMEM)

/-- `onic_vf_alloc_rx_ring`, with the label of each allocation. -/
def namedAllocRxRing (priv : VfQueues) (qid : Nat) : Program VfNetdev VfAllocs Int := do
  match ← kalloc.named (.rxQueue qid) with
  | none => .done (- ENOMEM)
  | some id =>
    Program.named (.rxQueue qid) (.modify (setRing id .zeroed))
    match ← dmaAllocCoherent.named (.rxRing qid) with
    | none =>
      (freeAll [id]).named (.rxRing qid)
      .done (- ENOMEM)
    | some desc =>
      match ← kalloc.named (.rxBuffer qid) with
      | none =>
        (freeAll [desc.id, id]).named (.rxBuffer qid)
        .done (- ENOMEM)
      | some buffer =>
        match ← onicVfCreateRxPagePool.named (.rxPool qid) with
        | .error err =>
          (freeAll [buffer, desc.id, id]).named (.rxPool qid)
          .done err
        | .ok pagePool =>
          namedFillRxRing priv qid id buffer pagePool desc

/-- `onic_vf_rings_init`; the labels of what only frees do not matter. -/
def namedRingsInit (priv : VfQueues) : Program VfNetdev VfAllocs Int := do
  if priv.numQVectors = 0 then .done (- EINVAL)
  else
    let err ← .untilErr (namedAllocTxRing priv) 0 priv.numTxQueues
    let err ← if err ≠ 0 then .done err else .untilErr (namedAllocRxRing priv) 0 priv.numRxQueues
    if err ≠ 0 then
      Program.named (.txQueue 0) checkRetained
      Program.named (.txQueue 0) onicVfRingsClear
      .done err
    else .done 0

section

variable {priv : VfQueues} {qid : Nat}

theorem namedAllocTxRing_anonymous (priv : VfQueues) (qid : Nat) :
    (namedAllocTxRing priv qid).anonymous = onicVfAllocTxRing priv qid := by
  rw [namedAllocTxRing, onicVfAllocTxRing, Program.anonymous_bind, Program.anonymous_named]
  congr 1
  funext id
  cases id with
  | none => rfl
  | some id =>
    simp only [Program.anonymous_bind, Program.anonymous_named]
    congr 1
    funext mem
    cases mem with
    | none => simp only [Program.anonymous_bind, Program.anonymous_named, Program.anonymous_done]
    | some mem =>
      simp only [Program.anonymous_bind, Program.anonymous_named]
      congr 1
      funext buffer
      cases buffer <;> simp only [Program.anonymous_bind, Program.anonymous_named, Program.anonymous_done]

/-- The induction is on the slots that are left. -/
theorem namedFillRxPages_anonymous (qid id i left : Nat) :
    (namedFillRxPages qid id i left).anonymous = onRing id (onicVfFillRxPages i left) := by
  induction left generalizing i with
  | zero => rfl
  | succ left ih =>
    have first : onRing id (onicVfFillRxPages i (left + 1)) = (do
        if ← onRing id (onicVfFillRxPages i 1) then onRing id (onicVfFillRxPages (i + 1) left) else .done false) := by
      simp only [onicVfFillRxPages, onRing, Program.comap_bind, Program.lift_bind, Program.bind_assoc]
      congr 1
      funext filled
      cases filled <;> rfl
    rw [namedFillRxPages, first, Program.anonymous_bind, Program.anonymous_named]
    congr 1
    funext filled
    cases filled with
    | false => rfl
    | true => exact ih (i + 1)

theorem namedAllocRxRing_anonymous (priv : VfQueues) (qid : Nat) :
    (namedAllocRxRing priv qid).anonymous = onicVfAllocRxRing priv qid := by
  rw [namedAllocRxRing, onicVfAllocRxRing, Program.anonymous_bind, Program.anonymous_named]
  congr 1
  funext id
  cases id with
  | none => rfl
  | some id =>
    simp only [Program.anonymous_bind, Program.anonymous_named]
    congr 1
    funext _
    congr 1
    funext desc
    cases desc with
    | none => simp only [Program.anonymous_bind, Program.anonymous_named, Program.anonymous_done]
    | some desc =>
      simp only [Program.anonymous_bind, Program.anonymous_named]
      congr 1
      funext buffer
      cases buffer with
      | none => simp only [Program.anonymous_bind, Program.anonymous_named, Program.anonymous_done]
      | some buffer =>
        simp only [Program.anonymous_bind, Program.anonymous_named]
        congr 1
        funext pool
        cases pool with
        | error err => simp only [Program.anonymous_bind, Program.anonymous_named, Program.anonymous_done]
        | ok pagePool =>
          simp only [namedFillRxRing, Program.anonymous_bind, namedFillRxPages_anonymous]
          congr 1
          funext filled
          cases filled with
          | false => simp [Program.anonymous_bind]
          | true =>
            simp only [if_true, Program.anonymous_bind, Program.anonymous_named]
            congr 1
            funext cmpl
            cases cmpl <;> simp only [Program.anonymous_bind, Program.anonymous_named, Program.anonymous_done]

theorem namedRingsInit_anonymous (priv : VfQueues) : (namedRingsInit priv).anonymous = onicVfRingsInit priv := by
  rw [namedRingsInit, onicVfRingsInit]
  split
  · rfl
  · simp only [Program.anonymous_bind, Program.anonymous_untilErr, namedAllocTxRing_anonymous]
    congr 1
    funext err
    by_cases failed : err = 0
    · simp only [failed, ne_eq, not_true, if_false, Program.anonymous_bind, Program.anonymous_untilErr,
        namedAllocRxRing_anonymous]
      congr 1
      funext err
      split <;> simp only [Program.anonymous_bind, Program.anonymous_named, Program.anonymous_done]
    · simp [failed, Program.anonymous_bind]

theorem namedAllocTxRing_labelled (priv : VfQueues) (qid : Nat) : (namedAllocTxRing priv qid).Labelled := by
  apply Program.Labelled.bind (.named _ _)
  intro id
  cases id with
  | none => exact .done _
  | some id =>
    apply Program.Labelled.bind (.named _ _)
    intro mem
    cases mem with
    | none => exact .bind (.named _ _) fun _ => .done _
    | some mem =>
      apply Program.Labelled.bind (.named _ _)
      intro buffer
      cases buffer <;> exact .bind (.named _ _) fun _ => .done _

theorem namedFillRxPages_labelled (qid id i left : Nat) : (namedFillRxPages qid id i left).Labelled := by
  induction left generalizing i with
  | zero => exact .done true
  | succ left ih =>
    apply Program.Labelled.bind (.named _ _)
    intro filled
    cases filled with
    | false => exact .done false
    | true => exact ih (i + 1)

theorem namedAllocRxRing_labelled (priv : VfQueues) (qid : Nat) : (namedAllocRxRing priv qid).Labelled := by
  apply Program.Labelled.bind (.named _ _)
  intro id
  cases id with
  | none => exact .done _
  | some id =>
    apply Program.Labelled.bind (.named _ _)
    intro _
    apply Program.Labelled.bind (.named _ _)
    intro desc
    cases desc with
    | none => exact .bind (.named _ _) fun _ => .done _
    | some desc =>
      apply Program.Labelled.bind (.named _ _)
      intro buffer
      cases buffer with
      | none => exact .bind (.named _ _) fun _ => .done _
      | some buffer =>
        apply Program.Labelled.bind (.named _ _)
        intro pool
        cases pool with
        | error err => exact .bind (.named _ _) fun _ => .done _
        | ok pagePool =>
          apply Program.Labelled.bind (namedFillRxPages_labelled ..)
          intro filled
          cases filled with
          | false => exact .bind (.named _ _) fun _ => .bind (.named _ _) fun _ => .done _
          | true =>
            apply Program.Labelled.bind (.named _ _)
            intro cmpl
            cases cmpl <;> exact .bind (.named _ _) fun _ => .bind (.named _ _) fun _ => .done _

theorem namedRingsInit_labelled (priv : VfQueues) : (namedRingsInit priv).Labelled := by
  rw [namedRingsInit]
  split
  · exact .done _
  · have tail (err : Int) : (if err ≠ 0 then do
        Program.named (.txQueue 0) checkRetained
        Program.named (.txQueue 0) onicVfRingsClear
        .done err
      else .done 0 : Program VfNetdev VfAllocs Int).Labelled := by
      split
      · exact .bind (.named _ _) fun _ => .bind (.named _ _) fun _ => .done _
      · exact .done 0
    apply Program.Labelled.bind (.untilErr (namedAllocTxRing_labelled priv) _ _)
    intro err
    by_cases failed : err ≠ 0
    · rw [if_pos failed]
      exact tail err
    · rw [if_neg failed]
      exact .bind (.untilErr (namedAllocRxRing_labelled priv) _ _) tail

end

/-- What the filling of an entry has come to; `refused` says when it is an error, and `made` when
    there is a queue without an error. -/
structure FillEnd (slot : VfSlot) (refused made : Prop) (s : VfNetdev) (err : Int) (s' : VfNetdev) : Prop where
  err_iff : err = 0 ↔ ¬ refused
  negative : err ≤ 0
  entry : err = 0 → (s'.queue slot ≠ none ↔ made ∨ s.queue slot ≠ none)
  others : ∀ other, other ≠ slot → s'.queue other = s.queue other

theorem FillEnd.failed {slot : VfSlot} {refused made : Prop} {s s' : VfNetdev} {err : Int} (negative : err < 0)
    (here : refused) (same : s'.queue = s.queue) : FillEnd slot refused made s err s' where
  err_iff := ⟨fun zero => by omega, fun not => absurd here not⟩
  negative := Int.le_of_lt negative
  entry := fun zero => by omega
  others := fun other _ => by rw [same]

/-- What only frees does not wait, and leaves the entries as they are. -/
theorem freeAll_eval (ids : List Nat) (input : VfInput) (s : VfNetdev) :
    ∃ t, (freeAll ids).eval input s = some ((), t) ∧ t.queue = s.queue := by
  induction ids generalizing s with
  | nil => exact ⟨s, rfl, rfl⟩
  | cons id rest ih =>
    rcases ih (s.free id) with ⟨t, ran, same⟩
    refine ⟨t, ?_, same⟩
    rw [freeAll, Program.eval_bind]
    exact ran

section

variable {priv : VfQueues} {qid : Nat} {found : VfAllocs}

/-- Where an allocation fails, what there is is freed. -/
theorem unwind_end {slot : VfSlot} {refused made : Prop} {err : Int} {s t : VfNetdev} (label : VfAlloc) (ids : List Nat)
    (negative : err < 0) (here : refused) (same : t.queue = s.queue) :
    ∃ e s', (do (freeAll ids).named label; .done err : Program VfNetdev VfAllocs Int).eval found t = some (e, s') ∧
      FillEnd slot refused made s e s' := by
  rcases freeAll_eval ids (found label) t with ⟨s', ran, kept⟩
  refine ⟨err, s', ?_, .failed negative here (kept.trans same)⟩
  rw [Program.eval_bind, Program.eval_named, ran]
  rfl

/-- An allocation fails, but no error is returned. -/
theorem unfilled_end {slot : VfSlot} {refused made : Prop} {s t : VfNetdev} (label : VfAlloc) (ids : List Nat)
    (granted : ¬ refused) (none : ¬ made) (same : t.queue = s.queue) :
    ∃ e s', (do (freeAll ids).named label; .done 0 : Program VfNetdev VfAllocs Int).eval found t = some (e, s') ∧
      FillEnd slot refused made s e s' := by
  rcases freeAll_eval ids (found label) t with ⟨s', ran, kept⟩
  have entries : s'.queue = s.queue := kept.trans same
  refine ⟨0, s', ?_, iff_of_true rfl granted, Int.le_refl 0, fun _ => ?_, fun other _ => by rw [entries]⟩
  · rw [Program.eval_bind, Program.eval_named, ran]
    rfl
  · rw [entries]
    simp [none]

theorem kalloc_granted {input : VfInput} (granted : input.alloc = true) (s : VfNetdev) :
    kalloc.eval input s = some (some s.next, { s with next := s.next + 1 }) := by simp [kalloc, granted]

theorem kalloc_refused {input : VfInput} (refused : input.alloc = false) (s : VfNetdev) :
    kalloc.eval input s = some (none, s) := by simp [kalloc, refused]

theorem dmaAllocCoherent_granted {input : VfInput} (granted : input.alloc = true) (s : VfNetdev) :
    dmaAllocCoherent.eval input s = some (some ⟨s.next, input.addr⟩, { s with next := s.next + 1 }) := by
  simp [dmaAllocCoherent, granted]

theorem dmaAllocCoherent_refused {input : VfInput} (refused : input.alloc = false) (s : VfNetdev) :
    dmaAllocCoherent.eval input s = some (none, s) := by simp [dmaAllocCoherent, refused]

theorem namedAllocTxRing_eval (priv : VfQueues) (qid : Nat) (found : VfAllocs) (s : VfNetdev) :
    ∃ err s', (namedAllocTxRing priv qid).eval found s = some (err, s') ∧
      FillEnd (.tx qid) (found.TxRefused qid) True s err s' := by
  have negative : (- ENOMEM) < 0 := by decide
  simp only [namedAllocTxRing, Program.eval_bind, Program.eval_named]
  by_cases queue : (found (.txQueue qid)).alloc = true
  · rw [kalloc_granted queue, Option.bind_some]
    simp only [Program.eval_bind, Program.eval_named]
    by_cases ring : (found (.txRing qid)).alloc = true
    · rw [dmaAllocCoherent_granted ring, Option.bind_some]
      simp only [Program.eval_bind, Program.eval_named]
      by_cases buffer : (found (.txBuffer qid)).alloc = true
      · rw [kalloc_granted buffer]
        refine ⟨0, _, rfl, ?_, Int.le_refl 0, fun _ => ?_, fun other away => ?_⟩
        · simp [VfAllocs.TxRefused, VfAllocs.Refused, queue, ring, buffer]
        · simp [publish]
        · exact Function.update_of_ne (f := s.queue) away (some s.next)
      · have refused : found.Refused (.txBuffer qid) := Bool.eq_false_of_not_eq_true buffer
        rw [kalloc_refused refused, Option.bind_some]
        exact unwind_end _ _ negative (.inr (.inr refused)) rfl
    · have refused : found.Refused (.txRing qid) := Bool.eq_false_of_not_eq_true ring
      rw [dmaAllocCoherent_refused refused, Option.bind_some]
      exact unwind_end _ _ negative (.inr (.inl refused)) rfl
  · have refused : found.Refused (.txQueue qid) := Bool.eq_false_of_not_eq_true queue
    rw [kalloc_refused refused]
    exact ⟨_, s, rfl, .failed negative (.inl refused) rfl⟩

theorem onicVfCreateRxPagePool_granted {input : VfInput} (granted : input.alloc = true) (s : VfNetdev) :
    onicVfCreateRxPagePool.eval input s = some (.ok s.next, { s with next := s.next + 1 }) := by
  simp [onicVfCreateRxPagePool, granted]

theorem onicVfCreateRxPagePool_refused {input : VfInput} (refused : input.alloc = false) (s : VfNetdev) :
    onicVfCreateRxPagePool.eval input s = some (.error input.err, s) := by simp [onicVfCreateRxPagePool, refused]

/-- One slot more, if there is a page for it. -/
theorem fillOne_eval (id i : Nat) (input : VfInput) (s : VfNetdev) :
    ∃ q, (onRing id (onicVfFillRxPages i 1)).eval input s = some (input.rx.page.isSome, s.setRing id q) := by
  have inner : ∃ q, ((onicVfFillRxPages i 1).comap VfInput.rx).eval input (s.ring id) = some (input.rx.page.isSome, q) := by
    rw [Program.eval_comap, onicVfFillRxPages, Program.eval_bind, Program.eval_access]
    cases input.rx.page <;> exact ⟨_, rfl⟩
  rcases inner with ⟨q, ran⟩
  refine ⟨q, ?_⟩
  rw [onRing, Program.eval_lift (onRing_lens id), ran]
  rfl

/-- The induction is on the slots that are left. -/
theorem namedFillRxPages_eval (qid id i left : Nat) (found : VfAllocs) (s : VfNetdev) :
    ∃ filled q, (namedFillRxPages qid id i left).eval found s = some (filled, s.setRing id q) ∧
      (filled = false ↔ ∃ j, i ≤ j ∧ j < i + left ∧ found.Refused (.rxPage qid j)) := by
  induction left generalizing i s with
  | zero =>
    refine ⟨true, s.ring id, ?_, ?_⟩
    · rw [(onRing_lens id).set_get]
      rfl
    · constructor
      · exact nofun
      · rintro ⟨j, low, high, -⟩
        omega
  | succ left ih =>
    rcases fillOne_eval id i (found (.rxPage qid i)) s with ⟨q, ran⟩
    rw [namedFillRxPages, Program.eval_bind, Program.eval_named, ran, Option.bind_some]
    cases page : (found (.rxPage qid i)).rx.page with
    | none => exact ⟨false, q, rfl, fun _ => ⟨i, Nat.le_refl i, by omega, page⟩, fun _ => rfl⟩
    | some dma =>
      rcases ih (i + 1) (s.setRing id q) with ⟨filled, q', ran', refused⟩
      rw [(onRing_lens id).set_set] at ran'
      refine ⟨filled, q', ran', ?_⟩
      rw [refused]
      constructor
      · rintro ⟨j, low, high, here⟩
        exact ⟨j, by omega, by omega, here⟩
      · rintro ⟨j, low, high, here⟩
        have other : j ≠ i := by
          rintro rfl
          exact absurd (page.symm.trans here) nofun
        exact ⟨j, by omega, by omega, here⟩

theorem namedFillRxRing_eval {id pagePool buffer : Nat} {desc : DmaMem} {s t : VfNetdev} (same : t.queue = s.queue)
    (left : found.RxRefused qid ↔ ∃ i < onicVfRxRingCount - 1, found.Refused (.rxPage qid i)) :
    ∃ err s', (namedFillRxRing priv qid id buffer pagePool desc).eval found t = some (err, s') ∧
      FillEnd (.rx qid) (found.RxRefused qid) (¬ found.Refused (.rxCmplRing qid)) s err s' := by
  rcases namedFillRxPages_eval qid id 0 (onicVfRxRingCount - 1) found t with ⟨filled, q, ran, pages⟩
  rw [namedFillRxRing, Program.eval_bind, ran, Option.bind_some]
  cases filled with
  | false =>
    rcases pages.mp rfl with ⟨i, -, low, refused⟩
    have here : found.RxRefused qid := left.mpr ⟨i, by omega, refused⟩
    simp only [Bool.false_eq_true, if_false]
    rw [Program.eval_bind, Program.eval_named, onicVfFreeRxPages, Program.eval_modify, Option.bind_some]
    exact unwind_end _ _ (by decide) here same
  | true =>
    have granted : ¬ found.RxRefused qid := by
      rw [left]
      rintro ⟨i, low, refused⟩
      exact absurd (pages.mpr ⟨i, Nat.zero_le i, by omega, refused⟩) nofun
    simp only [if_true]
    rw [Program.eval_bind, Program.eval_named]
    by_cases cmpl : (found (.rxCmplRing qid)).alloc = true
    · rw [dmaAllocCoherent_granted cmpl, Option.bind_some]
      refine ⟨0, _, rfl, iff_of_true rfl granted, Int.le_refl 0, fun _ => ?_, fun other away => ?_⟩
      · have here : ¬ found.Refused (.rxCmplRing qid) := fun refused => Bool.noConfusion (cmpl.symm.trans refused)
        simp [publish, setRing, here]
      · rw [← same]
        exact Function.update_of_ne (f := t.queue) away (some id)
    · have refused : found.Refused (.rxCmplRing qid) := Bool.eq_false_of_not_eq_true cmpl
      rw [dmaAllocCoherent_refused refused, Option.bind_some]
      simp only
      rw [Program.eval_bind, Program.eval_named, onicVfFreeRxPages, Program.eval_modify, Option.bind_some]
      exact unfilled_end _ _ granted (not_not.mpr refused) same

theorem namedAllocRxRing_eval (priv : VfQueues) (qid : Nat) (found : VfAllocs) (s : VfNetdev) :
    ∃ err s', (namedAllocRxRing priv qid).eval found s = some (err, s') ∧
      FillEnd (.rx qid) (found.RxRefused qid) (¬ found.Refused (.rxCmplRing qid)) s err s' := by
  have negative : (- ENOMEM) < 0 := by decide
  rw [namedAllocRxRing, Program.eval_bind, Program.eval_named]
  by_cases queue : (found (.rxQueue qid)).alloc = true
  · rw [kalloc_granted queue, Option.bind_some]
    dsimp only
    rw [Program.eval_bind, Program.eval_named, Program.eval_modify, Option.bind_some, Program.eval_bind, Program.eval_named]
    by_cases ring : (found (.rxRing qid)).alloc = true
    · rw [dmaAllocCoherent_granted ring, Option.bind_some]
      dsimp only
      rw [Program.eval_bind, Program.eval_named]
      by_cases buffer : (found (.rxBuffer qid)).alloc = true
      · rw [kalloc_granted buffer, Option.bind_some]
        dsimp only
        rw [Program.eval_bind, Program.eval_named]
        by_cases pool : (found (.rxPool qid)).alloc = true
        · rw [onicVfCreateRxPagePool_granted pool, Option.bind_some]
          exact namedFillRxRing_eval rfl (VfAllocs.rxRefused_pages queue ring buffer pool)
        · have refused : found.Refused (.rxPool qid) := Bool.eq_false_of_not_eq_true pool
          rw [onicVfCreateRxPagePool_refused refused, Option.bind_some]
          exact unwind_end _ _ (VfInput.err_neg _) (.inr (.inr (.inr (.inl refused)))) rfl
      · have refused : found.Refused (.rxBuffer qid) := Bool.eq_false_of_not_eq_true buffer
        rw [kalloc_refused refused, Option.bind_some]
        exact unwind_end _ _ negative (.inr (.inr (.inl refused))) rfl
    · have refused : found.Refused (.rxRing qid) := Bool.eq_false_of_not_eq_true ring
      rw [dmaAllocCoherent_refused refused, Option.bind_some]
      exact unwind_end _ _ negative (.inr (.inl refused)) rfl
  · have refused : found.Refused (.rxQueue qid) := Bool.eq_false_of_not_eq_true queue
    rw [kalloc_refused refused]
    exact ⟨_, s, rfl, .failed negative (.inl refused) rfl⟩

/-- What the filling of the entries from `lo` on has come to. -/
structure FillsEnd (slot : Nat → VfSlot) (refused made : Nat → Prop) (lo count : Nat) (s : VfNetdev) (err : Int)
    (s' : VfNetdev) : Prop where
  err_iff : err = 0 ↔ ∀ i, lo ≤ i → i < lo + count → ¬ refused i
  negative : err ≤ 0
  entries : err = 0 → ∀ i, lo ≤ i → i < lo + count → (s'.queue (slot i) ≠ none ↔ made i)
  others : ∀ other, (∀ i, lo ≤ i → other ≠ slot i) → s'.queue other = s.queue other

/-- The induction is on the entries that are left; the first error ends the loop. -/
theorem fills_eval {body : Nat → Program VfNetdev VfAllocs Int} {slot : Nat → VfSlot} {refused made : Nat → Prop}
    (apart : ∀ i j, slot i = slot j → i = j)
    (round : ∀ i s, ∃ err s', (body i).eval found s = some (err, s') ∧ FillEnd (slot i) (refused i) (made i) s err s')
    (lo count : Nat) (s : VfNetdev) (empty : ∀ i, lo ≤ i → s.queue (slot i) = none) :
    ∃ err s', (Program.untilErr body lo count).eval found s = some (err, s') ∧ FillsEnd slot refused made lo count s err s' := by
  induction count generalizing lo s with
  | zero =>
    refine ⟨0, s, rfl, ?_, Int.le_refl 0, ?_, fun _ _ => rfl⟩
    · exact iff_of_true rfl fun i low high => by omega
    · exact fun _ i low high => by omega
  | succ count ih =>
    rcases round lo s with ⟨err, mid, ran, first⟩
    rw [Program.untilErr, Program.eval_bind, ran, Option.bind_some]
    by_cases failed : err = 0
    · have later (i : Nat) (low : lo + 1 ≤ i) : mid.queue (slot i) = none := by
        rw [first.others (slot i) fun same => by have := apart i lo same; omega]
        exact empty i (by omega)
      rcases ih (lo + 1) mid later with ⟨err', s', ran', rest⟩
      refine ⟨err', s', ?_, ?_, rest.negative, fun ok i low high => ?_, fun other away => ?_⟩
      · simp only [failed, ne_eq, not_true, if_false]
        exact ran'
      · rw [rest.err_iff]
        constructor
        · intro all i low high
          by_cases here : i = lo
          · rw [here]
            exact first.err_iff.mp failed
          · exact all i (by omega) (by omega)
        · exact fun all i low high => all i (by omega) (by omega)
      · by_cases here : i = lo
        · subst here
          have kept := rest.others (slot i) fun j low same => by have := apart i j same; omega
          rw [kept, first.entry failed]
          simp [empty i (Nat.le_refl i)]
        · exact rest.entries ok i (by omega) (by omega)
      · rw [rest.others other fun i low => away i (by omega)]
        exact first.others other (away lo (Nat.le_refl lo))
    · refine ⟨err, mid, ?_, ?_, first.negative, fun ok => absurd ok failed, fun other away => first.others other (away lo (Nat.le_refl lo))⟩
      · simp only [ne_eq, failed, not_false_iff, if_true]
        rfl
      · refine iff_of_false failed fun all => ?_
        exact failed (first.err_iff.mpr (all lo (Nat.le_refl lo) (by omega)))

end

end VfNetdev

/-- No entry points to a queue, and nothing but interrupts reaches the netdev. -/
structure VfClosed (s : VfNetdev) : Prop where
  entries : ∀ slot, s.queue slot = none
  balanced : (s.freed ++ s.leaked).Perm (List.range s.next)
  ctxt : s.NoLapse → ∀ slot, ∀ m ∈ s.ctxt slot, m ∈ s.leaked
  quiet : s.Quiet
  point : s.point = .elsewhere
  faults : s.faults = [] ↔ .interrupt ∉ s.lapses

/-- What a call knows that finds all entries NULL. -/
def closedKnown (s : VfNetdev) : VfKnown where
  free := fun _ => False
  facts := fun e => ∀ slot, e slot = none
  on := .off
  running := s.running
  caller := s.caller
  tight := True
  lost := s.leaked

namespace VfClosed

variable {priv : VfQueues} {s : VfNetdev}

theorem at_ (closed : VfClosed s) : VfAt (vfSlots priv) (closedKnown s).rest s := by
  have none (slot : VfSlot) : s.at_ slot = none := by simp [VfCtl.at_, closed.entries slot]
  have entry {slot : VfSlot} {id : Nat} (here : s.queue slot = some id) : False := by
    rw [closed.entries slot] at here
    cases here
  have napi {id : Nat} (on : s.napi id = true) : False := by
    rw [closed.quiet.napi id] at on
    cases on
  exact {
    balanced := (VfCtl.balanced_empty none).mpr closed.balanced
    tight := fun _ => rfl
    shape := fun _ _ here => (entry here).elim
    bits := fun _ _ here => (entry here).elim
    switched := fun _ here => by simp [VfKnown.rest] at here
    polls := fun _ on => (napi on).elim
    tied := fun lapse slot m mem => .inl (closed.ctxt lapse slot m mem)
    free := fun _ may => may.elim
    released := fun _ away => by simp [VfKnown.rest] at away
    body := fun _ _ releasing => by simp [VfKnown.rest] at releasing
    gone := fun _ nulling => by simp [VfKnown.rest] at nulling
    point := closed.point
    facts := none
    up := fun on => by simp [closed.quiet.up] at on
    rxPollWork := fun on => by simp [closed.quiet.rxPollWork] at on
    txCleanWork := fun on => by simp [closed.quiet.txCleanWork] at on
    napi := fun _ on => (napi on).elim
    still := fun away => absurd rfl away
    running := rfl
    caller := rfl }

theorem safe (closed : VfClosed s) : VfSafe s := by
  have at_ : VfAt (vfSlots ⟨0, 0, 0, fun _ => none⟩) (closedKnown s).rest s := closed.at_
  exact at_.safe closed.faults

/-- Between two calls, with all entries NULL. -/
theorem between (between : VfBetween priv s) (down : s.running = false) (empty : ∀ slot, s.queue slot = none) : VfClosed s := by
  rcases between.idle with ⟨k, at_, off⟩
  have none (slot : VfSlot) : s.at_ slot = none := by simp [VfCtl.at_, empty slot]
  refine ⟨empty, ?_, fun lapse slot m mem => ?_, at_.quiet (off (at_.running.symm.trans down)), at_.point, between.safe.faults⟩
  · exact (VfCtl.balanced_empty none).mp at_.balanced
  · rcases at_.tied lapse slot m mem with lost | ⟨q, here, -⟩
    · exact lost
    · rw [none slot] at here
      cases here

end VfClosed

/-- Each entry points to a queue as it is set up, with memory that is not freed; each slot of an RX ring has its page. -/
structure RingsComplete (priv : VfQueues) (s : VfNetdev) : Prop where
  tx : ∀ qid < priv.numTxQueues, ∃ q, s.at_ (.tx qid) = some q ∧ VfFresh priv (.tx qid) q ∧ ∀ m ∈ q.mem, m < s.next ∧ m ∉ s.freed
  rx : ∀ qid < priv.numRxQueues, ∃ q, s.at_ (.rx qid) = some q ∧ VfFresh priv (.rx qid) q ∧
    (∀ m ∈ q.mem, m < s.next ∧ m ∉ s.freed) ∧ RxFilled (s.ring q.id)

/-- All entries are NULL, and what has been allocated since `s` has been freed once: all memory, and all pages of
    each ring that is not as it was. -/
structure RingsUndone (s s' : VfNetdev) : Prop where
  entries : ∀ slot, s'.queue slot = none
  freed : s'.freed.Perm (s.freed ++ List.range' s.next (s'.next - s.next))
  pages : ∀ id, s'.ring id = s.ring id ∨ s.next ≤ id ∧ RxReturned (s'.ring id)

namespace VfNetdev

variable {priv : VfQueues} {s s' : VfNetdev} {err : Int}

/-- No ring has been allocated yet. -/
theorem ringsSince_closed (closed : VfClosed s) : RingsSince s 0 none s where
  next := Nat.le_refl _
  entry qid id here := by
    rw [closed.entries] at here
    cases here
  apart one two id first := by
    rw [closed.entries] at first
    cases first
  filled qid id here := by
    rw [closed.entries] at here
    cases here
  others id _ _ := .inl rfl

/-- With all entries NULL and nothing lost, what has been allocated since `s` is freed. -/
theorem undone_of_closed (closed : VfClosed s) {n : Nat} (since : RingsSince s n none s') {k : VfKnown}
    (at_ : VfAt (vfSlots priv) k.rest s') (entries : ∀ slot, s'.at_ slot = none) (lost : s'.leaked = s.leaked) :
    RingsUndone s s' := by
  have queue (slot : VfSlot) : s'.queue slot = none := by
    cases here : s'.queue slot with
    | none => rfl
    | some id =>
      have there := entries slot
      simp [VfCtl.at_, here] at there
  refine ⟨queue, ?_, fun id => since.others id (fun qid here => by simp [queue] at here) (by simp)⟩
  have after := (VfCtl.balanced_empty entries).mp at_.balanced
  rw [lost] at after
  have split : List.range s'.next = List.range s.next ++ List.range' s.next (s'.next - s.next) := by
    have joined : List.range' 0 s.next ++ List.range' (0 + s.next) (s'.next - s.next) =
        List.range' 0 (s.next + (s'.next - s.next)) := List.range'_append_1 ..
    rw [Nat.zero_add, Nat.add_sub_cancel' since.next] at joined
    rw [List.range_eq_range', List.range_eq_range', joined]
  have before := closed.balanced
  rw [split] at after
  rw [List.perm_iff_count] at after before ⊢
  intro a
  have now := after a
  have was := before a
  simp only [List.count_append] at now was ⊢
  omega

theorem ringsInit_known (few : VfFew (vfSlots priv)) (vectors : priv.numQVectors ≠ 0) (closed : VfClosed s)
    (ran : Program.Exec (onicVfRingsInit priv) s err s') : RingsSince s priv.numRxQueues none s' ∧
      VfAt (vfSlots priv) (VfKnown.after err ((closedKnown s).filling priv fun _ => True) (closedKnown s).undone).rest s' :=
  ⟨(onicVfRingsInit_alone priv).alone_exec ran (ringsSince_closed closed),
    (exec_wp (onicVfRingsInit_triple few vectors rfl) closed.safe closed.at_ ran).2⟩

theorem ringsInit_undone (few : VfFew (vfSlots priv)) (vectors : priv.numQVectors ≠ 0) (closed : VfClosed s)
    (ran : Program.Exec (onicVfRingsInit priv) s err s') (failed : err ≠ 0) : RingsUndone s s' := by
  rcases ringsInit_known few vectors closed ran with ⟨since, at_⟩
  rw [VfKnown.after_err failed] at at_
  exact undone_of_closed closed since at_ at_.facts (at_.tight ⟨True.intro, fun _ facts => facts⟩)

/-- What an entry points to once the rings are there. -/
theorem ringsInit_entry (few : VfFew (vfSlots priv)) (vectors : priv.numQVectors ≠ 0) (closed : VfClosed s)
    (ran : Program.Exec (onicVfRingsInit priv) s 0 s') {slot : VfSlot} {q : VfQueue} (here : s'.at_ slot = some q) :
    VfFresh priv slot q ∧ (∀ m ∈ q.mem, m < s'.next ∧ m ∉ s'.freed) ∧ ∀ qid, slot = .rx qid → RxFilled (s'.ring q.id) := by
  rcases ringsInit_known few vectors closed ran with ⟨since, at_⟩
  rw [VfKnown.after_zero] at at_
  have fresh := (at_.facts (fun _ facts => facts) slot q here).2
  rcases at_some here with ⟨id, queue, rfl⟩
  refine ⟨fresh, fun m mem => ⟨?_, at_.live rfl queue m mem⟩, ?_⟩
  · have own := at_.own_of_queue queue nofun nofun
    exact at_.balanced.own_lt (at_.shape slot id queue).1 (own ▸ mem)
  · rintro qid rfl
    rw [(at_.shape _ id queue).2]
    exact since.filled qid id queue nofun

theorem freeAll_enabled (ids : List Nat) : (freeAll ids).Enabled := by
  induction ids with
  | nil => exact True.intro
  | cons id rest ih => exact .bind (.modify _) fun _ => ih

theorem onicVfFreeTxRing_enabled (qid : Nat) : (onicVfFreeTxRing qid).Enabled := by
  apply Program.Enabled.bind (.access fun _ _ => rfl)
  intro q
  cases q with
  | none => exact True.intro
  | some q =>
    exact .bind (.modify _) fun _ => .bind (freeAll_enabled _) fun _ => .bind (.modify _) fun _ => .modify _

theorem onicVfFreeRxRing_enabled (qid : Nat) : (onicVfFreeRxRing qid).Enabled := by
  apply Program.Enabled.bind (.access fun _ _ => rfl)
  intro q
  cases q with
  | none => exact True.intro
  | some q =>
    exact .bind (.modify _) fun _ => .bind (freeAll_enabled _) fun _ => .bind (.modify _) fun _ =>
      .bind (freeAll_enabled _) fun _ => .bind (.modify _) fun _ => .modify _

theorem onicVfRingsClear_enabled : onicVfRingsClear.Enabled :=
  .fold (fun qid _ => .bind (onicVfFreeTxRing_enabled qid) fun _ => onicVfFreeRxRing_enabled qid) _ _ _

/-- The last part of `onic_vf_rings_init`. -/
theorem ringsTail_eval (found : VfAllocs) (err : Int) (s : VfNetdev) :
    ∃ s', (if err ≠ 0 then do
        Program.named (.txQueue 0) checkRetained
        Program.named (.txQueue 0) onicVfRingsClear
        .done err
      else .done 0 : Program VfNetdev VfAllocs Int).eval found s = some (err, s') ∧ (err = 0 → s' = s) := by
  by_cases failed : err = 0
  · subst failed
    exact ⟨s, rfl, fun _ => rfl⟩
  · rw [if_pos failed, Program.eval_bind, Program.eval_named, checkRetained, Program.eval_modify, Option.bind_some,
      Program.eval_bind, Program.eval_named]
    rcases onicVfRingsClear_enabled.eval (found (.txQueue 0)) (if s.Retains then s.lapse .retained else s) with ⟨r, ran⟩
    rw [ran]
    exact ⟨r.2, rfl, fun ok => absurd ok failed⟩

/-- How `onic_vf_rings_init` ends, whatever each allocation finds. -/
theorem namedRingsInit_eval (found : VfAllocs) (vectors : priv.numQVectors ≠ 0) (empty : ∀ slot, s.queue slot = none) :
    ∃ err s', (namedRingsInit priv).eval found s = some (err, s') ∧ err ≤ 0 ∧
      (err = 0 ↔ (∀ qid < priv.numTxQueues, ¬ found.TxRefused qid) ∧ ∀ qid < priv.numRxQueues, ¬ found.RxRefused qid) ∧
      (err = 0 → (∀ qid < priv.numTxQueues, s'.queue (.tx qid) ≠ none) ∧
        ∀ qid < priv.numRxQueues, s'.queue (.rx qid) ≠ none ↔ ¬ found.Refused (.rxCmplRing qid)) := by
  rw [namedRingsInit, if_neg vectors, Program.eval_bind]
  rcases fills_eval (fun _ _ => VfSlot.tx.inj) (fun qid s => namedAllocTxRing_eval priv qid found s) 0 priv.numTxQueues s
    (fun _ _ => empty _) with ⟨err, mid, ran, tx⟩
  rw [ran, Option.bind_some]
  have txAll : err = 0 ↔ ∀ qid < priv.numTxQueues, ¬ found.TxRefused qid := by
    rw [tx.err_iff]
    exact ⟨fun all qid low => all qid (Nat.zero_le qid) (by omega), fun all qid _ low => all qid (by omega)⟩
  by_cases failed : err = 0
  · have emptyRx (qid : Nat) : mid.queue (.rx qid) = none := by
      rw [tx.others (.rx qid) fun _ _ => nofun]
      exact empty _
    rcases fills_eval (fun _ _ => VfSlot.rx.inj) (fun qid s => namedAllocRxRing_eval priv qid found s) 0 priv.numRxQueues mid
      (fun qid _ => emptyRx qid) with ⟨err', mid', ran', rx⟩
    have rxAll : err' = 0 ↔ ∀ qid < priv.numRxQueues, ¬ found.RxRefused qid := by
      rw [rx.err_iff]
      exact ⟨fun all qid low => all qid (Nat.zero_le qid) (by omega), fun all qid _ low => all qid (by omega)⟩
    rcases ringsTail_eval found err' mid' with ⟨s', last, same⟩
    refine ⟨err', s', ?_, rx.negative, ?_, fun ok => ?_⟩
    · simp only [failed, ne_eq, not_true, if_false]
      rw [Program.eval_bind, ran']
      exact last
    · rw [rxAll]
      exact ⟨fun all => ⟨txAll.mp failed, all⟩, fun all => all.2⟩
    · rw [same ok]
      refine ⟨fun qid low => ?_, fun qid low => rx.entries ok qid (Nat.zero_le qid) (by omega)⟩
      rw [rx.others (.tx qid) fun _ _ => nofun]
      exact (tx.entries failed qid (Nat.zero_le qid) (by omega)).mpr True.intro
  · rcases ringsTail_eval found err mid with ⟨s', last, -⟩
    refine ⟨err, s', ?_, tx.negative, iff_of_false failed fun all => failed (txAll.mpr all.1), fun ok => absurd ok failed⟩
    rw [if_pos failed]
    exact last

end VfNetdev

theorem RingsComplete.not_empty {priv : VfQueues} {s : VfNetdev} (complete : RingsComplete priv s)
    (some : 0 < priv.numTxQueues + priv.numRxQueues) : ¬ ∀ slot, s.queue slot = none := by
  intro empty
  have none (slot : VfSlot) : s.at_ slot = none := by simp [VfCtl.at_, empty slot]
  by_cases tx : 0 < priv.numTxQueues
  · rcases complete.tx 0 tx with ⟨q, here, -⟩
    rw [none] at here
    cases here
  · rcases complete.rx 0 (by omega) with ⟨q, here, -⟩
    rw [none] at here
    cases here

theorem VfClosed.undone {s : VfNetdev} (closed : VfClosed s) : RingsUndone s s := by
  refine ⟨closed.entries, ?_, fun _ => .inl rfl⟩
  rw [Nat.sub_self, List.range'_zero, List.append_nil]

/-- Without an error only the completion rings decide. -/
theorem VfNetdev.ringsComplete_iff {priv : VfQueues} {found : VfAllocs} {s s' : VfNetdev} (few : VfFew (vfSlots priv))
    (vectors : priv.numQVectors ≠ 0) (closed : VfClosed s) (ran : Program.Exec (onicVfRingsInit priv) s 0 s')
    (tx : ∀ qid < priv.numTxQueues, s'.queue (.tx qid) ≠ none)
    (rx : ∀ qid < priv.numRxQueues, s'.queue (.rx qid) ≠ none ↔ ¬ found.Refused (.rxCmplRing qid)) :
    RingsComplete priv s' ↔ ∀ qid < priv.numRxQueues, ¬ found.Refused (.rxCmplRing qid) := by
  have entry {slot : VfSlot} (made : s'.queue slot ≠ none) : ∃ q, s'.at_ slot = some q := by
    rcases Option.ne_none_iff_exists'.mp made with ⟨id, here⟩
    exact ⟨s'.obj id, by simp [VfCtl.at_, here]⟩
  constructor
  · intro complete qid low
    rw [← rx qid low]
    intro none
    rcases complete.rx qid low with ⟨q, here, -⟩
    simp [VfCtl.at_, none] at here
  · intro granted
    refine ⟨fun qid low => ?_, fun qid low => ?_⟩
    · rcases entry (tx qid low) with ⟨q, here⟩
      have known := ringsInit_entry few vectors closed ran here
      exact ⟨q, here, known.1, known.2.1⟩
    · rcases entry ((rx qid low).mpr (granted qid low)) with ⟨q, here⟩
      have known := ringsInit_entry few vectors closed ran here
      exact ⟨q, here, known.1, known.2.1, known.2.2 qid rfl⟩

/-- The failing allocations are told by an error: none is that of a completion ring, or there are others. -/
def RingsTold (priv : VfQueues) (found : VfAllocs) : Prop :=
  if priv.numQVectors = 0 then 0 < priv.numTxQueues + priv.numRxQueues
  else (∃ qid < priv.numTxQueues, found.TxRefused qid) ∨ (∃ qid < priv.numRxQueues, found.RxRefused qid) ∨
    ∀ qid < priv.numRxQueues, ¬ found.Refused (.rxCmplRing qid)

/-- `onic_vf_rings_init` returns 0 exactly with all rings in place, and otherwise an error with nothing left, if and only
    if the failing allocations are told by an error. -/
theorem vf_rings_init_iff {priv : VfQueues} {found : VfAllocs} {s : VfNetdev} (tx : priv.numTxQueues ≤ onicMaxQueues)
    (rx : priv.numRxQueues ≤ onicMaxQueues) (closed : VfClosed s) :
    (∃ err s', (VfNetdev.namedRingsInit priv).eval found s = some (err, s') ∧ (err = 0 ↔ RingsComplete priv s') ∧
      (err ≠ 0 → err < 0 ∧ RingsUndone s s')) ↔ RingsTold priv found := by
  rw [RingsTold]
  by_cases vectors : priv.numQVectors = 0
  · have ran : (VfNetdev.namedRingsInit priv).eval found s = some (- EINVAL, s) := by
      rw [VfNetdev.namedRingsInit, if_pos vectors]
      rfl
    have failed : - EINVAL ≠ 0 := by decide
    rw [if_pos vectors]
    constructor
    · rintro ⟨err, s', same, all, -⟩
      cases ran.symm.trans same
      by_contra empty
      refine failed (all.mpr ⟨fun qid low => ?_, fun qid low => ?_⟩) <;> omega
    · intro some
      refine ⟨_, s, ran, iff_of_false failed fun complete => ?_, fun _ => ⟨by decide, closed.undone⟩⟩
      exact complete.not_empty some closed.entries
  · rcases VfNetdev.namedRingsInit_eval found vectors closed.entries with ⟨err, s', ran, negative, all, made⟩
    have plain := (VfNetdev.namedRingsInit_labelled priv).exec (.of_eval ran)
    rw [VfNetdev.namedRingsInit_anonymous] at plain
    have few := vfSlots_few tx rx
    have undone (failed : err ≠ 0) : err < 0 ∧ RingsUndone s s' :=
      ⟨by omega, VfNetdev.ringsInit_undone few vectors closed plain failed⟩
    have complete (ok : err = 0) : RingsComplete priv s' ↔ ∀ qid < priv.numRxQueues, ¬ found.Refused (.rxCmplRing qid) := by
      subst ok
      exact VfNetdev.ringsComplete_iff few vectors closed plain (made rfl).1 (made rfl).2
    rw [if_neg vectors]
    constructor
    · rintro ⟨err', t, same, told, -⟩
      cases ran.symm.trans same
      by_cases ok : err = 0
      · exact .inr (.inr ((complete ok).mp (told.mp ok)))
      · rw [all] at ok
        by_contra not
        refine ok ⟨fun qid low refused => not (.inl ⟨qid, low, refused⟩), fun qid low refused => not (.inr (.inl ⟨qid, low, refused⟩))⟩
    · intro told
      refine ⟨err, s', ran, ?_, undone⟩
      by_cases ok : err = 0
      · have granted := all.mp ok
        rcases told with ⟨qid, low, refused⟩ | ⟨qid, low, refused⟩ | cmpl
        · exact absurd refused (granted.1 qid low)
        · exact absurd refused (granted.2 qid low)
        · exact iff_of_true ok ((complete ok).mpr cmpl)
      · refine iff_of_false ok fun whole => ?_
        refine whole.not_empty ?_ (undone ok).2.entries
        by_contra few
        exact ok (all.mpr ⟨fun qid low => by omega, fun qid low => by omega⟩)

theorem VfClosed.probed : VfClosed .probed := .between (.probed ⟨0, 0, 0, fun _ => none⟩) rfl fun _ => rfl

/-- One queue of each kind, and everything is granted. -/
theorem vf_rings_init_granted :
    ((∃ err s', (VfNetdev.namedRingsInit oneQueue).eval (fun _ => grantedInput) .probed = some (err, s') ∧
      (err = 0 ↔ RingsComplete oneQueue s') ∧ (err ≠ 0 → err < 0 ∧ RingsUndone .probed s')) ↔
      RingsTold oneQueue fun _ => grantedInput) ∧ RingsTold oneQueue fun _ => grantedInput :=
  ⟨vf_rings_init_iff (by decide) (by decide) .probed, .inr (.inr fun _ _ => Bool.noConfusion)⟩

/-- Only the memory of the completion ring is refused: 0 is returned, without an RX queue. -/
theorem vf_rings_init_untold : ∃ (found : VfAllocs) (s' : VfNetdev), VfClosed .probed ∧
    (VfNetdev.namedRingsInit oneQueue).eval found .probed = some (0, s') ∧ s'.queue (.rx 0) = none ∧
    ¬ ((0 : Int) = 0 ↔ RingsComplete oneQueue s') := by
  let found : VfAllocs := fun a =>
    match a with
    | .rxCmplRing _ => { grantedInput with alloc := false }
    | _ => grantedInput
  have seen : ((VfNetdev.namedRingsInit oneQueue).eval found .probed).map (fun r => (r.1, r.2.queue (.rx 0))) = some (0, none) := by
    decide +kernel
  rcases Option.map_eq_some_iff.mp seen with ⟨⟨err, s'⟩, ran, values⟩
  simp only [Prod.mk.injEq] at values
  rcases values with ⟨rfl, none⟩
  refine ⟨found, s', .probed, ran, none, fun told => ?_⟩
  rcases (told.mp rfl).rx 0 (by decide) with ⟨q, here, -⟩
  simp [VfCtl.at_, none] at here

end OpenNic
