import OpenNic.Rx.Queue
import OpenNic.Program.Resumption

namespace OpenNic

def onicVfRxDescStep : Nat := 256

def onicVfRingIncrementCleanRx (ring : RxRing) : RxRing :=
  let next := (ring.nextToClean + 1) % 65536
  { ring with nextToClean := if next = ring.realCount then 0 else next }

namespace RxQueue

/-- `page_pool_put_full_page` -/
def putPage (pg : RxPage) (q : RxQueue) : RxQueue := { q with returned := q.returned ++ [pg] }

/-- The packet's page goes to the stack, the new page takes its place and both rings go
    on by one. -/
def deliver (len : Nat) (newPg : RxPage) (q : RxQueue) : RxQueue :=
  let slot := q.descRing.nextToClean
  let cmplRing := onicVfRingIncrementCleanRx q.cmplRing
  { q with
    buffer := Function.update q.buffer slot ⟨some newPg, xdpPacketHeadroom⟩
    descRing := onicVfRingIncrementCleanRx (q.descRing.setDesc slot newPg.dstAddr)
    cmplRing := if cmplRing.nextToClean = 0 then { cmplRing with color := cmplRing.color ^^^ 1 } else cmplRing
    given := q.given ++ [⟨slot, (q.buffer slot).pg, len⟩] }

def unused (q : RxQueue) : Nat :=
  ((q.descRing.nextToUse + q.descRing.realCount - q.descRing.nextToClean) % q.descRing.realCount) % 65536

def refillCredit (q : RxQueue) : RxQueue :=
  if q.unused ≥ onicVfRxDescStep / 2 then q
  else q.setRxHead ((q.descRing.nextToUse + onicVfRxDescStep) % q.descRing.realCount)

end RxQueue

/-- `onic_vf_rx_datapath_init`, as far as it is about the rings of one queue. -/
def RxQueue.datapathInit (q : RxQueue) : RxQueue := { q.setRxHead onicVfRxDescStep with cidx := (0, true) }

/-- `page_pool_dev_alloc_pages` -/
def onicVfAllocPage : Program RxQueue RxInput (Option RxPage) :=
  .access fun input q =>
    match input.page with
    | none => some (none, q)
    | some dma => some (some ⟨q.taken, dma⟩, { q with taken := q.taken + 1 })

def onicVfRxRefillCredit : Program RxQueue RxInput Unit := .modify RxQueue.refillCredit

/-- The check that ends the poll with `rx_errors++`. -/
def C2hCmpl.Invalid (cmpl : C2hCmpl) (color : BitVec 8) (buf : RxBuff) : Prop :=
  cmpl.color ≠ color ∨ cmpl.err ≠ 0 ∨ cmpl.pktLen = 0 ∨ cmpl.pktLen > pageSize - buf.offset

instance (cmpl : C2hCmpl) (color : BitVec 8) (buf : RxBuff) : Decidable (cmpl.Invalid color buf) :=
  inferInstanceAs (Decidable (_ ∨ _ ∨ _ ∨ _))

/-- The loop of `onic_vf_rx_poll`, with the budget that is left. -/
def onicVfRxLoop (pidx : Nat) : Nat → Nat → Program RxQueue RxInput Nat
  | 0, work => .done work
  | left + 1, work => do
    if (← .read fun q => q.cmplRing.nextToClean) = pidx then .done work
    else
      let cmpl ← .read fun q => qdmaUnpackC2hCmpl (q.cmplRing.desc q.cmplRing.nextToClean)
      if ← .read fun q => decide (cmpl.Invalid q.cmplRing.color (q.buffer q.descRing.nextToClean)) then .done work
      else match ← onicVfAllocPage with
        | none => .done work
        | some newPg =>
          if ← .access fun input q => some (input.buildSkb, q) then
            .modify (RxQueue.deliver cmpl.pktLen newPg)
            onicVfRxRefillCredit
            onicVfRxLoop pidx left (work + 1)
          else
            .modify (RxQueue.putPage newPg)
            .done work

/-- `onic_vf_set_completion_tail` -/
def onicVfSetCompletionTail (irqArm : Bool) : Program RxQueue RxInput Unit :=
  .modify fun q => { q with cidx := (q.cmplRing.nextToClean, irqArm) }

/-- `onic_vf_rx_poll` from where it has cleaned the TX queue of the same qid. -/
def onicVfRxPoll (budget : Nat) : Program RxQueue RxInput Nat := do
  let pidx ← .read fun q => qdmaUnpackC2hCmplStatPidx q.cmplRing.wb
  let work ← onicVfRxLoop pidx budget 0
  if work < budget then
    let complete ← .access fun input q => some (input.complete, q)
    onicVfSetCompletionTail complete
    .done work
  else
    onicVfSetCompletionTail false
    .done work

namespace RxQueue

/-- The queue that `kzalloc` returns, with the count of its descriptor ring. -/
def zeroed : RxQueue where
  descRing := ⟨onicVfRxRingCount, fun _ => 0, 0, 0, 0⟩
  cmplRing := ⟨0, fun _ => 0, 0, 0, 0⟩
  buffer := fun _ => ⟨none, 0⟩
  pidx := 0
  cidx := (0, false)
  taken := 0
  given := []
  returned := []
  rung := []

/-- A page is put into a slot, and its address into the descriptor. -/
def fillSlot (i : Nat) (pg : RxPage) (q : RxQueue) : RxQueue :=
  { q with
    buffer := Function.update q.buffer i ⟨some pg, xdpPacketHeadroom⟩
    descRing := q.descRing.setDesc i pg.dstAddr }

def initCmplRing (q : RxQueue) : RxQueue :=
  { q with cmplRing := ⟨onicVfCmplRingCount, fun _ => 0, 0, 0, 1⟩ }

def freeSlot (q : RxQueue) (i : Nat) : RxQueue :=
  match (q.buffer i).pg with
  | none => q
  | some pg => { q.putPage pg with buffer := Function.update q.buffer i { q.buffer i with pg := none } }

/-- `onic_vf_free_rx_pages` up to `page_pool_destroy`. -/
def freePages (q : RxQueue) : RxQueue := (List.range q.descRing.realCount).foldl freeSlot q

end RxQueue

/-- The loop of `onic_vf_alloc_rx_ring` over the slots from `i` on; nobody else knows the queue yet. -/
def onicVfFillRxPages : Nat → Nat → Program RxQueue RxInput Bool
  | _, 0 => .done true
  | i, left + 1 => do
    if ← .access fun (input : RxInput) q =>
      match input.page with
      | none => some (false, q)
      | some dma => some (true, { q.fillSlot i ⟨q.taken, dma⟩ with taken := q.taken + 1 }) then
      onicVfFillRxPages (i + 1) left
    else .done false

end OpenNic
