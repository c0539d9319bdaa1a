import OpenNic.Rx.Queue
import OpenNic.Rx.XdpDriver

namespace OpenNic

def onicRxDescStep : Nat := 256

/-- What a receive poll of the PF works on, apart from the other transmit queues. -/
structure PfRxPoll where
  q : RxQueue
  xdp : XdpRx

/-- What it finds outside, apart from what `napi_complete_done` returns, which it does not use. -/
structure PfRxInput where
  page : Option (BitVec 64)
  xdp : XdpInput

namespace PfRxPoll

def setXdp (xdp : XdpRx) (s : PfRxPoll) : PfRxPoll := { s with xdp := xdp }

def setQ (q : RxQueue) (s : PfRxPoll) : PfRxPoll := { s with q := q }

/-- A packet that has gone to the stack is noted with the length of its completion. -/
def note (slot : Nat) (pg : RxPage) (len before : Nat) (s : PfRxPoll) : PfRxPoll :=
  if before < s.xdp.stack.length then s.setQ { s.q with given := s.q.given ++ [⟨slot, some pg, len⟩] } else s

end PfRxPoll

/-- Every receive ring has its `wb`. -/
def RxRing.onicRingIncrementTail (ring : RxRing) : RxRing :=
  { ring with nextToClean := (ring.nextToClean + 1) % ring.realCount }

def RxQueue.onicRxHighWatermark (q : RxQueue) : Bool :=
  let unused : Int := (q.descRing.nextToUse : Int) - q.descRing.nextToClean
  let unused := if q.descRing.nextToUse < q.descRing.nextToClean then unused + q.descRing.realCount else unused
  decide (unused < (onicRxDescStep / 2 : Nat))

def RxQueue.onicRxRefill (q : RxQueue) : RxQueue :=
  q.setRxHead ((q.descRing.nextToUse + onicRxDescStep) % 65536 % q.descRing.realCount)

def RxQueue.onicRxPageRefill (newPg : RxPage) (q : RxQueue) : RxQueue :=
  { q with
    taken := q.taken + 1
    buffer := Function.update q.buffer q.descRing.nextToClean ⟨some newPg, xdpPacketHeadroom⟩
    descRing := q.descRing.setDesc q.descRing.nextToClean newPg.dstAddr }

/-- From `onic_ring_increment_tail(desc_ring)` to the flip of the colour. -/
def RxQueue.onicRxAdvance (cmpl : C2hCmpl) (q : RxQueue) : RxQueue :=
  let q := { q with descRing := q.descRing.onicRingIncrementTail }
  let q := if q.onicRxHighWatermark then q.onicRxRefill else q
  let q := { q with cmplRing := q.cmplRing.onicRingIncrementTail }
  if cmpl.color ≠ q.cmplRing.color then
    { q with cmplRing := { q.cmplRing with color := if q.cmplRing.color = 0 then 1 else 0 } }
  else q

/-- One round of the loop of `onic_rx_poll`, to where the budget is checked; `false` when it
    breaks off. A page that is not there is not survived. -/
def onicRxRound (t : Nat) (cmpl : C2hCmpl) : Program PfRxPoll PfRxInput Bool := do
  let slot ← .read fun s => s.q.descRing.nextToClean
  let pg ← .access fun _ s => (s.q.buffer slot).pg.map fun pg => (pg, s)
  let before ← .read fun s => s.xdp.stack.length
  let goesOn ← ((onicRxPacket t ⟨pg.id, pg.dma⟩).comap PfRxInput.xdp).lift PfRxPoll.xdp PfRxPoll.setXdp
  .modify (PfRxPoll.note slot pg cmpl.pktLen before)
  if goesOn then
    .access fun (input : PfRxInput) s =>
      input.page.map fun dma => ((), s.setQ (s.q.onicRxPageRefill ⟨s.q.taken, dma⟩))
    .modify fun s => s.setQ (s.q.onicRxAdvance cmpl)
    .done true
  else .done false

def onicRxReadCmpl : Program PfRxPoll PfRxInput C2hCmpl :=
  .read fun s => qdmaUnpackC2hCmpl (s.q.cmplRing.desc s.q.cmplRing.nextToClean)

/-- The loop, with the budget that is left after this round; says whether it ended with
    `out_of_budget`. -/
def onicRxLoop (t pidx : Nat) : Nat → C2hCmpl → Nat → Program PfRxPoll PfRxInput (Nat × Bool)
  | 0, cmpl, work => do
    if (← .read fun s => s.q.cmplRing.nextToClean) = pidx then .done (work, false)
    else if ← onicRxRound t cmpl then .done (work + 1, true)
    else .done (work, false)
  | left + 1, cmpl, work => do
    if (← .read fun s => s.q.cmplRing.nextToClean) = pidx then .done (work, false)
    else if ← onicRxRound t cmpl then
      let cmpl ← onicRxReadCmpl
      onicRxLoop t pidx left cmpl (work + 1)
    else .done (work, false)

/-- `onic_rx_poll` from where it has cleaned the TX queues. -/
def onicRxPoll (t budget : Nat) : Program PfRxPoll PfRxInput Nat := do
  let cmpl ← onicRxReadCmpl
  let pidx ← .read fun s => qdmaUnpackC2hCmplStatPidx s.q.cmplRing.wb
  let (work, outOfBudget) ← onicRxLoop t pidx (budget - 1) cmpl 0
  if outOfBudget then .done work
  else
    .modify fun s =>
      if s.q.cmplRing.nextToClean = pidx ∨ s.q.cmplRing.nextToClean = 0 then
        s.setQ { s.q with cidx := (s.q.cmplRing.nextToClean, true) }
      else s
    .done work

/-- `onic_rx_page_refill`, which stores what the pool gives and asks for its address, also where it
    is NULL; `false` stands for the use of the NULL page. -/
def onicRxPageRefillOrNull : Program PfRxPoll PfRxInput Bool := do
  match ← .access fun input s => some (input.page, s) with
  | some dma =>
    .modify fun s => s.setQ (s.q.onicRxPageRefill ⟨s.q.taken, dma⟩)
    .done true
  | none =>
    .modify fun s => s.setQ { s.q with
      buffer := Function.update s.q.buffer s.q.descRing.nextToClean ⟨none, xdpPacketHeadroom⟩ }
    .done false

/-- The round with the uses of a NULL page as a result of its own, `none`. -/
def onicRxRoundOrNull (t : Nat) (cmpl : C2hCmpl) : Program PfRxPoll PfRxInput (Option Bool) := do
  let slot ← .read fun s => s.q.descRing.nextToClean
  match ← .read fun s => (s.q.buffer slot).pg with
  | none => .done none
  | some pg =>
    let before ← .read fun s => s.xdp.stack.length
    let goesOn ← ((onicRxPacket t ⟨pg.id, pg.dma⟩).comap PfRxInput.xdp).lift PfRxPoll.xdp PfRxPoll.setXdp
    .modify (PfRxPoll.note slot pg cmpl.pktLen before)
    if goesOn then
      if ← onicRxPageRefillOrNull then
        .modify fun s => s.setQ (s.q.onicRxAdvance cmpl)
        .done (some true)
      else .done none
    else .done (some false)

def onicRxLoopOrNull (t pidx : Nat) : Nat → C2hCmpl → Nat → Program PfRxPoll PfRxInput (Option (Nat × Bool))
  | 0, cmpl, work => do
    if (← .read fun s => s.q.cmplRing.nextToClean) = pidx then .done (some (work, false))
    else match ← onicRxRoundOrNull t cmpl with
      | none => .done none
      | some true => .done (some (work + 1, true))
      | some false => .done (some (work, false))
  | left + 1, cmpl, work => do
    if (← .read fun s => s.q.cmplRing.nextToClean) = pidx then .done (some (work, false))
    else match ← onicRxRoundOrNull t cmpl with
      | none => .done none
      | some true => do
        let cmpl ← onicRxReadCmpl
        onicRxLoopOrNull t pidx left cmpl (work + 1)
      | some false => .done (some (work, false))

/-- `onic_rx_poll` from where it has cleaned the TX queues; `none` where a NULL page is used. -/
def onicRxPollOrNull (t budget : Nat) : Program PfRxPoll PfRxInput (Option Nat) := do
  let cmpl ← onicRxReadCmpl
  let pidx ← .read fun s => qdmaUnpackC2hCmplStatPidx s.q.cmplRing.wb
  match ← onicRxLoopOrNull t pidx (budget - 1) cmpl 0 with
  | none => .done none
  | some (work, true) => .done (some work)
  | some (work, false) =>
    .modify fun s =>
      if s.q.cmplRing.nextToClean = pidx ∨ s.q.cmplRing.nextToClean = 0 then
        s.setQ { s.q with cidx := (s.q.cmplRing.nextToClean, true) }
      else s
    .done (some work)

def onicRxBufszIdx : BitVec 8 := 8

/-- `rngcnt_pool[8]`, for both rings. -/
def onicRxRingCount : Nat := 1024

/-- The queue as `kzalloc` gives it. -/
def RxQueue.kzalloc : RxQueue where
  descRing := ⟨0, fun _ => 0, 0, 0, 0⟩
  cmplRing := ⟨0, fun _ => 0, 0, 0, 0⟩
  buffer := fun _ => ⟨none, 0⟩
  pidx := 0
  cidx := (0, false)
  taken := 0
  given := []
  returned := []
  rung := []

/-- `page_pool_dev_alloc_pages` into slot `i`. -/
def onicInitRxPage (i : Nat) : Program RxQueue (Option (BitVec 64)) Int := do
  match ← .access fun page q => some (page, q) with
  | none => .done (- ENOMEM)
  | some dma =>
    .modify fun q => { q with
      taken := q.taken + 1
      buffer := Function.update q.buffer i ⟨some ⟨q.taken, dma⟩, xdpPacketHeadroom⟩ }
    .done 0

def onicInitRxDesc (i : Nat) : Program RxQueue (Option (BitVec 64)) Unit :=
  .modify fun q =>
    match (q.buffer i).pg with
    | none => q
    | some pg => { q with descRing := q.descRing.setDesc i (pg.dma + BitVec.ofNat 64 (q.buffer i).offset) }

/-- What `onic_init_rx_queue` does to the rings and buffers of a queue when everything else goes well. -/
def onicInitRxQueueRings : Program RxQueue (Option (BitVec 64)) Int := do
  .modify fun q => { q with descRing := ⟨onicRxRingCount, fun _ => 0, 0, 0, 0⟩ }
  let rv ← .untilErr onicInitRxPage 0 (onicRxRingCount - 1)
  if rv ≠ 0 then .done rv
  else
    .fold (fun i _ => onicInitRxDesc i) 0 (onicRxRingCount - 1) ()
    .modify fun q => { q with cmplRing := ⟨onicRxRingCount, fun _ => 0, 0, 0, 1⟩ }
    .modify fun q => { q.setRxHead onicRxDescStep with cidx := (0, true) }
    .done 0

end OpenNic
