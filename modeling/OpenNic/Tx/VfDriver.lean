import OpenNic.Tx.Queue

namespace OpenNic

/-- What the VF's transmit reads of `priv` besides the queue; `queue` says that
    `priv->tx_queue[qid]` points to a queue with its ring. -/
structure VfTxPriv where
  numTxQueues : Nat
  qid : Nat
  queue : Bool
  resourceValid : Bool
  qdev : Bool
  qmax : Nat

def TxQueue.onicVfRingRealCount (q : TxQueue) : Nat := q.count - 1

def onicVfTxRingFull : Program TxQueue TxInput Bool :=
  .read fun q =>
    let next := q.head.nextToUse + 1
    let next := if next = q.onicVfRingRealCount then 0 else next
    decide (next = q.tail.nextToClean)

def onicVfTxRingIncrementHead : Program TxQueue TxInput Unit :=
  TxAccess.writeNextToUse fun q =>
    if q.head.nextToUse + 1 = q.onicVfRingRealCount then 0 else q.head.nextToUse + 1

def onicVfRingIncrementClean : Program TxQueue TxInput Unit :=
  TxAccess.writeNextToClean fun q =>
    if q.tail.nextToClean + 1 = q.onicVfRingRealCount then 0 else q.tail.nextToClean + 1

def onicVfTxRelease (buf : TxBuffer) : List TxAction :=
  match buf.type, buf.ptr with
  | .skb, some skb => [.unmap ⟨buf.dmaAddr, buf.len⟩, .kfreeSkb skb]
  | _, _ => []

/-- The slots that may still be released before `work` reaches the count. -/
def onicVfTxCleanLoop (cidx : Nat) : Nat → Program TxQueue TxInput Unit
  | 0 => .done ()
  | left + 1 => do
    let clean ← TxAccess.readNextToClean
    if clean = cidx then .done ()
    else
      TxAccess.release onicVfTxRelease fun _ => .zero
      onicVfRingIncrementClean
      onicVfTxCleanLoop cidx left

def onicVfTxClean (priv : VfTxPriv) (t : Nat) : Program TxQueue TxInput Unit := do
  if priv.queue then
    if ← .read TxQueue.wbMapped then
      if ← TxAccess.testAndSetBit t then .done ()
      else
        let realCount ← .read TxQueue.onicVfRingRealCount
        let cidx ← TxAccess.readWb
        onicVfTxCleanLoop cidx realCount
        TxAccess.clearBit cidx
    else .done ()
  else .done ()

def onicVfQidValid (priv : VfTxPriv) : Bool := priv.resourceValid && priv.qdev && priv.qid < priv.qmax

def onicVfSetTxHead (priv : VfTxPriv) : Program TxQueue TxInput Unit :=
  if onicVfQidValid priv then TxAccess.writePidx else .done ()

def onicVfXmitDrop (skb : Skb) : Program TxQueue TxInput NetdevTx := do
  TxAccess.countDropped
  TxAccess.kfreeSkb skb.id
  .done .ok

/-- `onic_vf_xmit_frame` once the ring is not full. -/
def onicVfXmitEnqueue (priv : VfTxPriv) (skb : Skb) : Program TxQueue TxInput NetdevTx := do
  let rv ← TxAccess.skbPutPadto skb.id
  if rv ≠ 0 then
    TxAccess.countDropped
    .done .ok
  else
    let len := max skb.len ethZlen
    match ← TxAccess.dmaMapSingle (some skb.id) len with
    | none => onicVfXmitDrop skb
    | some dmaAddr =>
      TxAccess.store ⟨.skb, skb.id, dmaAddr, len⟩
      TxAccess.countPacket len
      onicVfTxRingIncrementHead
      onicVfSetTxHead priv
      .done .ok

/-- Stopping and waking the subqueue changes none of this state. -/
def onicVfXmitFrame (priv : VfTxPriv) (t : Nat) (skb : Skb) : Program TxQueue TxInput NetdevTx := do
  if priv.numTxQueues = 0 then onicVfXmitDrop skb
  else if !priv.queue then onicVfXmitDrop skb
  else
    onicVfTxClean priv t
    if ← onicVfTxRingFull then
      onicVfTxClean priv t
      if ← onicVfTxRingFull then .done .busy
      else onicVfXmitEnqueue priv skb
    else onicVfXmitEnqueue priv skb

def releasePending (i : Nat) : Program TxQueue TxInput Unit :=
  .modify fun q =>
    let buf := q.buffer i
    if buf.type ≠ .skb ∨ buf.ptr = none then q
    else { q with
      buffer := Function.update q.buffer i .zero
      tail := { q.tail with
        unmapped := q.tail.unmapped ++ (onicVfTxRelease buf).filterMap TxAction.mapping? }
      freed := q.freed ++ (onicVfTxRelease buf).filterMap TxAction.skb? }

def onicVfReleasePendingTx (priv : VfTxPriv) (t : Nat) : Program TxQueue TxInput Unit := do
  onicVfTxClean priv t
  let realCount ← .read TxQueue.onicVfRingRealCount
  .fold (fun i _ => releasePending i) 0 realCount ()

/-- The queue is gone afterwards. -/
def onicVfFreeTxRing (priv : VfTxPriv) (t : Nat) : Program TxQueue TxInput Unit :=
  if priv.queue then onicVfReleasePendingTx priv t else .done ()

end OpenNic
