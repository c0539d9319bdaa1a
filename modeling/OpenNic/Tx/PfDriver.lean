import OpenNic.Tx.Queue

namespace OpenNic

structure XdpFrame where
  id : Nat
  len : Nat
  headroom : Nat
  /-- `page_pool_get_dma_addr` of its page. -/
  pageDma : BitVec 64

def sizeofXdpFrame : Nat := 40

def netdevTxBusy : Nat := 0x10

def onicXdpConsumed : Nat := 0x2

def onicXdpTx : Nat := 0x4

def TxQueue.onicRingGetRealCount (q : TxQueue) : Nat := if q.wbMapped then q.count - 1 else q.count

def onicRingFull : Program TxQueue TxInput Bool :=
  .read fun q => decide ((q.head.nextToUse + 1) % q.onicRingGetRealCount = q.tail.nextToClean)

def onicRingIncrementHead : Program TxQueue TxInput Unit :=
  TxAccess.writeNextToUse fun q => (q.head.nextToUse + 1) % q.onicRingGetRealCount

def onicRingIncrementTail : Program TxQueue TxInput Unit :=
  TxAccess.writeNextToClean fun q => (q.tail.nextToClean + 1) % q.onicRingGetRealCount

/-- The branches of `onic_tx_clean` on the buffer's type -/
def onicTxRelease (buf : TxBuffer) : List TxAction :=
  match buf.type with
  | .skb => .unmap ⟨buf.dmaAddr, buf.len⟩ :: buf.ptr.toList.map .kfreeSkb
  | .xdpf => buf.ptr.toList.map .returnFrame
  | .xdpfXmit => .unmap ⟨buf.dmaAddr, buf.len⟩ :: buf.ptr.toList.map .returnFrame
  | .unset => []

/-- `buf->skb = NULL` and `buf->xdpf = NULL` -/
def onicTxWipe (buf : TxBuffer) : TxBuffer :=
  match buf.type with
  | .unset => buf
  | _ => { buf with ptr := none }

def onicTxClean (t : Nat) : Program TxQueue TxInput Unit := do
  if ← TxAccess.testAndSetBit t then .done ()
  else
    let cidx ← TxAccess.readWb
    let clean ← TxAccess.readNextToClean
    if cidx = clean then TxAccess.clearBit cidx
    else
      let realCount ← .read TxQueue.onicRingGetRealCount
      let work : Int := cidx - clean
      let work := if work < 0 then work + realCount else work
      .fold (fun _ _ => do
        TxAccess.release onicTxRelease onicTxWipe
        onicRingIncrementTail) 0 work.toNat ()
      TxAccess.clearBit cidx

/-- `onic_xmit_frame` from the mapping on. -/
def onicXmitMap (skb len : Nat) : Program TxQueue TxInput NetdevTx := do
  match ← TxAccess.dmaMapSingle (some skb) len with
  | none =>
    TxAccess.kfreeSkb skb
    TxAccess.countDropped
    .done .ok
  | some dmaAddr =>
    TxAccess.store ⟨.skb, skb, dmaAddr, len⟩
    TxAccess.countPacket len
    onicRingIncrementHead
    let full ← onicRingFull
    let more ← TxAccess.netdevXmitMore
    if full || !more then
      TxAccess.writePidx
      .done .ok
    else .done .ok

def onicXmitFrame (t : Nat) (skb : Skb) : Program TxQueue TxInput NetdevTx := do
  onicTxClean t
  if ← onicRingFull then .done .busy
  else
    -- a failed padding is only logged, although it has freed the skb
    let rv ← TxAccess.skbPutPadto skb.id
    onicXmitMap skb.id (if rv < 0 then skb.len else max skb.len ethZlen)

/-- The rest of `onic_xmit_xdp_ring` once the frame has its DMA address. -/
def onicXdpEnqueue (frame : TxFrame) : Program TxQueue TxInput Nat := do
  TxAccess.store frame
  TxAccess.countPacket frame.len
  onicRingIncrementHead
  .done onicXdpTx

def onicXmitXdpRing (t : Nat) (xdpf : XdpFrame) (dmaMap : Bool) : Program TxQueue TxInput Nat := do
  onicTxClean t
  if ← onicRingFull then .done netdevTxBusy
  else if dmaMap then
    match ← TxAccess.dmaMapSingle none xdpf.len with
    | none => .done onicXdpConsumed
    | some dmaAddr => onicXdpEnqueue ⟨.xdpfXmit, xdpf.id, dmaAddr, xdpf.len⟩
  else
    onicXdpEnqueue ⟨.xdpf, xdpf.id,
      xdpf.pageDma + BitVec.ofNat 64 sizeofXdpFrame + BitVec.ofNat 64 xdpf.headroom, xdpf.len⟩

/-- From the lock on; a frame could be made of the buffer. -/
def onicXdpXmitBack (t : Nat) (xdpf : XdpFrame) : Program TxQueue TxInput Nat := do
  let _ ← TxAccess.lock t
  let ret ← onicXmitXdpRing t xdpf false
  TxAccess.writePidx
  TxAccess.unlock
  .done ret

/-- One turn of the loop of `onic_xdp_xmit`: how much it adds to `drops`. -/
def onicXdpXmitOne (t : Nat) (frame : XdpFrame) : Program TxQueue TxInput Nat := do
  let err ← onicXmitXdpRing t frame true
  if err ≠ onicXdpTx then
    TxAccess.returnFrame frame.id
    .done 1
  else .done 0

/-- The loop of `onic_xdp_xmit`, with the final value of `drops`. -/
def onicXdpXmitFrames (t : Nat) : List XdpFrame → Program TxQueue TxInput Nat
  | [] => .done 0
  | frame :: frames => do
    let drop ← onicXdpXmitOne t frame
    let drops ← onicXdpXmitFrames t frames
    .done (drop + drops)

def xdpXmitFlush : Word := 1

def xdpXmitFlagsMask : Word := xdpXmitFlush

def onicXdpXmit (t : Nat) (frames : List XdpFrame) (flags : Word) : Program TxQueue TxInput Int := do
  if flags &&& ~~~xdpXmitFlagsMask ≠ 0 then .done (- EINVAL)
  else
    let _ ← TxAccess.lock t
    let drops ← onicXdpXmitFrames t frames
    if flags &&& xdpXmitFlush ≠ 0 then
      TxAccess.writePidx
      TxAccess.unlock
      .done ((frames.length : Int) - drops)
    else
      TxAccess.unlock
      .done ((frames.length : Int) - drops)

/-- The values of `enum onic_tx_buf_type` -/
def TxBufType.bits : TxBufType → Nat
  | .unset => 0
  | .skb => 1
  | .xdpf => 2
  | .xdpfXmit => 4

/-- Whether `onic_clear_tx_queue` logs that the buffer is not NULL. The mask of its second
    branch, `ONIC_TX_XDPF || ONIC_TX_XDPF_XMIT`, is 1 as well. -/
def onicClearTxReports (buf : TxBuffer) : Bool :=
  if buf.type.bits &&& 1 ≠ 0 && buf.ptr.isSome then true
  else buf.type.bits &&& 1 ≠ 0 && buf.ptr.isSome

/-- `onic_clear_tx_queue` of a queue that is there, with the slots it logs; the memory of
    the queue is gone afterwards. -/
def onicClearTxQueue (t : Nat) : Program TxQueue TxInput (List Nat) := do
  onicTxClean t
  .read fun q => (List.range (q.count - 1)).filter fun i => onicClearTxReports (q.buffer i)

/-- The transmit side of a PF: `there` says which entries of `priv->tx_queue` are set, the
    queue of an entry that is not is the one that was freed last. -/
structure PfTxPriv where
  numTxQueues : Nat
  there : Nat → Bool
  txQueue : Nat → TxQueue
  reported : List (Nat × Nat)

namespace PfTxPriv

def setQueue (qid : Nat) (q : TxQueue) (priv : PfTxPriv) : PfTxPriv :=
  { priv with txQueue := Function.update priv.txQueue qid q }

end PfTxPriv

def onicStopTxQueue (t qid : Nat) : Program PfTxPriv TxInput Unit := do
  if ← .read fun priv => priv.there qid then
    let slots ← (onicClearTxQueue t).lift (fun priv => priv.txQueue qid) (PfTxPriv.setQueue qid)
    .modify fun priv => { priv with
      there := Function.update priv.there qid false
      reported := priv.reported ++ slots.map fun i => (qid, i) }
  else .done ()

/-- What `onic_stop_netdev` does to the transmit queues. -/
def onicStopNetdev (t : Nat) : Program PfTxPriv TxInput Unit := do
  let numTxQueues ← .read PfTxPriv.numTxQueues
  .fold (fun qid _ => onicStopTxQueue t qid) 0 numTxQueues ()

end OpenNic
