import OpenNic.Common.Kernel
import OpenNic.Common.Cyclic
import OpenNic.Program.RelyGuarantee
import Mathlib.Data.List.Perm.Basic
import Mathlib.Data.List.Infix

namespace OpenNic

/-- `enum onic_tx_buf_type`; a fresh buffer is `unset`. -/
inductive TxBufType
  | unset
  | skb
  | xdpf
  | xdpfXmit
  deriving DecidableEq

/-- `struct onic_tx_buffer`; `ptr` is the union of `skb` and `xdpf`. -/
structure TxBuffer where
  type : TxBufType
  ptr : Option Nat
  dmaAddr : BitVec 64
  len : Nat
  deriving DecidableEq

def TxBuffer.zero : TxBuffer := ⟨.unset, none, 0, 0⟩

/-- What a live slot holds. -/
structure TxFrame where
  type : TxBufType
  id : Nat
  dmaAddr : BitVec 64
  len : Nat
  deriving DecidableEq

def TxBuffer.held (buf : TxBuffer) : Option TxFrame := buf.ptr.map fun id => ⟨buf.type, id, buf.dmaAddr, buf.len⟩

def TxFrame.buffer (frame : TxFrame) : TxBuffer := ⟨frame.type, some frame.id, frame.dmaAddr, frame.len⟩

theorem TxBuffer.eq_buffer {buf : TxBuffer} {frame : TxFrame} (h : buf.held = some frame) :
    buf = frame.buffer := by
  obtain ⟨type, ptr, dmaAddr, len⟩ := buf
  obtain ⟨id, rfl, rfl⟩ := Option.map_eq_some_iff.mp h
  rfl

def ethZlen : Nat := 60

structure Skb where
  id : Nat
  len : Nat

structure Mapping where
  dmaAddr : BitVec 64
  len : Nat
  deriving DecidableEq

inductive TxAction
  | unmap (mapping : Mapping)
  | kfreeSkb (skb : Nat)
  | returnFrame (xdpf : Nat)
  deriving DecidableEq

namespace TxAction

def skb? : TxAction → Option Nat
  | .kfreeSkb skb => some skb
  | _ => none

def mapping? : TxAction → Option Mapping
  | .unmap mapping => some mapping
  | _ => none

def xdpf? : TxAction → Option Nat
  | .returnFrame xdpf => some xdpf
  | _ => none

end TxAction

namespace TxFrame

def mapping (frame : TxFrame) : Mapping := ⟨frame.dmaAddr, frame.len⟩

/-- How a frame of its kind has to be released. -/
def due (frame : TxFrame) : List TxAction :=
  match frame.type with
  | .unset => []
  | .skb => [.unmap frame.mapping, .kfreeSkb frame.id]
  | .xdpf => [.returnFrame frame.id]
  | .xdpfXmit => [.unmap frame.mapping, .returnFrame frame.id]

def skb? (frame : TxFrame) : Option Nat := if frame.type = .skb then some frame.id else none

/-- Frames of an XDP_TX come from the page pool and are not mapped. -/
def mapping? (frame : TxFrame) : Option Mapping :=
  if frame.type = .skb ∨ frame.type = .xdpfXmit then some frame.mapping else none

def xdpf? (frame : TxFrame) : Option Nat :=
  if frame.type = .xdpf ∨ frame.type = .xdpfXmit then some frame.id else none

theorem due_skbs (frame : TxFrame) : frame.due.filterMap TxAction.skb? = frame.skb?.toList := by
  obtain ⟨type, id, dmaAddr, len⟩ := frame
  cases type <;> rfl

theorem due_xdpfs (frame : TxFrame) : frame.due.filterMap TxAction.xdpf? = frame.xdpf?.toList := by
  obtain ⟨type, id, dmaAddr, len⟩ := frame
  cases type <;> rfl

theorem due_mappings (frame : TxFrame) : frame.due.filterMap TxAction.mapping? = frame.mapping?.toList := by
  obtain ⟨type, id, dmaAddr, len⟩ := frame
  cases type <;> rfl

end TxFrame

/-- A slot as `onic_tx_clean` leaves it behind: what it held and what was done with it. -/
structure TxRelease where
  slot : Nat
  buffer : TxBuffer
  actions : List TxAction
  deriving DecidableEq

/-- The release that the `n`-th frame put into a ring of `size` slots is due. -/
def dueAt (size n : Nat) (frame : TxFrame) : TxRelease := ⟨n % size, frame.buffer, frame.due⟩

/-- One finished call of `onic_tx_clean`: where it began, the write-back it saw and what
    it released. -/
structure TxClean where
  nextToClean : Nat
  cidx : Nat
  released : List TxRelease

inductive NetdevTx
  | ok
  | busy
  deriving DecidableEq

/-- One finished call of the transmit function. -/
structure TxCall where
  skb : Nat
  ret : NetdevTx
  packets : Nat
  dropped : Nat
  deriving DecidableEq

/-- `struct qdma_h2c_st_desc` -/
structure H2cStDesc where
  len : Nat
  srcAddr : BitVec 64
  metadata : Nat

/-- What belongs to whoever holds the queue's `netif_tx_lock`. From `accepted` on the
    fields are history. -/
structure TxHead where
  nextToUse : Nat
  desc : Nat → H2cStDesc
  doorbell : Option Word
  txPackets : Nat
  txBytes : Nat
  txDropped : Nat
  txErrors : Nat
  accepted : List TxFrame
  /-- How many of these `next_to_use` has passed. -/
  used : Nat
  published : Nat
  mapped : List Mapping
  /-- Mapped and not stored in the ring yet. -/
  pending : List Mapping
  /-- The skbs that were freed on the spot or stored. -/
  disposed : List Nat
  calls : List TxCall
  padFailed : Bool
  clobbered : Bool

/-- What belongs to whoever has set bit 0 of `q->state`. From `released` on the fields
    are history. -/
structure TxTail where
  nextToClean : Nat
  released : List TxRelease
  /-- How many of these `next_to_clean` has passed. -/
  cleaned : Nat
  /-- Where the present clean began. -/
  first : Nat
  start : Nat
  cleans : List TxClean
  unmapped : List Mapping

/-- `struct onic_tx_queue` with its ring; `txLock` and `cleaning` name the holder of the
    lock and of the bit. -/
structure TxQueue where
  count : Nat
  wbMapped : Bool
  wb : BitVec 64
  buffer : Nat → TxBuffer
  txLock : Option Nat
  cleaning : Option Nat
  head : TxHead
  tail : TxTail
  freed : List Nat
  /-- The skbs that were used after they were freed. -/
  misused : List Nat
  returned : List Nat
  completed : Nat

/-- What a transmit finds outside: the results of `skb_put_padto`, `dma_map_single` and
    `netdev_xmit_more`. -/
structure TxInput where
  padto : Int
  mapping : Option (BitVec 64)
  xmitMore : Bool

instance : Nonempty TxInput := ⟨⟨0, none, false⟩⟩

/-- `QDMA_WB_STAT_DW_CIDX_MASK` -/
def wbCidx (dw : BitVec 64) : Nat := (bitfieldGet (genmask 31 16) dw).toNat

/-- `FIELD_SET(QDMA_DMAP_SEL_DESC_PIDX_MASK, pidx)` -/
def descPidx (pidx : Nat) : Word := (fieldSet (genmask 15 0) (BitVec.ofNat 64 pidx)).setWidth 32

theorem bitfieldGet_descPidx {pidx : Nat} (small : pidx < 2 ^ 16) :
    (bitfieldGet (genmask 15 0) ((descPidx pidx).setWidth 64)).toNat = pidx := by
  have value : (BitVec.ofNat 64 pidx).toNat = pidx := by
    rw [BitVec.toNat_ofNat]
    exact Nat.mod_eq_of_lt (by omega)
  rw [descPidx, bitfieldGet_word (by decide) (by decide),
    bitfieldGet_fieldSet_of_lt (by decide) (by decide) _ (by rw [value]; exact small), value]

namespace TxQueue

/-- The slots of the ring; one descriptor's place is taken by the write-back. -/
def size (q : TxQueue) : Nat := q.count - 1

def slots (q : TxQueue) (i : Nat) : Option TxFrame := (q.buffer i).held

end TxQueue

namespace TxAccess

/-- `__netif_tx_lock`; comes back with the statistics so far. -/
def lock (t : Nat) : Program TxQueue TxInput (Nat × Nat) :=
  .access fun _ q =>
    if q.txLock = none then some ((q.head.txPackets, q.head.txDropped), { q with txLock := some t })
    else none

def unlock : Program TxQueue TxInput Unit := .modify fun q => { q with txLock := none }

/-- `__netif_tx_unlock` after a transmit that returns `ret` -/
def unlockCall (skb : Nat) (ret : NetdevTx) (before : Nat × Nat) : Program TxQueue TxInput Unit :=
  .modify fun q => { q with
    txLock := none
    head := { q.head with calls := q.head.calls ++
      [⟨skb, ret, q.head.txPackets - before.1, q.head.txDropped - before.2⟩] } }

def testAndSetBit (t : Nat) : Program TxQueue TxInput Bool :=
  .access fun _ q =>
    if q.cleaning.isSome then some (true, q)
    else some (false, { q with
      cleaning := some t
      tail := { q.tail with first := q.tail.released.length, start := q.tail.nextToClean } })

/-- `clear_bit(0, q->state)` of a clean that has seen the write-back `cidx` -/
def clearBit (cidx : Nat) : Program TxQueue TxInput Unit :=
  .modify fun q => { q with
    cleaning := none
    tail := { q.tail with
      cleans := q.tail.cleans ++ [⟨q.tail.start, cidx, q.tail.released.drop q.tail.first⟩] } }

def readWb : Program TxQueue TxInput Nat := .read fun q => wbCidx q.wb

def readNextToClean : Program TxQueue TxInput Nat := .read fun q => q.tail.nextToClean

/-- The slot at `next_to_clean` is released as `actions` says and left as `wipe` says. -/
def release (actions : TxBuffer → List TxAction) (wipe : TxBuffer → TxBuffer) :
    Program TxQueue TxInput Unit :=
  .modify fun q =>
    let buf := q.buffer q.tail.nextToClean
    { q with
      buffer := Function.update q.buffer q.tail.nextToClean (wipe buf)
      tail := { q.tail with
        released := q.tail.released ++ [⟨q.tail.nextToClean, buf, actions buf⟩]
        unmapped := q.tail.unmapped ++ (actions buf).filterMap TxAction.mapping? }
      freed := q.freed ++ (actions buf).filterMap TxAction.skb?
      returned := q.returned ++ (actions buf).filterMap TxAction.xdpf? }

def writeNextToClean (next : TxQueue → Nat) : Program TxQueue TxInput Unit :=
  .modify fun q => { q with
    tail := { q.tail with nextToClean := next q, cleaned := q.tail.cleaned + 1 } }

/-- Zero or an error; on an error the skb is gone. -/
def skbPutPadto (skb : Nat) : Program TxQueue TxInput Int :=
  .access fun input q =>
    let rv := min input.padto 0
    some (rv, if rv < 0 then { q with
      freed := q.freed ++ [skb]
      head := { q.head with disposed := q.head.disposed ++ [skb], padFailed := true } }
    else q)

/-- `dma_map_single` of the data of an skb, if it is one, with `dma_mapping_error`;
    `none` stands for the error. -/
def dmaMapSingle (skb : Option Nat) (len : Nat) : Program TxQueue TxInput (Option (BitVec 64)) :=
  .access fun input q => some (input.mapping,
    { q with
      misused := q.misused ++ skb.toList.filter (· ∈ q.freed)
      head := match input.mapping with
        | none => q.head
        | some addr => { q.head with
            mapped := q.head.mapped ++ [⟨addr, len⟩], pending := q.head.pending ++ [⟨addr, len⟩] } })

def kfreeSkb (skb : Nat) : Program TxQueue TxInput Unit :=
  .modify fun q => { q with
    freed := q.freed ++ [skb]
    head := { q.head with disposed := q.head.disposed ++ [skb] } }

def returnFrame (xdpf : Nat) : Program TxQueue TxInput Unit :=
  .modify fun q => { q with returned := q.returned ++ [xdpf] }

def countDropped : Program TxQueue TxInput Unit :=
  .modify fun q => { q with
    head := { q.head with txDropped := q.head.txDropped + 1, txErrors := q.head.txErrors + 1 } }

def countPacket (len : Nat) : Program TxQueue TxInput Unit :=
  .modify fun q => { q with
    head := { q.head with txPackets := q.head.txPackets + 1, txBytes := q.head.txBytes + len } }

/-- The descriptor and the buffer at `next_to_use` are filled in. -/
def store (frame : TxFrame) : Program TxQueue TxInput Unit :=
  .modify fun q => { q with
    buffer := Function.update q.buffer q.head.nextToUse frame.buffer
    misused := q.misused ++ frame.skb?.toList.filter (· ∈ q.freed)
    head := { q.head with
      desc := Function.update q.head.desc q.head.nextToUse ⟨frame.len, frame.dmaAddr, frame.len⟩
      accepted := q.head.accepted ++ [frame]
      pending := []
      disposed := q.head.disposed ++ frame.skb?.toList
      clobbered := q.head.clobbered || (q.slots q.head.nextToUse).isSome } }

def writeNextToUse (next : TxQueue → Nat) : Program TxQueue TxInput Unit :=
  .modify fun q => { q with head := { q.head with nextToUse := next q, used := q.head.used + 1 } }

def writePidx : Program TxQueue TxInput Unit :=
  .modify fun q => { q with
    head := { q.head with doorbell := some (descPidx q.head.nextToUse), published := q.head.used } }

def netdevXmitMore : Program TxQueue TxInput Bool := .access fun input q => some (input.xmitMore, q)

end TxAccess

/-- The stack's call of the transmit function, under the lock of the queue -/
def transmit (t : Nat) (skb : Skb) (xmit : Program TxQueue TxInput NetdevTx) :
    Program TxQueue TxInput Unit := do
  let before ← TxAccess.lock t
  let ret ← xmit
  TxAccess.unlockCall skb.id ret before

end OpenNic
