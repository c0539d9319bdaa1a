import OpenNic.Common.Kernel
import OpenNic.Common.Cyclic
import OpenNic.Vf.Queue

namespace OpenNic

/-- `struct qdma_c2h_cmpl`, without the packet id that nothing reads -/
structure C2hCmpl where
  color : BitVec 8
  err : BitVec 8
  pktLen : Nat
  deriving DecidableEq

def qdmaUnpackC2hCmpl (word : BitVec 64) : C2hCmpl where
  color := (bitfieldGet (genmask 1 1) word).setWidth 8
  err := (bitfieldGet (genmask 2 2) word).setWidth 8
  pktLen := ((bitfieldGet (genmask 47 32) word).setWidth 16).toNat

/-- `pidx` of `struct qdma_c2h_cmpl_stat` -/
def qdmaUnpackC2hCmplStatPidx (word : BitVec 64) : Nat := ((bitfieldGet (genmask 15 0) word).setWidth 16).toNat

/-- `struct onic_ring` with its memory. A descriptor and a completion are one word, and
    so is the status at the place of the last entry. -/
structure RxRing where
  count : Nat
  desc : Nat → BitVec 64
  nextToUse : Nat
  nextToClean : Nat
  color : BitVec 8

namespace RxRing

def realCount (ring : RxRing) : Nat := ring.count - 1

/-- The word that `wb` points at. -/
def wb (ring : RxRing) : BitVec 64 := ring.desc ring.realCount

def setDesc (ring : RxRing) (i : Nat) (word : BitVec 64) : RxRing :=
  { ring with desc := Function.update ring.desc i word }

end RxRing

/-- One page as the page pool has handed it out; a page that comes back and is handed out
    again is another one. -/
structure RxPage where
  id : Nat
  dma : BitVec 64
  deriving DecidableEq

/-- `struct onic_rx_buffer` -/
structure RxBuff where
  pg : Option RxPage
  offset : Nat
  deriving DecidableEq

/-- What has gone to the stack: the slot it was received in, its page and its length. -/
structure RxDelivery where
  slot : Nat
  page : Option RxPage
  len : Nat
  deriving DecidableEq

/-- `desc.dst_addr` for a page. -/
def RxPage.dstAddr (pg : RxPage) : BitVec 64 := pg.dma + BitVec.ofNat 64 xdpPacketHeadroom

/-- What a receive poll finds outside: the DMA address of the page that the pool gives, if it
    gives one, whether `napi_build_skb` succeeds and what `napi_complete_done` returns. -/
structure RxInput where
  page : Option (BitVec 64)
  buildSkb : Bool
  complete : Bool

/-- The rings and the buffers of a `struct onic_rx_queue`; `pidx` and `cidx` are the
    registers that it rings. From `taken` on the fields are history: the pages that the pool has
    given, what has gone to the stack, the pages that have come back, and all values written to
    `pidx`. -/
structure RxQueue where
  descRing : RxRing
  cmplRing : RxRing
  buffer : Nat → RxBuff
  pidx : Nat
  cidx : Nat × Bool
  taken : Nat
  given : List RxDelivery
  returned : List RxPage
  rung : List Nat

/-- `onic_set_rx_head` and `onic_vf_set_rx_head` after `next_to_use` is set. -/
def RxQueue.setRxHead (head : Nat) (q : RxQueue) : RxQueue :=
  { q with descRing := { q.descRing with nextToUse := head }, pidx := head, rung := q.rung ++ [head] }

end OpenNic
