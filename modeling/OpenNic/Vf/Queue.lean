import OpenNic.Mailbox.VfDriver

namespace OpenNic

def ENOSPC : Int := 28

def EALREADY : Int := 114

def onicVfNonQVectors : Nat := 1

def onicVfTxRingCount : Nat := 4096

def onicVfRxRingCount : Nat := 1024

def onicVfCmplRingCount : Nat := 1024

def onicVfTxRngcntIdx : Word := 0

def onicVfRxDescRngcntIdx : Word := 8

def onicVfRxCmplRngcntIdx : Word := 8

def onicVfRxBufszIdx : Word := 4

def onicVfRxCmplDescSz : Word := 0

def xdpPacketHeadroom : Nat := 256

def pageSize : Nat := 4096

/-- Memory of `dma_alloc_coherent`; `id` tells one allocation from all others. -/
structure DmaMem where
  id : Nat
  addr : BitVec 64
  deriving DecidableEq

/-- `struct onic_ring`, as far as it is set up before the ring is used. -/
structure VfRing where
  count : Nat
  desc : Option DmaMem
  deriving DecidableEq

def VfRing.dmaAddr (ring : VfRing) : BitVec 64 :=
  match ring.desc with
  | none => 0
  | some mem => mem.addr

/-- `struct onic_tx_queue`; `vector` is the `vid` of the vector that is set. -/
structure VfTxQueue where
  id : Nat
  qid : Nat
  vector : Option Nat
  ring : VfRing
  buffer : Nat
  configured : Bool
  deriving DecidableEq

/-- `struct onic_rx_queue` -/
structure VfRxQueue where
  id : Nat
  qid : Nat
  vector : Option Nat
  descRing : VfRing
  cmplRing : VfRing
  buffer : Nat
  pagePool : Nat
  pages : List Nat
  configured : Bool
  napiEnabled : Bool
  deriving DecidableEq

/-- What the probe settles of `struct onic_private`; a vector is its `vid`. -/
structure VfQueues where
  numQVectors : Nat
  numTxQueues : Nat
  numRxQueues : Nat
  qVector : Nat → Option Nat

/-- `onic_vf_q_irq_init` where every request is granted. -/
def onicVfQIrqInit (numQVectors vid : Nat) : Option Nat := if vid < numQVectors then some vid else none

/-- `onic_vf_probe` from the vectors that `pci_alloc_irq_vectors` returned. -/
def onicVfProbeQueues (vectors : Nat) (qmax : BitVec 16) : Except Int VfQueues :=
  let numQVectors := min ((vectors - onicVfNonQVectors) % 65536) qmax.toNat
  if numQVectors = 0 then .error (- ENOSPC)
  else .ok ⟨numQVectors, numQVectors, numQVectors, onicVfQIrqInit numQVectors⟩

/-- The queue that `onic_vf_alloc_tx_ring` publishes. -/
def onicVfTxQueueOf (priv : VfQueues) (qid id buffer : Nat) (mem : DmaMem) : VfTxQueue where
  id := id
  qid := qid
  vector := priv.qVector (qid % priv.numQVectors)
  ring := ⟨onicVfTxRingCount, some mem⟩
  buffer := buffer
  configured := false

/-- The queue that `onic_vf_alloc_rx_ring` publishes. -/
def onicVfRxQueueOf (priv : VfQueues) (qid id buffer pagePool : Nat) (pages : List Nat) (desc cmpl : DmaMem) :
    VfRxQueue where
  id := id
  qid := qid
  vector := priv.qVector (qid % priv.numQVectors)
  descRing := ⟨onicVfRxRingCount, some desc⟩
  cmplRing := ⟨onicVfCmplRingCount, some cmpl⟩
  buffer := buffer
  pagePool := pagePool
  pages := pages
  configured := false
  napiEnabled := false

def lower32Bits (addr : BitVec 64) : Word := addr.setWidth 32

def upper32Bits (addr : BitVec 64) : Word := (addr >>> 32).setWidth 32

/-- `cfg` as `onic_vf_config_one_tx_context` fills it in. -/
def VfTxQueue.cfg (q : VfTxQueue) (qid vid : Nat) : QueueCfg where
  qid := BitVec.ofNat 32 qid
  dir := queueDirTx
  vector := BitVec.ofNat 32 vid
  rngcntIdx := onicVfTxRngcntIdx
  bufszIdx := 0
  cmplRngcntIdx := 0
  cmplDescSz := 0
  reserved := 0
  descDmaLo := lower32Bits q.ring.dmaAddr
  descDmaHi := upper32Bits q.ring.dmaAddr
  cmplDmaLo := 0
  cmplDmaHi := 0

def onicVfTxCfg (q : Option VfTxQueue) (qid : Nat) : Except Int QueueCfg :=
  match q with
  | none => .error (- EINVAL)
  | some q =>
    match q.vector with
    | none => .error (- EINVAL)
    | some vid => if q.configured then .error (- EALREADY) else .ok (q.cfg qid vid)

/-- `cfg` as `onic_vf_config_one_rx_context` fills it in. -/
def VfRxQueue.cfg (q : VfRxQueue) (qid vid : Nat) : QueueCfg where
  qid := BitVec.ofNat 32 qid
  dir := queueDirRx
  vector := BitVec.ofNat 32 vid
  rngcntIdx := onicVfRxDescRngcntIdx
  bufszIdx := onicVfRxBufszIdx
  cmplRngcntIdx := onicVfRxCmplRngcntIdx
  cmplDescSz := onicVfRxCmplDescSz
  reserved := 0
  descDmaLo := lower32Bits q.descRing.dmaAddr
  descDmaHi := upper32Bits q.descRing.dmaAddr
  cmplDmaLo := lower32Bits q.cmplRing.dmaAddr
  cmplDmaHi := upper32Bits q.cmplRing.dmaAddr

def onicVfRxCfg (q : Option VfRxQueue) (qid : Nat) : Except Int QueueCfg :=
  match q with
  | none => .error (- EINVAL)
  | some q =>
    match q.vector with
    | none => .error (- EINVAL)
    | some vid =>
      if q.descRing.desc.isNone ∨ q.cmplRing.desc.isNone then .error (- EINVAL)
      else if q.configured then .error (- EALREADY)
      else .ok (q.cfg qid vid)

end OpenNic
