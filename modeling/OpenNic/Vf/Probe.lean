import OpenNic.Common.Kernel
import OpenNic.Common.Holdings
import OpenNic.Mailbox.VfDriver
import OpenNic.Vf.Queue

namespace OpenNic

/-- What `onic_vf_probe` acquires; an interrupt is known by its index among the MSI-X vectors. -/
inductive VfRes
  | pciDevice
  | memRegions
  | netdev
  | netdevStats
  | drvdata
  | bar0
  | bar2
  | msixVectors
  | irq (index : Nat)
  | qVector (vid : Nat)
  | qdev
  | registered
  deriving DecidableEq

namespace VfRes

def irqs : List VfRes := (List.range (onicMaxQueues + 1)).map .irq

/-- What needs the resource for as long as it is held itself, besides a registered netdev. -/
def usedBy : VfRes → List VfRes
  | .pciDevice => [.memRegions, .netdev, .bar0, .bar2, .msixVectors]
  | .memRegions => [.bar0, .bar2]
  | .netdev => [.netdevStats, .drvdata, .qdev] ++ irqs
  | .bar0 => .qdev :: irqs
  | .msixVectors => irqs
  | .qVector vid => [.irq vid]
  | _ => []

def users (res : VfRes) : List VfRes :=
  match res with
  | .registered => []
  | res => .registered :: usedBy res

end VfRes

/-- What an access of the probe finds: whether it succeeds and its error otherwise (without its sign and
    less one), the lengths of the BARs, how many MSI-X vectors there are, and what the PF grants. -/
structure VfProbeInput where
  ok : Bool
  errno : Fin 4095
  bar0Len : Nat
  bar2Len : Nat
  vectors : Nat
  grant : VfQueueRes

def VfProbeInput.err (input : VfProbeInput) : Int := - (input.errno.val + 1 : Nat)

instance : Nonempty VfProbeInput := ⟨⟨true, 0, 0, 0, 0, ⟨0, 0, 0, 0⟩⟩⟩

/-- The PCI device and its `struct onic_private`. -/
structure VfDevice where
  hold : Holdings VfRes
  drvdata : Bool
  netdevStats : Bool
  bar0 : Bool
  bar0Len : Nat
  bar2 : Bool
  bar2Len : Nat
  mboxIrqAllocated : Bool
  mboxVector : Nat
  resourceValid : Bool
  res : VfQueueRes
  qdev : Option QdmaDev
  numQVectors : Nat
  numTxQueues : Nat
  numRxQueues : Nat
  hwNumTxQueues : Nat
  hwNumRxQueues : Nat
  qVector : Nat → Bool

namespace VfDevice

def free (res : VfRes) : Program VfDevice VfProbeInput Unit :=
  .modify fun s => { s with hold := s.hold.giveBack VfRes.users res }

/-- Comes back with 0 or with an error. -/
def check : Program VfDevice VfProbeInput Int := .access fun input s => some (if input.ok then 0 else input.err, s)

def request (res : VfRes) : Program VfDevice VfProbeInput Int :=
  .access fun input s => if input.ok then some (0, { s with hold := s.hold.acquire res }) else some (input.err, s)

def alloc (res : VfRes) : Program VfDevice VfProbeInput Bool :=
  .access fun input s => if input.ok then some (true, { s with hold := s.hold.acquire res }) else some (false, s)

def setDrvdata (b : Bool) : Program VfDevice VfProbeInput Unit :=
  .modify fun s => { s with drvdata := b, hold := if b then s.hold.acquire .drvdata else s.hold.drop .drvdata }

def onicVfMapBars : Program VfDevice VfProbeInput Int := do
  .access fun (input : VfProbeInput) s => some ((), { s with bar0Len := input.bar0Len, bar2Len := input.bar2Len })
  if (← .read VfDevice.bar0Len) = 0 then .done (- ENODEV)
  else if !(← alloc .bar0) then .done (- ENOMEM)
  else
    .modify fun s => { s with bar0 := true }
    if (← .read VfDevice.bar2Len) = 0 then .done 0
    else if !(← alloc .bar2) then
      free .bar0
      .modify fun s => { s with bar0 := false }
      .done (- ENOMEM)
    else
      .modify fun s => { s with bar2 := true }
      .done 0

def unmapBar2 : Program VfDevice VfProbeInput Unit := do
  if ← .read VfDevice.bar2 then
    free .bar2
    .modify fun s => { s with bar2 := false, bar2Len := 0 }
  else .done ()

def unmapBar0 : Program VfDevice VfProbeInput Unit := do
  if ← .read VfDevice.bar0 then
    free .bar0
    .modify fun s => { s with bar0 := false, bar0Len := 0 }
  else .done ()

def onicVfUnmapBars : Program VfDevice VfProbeInput Unit := do
  unmapBar2
  unmapBar0

/-- Between one queue vector with the mailbox's and `ONIC_MAX_QUEUES` with it. -/
def pciAllocIrqVectors (minVecs maxVecs : Nat) : Program VfDevice VfProbeInput Int :=
  .access fun input s =>
    if input.ok then
      some ((max minVecs (min input.vectors maxVecs) : Nat), { s with hold := s.hold.acquire .msixVectors })
    else some (input.err, s)

def onicVfMboxIrqInit (vector : Nat) : Program VfDevice VfProbeInput Int := do
  let err ← request (.irq vector)
  if err ≠ 0 then .done err
  else
    .modify fun s => { s with mboxVector := vector, mboxIrqAllocated := true }
    .done 0

def onicVfMboxIrqClear : Program VfDevice VfProbeInput Unit := do
  if !(← .read VfDevice.mboxIrqAllocated) then .done ()
  else
    let vector ← .read VfDevice.mboxVector
    free (.irq vector)
    .modify fun s => { s with mboxIrqAllocated := false }

/-- A command that comes back with an error, or with an answer whose `qmax` is checked. -/
def onicVfMboxGetQueueResource : Program VfDevice VfProbeInput Int :=
  .access fun input s =>
    if !input.ok then some (input.err, s)
    else if input.grant.qmax = 0 ∨ input.grant.qmax.toNat > onicMaxQueues then some (- ERANGE, s)
    else some (0, { s with res := input.grant, resourceValid := true })

def onicVfQdmaInit : Program VfDevice VfProbeInput Int := do
  if !(← .read VfDevice.resourceValid) then .done (- EINVAL)
  else if !(← .read VfDevice.bar0) then .done (- ENODEV)
  else if (← .read VfDevice.qdev).isSome then .done (- EALREADY)
  else if !(← alloc .qdev) then .done (- ENOMEM)
  else
    .modify fun s => { s with
      qdev := some ⟨s.res.funcId, s.res.qbase, s.res.qmax⟩
      hwNumTxQueues := s.res.qmax.toNat
      hwNumRxQueues := s.res.qmax.toNat }
    .done 0

def onicVfQdmaClear : Program VfDevice VfProbeInput Unit := do
  if (← .read VfDevice.qdev).isNone then .done ()
  else
    free .qdev
    .modify fun s => { s with qdev := none, hwNumTxQueues := 0, hwNumRxQueues := 0, resourceValid := false }

def onicVfClearOneQIrq (vid : Nat) : Program VfDevice VfProbeInput Unit := do
  if !(← .read fun s => s.qVector vid) then .done ()
  else
    free (.irq vid)
    free (.qVector vid)
    .modify fun s => { s with qVector := Function.update s.qVector vid false }

def onicVfInitOneQIrq (vid : Nat) : Program VfDevice VfProbeInput Int := do
  if !(← alloc (.qVector vid)) then .done (- ENOMEM)
  else
    -- `pci_irq_vector`
    let irq ← check
    if irq < 0 then
      free (.qVector vid)
      .done irq
    else
      let err ← request (.irq vid)
      if err ≠ 0 then
        free (.qVector vid)
        .done err
      else
        .modify fun s => { s with qVector := Function.update s.qVector vid true }
        .done 0

/-- `while (vid--) onic_vf_clear_one_q_irq(priv, vid);` -/
def clearQIrqsBelow : Nat → Program VfDevice VfProbeInput Unit
  | 0 => .done ()
  | vid + 1 => do
    onicVfClearOneQIrq vid
    clearQIrqsBelow vid

def initQIrqs (vid : Nat) : Nat → Program VfDevice VfProbeInput Int
  | 0 => .done 0
  | left + 1 => do
    let err ← onicVfInitOneQIrq vid
    if err ≠ 0 then
      clearQIrqsBelow vid
      .done err
    else initQIrqs (vid + 1) left

def onicVfQIrqInit : Program VfDevice VfProbeInput Int := do
  let numQVectors ← .read VfDevice.numQVectors
  initQIrqs 0 numQVectors

def onicVfQIrqClear : Program VfDevice VfProbeInput Unit :=
  .fold (fun vid _ => onicVfClearOneQIrq vid) 0 onicMaxQueues ()

def disableDevice (err : Int) : Program VfDevice VfProbeInput Int := do
  free .pciDevice
  .done err

def releaseRegions (err : Int) : Program VfDevice VfProbeInput Int := do
  free .memRegions
  disableDevice err

def freeStats : Program VfDevice VfProbeInput Unit := do
  if ← .read VfDevice.netdevStats then
    free .netdevStats
    .modify fun s => { s with netdevStats := false }
  else .done ()

def freeNetdev (err : Int) : Program VfDevice VfProbeInput Int := do
  freeStats
  setDrvdata false
  free .netdev
  releaseRegions err

def unmapBars (err : Int) : Program VfDevice VfProbeInput Int := do
  onicVfUnmapBars
  freeNetdev err

def clearNumQVectors : Program VfDevice VfProbeInput Unit := .modify fun s => { s with numQVectors := 0 }

def freeIrqVectors (err : Int) : Program VfDevice VfProbeInput Int := do
  clearNumQVectors
  free .msixVectors
  unmapBars err

def clearMboxIrq (err : Int) : Program VfDevice VfProbeInput Int := do
  onicVfMboxIrqClear
  freeIrqVectors err

def clearVfQdma (err : Int) : Program VfDevice VfProbeInput Int := do
  onicVfQdmaClear
  clearMboxIrq err

def clearQIrqs (err : Int) : Program VfDevice VfProbeInput Int := do
  onicVfQIrqClear
  clearVfQdma err

/-- `memset(priv, 0, sizeof(*priv));` -/
def zeroPriv (s : VfDevice) : VfDevice where
  hold := s.hold
  drvdata := s.drvdata
  netdevStats := false
  bar0 := false
  bar0Len := 0
  bar2 := false
  bar2Len := 0
  mboxIrqAllocated := false
  mboxVector := 0
  resourceValid := false
  res := ⟨0, 0, 0, 0⟩
  qdev := none
  numQVectors := 0
  numTxQueues := 0
  numRxQueues := 0
  hwNumTxQueues := 0
  hwNumRxQueues := 0
  qVector _ := false

/-- The fewer of the vectors and of the queues that the PF grants. -/
def limitQueues : Program VfDevice VfProbeInput Unit :=
  .modify fun s => { s with numQVectors := min s.numQVectors s.res.qmax.toNat }

def setNumQueues : Program VfDevice VfProbeInput Unit :=
  .modify fun s => { s with
    numTxQueues := s.numQVectors
    numRxQueues := s.numQVectors
    hwNumTxQueues := s.numQVectors
    hwNumRxQueues := s.numQVectors }

/-- `onic_vf_probe` from the state of the QDMA on. -/
def probeQueues : Program VfDevice VfProbeInput Int := do
  limitQueues
  if (← .read VfDevice.numQVectors) = 0 then clearVfQdma (- ENOSPC)
  else
    setNumQueues
    -- `netif_set_real_num_tx_queues` and `netif_set_real_num_rx_queues`
    let err ← check
    if err ≠ 0 then clearVfQdma err
    else
      let err ← check
      if err ≠ 0 then clearVfQdma err
      else
        let err ← onicVfQIrqInit
        if err ≠ 0 then clearVfQdma err
        else
          let err ← request .registered
          if err ≠ 0 then clearQIrqs err
          else .done 0

/-- `onic_vf_probe` from the MSI-X vectors on. -/
def probeVectors : Program VfDevice VfProbeInput Int := do
  let vectors ← pciAllocIrqVectors (onicVfNonQVectors + 1) (onicMaxQueues + onicVfNonQVectors)
  if vectors < 0 then unmapBars vectors
  else
    .modify fun s => { s with numQVectors := vectors.toNat - onicVfNonQVectors }
    let vector ← .read VfDevice.numQVectors
    let err ← onicVfMboxIrqInit vector
    if err ≠ 0 then freeIrqVectors err
    else
      let err ← onicVfMboxGetQueueResource
      if err ≠ 0 then clearMboxIrq err
      else
        let err ← onicVfQdmaInit
        if err ≠ 0 then clearMboxIrq err
        else probeQueues

/-- `onic_vf_probe` from the netdev on. -/
def probeNetdev : Program VfDevice VfProbeInput Int := do
  if !(← alloc .netdev) then releaseRegions (- ENOMEM)
  else
    .modify zeroPriv
    if !(← alloc .netdevStats) then freeNetdev (- ENOMEM)
    else
      .modify fun s => { s with netdevStats := true }
      setDrvdata true
      let err ← onicVfMapBars
      if err ≠ 0 then freeNetdev err
      else probeVectors

def dmaSetMask : Program VfDevice VfProbeInput Int := do
  -- 64 bits, then 32
  let err ← check
  if err ≠ 0 then check
  else .done 0

def onicVfProbe : Program VfDevice VfProbeInput Int := do
  let err ← request .pciDevice
  if err ≠ 0 then .done err
  else
    let err ← dmaSetMask
    if err ≠ 0 then disableDevice err
    else
      -- `dma_set_coherent_mask`
      let err ← check
      if err ≠ 0 then disableDevice err
      else
        let err ← request .memRegions
        if err ≠ 0 then disableDevice err
        else probeNetdev

def releaseDevice : Program VfDevice VfProbeInput Unit := do
  free .memRegions
  free .pciDevice

/-- Of a VF whose netdev is closed and whose queues are cleared. -/
def onicVfRemove : Program VfDevice VfProbeInput Unit := do
  if ← .read VfDevice.drvdata then
    free .registered
    onicVfQIrqClear
    onicVfQdmaClear
    onicVfMboxIrqClear
    clearNumQVectors
    free .msixVectors
    onicVfUnmapBars
    freeStats
    setDrvdata false
    free .netdev
    releaseDevice
  else
    setDrvdata false
    releaseDevice

end VfDevice

end OpenNic
