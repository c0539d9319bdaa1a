import OpenNic.Common.Kernel
import OpenNic.Common.Holdings
import OpenNic.Program.Resumption

namespace OpenNic

/-- What `onic_probe` acquires. -/
inductive ProbeRes
  | pciDevice
  | memRegions
  | netdev
  | netdevStats
  | msixVectors
  | shellMap
  | qdmaDev
  | qdmaMap
  | fmap
  | queueIrq (vid : Nat)
  | userIrq
  | mboxIrq
  | errorIrq
  | registered
  deriving DecidableEq

/-- The places where `onic_probe` can fail. -/
inductive ProbeStep
  | enable
  | dmaMask
  | memRegions
  | netdev
  | netdevStats
  | vectors
  | shellMap
  | qdmaDev
  | qdmaMap
  | clearFmap
  | writeFmap
  | qVector (vid : Nat)
  | irqName (vid : Nat)
  | queueIrq (vid : Nat)
  | userIrq
  | mbox
  | errorIrq
  | register
  deriving DecidableEq

/-- The error number of each step (0 where it succeeds), the MSI-X vectors that the device has, and the
    number of the function. -/
structure ProbeInput where
  fails : ProbeStep → Nat
  vectors : Nat
  func : Nat

/-- The PCI device and its `struct onic_private`. -/
structure PfDevice where
  hold : Holdings ProbeRes
  drvdata : Bool
  masterPf : Bool
  numQVectors : Nat
  numTxQueues : Nat
  numRxQueues : Nat
  qVector : Nat → Bool
  userIntr : Bool
  errorIntr : Bool
  hwAddr : Bool
  hwQdma : Bool
  netdevStats : Bool

namespace PfDevice

def maxQueues : Nat := 64

def free (res : ProbeRes) : Program PfDevice ProbeInput Unit := .modify fun s => { s with hold := s.hold.release res }

/-- A register or context that is switched off, whether or not it was on. -/
def switchOff (res : ProbeRes) : Program PfDevice ProbeInput Unit :=
  .modify fun s => { s with hold := s.hold.drop res }

/-- Whether the step comes to its end. -/
def provides (step : ProbeStep) : Program PfDevice ProbeInput Bool := .access fun input s => some (input.fails step == 0, s)

def alloc (step : ProbeStep) (res : ProbeRes) : Program PfDevice ProbeInput Bool :=
  .access fun input s =>
    if input.fails step = 0 then some (true, { s with hold := s.hold.acquire res }) else some (false, s)

def check (step : ProbeStep) : Program PfDevice ProbeInput Int := .access fun input s => some (- (input.fails step : Int), s)

def request (step : ProbeStep) (res : ProbeRes) : Program PfDevice ProbeInput Int :=
  .access fun input s =>
    if input.fails step = 0 then some (0, { s with hold := s.hold.acquire res })
    else some (- (input.fails step : Int), s)

/-- Between the minimum and the maximum that `onic_acquire_msix_vectors` asks for. -/
def pciAllocIrqVectors (minVecs maxVecs : Nat) : Program PfDevice ProbeInput Int :=
  .access fun input s =>
    if input.fails .vectors = 0 then
      some ((max minVecs (min input.vectors maxVecs) : Nat), { s with hold := s.hold.acquire .msixVectors })
    else some (- (input.fails .vectors : Int), s)

def onicAcquireMsixVectors : Program PfDevice ProbeInput Int := do
  let masterPf ← .read PfDevice.masterPf
  let nonQVectors := if masterPf then 2 else 1
  let vectors ← pciAllocIrqVectors (nonQVectors + 1) (maxQueues + nonQVectors)
  if vectors < 0 then .done vectors
  else
    .modify fun s => { s with numQVectors := vectors.toNat - nonQVectors }
    .done 0

/-- `alloc_etherdev_mq` has made `ONIC_MAX_QUEUES` queues of each kind. -/
def onicSetNumQueues : Program PfDevice ProbeInput Unit :=
  .modify fun s => { s with numTxQueues := min s.numQVectors maxQueues, numRxQueues := min s.numQVectors maxQueues }

def onicInitCapacity : Program PfDevice ProbeInput Int := do
  let rv ← onicAcquireMsixVectors
  if rv < 0 then .done rv
  else
    onicSetNumQueues
    .done 0

def onicClearCapacity : Program PfDevice ProbeInput Unit := do
  .modify fun s => { s with numTxQueues := 0, numRxQueues := 0, numQVectors := 0 }
  free .msixVectors

def qdmaCreateDev : Program PfDevice ProbeInput Bool := do
  if !(← alloc .qdmaDev .qdmaDev) then .done false
  else if !(← alloc .qdmaMap .qdmaMap) then
    free .qdmaDev
    .done false
  else .done true

def qdmaDestroyDev : Program PfDevice ProbeInput Unit := do
  free .qdmaMap
  free .qdmaDev

def onicClearHardware : Program PfDevice ProbeInput Unit := do
  if ← .read PfDevice.hwQdma then
    -- `qdma_invalidate_fmap_ctxt`
    switchOff .fmap
    qdmaDestroyDev
  else .done ()
  if ← .read PfDevice.hwAddr then free .shellMap else .done ()
  .modify fun s => { s with hwAddr := false, hwQdma := false }

def onicInitHardware : Program PfDevice ProbeInput Int := do
  if !(← alloc .shellMap .shellMap) then .done (- EINVAL)
  else
    .modify fun s => { s with hwAddr := true }
    if !(← qdmaCreateDev) then
      onicClearHardware
      .done (- ENOMEM)
    else
      .modify fun s => { s with hwQdma := true }
      let rv ← check .clearFmap
      if rv < 0 then
        onicClearHardware
        .done rv
      else
        let rv ← request .writeFmap .fmap
        if rv < 0 then
          onicClearHardware
          .done rv
        else .done 0

def onicInitQVector (vid : Nat) : Program PfDevice ProbeInput Int := do
  let name ← provides (.irqName vid)
  if !(← provides (.qVector vid)) then .done (- ENOMEM)
  else
    -- `snprintf` does not return from a NULL name
    .access fun (_ : ProbeInput) s => if name then some ((), s) else none
    let rv ← request (.queueIrq vid) (.queueIrq vid)
    if rv < 0 then .done rv
    else
      .modify fun s => { s with qVector := Function.update s.qVector vid true }
      .done 0

def onicClearQVector (vid : Nat) : Program PfDevice ProbeInput Unit := do
  if ← .read fun s => s.qVector vid then
    free (.queueIrq vid)
    .modify fun s => { s with qVector := Function.update s.qVector vid false }
  else .done ()

/-- `while (vid--) onic_clear_q_vector(priv, vid);` -/
def clearQVectors : Nat → Program PfDevice ProbeInput Unit
  | 0 => .done ()
  | vid + 1 => do
    onicClearQVector vid
    clearQVectors vid

def onicClearInterrupt : Program PfDevice ProbeInput Unit := do
  let masterPf ← .read PfDevice.masterPf
  (if masterPf then switchOff .mboxIrq else .done ())
  let errorIntr ← .read PfDevice.errorIntr
  (if masterPf && errorIntr then do
    free .errorIrq
    .modify fun s => { s with errorIntr := false }
  else .done ())
  let userIntr ← .read PfDevice.userIntr
  (if userIntr then do
    free .userIrq
    .modify fun s => { s with userIntr := false }
  else .done ())
  let vid ← .read PfDevice.numQVectors
  clearQVectors vid

def onicPfMboxIrqInit : Program PfDevice ProbeInput Int := do
  switchOff .mboxIrq
  request .mbox .mboxIrq

/-- What only the master PF sets up. -/
def onicInitMasterInterrupt : Program PfDevice ProbeInput Int := do
  let rv ← onicPfMboxIrqInit
  if rv < 0 then .done rv
  else
    let rv ← request .errorIrq .errorIrq
    if rv < 0 then .done rv
    else
      .modify fun s => { s with errorIntr := true }
      .done 0

def onicInitOtherInterrupts : Program PfDevice ProbeInput Int := do
  let rv ← request .userIrq .userIrq
  if rv < 0 then .done rv
  else
    .modify fun s => { s with userIntr := true }
    if ← .read PfDevice.masterPf then onicInitMasterInterrupt else .done 0

/-- `onic_init_interrupt` without its label. -/
def onicInitVectors : Program PfDevice ProbeInput Int := do
  let numQVectors ← .read PfDevice.numQVectors
  let rv ← .untilErr onicInitQVector 0 numQVectors
  if rv < 0 then .done rv else onicInitOtherInterrupts

def onicInitInterrupt : Program PfDevice ProbeInput Int := do
  let rv ← onicInitVectors
  if rv < 0 then
    onicClearInterrupt
    .done rv
  else .done rv

def disableDevice (rv : Int) : Program PfDevice ProbeInput Int := do
  free .pciDevice
  .done rv

def releasePciMem (rv : Int) : Program PfDevice ProbeInput Int := do
  free .memRegions
  disableDevice rv

def freeNetdev (rv : Int) : Program PfDevice ProbeInput Int := do
  free .netdev
  releasePciMem rv

def freeStats (rv : Int) : Program PfDevice ProbeInput Int := do
  (if ← .read PfDevice.netdevStats then do
    free .netdevStats
    .modify fun s => { s with netdevStats := false }
  else .done ())
  freeNetdev rv

def clearCapacity (rv : Int) : Program PfDevice ProbeInput Int := do
  onicClearCapacity
  freeStats rv

def clearHardware (rv : Int) : Program PfDevice ProbeInput Int := do
  onicClearHardware
  clearCapacity rv

def clearInterrupt (rv : Int) : Program PfDevice ProbeInput Int := do
  onicClearInterrupt
  clearHardware rv

/-- `memset(priv, 0, ..)` and the flag of the master PF. -/
def zeroPriv (func : Nat) (s : PfDevice) : PfDevice where
  hold := s.hold
  drvdata := s.drvdata
  masterPf := func == 0
  numQVectors := 0
  numTxQueues := 0
  numRxQueues := 0
  qVector _ := false
  userIntr := false
  errorIntr := false
  hwAddr := false
  hwQdma := false
  netdevStats := false

/-- The part of `onic_probe` after the per-CPU statistics. -/
def probePriv : Program PfDevice ProbeInput Int := do
  let rv ← onicInitCapacity
  if rv < 0 then freeStats rv
  else
    let rv ← onicInitHardware
    if rv < 0 then clearCapacity rv
    else
      let rv ← onicInitInterrupt
      if rv < 0 then clearHardware rv
      else
        let rv ← request .register .registered
        if rv < 0 then clearInterrupt rv
        else
          .modify fun s => { s with drvdata := true }
          .done 0

def onicProbe : Program PfDevice ProbeInput Int := do
  let rv ← request .enable .pciDevice
  if rv < 0 then .done rv
  else
    let rv ← check .dmaMask
    if rv < 0 then disableDevice rv
    else
      let rv ← request .memRegions .memRegions
      if rv < 0 then disableDevice rv
      else if !(← alloc .netdev .netdev) then releasePciMem (- ENOMEM)
      else
        .access fun (input : ProbeInput) s => some ((), s.zeroPriv input.func)
        -- `rv` is still what `pci_request_mem_regions` has returned
        if !(← alloc .netdevStats .netdevStats) then freeNetdev rv
        else
          .modify fun s => { s with netdevStats := true }
          probePriv

def releaseDevice : Program PfDevice ProbeInput Unit := do
  free .memRegions
  free .pciDevice

/-- Without virtual functions. -/
def onicRemove : Program PfDevice ProbeInput Unit := do
  if !(← .read PfDevice.drvdata) then releaseDevice
  else
    free .registered
    onicClearInterrupt
    onicClearHardware
    onicClearCapacity
    (if ← .read PfDevice.netdevStats then do
      free .netdevStats
      .modify fun s => { s with netdevStats := false }
    else .done ())
    free .netdev
    .modify fun s => { s with drvdata := false }
    releaseDevice

end PfDevice

end OpenNic
