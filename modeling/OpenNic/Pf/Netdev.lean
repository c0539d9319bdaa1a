import OpenNic.Common.Kernel
import OpenNic.Common.Holdings
import OpenNic.Program.Resumption

namespace OpenNic

/-- What a queue of the PF is made of. -/
inductive PfPart
  | queue
  | desc
  | buffer
  | pool
  | rxqInfo
  | page (slot : Nat)
  | cmplDesc
  | napi
  | context
  deriving DecidableEq

/-- A resource of the queue object `obj`. -/
structure PfRes where
  obj : Nat
  part : PfPart
  deriving DecidableEq

/-- The places where opening the device can fail, in the order of the code. -/
inductive PfStep
  | txQueue (qid : Nat)
  | txDesc (qid : Nat)
  | txBuffer (qid : Nat)
  | txContext (qid : Nat)
  | rxQueue (qid : Nat)
  | rxDesc (qid : Nat)
  | rxBuffer (qid : Nat)
  | pagePool (qid : Nat)
  | rxqInfo (qid : Nat)
  | memModel (qid : Nat)
  | page (qid slot : Nat)
  | rxCmplDesc (qid : Nat)
  | rxContext (qid : Nat)
  deriving DecidableEq

/-- The error number of each step, 0 where it succeeds. -/
abbrev PfFails := PfStep → Nat

/-- `struct onic_tx_queue` with its `xdp_tx_stats`. -/
structure PfTxQueue where
  obj : Nat
  desc : Bool
  buffer : Bool
  xdpXmit : BitVec 64
  xdpXmitErr : BitVec 64

/-- `struct onic_rx_queue` with its `xdp_rx_stats`. -/
structure PfRxQueue where
  obj : Nat
  desc : Bool
  cmplDesc : Bool
  buffer : Bool
  rxqInfo : Bool
  xdpProg : Option Nat
  xdpRedirect : BitVec 64
  xdpPass : BitVec 64
  xdpDrop : BitVec 64
  xdpTx : BitVec 64
  xdpTxErr : BitVec 64

/-- A use of memory that is not there. -/
inductive PfFault
  | null
  | freed (obj : Nat)
  deriving DecidableEq

/-- What `struct onic_private` says about the queues; `armed` are the queues whose completion
    interrupt is armed, `next` is the next queue object, `puts` are the programs whose reference was
    dropped. -/
structure PfNetdev where
  numTxQueues : Nat
  numRxQueues : Nat
  txQueue : Nat → Option PfTxQueue
  rxQueue : Nat → Option PfRxQueue
  xdpProg : Option Nat
  running : Bool
  armed : Nat → Bool
  next : Nat
  hold : Holdings PfRes
  puts : List Nat
  faults : List PfFault

namespace PfNetdev

/-- Buffers of a receive queue. -/
def rxSlots : Nat := 1023

def probed (numTxQueues numRxQueues : Nat) : PfNetdev where
  numTxQueues := numTxQueues
  numRxQueues := numRxQueues
  txQueue _ := none
  rxQueue _ := none
  xdpProg := none
  running := false
  armed _ := false
  next := 0
  hold := .none
  puts := []
  faults := []

def acquire (res : PfRes) (s : PfNetdev) : PfNetdev := { s with hold := s.hold.acquire res }

def release (res : PfRes) (s : PfNetdev) : PfNetdev := { s with hold := s.hold.release res }

def setTx (qid : Nat) (q : Option PfTxQueue) (s : PfNetdev) : PfNetdev :=
  { s with txQueue := Function.update s.txQueue qid q }

def setRx (qid : Nat) (q : Option PfRxQueue) (s : PfNetdev) : PfNetdev :=
  { s with rxQueue := Function.update s.rxQueue qid q }

def arm (qid : Nat) (armed : Bool) (s : PfNetdev) : PfNetdev :=
  { s with armed := Function.update s.armed qid armed }

@[simp] theorem setTx_hold (qid : Nat) (q : Option PfTxQueue) (s : PfNetdev) : (s.setTx qid q).hold = s.hold := rfl

@[simp] theorem setRx_hold (qid : Nat) (q : Option PfRxQueue) (s : PfNetdev) : (s.setRx qid q).hold = s.hold := rfl

@[simp] theorem arm_hold (qid : Nat) (armed : Bool) (s : PfNetdev) : (s.arm qid armed).hold = s.hold := rfl

/-- An allocation, which gives `-ENOMEM` where it fails. -/
def alloc (step : PfStep) (res : PfRes) : Program PfNetdev PfFails Int :=
  .access fun errno s => if errno step = 0 then some (0, s.acquire res) else some (- ENOMEM, s)

/-- A call that gives its own error; `onic_qdma_init_tx_queue` and `onic_qdma_init_rx_queue` invalidate
    the contexts themselves where they fail. -/
def command (step : PfStep) (res : PfRes) : Program PfNetdev PfFails Int :=
  .access fun errno s => if errno step = 0 then some (0, s.acquire res) else some (- (errno step : Int), s)

/-- `kzalloc` of a queue object. -/
def kzalloc (step : PfStep) : Program PfNetdev PfFails (Option Nat) :=
  .access fun errno s =>
    if errno step = 0 then some (some s.next, { s.acquire ⟨s.next, .queue⟩ with next := s.next + 1 })
    else some (none, s)

def free (res : PfRes) : Program PfNetdev PfFails Unit := .modify (release res)

def onicClearTxQueue (qid : Nat) : Program PfNetdev PfFails Unit := do
  match ← .read fun s => s.txQueue qid with
  | none => .done ()
  | some q =>
    free ⟨q.obj, .context⟩
    if q.desc then free ⟨q.obj, .desc⟩ else .done ()
    if q.buffer then free ⟨q.obj, .buffer⟩ else .done ()
    free ⟨q.obj, .queue⟩
    .modify (setTx qid none)

/-- From the descriptor ring to the contexts. -/
def onicFillTxQueue (qid obj : Nat) : Program PfNetdev PfFails Int :=
  .inTurn [
    alloc (.txDesc qid) ⟨obj, .desc⟩,
    alloc (.txBuffer qid) ⟨obj, .buffer⟩,
    command (.txContext qid) ⟨obj, .context⟩]

def onicInitTxQueue (qid : Nat) : Program PfNetdev PfFails Int := do
  if (← .read fun s => s.txQueue qid).isSome then onicClearTxQueue qid else .done ()
  match ← kzalloc (.txQueue qid) with
  | none => .done (- ENOMEM)
  | some obj =>
    let rv ← onicFillTxQueue qid obj
    if rv ≠ 0 then
      -- `priv->tx_queue[qid]` is still NULL here
      onicClearTxQueue qid
      .done rv
    else
      .modify (setTx qid (some ⟨obj, true, true, 0, 0⟩))
      .done 0

def onicClearRxQueue (qid : Nat) : Program PfNetdev PfFails Unit := do
  match ← .read fun s => s.rxQueue qid with
  | none => .done ()
  | some q =>
    .modify fun s => (s.release ⟨q.obj, .context⟩).arm qid false
    free ⟨q.obj, .napi⟩
    if q.desc then free ⟨q.obj, .desc⟩ else .done ()
    if q.cmplDesc then free ⟨q.obj, .cmplDesc⟩ else .done ()
    .fold (fun i _ => free ⟨q.obj, .page i⟩) 0 rxSlots ()
    if q.buffer then free ⟨q.obj, .buffer⟩ else .done ()
    if q.rxqInfo then free ⟨q.obj, .rxqInfo⟩ else .done ()
    free ⟨q.obj, .pool⟩
    free ⟨q.obj, .queue⟩
    .modify (setRx qid none)

def onicCreatePagePool (qid obj : Nat) : Program PfNetdev PfFails Int := do
  let err ← command (.pagePool qid) ⟨obj, .pool⟩
  if err ≠ 0 then .done err
  else
    let err ← command (.rxqInfo qid) ⟨obj, .rxqInfo⟩
    if err ≠ 0 then
      free ⟨obj, .pool⟩
      .done err
    else
      let errno ← .access fun errno s => some (errno (.memModel qid), s)
      if errno ≠ 0 then
        free ⟨obj, .rxqInfo⟩
        free ⟨obj, .pool⟩
        .done (- (errno : Int))
      else .done 0

/-- From the descriptor ring to the contexts. -/
def onicFillRxQueue (qid obj : Nat) : Program PfNetdev PfFails Int :=
  .inTurn [
    alloc (.rxDesc qid) ⟨obj, .desc⟩,
    alloc (.rxBuffer qid) ⟨obj, .buffer⟩,
    onicCreatePagePool qid obj,
    .untilErr (fun i => alloc (.page qid i) ⟨obj, .page i⟩) 0 rxSlots,
    alloc (.rxCmplDesc qid) ⟨obj, .cmplDesc⟩,
    do
      .modify (acquire ⟨obj, .napi⟩)
      command (.rxContext qid) ⟨obj, .context⟩]

def onicInitRxQueue (qid : Nat) : Program PfNetdev PfFails Int := do
  if (← .read fun s => s.rxQueue qid).isSome then onicClearRxQueue qid else .done ()
  match ← kzalloc (.rxQueue qid) with
  | none => .done (- ENOMEM)
  | some obj =>
    let xdpProg ← .read fun s => s.xdpProg
    let rv ← onicFillRxQueue qid obj
    if rv ≠ 0 then
      -- `priv->rx_queue[qid]` is still NULL here
      onicClearRxQueue qid
      .done rv
    else
      -- `onic_set_rx_head` and `onic_set_completion_tail`
      .modify (arm qid true)
      .modify (setRx qid (some ⟨obj, true, true, true, true, xdpProg, 0, 0, 0, 0, 0⟩))
      .done 0

/-- `while (qid--) clear(qid)` -/
def clearDown (clear : Nat → Program PfNetdev PfFails Unit) : Nat → Program PfNetdev PfFails Unit
  | 0 => .done ()
  | qid + 1 => do
    clear qid
    clearDown clear qid

/-- The loops of `onic_init_tx_resource` and `onic_init_rx_resource` from `qid` on. -/
def initResource (init : Nat → Program PfNetdev PfFails Int) (clear : Nat → Program PfNetdev PfFails Unit) :
    Nat → Nat → Program PfNetdev PfFails Int
  | _, 0 => .done 0
  | qid, left + 1 => do
    let rv ← init qid
    if rv = 0 then initResource init clear (qid + 1) left
    else
      clearDown clear qid
      .done rv

def onicInitTxResource : Program PfNetdev PfFails Int := do
  let numTxQueues ← .read fun s => s.numTxQueues
  initResource onicInitTxQueue onicClearTxQueue 0 numTxQueues

def onicInitRxResource : Program PfNetdev PfFails Int := do
  let numRxQueues ← .read fun s => s.numRxQueues
  initResource onicInitRxQueue onicClearRxQueue 0 numRxQueues

def onicStopNetdev : Program PfNetdev PfFails Unit := do
  let numTxQueues ← .read fun s => s.numTxQueues
  .fold (fun qid _ => onicClearTxQueue qid) 0 numTxQueues ()
  let numRxQueues ← .read fun s => s.numRxQueues
  .fold (fun qid _ => onicClearRxQueue qid) 0 numRxQueues ()

def onicOpenNetdev : Program PfNetdev PfFails Int := do
  let rv ← onicInitTxResource
  if rv < 0 then
    onicStopNetdev
    .done rv
  else
    let rv ← onicInitRxResource
    if rv < 0 then
      onicStopNetdev
      .done rv
    else .done 0

def fault (f : PfFault) (s : PfNetdev) : PfNetdev := { s with faults := s.faults ++ [f] }

/-- `xchg(&priv->rx_queue[qid]->xdp_prog, priv->xdp_prog)` -/
def exchangeProg (qid : Nat) : Program PfNetdev PfFails Unit :=
  .modify fun s =>
    match s.rxQueue qid with
    | none => s.fault .null
    | some q => s.setRx qid (some { q with xdpProg := s.xdpProg })

/-- `bpf_prog_put` where there is a program. -/
def bpfProgPut (old : Option Nat) : Program PfNetdev PfFails Unit := .modify fun s => { s with puts := s.puts ++ old.toList }

def exchangeProgs : Program PfNetdev PfFails Unit := do
  let numRxQueues ← .read fun s => s.numRxQueues
  .fold (fun i _ => exchangeProg i) 0 numRxQueues ()

def onicSetupXdpProg (prog : Option Nat) : Program PfNetdev PfFails Int := do
  let running ← .read PfNetdev.running
  let oldProg ← .access fun _ s => some (s.xdpProg, { s with xdpProg := prog })
  let needReset := prog.isSome != oldProg.isSome
  (if needReset && running then onicStopNetdev else exchangeProgs)
  bpfProgPut oldProg
  if !needReset then .done 0
  else if running then do
    -- what it returns is not looked at
    let _ ← onicOpenNetdev
    .done 0
  else .done 0

end PfNetdev

/-- `global_xdp_stats` -/
structure PfXdpStats where
  xdpRedirect : BitVec 64
  xdpPass : BitVec 64
  xdpDrop : BitVec 64
  xdpTx : BitVec 64
  xdpTxErr : BitVec 64
  xdpXmit : BitVec 64
  xdpXmitErr : BitVec 64
  deriving DecidableEq

/-- The XDP counters of `onic_gstrings_stats`. -/
inductive PfXdpCounter
  | redirect
  | pass
  | drop
  | tx
  | txErr
  | xmit
  | xmitErr
  deriving DecidableEq

namespace PfXdpStats

def zero : PfXdpStats := ⟨0, 0, 0, 0, 0, 0, 0⟩

def addRx (q : PfRxQueue) (stats : PfXdpStats) : PfXdpStats :=
  { stats with
    xdpRedirect := stats.xdpRedirect + q.xdpRedirect
    xdpPass := stats.xdpPass + q.xdpPass
    xdpDrop := stats.xdpDrop + q.xdpDrop
    xdpTx := stats.xdpTx + q.xdpTx
    xdpTxErr := stats.xdpTxErr + q.xdpTxErr }

def addTx (q : PfTxQueue) (stats : PfXdpStats) : PfXdpStats :=
  { stats with
    xdpXmit := stats.xdpXmit + q.xdpXmit
    xdpXmitErr := stats.xdpXmitErr + q.xdpXmitErr }

/-- The value that goes to `data` for the counter. -/
def data (stats : PfXdpStats) : PfXdpCounter → BitVec 64
  | .redirect => stats.xdpRedirect
  | .pass => stats.xdpPass
  | .drop => stats.xdpDrop
  | .tx => stats.xdpTx
  | .txErr => stats.xdpTxErr
  | .xmit => stats.xdpXmit
  | .xmitErr => stats.xdpXmitErr

end PfXdpStats

namespace PfNetdev

/-- One turn of a loop of `onic_get_ethtool_stats`. -/
def addQueue {Q : Type} (queue : Nat → PfNetdev → Option Q) (add : Q → PfXdpStats → PfXdpStats) (j : Nat)
    (stats : PfXdpStats) : Program PfNetdev PfFails PfXdpStats :=
  .access fun _ s =>
    match queue j s with
    | none => some (stats, s.fault .null)
    | some q => some (add q stats, s)

/-- The part of `onic_get_ethtool_stats` that looks at the queues, and the XDP counters that it reports. -/
def onicGetEthtoolStats : Program PfNetdev PfFails (PfXdpCounter → BitVec 64) := do
  let numRxQueues ← .read fun s => s.numRxQueues
  let stats ← .fold (addQueue (fun j s => s.rxQueue j) .addRx) 0 numRxQueues .zero
  let numTxQueues ← .read fun s => s.numTxQueues
  let stats ← .fold (addQueue (fun j s => s.txQueue j) .addTx) 0 numTxQueues stats
  .done stats.data

def onicXdpTxQueueMapping (cpu : Nat) (s : PfNetdev) : Option PfTxQueue :=
  s.txQueue (if cpu ≥ s.numTxQueues then cpu % s.numTxQueues else cpu)

/-- What `onic_xdp_xmit` does to the queue it is mapped to: `frames` says of each frame whether the ring
    takes it. -/
def onicXdpXmit (cpu : Nat) (validFlags : Bool) (frames : List Bool) : Program PfNetdev PfFails Int :=
  .access fun _ s =>
    let qid := if cpu ≥ s.numTxQueues then cpu % s.numTxQueues else cpu
    match s.onicXdpTxQueueMapping cpu with
    | none => some (0, s.fault .null)
    | some q =>
      if validFlags then
        some (frames.count true,
          s.setTx qid (some { q with
            xdpXmit := q.xdpXmit + BitVec.ofNat 64 (frames.count true)
            xdpXmitErr := q.xdpXmitErr + BitVec.ofNat 64 (frames.count false) }))
      else some (- EINVAL, s.setTx qid (some { q with xdpXmitErr := q.xdpXmitErr + 1 }))

/-- The queues with other counts. -/
def counted (tx : Nat → BitVec 64 × BitVec 64) (rx : Nat → PfXdpStats) (s : PfNetdev) : PfNetdev :=
  { s with
    txQueue := fun qid => (s.txQueue qid).map fun q => { q with xdpXmit := (tx qid).1, xdpXmitErr := (tx qid).2 }
    rxQueue := fun qid => (s.rxQueue qid).map fun q =>
      { q with
        xdpRedirect := (rx qid).xdpRedirect
        xdpPass := (rx qid).xdpPass
        xdpDrop := (rx qid).xdpDrop
        xdpTx := (rx qid).xdpTx
        xdpTxErr := (rx qid).xdpTxErr } }

end PfNetdev

end OpenNic
