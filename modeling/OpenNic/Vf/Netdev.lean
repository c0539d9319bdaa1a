import OpenNic.Rx.VfDriver
import OpenNic.Vf.Queue

namespace OpenNic

/-- An entry of `priv->tx_queue` or of `priv->rx_queue`, and the context of that queue. -/
inductive VfSlot
  | tx (qid : Nat)
  | rx (qid : Nat)
  deriving DecidableEq

/-- A command of the VF; `mem` says which of its allocations lie at the addresses that a
    CONFIG_QUEUE carries. -/
inductive VfCmd
  | config (slot : VfSlot) (cfg : QueueCfg) (mem : List Nat)
  | clear (slot : VfSlot)

/-- How a command ends at the VF: with success, with an error although the PF has not
    executed it, or with a timeout before or after which the PF executes it. -/
inductive MboxOutcome
  | ok
  | rejected
  | timedOut (executed : Bool)

/-- What the steps of the VF's netdev find outside; `errno` is the error of an allocation of a
    page pool or of a rejected command, without its sign and less one. -/
structure VfInput where
  alloc : Bool
  addr : BitVec 64
  errno : Fin 4095
  rx : RxInput
  mbox : MboxOutcome

instance : Nonempty VfInput := ⟨⟨true, 0, 0, ⟨none, true, true⟩, .ok⟩⟩

def VfInput.err (input : VfInput) : Int := - (input.errno.val + 1 : Nat)

/-- What must not happen: memory is used or freed again after it is freed, `napi_schedule` is
    called on an instance that is not enabled, or `napi_enable` and `napi_disable` do not alternate. -/
inductive VfFault
  | freed (id : Nat)
  | scheduled (id : Nat)
  | enabled (id : Nat)
  | disabled (id : Nat)
  deriving DecidableEq

/-- What has gone otherwise than the code expects: the PF executes a CONFIG_QUEUE whose command has
    returned an error; a CLEAR_QUEUE is sent outside `onic_vf_stop_netdev` and not executed before it
    returns; an open frees the rings without a try to clear a queue that an earlier stop has retained
    and that the PF still has enabled; an interrupt comes between `kfree(q)` and `priv->rx_queue[qid] = NULL`. -/
inductive VfLapse
  | config
  | clear
  | retained
  | interrupt
  deriving DecidableEq

/-- Where the freeing of a queue is. -/
inductive VfPoint
  | elsewhere
  | releasing (slot : VfSlot)
  | nulling (slot : VfSlot)
  deriving DecidableEq

/-- Which call of the stack runs. -/
inductive VfCaller
  | opening
  | stopping
  | removing
  deriving DecidableEq

/-- A `struct onic_tx_queue` or a `struct onic_rx_queue` -/
inductive VfQueue
  | tx (q : VfTxQueue)
  | rx (q : VfRxQueue)

namespace VfQueue

def id : VfQueue → Nat
  | .tx q => q.id
  | .rx q => q.id

def qid : VfQueue → Nat
  | .tx q => q.qid
  | .rx q => q.qid

def configured : VfQueue → Bool
  | .tx q => q.configured
  | .rx q => q.configured

/-- `ONIC_VF_TX_CTXT_CONFIGURED` and `ONIC_VF_RX_CTXT_CONFIGURED` -/
def setConfigured (b : Bool) : VfQueue → VfQueue
  | .tx q => .tx { q with configured := b }
  | .rx q => .rx { q with configured := b }

def napiEnabled : VfQueue → Bool
  | .tx _ => false
  | .rx q => q.napiEnabled

/-- `ONIC_VF_RX_NAPI_ENABLED` -/
def setNapiEnabled (b : Bool) : VfQueue → VfQueue
  | .tx q => .tx q
  | .rx q => .rx { q with napiEnabled := b }

/-- The allocations of the rings. -/
def rings : VfQueue → List Nat
  | .tx q => (q.ring.desc.map DmaMem.id).toList
  | .rx q => (q.descRing.desc.map DmaMem.id).toList ++ (q.cmplRing.desc.map DmaMem.id).toList

/-- The buffers, and the page pool before them. -/
def buffers : VfQueue → List Nat
  | .tx q => [q.buffer]
  | .rx q => [q.pagePool, q.buffer]

/-- All allocations of a queue. -/
def mem (q : VfQueue) : List Nat := q.rings ++ q.buffers ++ [q.id]

end VfQueue

/-- What of a VF's netdev only the calls of the stack change. Allocations are numbered; a queue is
    known by the number of its structure. `running` is `netif_running`, `up` says that an open has
    succeeded and no stop has begun since, `qIrq` that the handlers of the queue vectors are
    registered. `leaked`, `point` and `caller` are history. -/
structure VfCtl where
  next : Nat
  freed : List Nat
  queue : VfSlot → Option Nat
  obj : Nat → VfQueue
  napi : Nat → Bool
  running : Bool
  up : Bool
  qIrq : Bool
  leaked : List Nat
  point : VfPoint
  caller : VfCaller

/-- The queue that an entry points to. -/
def VfCtl.at_ (c : VfCtl) (slot : VfSlot) : Option VfQueue := (c.queue slot).map c.obj

/-- The allocations of that queue. -/
def VfCtl.mem (c : VfCtl) (slot : VfSlot) : List Nat := ((c.at_ slot).map VfQueue.mem).getD []

/-- The netdev and the PF's contexts of its queues. `ctxt` has the allocations that the enabled
    contexts of a queue point to, `late` the commands that the PF may still execute. -/
structure VfNetdev extends VfCtl where
  ring : Nat → RxQueue
  txCleanWork : Bool
  rxPollWork : Bool
  ctxt : VfSlot → List Nat
  late : List VfCmd
  faults : List VfFault
  lapses : List VfLapse

namespace VfNetdev

/-- What `onic_vf_probe` leaves. -/
def probed : VfNetdev where
  next := 0
  freed := []
  queue := fun _ => none
  obj := fun _ => .tx ⟨0, 0, none, ⟨0, none⟩, 0, false⟩
  ring := fun _ => .zeroed
  napi := fun _ => false
  running := false
  up := false
  txCleanWork := false
  rxPollWork := false
  qIrq := true
  leaked := []
  point := .elsewhere
  caller := .opening
  ctxt := fun _ => []
  late := []
  faults := []
  lapses := []

/-- Memory is used. -/
def touch (ids : List Nat) (s : VfNetdev) : VfNetdev :=
  { s with faults := s.faults ++ (ids.filter fun id => decide (id ∈ s.freed)).map .freed }

def free (id : Nat) (s : VfNetdev) : VfNetdev := { s.touch [id] with freed := s.freed ++ [id] }

/-- A write to a queue. -/
def setObj (id : Nat) (f : VfQueue → VfQueue) (s : VfNetdev) : VfNetdev :=
  { s.touch [id] with obj := Function.update s.obj id (f (s.obj id)) }

def setRing (id : Nat) (q : RxQueue) (s : VfNetdev) : VfNetdev := { s with ring := Function.update s.ring id q }

/-- The queue is published; what the entry pointed to before is out of reach. -/
def publish (slot : VfSlot) (q : VfQueue) (s : VfNetdev) : VfNetdev :=
  { s with
    leaked := s.leaked ++ s.mem slot
    obj := Function.update s.obj q.id q
    queue := Function.update s.queue slot (some q.id) }

def napiSchedule (id : Nat) (s : VfNetdev) : VfNetdev :=
  if s.napi id then s else { s with faults := s.faults ++ [.scheduled id] }

def napiEnable (id : Nat) (s : VfNetdev) : VfNetdev :=
  { s.touch [id] with
    napi := Function.update s.napi id true
    faults := (s.touch [id]).faults ++ if s.napi id then [.enabled id] else [] }

def napiDisable (id : Nat) (s : VfNetdev) : VfNetdev :=
  { s.touch [id] with
    napi := Function.update s.napi id false
    faults := (s.touch [id]).faults ++ if s.napi id then [] else [.disabled id] }

def lapse (l : VfLapse) (s : VfNetdev) : VfNetdev := { s with lapses := s.lapses ++ [l] }

/-- The PF executes a command. -/
def execute (cmd : VfCmd) (s : VfNetdev) : VfNetdev :=
  match cmd with
  | .config slot _ mem => { s with ctxt := Function.update s.ctxt slot mem }
  | .clear slot => { s with ctxt := Function.update s.ctxt slot [] }

/-- The PF executes a command that returns or has returned an error. -/
def executeStray (cmd : VfCmd) (s : VfNetdev) : VfNetdev :=
  match cmd with
  | .config _ _ _ => (s.execute cmd).lapse .config
  | .clear _ => s.execute cmd

/-- A command returns an error and is not executed yet. -/
def unexecuted (cmd : VfCmd) (s : VfNetdev) : VfNetdev :=
  match cmd with
  | .config _ _ _ => s
  | .clear _ => if s.caller = .stopping then s else s.lapse .clear

def kalloc : Program VfNetdev VfInput (Option Nat) :=
  .access fun input s => if input.alloc then some (some s.next, { s with next := s.next + 1 }) else some (none, s)

def dmaAllocCoherent : Program VfNetdev VfInput (Option DmaMem) :=
  .access fun input s =>
    if input.alloc then some (some ⟨s.next, input.addr⟩, { s with next := s.next + 1 }) else some (none, s)

def onicVfCreateRxPagePool : Program VfNetdev VfInput (Except Int Nat) :=
  .access fun input s =>
    if input.alloc then some (.ok s.next, { s with next := s.next + 1 }) else some (.error input.err, s)

/-- `kfree`, `dma_free_coherent` and `page_pool_destroy`, one after the other. -/
def freeAll : List Nat → Program VfNetdev VfInput Unit
  | [] => .done ()
  | id :: rest => do
    .modify (free id)
    freeAll rest

/-- A program on the rings of a queue. -/
def onRing {α : Type} (id : Nat) (p : Program RxQueue RxInput α) : Program VfNetdev VfInput α :=
  (p.comap VfInput.rx).lift (fun s => s.ring id) (setRing id)

/-- `onic_vf_mbox_config_queue` and `onic_vf_mbox_clear_queue` -/
def onicVfMboxSend (cmd : VfCmd) : Program VfNetdev VfInput Int :=
  .access fun input s =>
    match input.mbox with
    | .ok => some (0, s.execute cmd)
    | .rejected => some (input.err, s.unexecuted cmd)
    | .timedOut true => some (- ETIMEDOUT, s.executeStray cmd)
    | .timedOut false => some (- ETIMEDOUT, { s.unexecuted cmd with late := s.late ++ [cmd] })

/-- `q = priv->tx_queue[qid]` or `priv->rx_queue[qid]`, and what is read of `*q`. -/
def readQueue (slot : VfSlot) : Program VfNetdev VfInput (Option VfQueue) :=
  .access fun _ s => some (s.at_ slot, s.touch (s.queue slot).toList)

/-- The last two statements of the freeing of a queue. -/
def freeQueue (slot : VfSlot) (id : Nat) : Program VfNetdev VfInput Unit := do
  .modify fun s => { s.free id with point := .nulling slot }
  .modify fun s => { s with queue := Function.update s.queue slot none, point := .elsewhere }

/-- What `onic_vf_release_pending_tx` does to the buffers is `onicVfReleasePendingTx`. -/
def onicVfFreeTxRing (qid : Nat) : Program VfNetdev VfInput Unit := do
  match ← readQueue (.tx qid) with
  | none => .done ()
  | some q =>
    .modify fun s => { s.touch q.mem with point := .releasing (.tx qid) }
    freeAll (q.rings ++ q.buffers)
    freeQueue (.tx qid) q.id

/-- `onic_vf_free_rx_pages` up to `page_pool_destroy` -/
def onicVfFreeRxPages (id : Nat) (buffers : List Nat) : Program VfNetdev VfInput Unit :=
  .modify fun s => (s.touch buffers).setRing id (s.ring id).freePages

def onicVfFreeRxRing (qid : Nat) : Program VfNetdev VfInput Unit := do
  match ← readQueue (.rx qid) with
  | none => .done ()
  | some q =>
    .modify fun s => { s with point := .releasing (.rx qid) }
    freeAll q.rings
    onicVfFreeRxPages q.id q.buffers
    freeAll q.buffers
    freeQueue (.rx qid) q.id

def onicVfRingsClear : Program VfNetdev VfInput Unit :=
  .fold (fun qid _ => do
    onicVfFreeTxRing qid
    onicVfFreeRxRing qid) 0 onicMaxQueues ()

def onicVfAllocTxRing (priv : VfQueues) (qid : Nat) : Program VfNetdev VfInput Int := do
  match ← kalloc with
  | none => .done (- ENOMEM)
  | some id =>
    match ← dmaAllocCoherent with
    | none =>
      freeAll [id]
      .done (- ENOMEM)
    | some mem =>
      match ← kalloc with
      | none =>
        freeAll [mem.id, id]
        .done (- ENOMEM)
      | some buffer =>
        .modify (publish (.tx qid) (.tx (onicVfTxQueueOf priv qid id buffer mem)))
        .done 0

/-- The pages that lie in the slots. -/
def slotPages (q : RxQueue) : List Nat :=
  (List.range (onicVfRxRingCount - 1)).filterMap fun i => (q.buffer i).pg.map RxPage.id

def onicVfAllocRxRing (priv : VfQueues) (qid : Nat) : Program VfNetdev VfInput Int := do
  match ← kalloc with
  | none => .done (- ENOMEM)
  | some id =>
    .modify (setRing id .zeroed)
    match ← dmaAllocCoherent with
    | none =>
      freeAll [id]
      .done (- ENOMEM)
    | some desc =>
      match ← kalloc with
      | none =>
        freeAll [desc.id, id]
        .done (- ENOMEM)
      | some buffer =>
        match ← onicVfCreateRxPagePool with
        | .error err =>
          freeAll [buffer, desc.id, id]
          .done err
        | .ok pagePool =>
          if ← onRing id (onicVfFillRxPages 0 (onicVfRxRingCount - 1)) then
            match ← dmaAllocCoherent with
            | none =>
              -- `err` is still 0, as the page pool has left it
              onicVfFreeRxPages id [pagePool, buffer]
              freeAll [pagePool, buffer, desc.id, id]
              .done 0
            | some cmpl =>
              .modify fun s => s.setRing id (s.ring id).initCmplRing
              .modify fun s => s.publish (.rx qid)
                (.rx (onicVfRxQueueOf priv qid id buffer pagePool (slotPages (s.ring id)) desc cmpl))
              .done 0
          else
            onicVfFreeRxPages id [pagePool, buffer]
            freeAll [pagePool, buffer, desc.id, id]
            .done (- ENOMEM)

/-- A queue that is configured at both sides. -/
def Held (s : VfNetdev) (slot : VfSlot) : Prop := (s.at_ slot).any VfQueue.configured = true ∧ s.ctxt slot ≠ []

instance (s : VfNetdev) (slot : VfSlot) : Decidable (s.Held slot) := inferInstanceAs (Decidable (_ ∧ _))

def Retains (s : VfNetdev) : Prop := ∃ qid < onicMaxQueues, s.Held (.tx qid) ∨ s.Held (.rx qid)

instance (s : VfNetdev) : Decidable s.Retains :=
  inferInstanceAs (Decidable (∃ qid < onicMaxQueues, _))

/-- Open is about to free the rings. -/
def checkRetained : Program VfNetdev VfInput Unit :=
  .modify fun s => if s.Retains then s.lapse .retained else s

def onicVfRingsInit (priv : VfQueues) : Program VfNetdev VfInput Int := do
  if priv.numQVectors = 0 then .done (- EINVAL)
  else
    let err ← .untilErr (onicVfAllocTxRing priv) 0 priv.numTxQueues
    let err ← if err ≠ 0 then .done err else .untilErr (onicVfAllocRxRing priv) 0 priv.numRxQueues
    if err ≠ 0 then
      checkRetained
      onicVfRingsClear
      .done err
    else .done 0

def clearOneContext (slot : VfSlot) : Program VfNetdev VfInput Int := do
  match ← readQueue slot with
  | none => .done 0
  | some q =>
    if !q.configured then .done 0
    else
      let err ← onicVfMboxSend (.clear slot)
      if err ≠ 0 then .done err
      else
        .modify (setObj q.id (VfQueue.setConfigured false))
        .done 0

def onicVfClearOneTxContext (qid : Nat) : Program VfNetdev VfInput Int := clearOneContext (.tx qid)

def onicVfClearOneRxContext (qid : Nat) : Program VfNetdev VfInput Int := clearOneContext (.rx qid)

/-- What the CONFIG_QUEUE of an entry would carry. -/
def slotCfg (slot : VfSlot) (q : Option VfQueue) : Except Int QueueCfg :=
  match slot, q with
  | .tx qid, some (.tx q) => onicVfTxCfg (some q) qid
  | .rx qid, some (.rx q) => onicVfRxCfg (some q) qid
  | _, _ => .error (- EINVAL)

def configOneContext (slot : VfSlot) : Program VfNetdev VfInput Int := do
  let q ← readQueue slot
  match q, slotCfg slot q with
  | some q, .ok cfg =>
    let err ← onicVfMboxSend (.config slot cfg q.rings)
    if err ≠ 0 then .done err
    else
      .modify (setObj q.id (VfQueue.setConfigured true))
      .done 0
  | none, .ok _ => .done (- EINVAL)
  | _, .error err => .done err

def onicVfConfigOneTxContext (qid : Nat) : Program VfNetdev VfInput Int := configOneContext (.tx qid)

def onicVfConfigOneRxContext (qid : Nat) : Program VfNetdev VfInput Int := configOneContext (.rx qid)

def onicVfTxContextsClear (priv : VfQueues) : Program VfNetdev VfInput Int :=
  .firstErr onicVfClearOneTxContext 0 priv.numTxQueues

def onicVfRxContextsClear (priv : VfQueues) : Program VfNetdev VfInput Int :=
  .firstErr onicVfClearOneRxContext 0 priv.numRxQueues

def onicVfTxContextsInit (priv : VfQueues) : Program VfNetdev VfInput Int := do
  let err ← .untilErr onicVfConfigOneTxContext 0 priv.numTxQueues
  if err ≠ 0 then
    let _ ← onicVfTxContextsClear priv
    .done err
  else .done 0

def onicVfRxContextsInit (priv : VfQueues) : Program VfNetdev VfInput Int := do
  let err ← .untilErr onicVfConfigOneRxContext 0 priv.numRxQueues
  if err ≠ 0 then
    let _ ← onicVfRxContextsClear priv
    .done err
  else .done 0

/-- Handlers run at one go, so `synchronize_irq` has nothing to wait for. -/
def clearOneDatapath (qid : Nat) : Program VfNetdev VfInput Unit := do
  match ← readQueue (.rx qid) with
  | none => .done ()
  | some q =>
    if !q.napiEnabled then .done ()
    else
      .modify fun s => s.setRing q.id { s.ring q.id with cidx := ((s.ring q.id).cmplRing.nextToClean, false) }
      .modify (setObj q.id (VfQueue.setNapiEnabled false))
      .modify (napiDisable q.id)

def onicVfRxDatapathClear (priv : VfQueues) : Program VfNetdev VfInput Unit :=
  .fold (fun qid _ => clearOneDatapath qid) 0 priv.numRxQueues ()

def initOneDatapath (qid : Nat) : Program VfNetdev VfInput Int := do
  match ← readQueue (.rx qid) with
  | some (.rx q) =>
    if !q.configured || decide (onicVfRxDescStep ≥ q.descRing.count - 1) then .done (- EINVAL)
    else
      .modify (napiEnable q.id)
      .modify (setObj q.id (VfQueue.setNapiEnabled true))
      .modify fun s => s.setRing q.id (s.ring q.id).datapathInit
      .done 0
  | _ => .done (- EINVAL)

def onicVfRxDatapathInit (priv : VfQueues) : Program VfNetdev VfInput Int := do
  let err ← .untilErr initOneDatapath 0 priv.numRxQueues
  if err ≠ 0 then
    onicVfRxDatapathClear priv
    .done err
  else .done 0

def onicVfTxCleanWorkStart : Program VfNetdev VfInput Unit := .modify fun s => { s with txCleanWork := true }

def onicVfTxCleanWorkStop : Program VfNetdev VfInput Unit := .modify fun s => { s with txCleanWork := false }

def onicVfRxPollWorkStart : Program VfNetdev VfInput Unit := .modify fun s => { s with rxPollWork := true }

def onicVfRxPollWorkStop : Program VfNetdev VfInput Unit := .modify fun s => { s with rxPollWork := false }

def onicVfOpenNetdev (priv : VfQueues) : Program VfNetdev VfInput Int := do
  let err ← onicVfRingsInit priv
  if err ≠ 0 then .done err
  else
    let err ← onicVfTxContextsInit priv
    if err ≠ 0 then
      checkRetained
      onicVfRingsClear
      .done err
    else
      let err ← onicVfRxContextsInit priv
      if err ≠ 0 then
        let _ ← onicVfTxContextsClear priv
        onicVfRingsClear
        .done err
      else
        let err ← onicVfRxDatapathInit priv
        if err ≠ 0 then
          let _ ← onicVfRxContextsClear priv
          let _ ← onicVfTxContextsClear priv
          onicVfRingsClear
          .done err
        else
          onicVfTxCleanWorkStart
          onicVfRxPollWorkStart
          .done 0

def onicVfStopNetdev (priv : VfQueues) : Program VfNetdev VfInput Int := do
  onicVfRxPollWorkStop
  onicVfTxCleanWorkStop
  onicVfRxDatapathClear priv
  let err ← onicVfRxContextsClear priv
  if err ≠ 0 then .done err
  else
    let err ← onicVfTxContextsClear priv
    if err ≠ 0 then .done err
    else
      onicVfRingsClear
      .done 0

/-- The kernel's call of `ndo_open`. -/
def devOpen (priv : VfQueues) : Program VfNetdev VfInput Unit := do
  .modify fun s => { s with running := true, caller := .opening }
  let ret ← onicVfOpenNetdev priv
  if ret ≠ 0 then .modify fun s => { s with running := false }
  else .modify fun s => { s with up := true }

/-- The kernel's call of `ndo_stop`; what it returns is not used. -/
def devClose (priv : VfQueues) : Program VfNetdev VfInput Unit := do
  .modify fun s => { s with up := false, running := false, caller := .stopping }
  let _ ← onicVfStopNetdev priv
  .done ()

/-- `onic_vf_remove` with what `unregister_netdev` closes. -/
def onicVfRemove (priv : VfQueues) : Program VfNetdev VfInput Unit := do
  if ← .read fun s => s.running then devClose priv else .done ()
  .modify fun s => { s with caller := .removing }
  onicVfRxPollWorkStop
  onicVfTxCleanWorkStop
  onicVfRxDatapathClear priv
  let _ ← onicVfRxContextsClear priv
  let _ ← onicVfTxContextsClear priv
  onicVfRingsClear
  .modify fun s => { s with qIrq := false }

end VfNetdev

end OpenNic
