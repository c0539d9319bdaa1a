import OpenNic.Mailbox.PfDriver
import OpenNic.Qdma.FunctionMap
import OpenNic.Vf.Queue

namespace OpenNic

instance neZero_pfs : NeZero 4 := ⟨by decide⟩

/-- Who works on the card: the callbacks of each PF, one at a time, and the mailbox
    threads of the master PF. -/
inductive SriovThread
  | pf (f : Fin 4)
  | mbox (t : PfThread)
  deriving DecidableEq

/-- `struct onic_private` of a PF as far as queues are handed out. `pciNumVf` is what the
    PCI core counts; `returned` is history, the last number that `sriov_configure` was called
    with and what it returned. -/
structure PfPriv where
  numQVectors : Nat
  numTxQueues : Nat
  numRxQueues : Nat
  qdev : Option QdmaDev
  vfs : VfTable
  pciNumVf : Nat
  bound : Bool
  returned : Option (Int × Int)

def OnicVfResource.zero : OnicVfResource := ⟨0, 0, 0, 0, 0, 0, 0, false⟩

def VfTable.empty : VfTable := ⟨fun _ => .zero, 0, by decide⟩

/-- `priv->vf_res[i]` -/
def VfTable.res (vfs : VfTable) (i : Nat) : OnicVfResource := vfs.vfRes ⟨i % onicMaxVfs, Nat.mod_lt _ (by decide)⟩

def VfTable.setRes (vfs : VfTable) (i : Nat) (res : OnicVfResource) : VfTable :=
  { vfs with vfRes := fun j => if j.val = i then res else vfs.vfRes j }

def VfTable.setNum (vfs : VfTable) (n : Fin (onicMaxVfs + 1)) : VfTable :=
  { vfs with numVfs := n, bound := Nat.le_of_lt_succ n.isLt }

def PfPriv.zero : PfPriv := ⟨0, 0, 0, none, .empty, 0, false, none⟩

/-- The card with its PFs. From `fmap` on the fields are history: what each function map
    was last programmed with, the function that a teardown is at with how many of its queues
    it has come to, and the queue that a mailbox thread is configuring. -/
structure Card where
  engine : CtxtEngine
  priv : Fin 4 → PfPriv
  fmap : BitVec 16 → Option FmapCtxt
  clearing : Option (BitVec 16 × Nat)
  configuring : PfThread → Option (BitVec 16 × Nat)

/-- What is found outside. `vectors` is one less than the queue vectors that
    `pci_alloc_irq_vectors` returns. -/
structure CardInput where
  hw : Input
  rv : Int
  flag : Bool
  vectors : Fin onicMaxQueues
  mac : BitVec 48

namespace Card

def setPriv (s : Card) (f : Fin 4) (g : PfPriv → PfPriv) : Card :=
  { s with priv := Function.update s.priv f (g (s.priv f)) }

def setFmap (s : Card) (funcId : BitVec 16) (ctxt : Option FmapCtxt) : Card :=
  { s with fmap := Function.update s.fmap funcId ctxt }

/-- `memset(res, 0, sizeof(*res))`, with which the teardown is done with the VF. -/
def eraseVf (s : Card) (f : Fin 4) (i : Nat) : Card :=
  { s.setPriv f (fun priv => { priv with vfs := priv.vfs.setRes i .zero }) with clearing := none }

def setEngine (e : CtxtEngine) (s : Card) : Card := { s with engine := e }

end Card

section

-- What the context commands may find: anything, or only what completes them.
variable (via : Input → Input)

def onCard {α : Type} (p : Program CtxtEngine Input α) : Program Card CardInput α :=
  (p.comap fun input => via input.hw).lift Card.engine Card.setEngine

def modPriv (f : Fin 4) (g : PfPriv → PfPriv) : Program Card CardInput Unit := .modify fun s => s.setPriv f g

def readPriv {α : Type} (f : Fin 4) (get : PfPriv → α) : Program Card CardInput α := .read fun s => get (s.priv f)

def markFmap (funcId : BitVec 16) (ctxt : Option FmapCtxt) : Program Card CardInput Unit :=
  .modify fun s => s.setFmap funcId ctxt

def writeFmap (qdev : QdmaDev) (ctxt : FmapCtxt) : Program Card CardInput (Int × QdmaDev) := do
  let r ← onCard via (qdmaWriteFmapCtxt qdev ctxt)
  markFmap qdev.funcId (if r.1 < 0 then none else some ctxt)
  .done r

def clearFmap (qdev : QdmaDev) : Program Card CardInput (Int × QdmaDev) := do
  markFmap qdev.funcId none
  onCard via (qdmaClearFmapCtxt qdev)

def onicAcquireMsixVectors (f : Fin 4) : Program Card CardInput Int := do
  match ← .access fun input s => some (if input.flag then some input.vectors else none, s) with
  | none => .done (- ENOSPC)
  | some vectors =>
    modPriv f fun priv => { priv with numQVectors := vectors + 1 }
    .done 0

/-- `alloc_etherdev_mq` made as many queues as there can be vectors. -/
def onicSetNumQueues (f : Fin 4) : Program Card CardInput Unit :=
  modPriv f fun priv => { priv with
    numTxQueues := min priv.numQVectors onicMaxQueues
    numRxQueues := min priv.numQVectors onicMaxQueues }

def onicInitCapacity (f : Fin 4) : Program Card CardInput Int := do
  let rv ← onicAcquireMsixVectors f
  if rv < 0 then .done rv
  else
    onicSetNumQueues f
    .done 0

def onicClearCapacity (f : Fin 4) : Program Card CardInput Unit :=
  modPriv f fun priv => { priv with numTxQueues := 0, numRxQueues := 0, numQVectors := 0 }

def onicClearHardware (f : Fin 4) : Program Card CardInput Unit := do
  match ← readPriv f PfPriv.qdev with
  | none => .done ()
  | some qdev =>
    let _ ← clearFmap via qdev
    modPriv f fun priv => { priv with qdev := none }

/-- The function map part of `onic_init_hardware`; the flag tells whether the registers can
    be mapped and the device made. -/
def onicInitHardware (f : Fin 4) : Program Card CardInput Int := do
  if ← .access fun input s => some (input.flag, s) then
    let qdev : QdmaDev := ⟨BitVec.ofNat 16 f, 0, 0⟩
    modPriv f fun priv => { priv with qdev := some qdev }
    let qmax ← readPriv f fun priv => max priv.numTxQueues priv.numRxQueues
    let (rv, qdev) ← clearFmap via qdev
    modPriv f fun priv => { priv with qdev := some qdev }
    if rv < 0 then
      onicClearHardware via f
      .done rv
    else
      let (rv, qdev) ← writeFmap via qdev ⟨BitVec.ofNat 11 (f * onicMaxQueues), BitVec.ofNat 12 qmax⟩
      modPriv f fun priv => { priv with qdev := some qdev }
      if rv < 0 then
        onicClearHardware via f
        .done rv
      else .done 0
  else
    onicClearHardware via f
    .done (- ENOMEM)

/-- The flag tells whether what follows `onic_init_hardware` succeeds. -/
def onicProbe (f : Fin 4) : Program Card CardInput Int := do
  modPriv f fun _ => .zero
  let rv ← onicInitCapacity f
  if rv < 0 then .done rv
  else
    let rv ← onicInitHardware via f
    if rv < 0 then
      onicClearCapacity f
      .done rv
    else if ← .access fun input s => some (input.flag, s) then
      modPriv f fun priv => { priv with bound := true }
      .done 0
    else
      onicClearHardware via f
      onicClearCapacity f
      .done (- ENOMEM)

/-- One round of the loop of `onic_free_vf_resources`. -/
def onicFreeVfResource (f : Fin 4) (i : Nat) : Program Card CardInput Unit := do
  let res ← readPriv f fun priv => priv.vfs.res i
  if !res.enabled then .done ()
  else
    let vfQdev : QdmaDev := ⟨res.funcId, res.qbase, res.qmax⟩
    .fold (fun qid _ => do
      .modify fun s => { s with clearing := some (res.funcId, qid + 1) }
      onCard via (onicQdmaClearRxQueue vfQdev (BitVec.ofNat 16 qid))
      onCard via (onicQdmaClearTxQueue vfQdev (BitVec.ofNat 16 qid))) 0 res.qmax.toNat ()
    let _ ← clearFmap via vfQdev
    .modify fun s => s.eraseVf f i

def onicFreeVfResources (f : Fin 4) (numVfs : Nat) : Program Card CardInput Unit := do
  match ← readPriv f PfPriv.qdev with
  | none => .done ()
  | some _ =>
    .fold (fun i _ => onicFreeVfResource via f i) 0 (min numVfs onicMaxVfs) ()
    modPriv f fun priv => { priv with vfs := priv.vfs.setNum 0 }

def queuesPerVf : Nat := 4

/-- The rounds left of the loop of `onic_config_vf_resources`. -/
def onicConfigVfLoop (f : Fin 4) : Nat → Nat → Nat → Program Card CardInput Int
  | _, 0, _ => .done 0
  | i, left + 1, currentBaseQueue => do
    let vfFuncId := BitVec.ofNat 16 (4 + i)
    let vfQdev : QdmaDev := ⟨vfFuncId, 0, 0⟩
    let (err, vfQdev) ← writeFmap via vfQdev ⟨BitVec.ofNat 11 currentBaseQueue, BitVec.ofNat 12 queuesPerVf⟩
    if err ≠ 0 then
      let _ ← clearFmap via vfQdev
      onicFreeVfResources via f i
      .done err
    else
      let mac ← .access fun input s => some (input.mac, s)
      modPriv f fun priv => { priv with vfs := priv.vfs.setRes i {
        vfId := BitVec.ofNat 16 i
        funcId := vfFuncId
        qbase := BitVec.ofNat 16 currentBaseQueue
        qmax := BitVec.ofNat 16 queuesPerVf
        numTxQueues := BitVec.ofNat 16 queuesPerVf
        numRxQueues := BitVec.ofNat 16 queuesPerVf
        mac := mac
        enabled := true } }
      onicConfigVfLoop f (i + 1) left (currentBaseQueue + queuesPerVf)

def onicConfigVfResources (f : Fin 4) (numVfs : Fin (onicMaxVfs + 1)) : Program Card CardInput Int := do
  match ← readPriv f PfPriv.qdev with
  | none => .done (- ENODEV)
  | some pfQdev =>
    let err ← onicConfigVfLoop via f 0 numVfs (pfQdev.qBase.toNat + pfQdev.numQueues.toNat)
    if err ≠ 0 then .done err
    else
      modPriv f fun priv => { priv with vfs := priv.vfs.setNum numVfs }
      .done 0

/-- The flag of the input tells whether VFs are assigned, `rv` what `pci_enable_sriov`
    returns. The master PF is function 0. -/
def onicSriovConfigure (f : Fin 4) (numVfs : Int) : Program Card CardInput Int :=
  if numVfs = 0 then do
    if ← .access fun input s => some (input.flag, s) then .done (- EBUSY)
    else
      let enabledVfs ← readPriv f PfPriv.pciNumVf
      modPriv f fun priv => { priv with pciNumVf := 0 }
      onicFreeVfResources via f enabledVfs
      .done 0
  else if f ≠ 0 then .done (- EINVAL)
  else if small : ¬ (numVfs < 0 ∨ numVfs > onicMaxVfs) then do
    let n : Fin (onicMaxVfs + 1) := ⟨numVfs.toNat, by omega⟩
    let rv ← onicConfigVfResources via f n
    if rv < 0 then .done rv
    else
      let rv : Int ← .access fun input s => some (input.rv,
        if input.rv < 0 then s else s.setPriv f fun priv => { priv with pciNumVf := n })
      if rv < 0 then
        onicFreeVfResources via f n
        .done rv
      else .done numVfs
  else .done (- EINVAL)

def onicRemove (f : Fin 4) : Program Card CardInput Unit := do
  if (← readPriv f PfPriv.pciNumVf) ≠ 0 then
    modPriv f fun priv => { priv with pciNumVf := 0 }
    let numVfs ← readPriv f fun priv => priv.vfs.numVfs
    onicFreeVfResources via f numVfs
    onicClearHardware via f
    onicClearCapacity f
    modPriv f fun priv => { priv with bound := false }
  else
    onicClearHardware via f
    onicClearCapacity f
    modPriv f fun priv => { priv with bound := false }

def callSriovConfigure (f : Fin 4) (numVfs : Int) : Program Card CardInput Unit := do
  let rv ← onicSriovConfigure via f numVfs
  modPriv f fun priv => { priv with returned := some (numVfs, rv) }

/-- The queue that a `CONFIG_QUEUE` is about. -/
def configTarget (vfs : VfTable) (srcFuncId : BitVec 16) (req : Msg) : Option (BitVec 16 × Nat) :=
  match onicPfMboxFindVfResource vfs srcFuncId with
  | none => none
  | some res =>
    if req.opcode = opConfigQueue ∧ req.qcfg.qid.toNat < res.qmax.toNat then some (res.funcId, req.qcfg.qid.toNat) else none

/-- A request of a function from where `onic_pf_mbox_process_one` has read it to where it
    is done with the queues. -/
def onicPfMboxHandle (t : PfThread) (srcFuncId : BitVec 16) (req : Msg) : Program Card CardInput Unit := do
  let (mapped, vfs) ← .access fun _ s => some (((s.priv 0).qdev.isSome, (s.priv 0).vfs),
    { s with configuring := Function.update s.configuring t (configTarget (s.priv 0).vfs srcFuncId req) })
  let _ ← onCard via (handleRequest mapped vfs srcFuncId req)
  .modify fun s => { s with configuring := Function.update s.configuring t none }

end

end OpenNic
