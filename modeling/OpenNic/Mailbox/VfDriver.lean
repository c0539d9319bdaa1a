import OpenNic.Mailbox.Serial

namespace OpenNic

def onicMaxQueues : Nat := 64

/-- The queue resource a VF keeps of a GET_QUEUE_RES answer. -/
structure VfQueueRes where
  funcId : BitVec 16
  qbase : BitVec 16
  qmax : BitVec 16
  mac : BitVec 48
  deriving DecidableEq

/-- A finished mailbox command: its request, what it returned and the resource the VF
    held at that point. -/
structure Returned where
  req : Msg
  ret : Int
  res : VfQueueRes

/-- The mailbox part of `struct onic_vf_hardware` and the VF's output window. From
    `sent` on the fields are history; `irqInside` and `cmdInside` tell which thread is
    between seeing a message and being done with it. -/
structure VfMbox where
  mboxSeq : Word
  mboxResp : Msg
  mboxDone : Nat
  mboxLock : Option Nat
  outMsg : Msg
  res : VfQueueRes
  resourceValid : Bool
  sent : List Msg
  returned : List Returned
  irqInside : Bool
  cmdInside : Bool

/-- One VF and its PF. -/
structure Link where
  pf : PfSys
  vf : VfMbox

/-- The VF's threads: its mailbox interrupt and any number of callers of a command. -/
inductive LinkThread
  | pf (u : PfThread)
  | irq
  | cmd (k : Nat)
  deriving DecidableEq

namespace Link

def setPf (pf : PfSys) (l : Link) : Link := { l with pf := pf }

def setVf (l : Link) (f : VfMbox → VfMbox) : Link := { l with vf := f l.vf }

/-- `QDMA_VF_MBOX_STS`: `I_MSG` and `O_MSG` of this function. -/
def vfMboxSts (me : FuncId) (l : Link) : Word :=
  (BitVec.ofBool (l.pf.responses me).isSome).setWidth 32 |||
    ((BitVec.ofBool (l.pf.requests.any fun r => r.1 == me)).setWidth 32 <<< 1)

theorem vfMboxSts_iMsg (me : FuncId) (l : Link) :
    (l.vfMboxSts me).has 0 = (l.pf.responses me).isSome := by
  rw [Word.has_eq _ (by decide)]
  simp [vfMboxSts]

def markInside (t : LinkThread) (inside : Bool) (vf : VfMbox) : VfMbox :=
  match t with
  | .irq => { vf with irqInside := inside }
  | .cmd _ => { vf with cmdInside := inside }
  | .pf _ => vf

end Link

namespace VfMbox

variable (me : FuncId)

def readSts : Program Link Input Word := .read (Link.vfMboxSts me)

/-- The status read that makes a thread take a message. -/
def readStsEnter (t : LinkThread) : Program Link Input Word :=
  .access fun _ l =>
    let status := l.vfMboxSts me
    some (status, if status.has 0 then l.setVf (Link.markInside t true) else l)

def readInMsg (i : Nat) : Program Link Input Word :=
  .access fun input l => some (match l.pf.responses me with
    | some msg => msg (Fin.ofNat 32 i)
    | none => input.word, l)

def writeOutMsg (i : Nat) (val : Word) : Program Link Input Unit :=
  .modify fun l => l.setVf fun vf => { vf with outMsg := vf.outMsg.set (Fin.ofNat 32 i) val }

def writeCmdRcv : Program Link Input Unit :=
  .modify fun l => { l with pf := { l.pf with responses := Function.update l.pf.responses me none } }

/-- RCV of a message that was only read to be dropped. -/
def writeCmdRcvLeave (t : LinkThread) : Program Link Input Unit :=
  .modify fun l => Link.setVf { l with
    pf := { l.pf with responses := Function.update l.pf.responses me none } } (Link.markInside t false)

def writeCmdSend : Program Link Input Unit :=
  .modify fun l => {
    pf := { l.pf with
      requests := l.pf.requests ++ [(me, l.vf.outMsg)]
      arrived := l.pf.arrived ++ [(me, l.vf.outMsg)] }
    vf := { l.vf with sent := l.vf.sent ++ [l.vf.outMsg] } }

def enter (t : LinkThread) : Program Link Input Unit := .modify fun l => l.setVf (Link.markInside t true)

def leave (t : LinkThread) : Program Link Input Unit := .modify fun l => l.setVf (Link.markInside t false)

/-- `memset(resp, 0, sizeof(*resp))` -/
def clearResp : Program Link Input Unit :=
  .modify fun l => l.setVf fun vf => { vf with mboxResp := Msg.zero }

def writeResp (i : Nat) (val : Word) : Program Link Input Unit :=
  .modify fun l => l.setVf fun vf => { vf with mboxResp := vf.mboxResp.set (Fin.ofNat 32 i) val }

def readResp (i : Fin 32) : Program Link Input Word := .read fun l => l.vf.mboxResp i

/-- `complete(&priv->vf_hw.mbox_done)`, the last thing done with a message. -/
def completeLeave (t : LinkThread) : Program Link Input Unit :=
  .modify fun l => (l.setVf fun vf => { vf with mboxDone := vf.mboxDone + 1 }).setVf (Link.markInside t false)

def reinitCompletion : Program Link Input Unit := .modify fun l => l.setVf fun vf => { vf with mboxDone := 0 }

/-- Comes back with `false` when the time is over before anything completes. -/
def waitForCompletion : Program Link Input Bool :=
  .access fun input l =>
    if l.vf.mboxDone ≠ 0 then some (true, l.setVf fun vf => { vf with mboxDone := vf.mboxDone - 1 })
    else if input.flag then some (false, l)
    else none

def lock (k : Nat) : Program Link Input Unit :=
  .access fun _ l =>
    if l.vf.mboxLock = none then some ((), l.setVf fun vf => { vf with mboxLock := some k }) else none

/-- `++vf_hw->mbox_seq` -/
def nextSeq : Program Link Input Word :=
  .access fun _ l => some (l.vf.mboxSeq + 1, l.setVf fun vf => { vf with mboxSeq := vf.mboxSeq + 1 })

def setRes (f : VfQueueRes → VfQueueRes) : Program Link Input Unit :=
  .modify fun l => l.setVf fun vf => { vf with res := f vf.res }

def setResourceValid : Program Link Input Unit :=
  .modify fun l => l.setVf fun vf => { vf with resourceValid := true }

/-- `mutex_unlock(&vf_hw->mbox_lock); return err;` -/
def finish (req : Msg) (err : Int) : Program Link Input Int :=
  .access fun _ l => some (err, l.setVf fun vf =>
    { vf with mboxLock := none, returned := vf.returned ++ [⟨req, err, vf.res⟩] })

end VfMbox

open VfMbox

section

variable (me : FuncId)

def onicVfMboxReadResp : Program Link Input Unit := do
  clearResp
  .fold (fun i _ => do
    let word ← VfMbox.readInMsg me i
    writeResp i word) 0 32 ()

def onicVfMboxReadStale : Program Link Input Msg :=
  .fold (fun i msg => do
    let word ← VfMbox.readInMsg me i
    .done (msg.set (Fin.ofNat 32 i) word)) 0 32 Msg.zero

def onicVfMboxWriteMsg (msg : Msg) : Program Link Input Unit :=
  .fold (fun i _ => VfMbox.writeOutMsg i (msg (Fin.ofNat 32 i))) 0 32 ()

def onicVfMboxProcessOne (t : LinkThread) : Program Link Input Int := do
  let status ← readStsEnter me t
  if !status.has 0 then .done 0
  else
    onicVfMboxReadResp me
    VfMbox.writeCmdRcv me
    completeLeave t
    .done 1

/-- Re-enabling the interrupt source at the end changes none of this state. -/
def onicVfMboxIrqThread : Program Link Input Unit := do
  let _ ← onicVfMboxProcessOne me .irq

/-- The iterations left of the 16. -/
def onicVfMboxDropStaleResponses (t : LinkThread) : Nat → Int → Program Link Input Int
  | 0, _ => .done (- EIO)
  | left + 1, dropped => do
    let status ← readStsEnter me t
    if !status.has 0 then .done dropped
    else
      let _ ← onicVfMboxReadStale me
      writeCmdRcvLeave me t
      onicVfMboxDropStaleResponses t left (dropped + 1)

/-- `false` at the first of the words that differs. -/
def checkResp : List (Fin 32 × Word) → Program Link Input Bool
  | [] => .done true
  | (i, expected) :: rest => do
    let word ← readResp i
    if word ≠ expected then .done false else checkResp rest

def validateQueueCmd (k : Nat) (req : Msg) (respOpcode qid dir : Word) : Program Link Input Int := do
  enter (.cmd k)
  if ← checkResp [(0, respOpcode), (2, req.seq), (3, sizeofQcmdResp), (4, qid), (5, dir)] then
    let status ← readResp 1
    leave (.cmd k)
    if status ≠ stsOk then finish req (- EIO) else finish req 0
  else
    leave (.cmd k)
    finish req (-EPROTO)

def onicVfMboxSendQueueCmd (k : Nat) (request : Msg) (respOpcode qid dir : Word) :
    Program Link Input Int := do
  lock k
  let err ← onicVfMboxDropStaleResponses me (.cmd k) 16 0
  if err < 0 then finish request err
  else
    let status ← VfMbox.readSts me
    if status.has 1 then finish request (-EBUSY)
    else
      let seq ← nextSeq
      let req := request.set 2 seq
      enter (.cmd k)
      reinitCompletion
      clearResp
      leave (.cmd k)
      onicVfMboxWriteMsg req
      VfMbox.writeCmdSend me
      if ← waitForCompletion then validateQueueCmd k req respOpcode qid dir
      else
        let status ← VfMbox.readSts me
        if status.has 0 then
          let err ← onicVfMboxProcessOne me (.cmd k)
          if err > 0 then validateQueueCmd k req respOpcode qid dir
          else if err < 0 then finish req err
          else finish req (-ETIMEDOUT)
        else finish req (-ETIMEDOUT)

def Msg.setQcfg (msg : Msg) (cfg : QueueCfg) : Msg :=
  (((((((((((msg.set 4 cfg.qid).set 5 cfg.dir).set 6 cfg.vector).set 7 cfg.rngcntIdx).set 8
    cfg.bufszIdx).set 9 cfg.cmplRngcntIdx).set 10 cfg.cmplDescSz).set 11 cfg.reserved).set 12
    cfg.descDmaLo).set 13 cfg.descDmaHi).set 14 cfg.cmplDmaLo).set 15 cfg.cmplDmaHi

def configRequest (cfg : QueueCfg) : Msg :=
  ((Msg.zero.set 0 opConfigQueue).set 3 sizeofQcfg).setQcfg cfg

def clearRequest (qid : BitVec 16) (dir : Word) : Msg :=
  (((Msg.zero.set 0 opClearQueue).set 3 sizeofQclear).set 4 (qid.setWidth 32)).set 5 dir

def onicVfMboxConfigQueue (k : Nat) (cfg : QueueCfg) : Program Link Input Int :=
  onicVfMboxSendQueueCmd me k (configRequest cfg) opConfigQueueResp cfg.qid cfg.dir

def onicVfMboxClearQueue (k : Nat) (qid : BitVec 16) (dir : Word) : Program Link Input Int :=
  onicVfMboxSendQueueCmd me k (clearRequest qid dir) opClearQueueResp (qid.setWidth 32) dir

/-- The fields are stored one by one, each read again from `mbox_resp`. -/
def storeQueueRes : Program Link Input Unit := do
  let funcId ← readResp 4
  setRes fun res => { res with funcId := funcId.setWidth 16 }
  let qbase ← readResp 5
  setRes fun res => { res with qbase := qbase.setWidth 16 }
  let qmax ← readResp 6
  setRes fun res => { res with qmax := qmax.setWidth 16 }
  let macLo ← readResp 7
  let macHi ← readResp 8
  setRes fun res => { res with mac := (macHi.setWidth 48 <<< 32) ||| macLo.setWidth 48 }
  setResourceValid

def validateQueueRes (k : Nat) (req : Msg) : Program Link Input Int := do
  enter (.cmd k)
  if ← checkResp [(0, opQueueResResp), (2, req.seq), (1, stsOk), (3, sizeofQres)] then
    let qmax ← readResp 6
    if qmax = 0 then
      leave (.cmd k)
      finish req (-ERANGE)
    else
      let qmax ← readResp 6
      if qmax.toNat > onicMaxQueues then
        leave (.cmd k)
        finish req (-ERANGE)
      else
        storeQueueRes
        leave (.cmd k)
        finish req 0
  else
    leave (.cmd k)
    finish req (-EPROTO)

def onicVfMboxGetQueueResource (k : Nat) : Program Link Input Int := do
  lock k
  let err ← onicVfMboxDropStaleResponses me (.cmd k) 16 0
  if err < 0 then finish Msg.zero err
  else
    let status ← VfMbox.readSts me
    if status.has 1 then finish Msg.zero (-EBUSY)
    else
      enter (.cmd k)
      reinitCompletion
      clearResp
      leave (.cmd k)
      let seq ← nextSeq
      let req := (Msg.zero.set 0 opGetQueueRes).set 2 seq
      onicVfMboxWriteMsg req
      VfMbox.writeCmdSend me
      if ← waitForCompletion then validateQueueRes k req
      else
        let status ← VfMbox.readSts me
        if status.has 0 then
          let err ← onicVfMboxProcessOne me (.cmd k)
          if err > 0 then validateQueueRes k req else finish req (-ETIMEDOUT)
        else finish req (-ETIMEDOUT)

end

end OpenNic
