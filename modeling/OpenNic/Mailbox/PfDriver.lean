import OpenNic.Qdma.Queue
import OpenNic.Mailbox.Message

namespace OpenNic

def qdmaNumDescRngcnt : Nat := 16

def qdmaNumC2hBufsz : Nat := 16

def onicPfMboxMakeQueueResResp (vfs : VfTable) (srcFuncId : BitVec 16) (seq : Word) : Int × Msg :=
  let resp := ((Msg.zero.set 0 opQueueResResp).set 1 stsErr).set 2 seq
  match onicPfMboxFindVfResource vfs srcFuncId with
  | none => (-ENOENT, resp)
  | some res =>
    (0, ((resp.set 1 stsOk).set 3 sizeofQres).setQres
      ⟨res.funcId.setWidth 32, res.qbase.setWidth 32, res.qmax.setWidth 32, res.mac⟩)

def onicPfMboxInitQueueCmdResp (opcode seq qid dir : Word) : Msg :=
  (((((Msg.zero.set 0 opcode).set 1 stsErr).set 2 seq).set 3 sizeofQcmdResp).set 4 qid).set 5 dir

def onicPfMboxDmaAddr (lo hi : Word) : BitVec 64 := (hi.setWidth 64 <<< 32) ||| lo.setWidth 64

/-- `IS_ALIGNED(addr, 64)` -/
def isAligned64 (addr : BitVec 64) : Bool := addr &&& 63 = 0

/-- `mapped` says that the PF has its `qdev` with the registers mapped. -/
def onicPfMboxGetVfQdev (mapped : Bool) (vfs : VfTable) (srcFuncId : BitVec 16) (qid : Word) :
    Except Int QdmaDev :=
  if !mapped then .error (-ENODEV)
  else match onicPfMboxFindVfResource vfs srcFuncId with
    | none => .error (-ENOENT)
    | some res =>
      if qid.toNat ≥ res.qmax.toNat then .error (-ERANGE)
      else .ok ⟨res.funcId, res.qbase, res.qmax⟩

/-- `if (!err) resp->hdr.status = ONIC_MBOX_STS_OK;` -/
def okUnless (resp : Msg) (err : Int) : Int × Msg :=
  (err, if err = 0 then resp.set 1 stsOk else resp)

def h2cParam (cfg : QueueCfg) (descDma : BitVec 64) : H2cParam where
  rngcntIdx := cfg.rngcntIdx.setWidth 8
  dmaAddr := descDma
  vid := cfg.vector.setWidth 16

def c2hParam (cfg : QueueCfg) (descDma cmplDma : BitVec 64) : C2hParam where
  bufszIdx := cfg.bufszIdx.setWidth 8
  descRngcntIdx := cfg.rngcntIdx.setWidth 8
  cmplRngcntIdx := cfg.cmplRngcntIdx.setWidth 8
  cmplDescSz := cfg.cmplDescSz.setWidth 8
  descDmaAddr := descDma
  cmplDmaAddr := cmplDma
  vid := cfg.vector.setWidth 16

def onicPfMboxConfigQueue (mapped : Bool) (vfs : VfTable) (srcFuncId : BitVec 16) (req : Msg) :
    Program CtxtEngine Input (Int × Msg) :=
  let cfg := req.qcfg
  let resp := onicPfMboxInitQueueCmdResp opConfigQueueResp req.seq cfg.qid cfg.dir
  if req.len ≠ sizeofQcfg ∨ cfg.reserved ≠ 0 then .done (-EINVAL, resp)
  else match onicPfMboxGetVfQdev mapped vfs srcFuncId cfg.qid with
    | .error err => .done (err, resp)
    | .ok vfQdev =>
      if cfg.vector.toNat ≥ vfQdev.numQueues.toNat ∨ cfg.rngcntIdx.toNat ≥ qdmaNumDescRngcnt then
        .done (-ERANGE, resp)
      else
        let descDma := onicPfMboxDmaAddr cfg.descDmaLo cfg.descDmaHi
        if descDma = 0 ∨ !isAligned64 descDma then .done (-EINVAL, resp)
        else if cfg.dir = queueDirTx then
          okUnless resp <$> onicQdmaInitTxQueue vfQdev (cfg.qid.setWidth 16) (h2cParam cfg descDma)
        else if cfg.dir = queueDirRx then
          if cfg.bufszIdx.toNat ≥ qdmaNumC2hBufsz ∨ cfg.cmplRngcntIdx.toNat ≥ qdmaNumDescRngcnt ∨
              cfg.cmplDescSz.toNat > 3 then
            .done (-ERANGE, resp)
          else
            let cmplDma := onicPfMboxDmaAddr cfg.cmplDmaLo cfg.cmplDmaHi
            if cmplDma = 0 ∨ !isAligned64 cmplDma then .done (-EINVAL, resp)
            else
              okUnless resp <$> onicQdmaInitRxQueue vfQdev (cfg.qid.setWidth 16)
                (c2hParam cfg descDma cmplDma)
        else .done (-EINVAL, resp)

def onicPfMboxClearQueue (mapped : Bool) (vfs : VfTable) (srcFuncId : BitVec 16) (req : Msg) :
    Program CtxtEngine Input (Int × Msg) :=
  let resp := onicPfMboxInitQueueCmdResp opClearQueueResp req.seq req.qid req.dir
  if req.len ≠ sizeofQclear then .done (-EINVAL, resp)
  else match onicPfMboxGetVfQdev mapped vfs srcFuncId req.qid with
    | .error err => .done (err, resp)
    | .ok vfQdev =>
      if req.dir = queueDirTx then do
        onicQdmaClearTxQueue vfQdev (req.qid.setWidth 16)
        .done (0, resp.set 1 stsOk)
      else if req.dir = queueDirRx then do
        onicQdmaClearRxQueue vfQdev (req.qid.setWidth 16)
        .done (0, resp.set 1 stsOk)
      else .done (-EINVAL, resp)

/-- The `switch` of `onic_pf_mbox_process_one` -/
def handleRequest (mapped : Bool) (vfs : VfTable) (srcFuncId : BitVec 16) (req : Msg) :
    Program CtxtEngine Input (Int × Msg) :=
  let resp := ((Msg.zero.set 0 opQueueResResp).set 1 stsErr).set 2 req.seq
  if req.opcode = opGetQueueRes then
    if req.len ≠ 0 then .done (-EINVAL, resp)
    else .done (onicPfMboxMakeQueueResResp vfs srcFuncId req.seq)
  else if req.opcode = opConfigQueue then onicPfMboxConfigQueue mapped vfs srcFuncId req
  else if req.opcode = opClearQueue then onicPfMboxClearQueue mapped vfs srcFuncId req
  else .done (-EOPNOTSUPP, resp)

/-- The function number on the mailbox bus. -/
abbrev FuncId := BitVec 8

/-- The two interrupt threads that come to `onic_pf_mbox_process_pending`. -/
inductive PfThread
  | user
  | error
  deriving DecidableEq

/-- A request the PF has acted on, with the table it looked the function up in. -/
structure Executed where
  src : FuncId
  req : Msg
  vfs : VfTable

structure Delivered where
  dst : FuncId
  resp : Msg

/-- The PF with its side of the mailbox. From `arrived` on the fields are history. -/
structure PfSys where
  qdevMapped : Bool
  vfs : VfTable
  engine : CtxtEngine
  /-- The requests in the PF's inbox, the oldest first. -/
  requests : List (FuncId × Msg)
  /-- The response in each function's inbox. -/
  responses : FuncId → Option Msg
  targetFn : FuncId
  outMsg : FuncId → Msg
  acks : Nat → Word
  arrived : List (FuncId × Msg)
  executed : List Executed
  delivered : List Delivered
  /-- The threads inside `onic_pf_mbox_process_one`. -/
  inside : List PfThread

def qdmaPfMboxAckRegs : Nat := 8

/-- `BIT(0)` -/
def qdmaMboxIntrCtrlEn : Word := 1

theorem intrCtrlEn_ne_zero : qdmaMboxIntrCtrlEn ≠ 0 := by decide

namespace PfSys

def curSrc (s : PfSys) : FuncId := (s.requests.head?.map Prod.fst).getD 0

/-- The request that the `IN_MSG` window shows. -/
def inMsg (s : PfSys) : Option Msg := (s.requests.find? fun r => r.1 == s.targetFn).map Prod.snd

/-- `QDMA_PF_MBOX_STS`: `I_MSG`, `O_MSG`, `ACK` and, from bit 4, the current source. -/
def mboxSts (s : PfSys) : Word :=
  (BitVec.ofBool (!s.requests.isEmpty)).setWidth 32 |||
    ((BitVec.ofBool (s.responses s.targetFn).isSome).setWidth 32 <<< 1) |||
    ((BitVec.ofBool ((List.range qdmaPfMboxAckRegs).any fun i => s.acks i != 0)).setWidth 32 <<< 2) |||
    (s.curSrc.setWidth 32 <<< 4)

/-- `QDMA_MBOX_CMD_RCV` -/
def receive (s : PfSys) : PfSys :=
  { s with requests := s.requests.eraseP fun r => r.1 == s.targetFn }

/-- `QDMA_MBOX_CMD_SEND`; a message to an inbox that is still full is lost. -/
def send (s : PfSys) : PfSys :=
  if s.responses s.targetFn = none then
    { s with
      responses := Function.update s.responses s.targetFn (some (s.outMsg s.targetFn))
      delivered := s.delivered ++ [⟨s.targetFn, s.outMsg s.targetFn⟩] }
  else s

end PfSys

/-- `BITFIELD_GET(QDMA_MBOX_STS_CUR_SRC_FN_MASK, status)` -/
def curSrcFn (status : Word) : FuncId := (bitfieldGet (genmask 11 4) (status.setWidth 64)).setWidth 8

namespace PfSys

variable (s : PfSys)

theorem mboxSts_iMsg : s.mboxSts.has 0 = !s.requests.isEmpty := by
  rw [Word.has_eq _ (by decide)]
  simp [mboxSts]

theorem mboxSts_oMsg : s.mboxSts.has 1 = (s.responses s.targetFn).isSome := by
  rw [Word.has_eq _ (by decide)]
  simp [mboxSts]

theorem curSrcFn_mboxSts : curSrcFn s.mboxSts = s.curSrc := by
  apply BitVec.eq_of_getLsbD_eq
  intro i small
  have wide : 4 + i < 32 := by omega
  simp only [curSrcFn, BitVec.getLsbD_setWidth,
    getLsbD_bitfieldGet (show 11 < 64 by decide) (show 4 ≤ 11 by decide)]
  simp [mboxSts, small, wide, show 4 + i < 64 by omega, show 4 + i ≤ 11 by omega,
    show 4 + i - 1 = 3 + i by omega, show 4 + i - 2 = 2 + i by omega]

end PfSys

namespace PfMbox

def readSts : Program PfSys Input Word := .read PfSys.mboxSts

def writeTargetFn (f : FuncId) : Program PfSys Input Unit := .modify fun s => { s with targetFn := f }

/-- With nothing pending from the target the window holds anything. -/
def readInMsg (i : Nat) : Program PfSys Input Word :=
  .access fun input s => some (match s.inMsg with
    | some msg => msg (Fin.ofNat 32 i)
    | none => input.word, s)

def writeOutMsg (i : Nat) (val : Word) : Program PfSys Input Unit :=
  .modify fun s =>
    { s with
      outMsg := Function.update s.outMsg s.targetFn ((s.outMsg s.targetFn).set (Fin.ofNat 32 i) val) }

def writeCmdRcv : Program PfSys Input Unit := .modify PfSys.receive

def writeCmdSend : Program PfSys Input Unit := .modify PfSys.send

def readAck (i : Nat) : Program PfSys Input Word := .read fun s => s.acks i

/-- Writing ones clears them. -/
def writeAck (i : Nat) (val : Word) : Program PfSys Input Unit :=
  .modify fun s => { s with acks := Function.update s.acks i (s.acks i &&& ~~~ val) }

/-- The table as the `switch` finds it; this is where a request counts as executed. -/
def execute (src : FuncId) (req : Msg) : Program PfSys Input VfTable :=
  .access fun _ s => some (s.vfs, { s with executed := s.executed ++ [⟨src, req, s.vfs⟩] })

def enter (u : PfThread) : Program PfSys Input Unit :=
  .modify fun s => { s with inside := u :: s.inside }

def leave (u : PfThread) : Program PfSys Input Unit :=
  .modify fun s => { s with inside := s.inside.erase u }

end PfMbox

open PfMbox

def onicPfMboxReadMsg : Program PfSys Input Msg :=
  .fold (fun i msg => do
    let word ← readInMsg i
    .done (msg.set (Fin.ofNat 32 i) word)) 0 32 Msg.zero

def onicPfMboxWriteMsg (msg : Msg) : Program PfSys Input Unit :=
  .fold (fun i _ => writeOutMsg i (msg (Fin.ofNat 32 i))) 0 32 ()

def onEngine {α : Type} (p : Program CtxtEngine Input α) : Program PfSys Input α :=
  p.lift PfSys.engine fun e s => { s with engine := e }

/-- The rest of `onic_pf_mbox_process_one` once the source is selected and its
    response register free. -/
def answerRequest (src : FuncId) : Program PfSys Input Int := do
  let req ← onicPfMboxReadMsg
  let vfs ← execute src req
  let (_, resp) ← onEngine (handleRequest true vfs (src.setWidth 16) req)
  writeCmdRcv
  onicPfMboxWriteMsg resp
  writeCmdSend
  .done 1

def onicPfMboxProcessOne : Program PfSys Input Int := do
  if ← .read PfSys.qdevMapped then
    let status ← readSts
    if !status.has 0 then .done 0
    else
      let src := curSrcFn status
      writeTargetFn src
      let status ← readSts
      if status.has 1 then .done (-EBUSY)
      else answerRequest src
  else .done (-ENODEV)

def hweight32 (word : Word) : Nat := (List.range 32).countP fun i => word.getLsbD i

def onicPfMboxProcessAcks : Program PfSys Input Int := do
  if ← .read PfSys.qdevMapped then
    let status ← readSts
    if !status.has 2 then .done 0
    else .fold (fun i processed => do
      let ack ← readAck i
      if ack = 0 then .done processed
      else
        writeAck i ack
        .done (processed + hweight32 ack)) 0 qdmaPfMboxAckRegs 0
  else .done (-ENODEV)

/-- The rounds that the `for (;;)` may take; one more is never begun. -/
def onicPfMboxProcessPending (u : PfThread) : Nat → Int → Program PfSys Input Int
  | 0, _ => .step (β := Empty) (fun _ _ => none) Empty.elim
  | rounds + 1, processed => do
    let err ← onicPfMboxProcessAcks
    if err < 0 then .done err
    else
      let processed := processed + err
      enter u
      let err ← onicPfMboxProcessOne
      leave u
      if err < 0 then .done err
      else if err = 0 then .done processed
      else onicPfMboxProcessPending u rounds (processed + 1)

/-- The entry of the first VF behind a PF with 64 queues. -/
def firstVf : OnicVfResource where
  vfId := 0
  funcId := 4
  qbase := 64
  qmax := 4
  numTxQueues := 4
  numRxQueues := 4
  mac := 0x020000000001
  enabled := true

def oneVf : VfTable where
  vfRes _ := firstVf
  numVfs := 1
  bound := by decide

def PfSys.withRequests (vfs : VfTable) (requests : List (FuncId × Msg)) : PfSys where
  qdevMapped := true
  vfs := vfs
  engine := ⟨fun _ => 0, fun _ => 0, fun _ _ _ => 0, false, []⟩
  requests := requests
  responses _ := none
  targetFn := 0
  outMsg _ := Msg.zero
  acks _ := 0
  arrived := requests
  executed := []
  delivered := []
  inside := []

end OpenNic
