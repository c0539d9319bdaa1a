import OpenNic.Qdma.Decode
import OpenNic.Vf.Queue

namespace OpenNic

/-- A command that writes a context of this queue. -/
def IssuedCmd.WritesCtxt (c : IssuedCmd) (sel : CtxtCmdSel) (realQid : BitVec 16) : Prop :=
  c.cmd = ⟨sel.code, CtxtCmdOp.wr.code, realQid.setWidth 11⟩

/-- The SW context that the PF writes says of the TX queue what the VF knows of it. -/
structure TxCtxtAgrees (q : VfTxQueue) (data : Nat → Word) : Prop where
  descBase : hwSwDescBase data = q.ring.dmaAddr
  vector : q.vector = some (hwSwVec data).toNat
  count : rngcntPool[hwSwRngszIdx data]? = some q.ring.count

structure RxSwCtxtAgrees (q : VfRxQueue) (data : Nat → Word) : Prop where
  descBase : hwSwDescBase data = q.descRing.dmaAddr
  count : rngcntPool[hwSwRngszIdx data]? = some q.descRing.count

structure RxCmplCtxtAgrees (q : VfRxQueue) (data : Nat → Word) : Prop where
  baddr : hwCmplBaddr data = q.cmplRing.dmaAddr
  vector : q.vector = some (hwCmplVec data).toNat
  count : rngcntPool[hwCmplRngszIdx data]? = some q.cmplRing.count

/-- A buffer of the size that the PF selects fits behind the headroom of a page. -/
def RxPfchCtxtAgrees (data : Nat → Word) : Prop :=
  ∃ size, c2hBufszPool[hwPfchBufszIdx data]? = some size ∧ size ≤ pageSize - xdpPacketHeadroom

/-- The PF accepts the request for a TX queue and writes its SW context, no other one. -/
structure TxConfigAgrees (q : VfTxQueue) (res : OnicVfResource) (vfs : VfTable) (srcFuncId : BitVec 16) (req : Msg) :
    Prop where
  accepted : ∃ resp param, onicPfMboxConfigQueue true vfs srcFuncId req =
    okUnless resp <$> onicQdmaInitTxQueue ⟨res.funcId, res.qbase, res.qmax⟩ (BitVec.ofNat 16 q.qid) param
  written : ∀ e err resp e', Program.Exec (onicPfMboxConfigQueue true vfs srcFuncId req) e (err, resp) e' →
    ∃ cmds, CtxtEngine.Issued cmds e e' ∧
      (∀ c ∈ cmds, c.cmd.op = CtxtCmdOp.wr.code →
        c.WritesCtxt .swH2c (BitVec.ofNat 16 q.qid + res.qbase) ∧ TxCtxtAgrees q c.data) ∧
      (err = -EBUSY ∨ err = 0 ∧ ∃ c ∈ cmds, c.cmd.op = CtxtCmdOp.wr.code)

/-- The same for a RX queue with its SW, prefetch and completion contexts. -/
structure RxConfigAgrees (q : VfRxQueue) (res : OnicVfResource) (vfs : VfTable) (srcFuncId : BitVec 16) (req : Msg) :
    Prop where
  accepted : ∃ resp param, onicPfMboxConfigQueue true vfs srcFuncId req =
    okUnless resp <$> onicQdmaInitRxQueue ⟨res.funcId, res.qbase, res.qmax⟩ (BitVec.ofNat 16 q.qid) param
  written : ∀ e err resp e', Program.Exec (onicPfMboxConfigQueue true vfs srcFuncId req) e (err, resp) e' →
    ∃ cmds, CtxtEngine.Issued cmds e e' ∧
      (∀ c ∈ cmds, c.cmd.op = CtxtCmdOp.wr.code →
        c.WritesCtxt .swC2h (BitVec.ofNat 16 q.qid + res.qbase) ∧ RxSwCtxtAgrees q c.data ∨
        c.WritesCtxt .pfch (BitVec.ofNat 16 q.qid + res.qbase) ∧ RxPfchCtxtAgrees c.data ∨
        c.WritesCtxt .cmpl (BitVec.ofNat 16 q.qid + res.qbase) ∧ RxCmplCtxtAgrees q c.data) ∧
      (err = -EBUSY ∨ err = 0 ∧ ∀ sel ∈ [CtxtCmdSel.swC2h, .pfch, .cmpl],
        ∃ c ∈ cmds, c.WritesCtxt sel (BitVec.ofNat 16 q.qid + res.qbase))

theorem Msg.qcfg_setQcfg (msg : Msg) (cfg : QueueCfg) : (msg.setQcfg cfg).qcfg = cfg := by
  obtain ⟨qid, dir, vector, rngcntIdx, bufszIdx, cmplRngcntIdx, cmplDescSz, reserved, descLo, descHi, cmplLo, cmplHi⟩ := cfg
  simp [Msg.qcfg, Msg.setQcfg, Msg.set, Function.update]

/-- The number that a command gives its request is no part of the configuration. -/
theorem configRequest_qcfg (cfg : QueueCfg) (seq : Word) : ((configRequest cfg).set 2 seq).qcfg = cfg := by
  have same : ((configRequest cfg).set 2 seq).qcfg = (configRequest cfg).qcfg := by
    simp [Msg.qcfg, Msg.set, Function.update]
  rw [same, configRequest, Msg.qcfg_setQcfg]

theorem configRequest_len (cfg : QueueCfg) (seq : Word) : ((configRequest cfg).set 2 seq).len = sizeofQcfg := by
  simp [configRequest, Msg.setQcfg, Msg.len, Msg.set, Function.update]

theorem onicPfMboxDmaAddr_split (addr : BitVec 64) : onicPfMboxDmaAddr (lower32Bits addr) (upper32Bits addr) = addr := by
  apply BitVec.eq_of_getLsbD_eq
  intro i small
  by_cases low : i < 32
  · simp [onicPfMboxDmaAddr, lower32Bits, upper32Bits, low, small]
  · simp [onicPfMboxDmaAddr, lower32Bits, upper32Bits, low, small, show i - 32 < 32 by omega,
      show 32 + (i - 32) = i by omega, show i - 32 < 64 by omega]

/-- An address of a page. -/
def PageAligned (addr : BitVec 64) : Prop := addr.toNat % pageSize = 0

theorem PageAligned.low {addr : BitVec 64} (aligned : PageAligned addr) {i : Nat} (less : i < 12) :
    addr.getLsbD i = false :=
  low_of_aligned aligned less

theorem PageAligned.isAligned64 {addr : BitVec 64} (aligned : PageAligned addr) : isAligned64 addr = true := by
  rw [OpenNic.isAligned64, decide_eq_true_eq]
  apply BitVec.eq_of_getLsbD_eq
  intro i small
  rw [BitVec.getLsbD_and]
  by_cases low : i < 12
  · simp [aligned.low low]
  · have high : 2 ^ 12 ≤ 2 ^ i := Nat.pow_le_pow_right (by decide) (by omega)
    have clear : (63#64).getLsbD i = false := by
      rw [BitVec.getLsbD_ofNat, Nat.testBit_lt_two_pow (lt_of_lt_of_le (by decide) high), Bool.and_false]
    rw [show (63 : BitVec 64) = 63#64 from rfl, clear, Bool.and_false]
    simp

section

variable {vfs : VfTable} {srcFuncId : BitVec 16} {res : OnicVfResource} {cfg : QueueCfg}

/-- What the PF checks of a request before it looks at the direction. -/
structure CfgValid (res : OnicVfResource) (cfg : QueueCfg) : Prop where
  reserved : cfg.reserved = 0
  qid : cfg.qid.toNat < res.qmax.toNat
  vector : cfg.vector.toNat < res.qmax.toNat
  rngcntIdx : cfg.rngcntIdx.toNat < qdmaNumDescRngcnt
  descDma : onicPfMboxDmaAddr cfg.descDmaLo cfg.descDmaHi ≠ 0
  descAligned : isAligned64 (onicPfMboxDmaAddr cfg.descDmaLo cfg.descDmaHi) = true

theorem dmaAddr_accepted {addr : BitVec 64} (nonzero : addr ≠ 0) (aligned : isAligned64 addr = true) :
    ¬ (addr = 0 ∨ (!isAligned64 addr) = true) := by
  rw [aligned]
  rintro (zero | odd)
  · exact nonzero zero
  · cases odd

theorem CfgValid.well_formed (valid : CfgValid res cfg) (seq : Word) :
    ¬ (((configRequest cfg).set 2 seq).len ≠ sizeofQcfg ∨ cfg.reserved ≠ 0) := by
  rw [configRequest_len, valid.reserved]
  decide

theorem CfgValid.inside (valid : CfgValid res cfg) :
    ¬ (cfg.vector.toNat ≥ res.qmax.toNat ∨ cfg.rngcntIdx.toNat ≥ qdmaNumDescRngcnt) := by
  have vector := valid.vector
  have rngcntIdx := valid.rngcntIdx
  omega

theorem onicPfMboxGetVfQdev_granted (found : onicPfMboxFindVfResource vfs srcFuncId = some res)
    (valid : CfgValid res cfg) :
    onicPfMboxGetVfQdev true vfs srcFuncId cfg.qid = .ok ⟨res.funcId, res.qbase, res.qmax⟩ := by
  have inside : ¬ cfg.qid.toNat ≥ res.qmax.toNat := Nat.not_le_of_lt valid.qid
  rw [onicPfMboxGetVfQdev, found]
  simp only [Bool.not_true, Bool.false_eq_true, if_false, if_neg inside]

theorem onicPfMboxConfigQueue_tx (seq : Word) (found : onicPfMboxFindVfResource vfs srcFuncId = some res)
    (valid : CfgValid res cfg) (tx : cfg.dir = queueDirTx) :
    onicPfMboxConfigQueue true vfs srcFuncId ((configRequest cfg).set 2 seq) =
      okUnless (onicPfMboxInitQueueCmdResp opConfigQueueResp ((configRequest cfg).set 2 seq).seq cfg.qid cfg.dir) <$>
        onicQdmaInitTxQueue ⟨res.funcId, res.qbase, res.qmax⟩ (cfg.qid.setWidth 16)
          (h2cParam cfg (onicPfMboxDmaAddr cfg.descDmaLo cfg.descDmaHi)) := by
  simp only [onicPfMboxConfigQueue, configRequest_qcfg, if_neg (valid.well_formed seq),
    onicPfMboxGetVfQdev_granted found valid, if_neg valid.inside, if_neg (dmaAddr_accepted valid.descDma valid.descAligned),
    if_pos tx]

theorem onicPfMboxConfigQueue_rx (seq : Word) (found : onicPfMboxFindVfResource vfs srcFuncId = some res)
    (valid : CfgValid res cfg) (rx : cfg.dir = queueDirRx) (bufszIdx : cfg.bufszIdx.toNat < qdmaNumC2hBufsz)
    (cmplRngcntIdx : cfg.cmplRngcntIdx.toNat < qdmaNumDescRngcnt) (cmplDescSz : cfg.cmplDescSz.toNat ≤ 3)
    (cmplDma : onicPfMboxDmaAddr cfg.cmplDmaLo cfg.cmplDmaHi ≠ 0)
    (cmplAligned : isAligned64 (onicPfMboxDmaAddr cfg.cmplDmaLo cfg.cmplDmaHi) = true) :
    onicPfMboxConfigQueue true vfs srcFuncId ((configRequest cfg).set 2 seq) =
      okUnless (onicPfMboxInitQueueCmdResp opConfigQueueResp ((configRequest cfg).set 2 seq).seq cfg.qid cfg.dir) <$>
        onicQdmaInitRxQueue ⟨res.funcId, res.qbase, res.qmax⟩ (cfg.qid.setWidth 16)
          (c2hParam cfg (onicPfMboxDmaAddr cfg.descDmaLo cfg.descDmaHi)
            (onicPfMboxDmaAddr cfg.cmplDmaLo cfg.cmplDmaHi)) := by
  have not_tx : cfg.dir ≠ queueDirTx := by
    rw [rx]
    decide
  have indices : ¬ (cfg.bufszIdx.toNat ≥ qdmaNumC2hBufsz ∨ cfg.cmplRngcntIdx.toNat ≥ qdmaNumDescRngcnt ∨
      cfg.cmplDescSz.toNat > 3) := by
    omega
  simp only [onicPfMboxConfigQueue, configRequest_qcfg, if_neg (valid.well_formed seq),
    onicPfMboxGetVfQdev_granted found valid, if_neg valid.inside, if_neg (dmaAddr_accepted valid.descDma valid.descAligned),
    if_neg not_tx, if_pos rx, if_neg indices, if_neg (dmaAddr_accepted cmplDma cmplAligned)]

end

section

variable {priv : VfQueues} {vfs : VfTable} {srcFuncId : BitVec 16} {res : OnicVfResource} {qid : Nat}

/-- What `onic_vf_probe` leaves behind when the PF granted the queues of `res`. -/
structure ProbedFor (res : OnicVfResource) (priv : VfQueues) : Prop where
  positive : 0 < priv.numQVectors
  granted : priv.numQVectors ≤ res.qmax.toNat
  small : res.qmax.toNat ≤ onicMaxQueues
  tx : priv.numTxQueues = priv.numQVectors
  rx : priv.numRxQueues = priv.numQVectors
  vectors : priv.qVector = onicVfQIrqInit priv.numQVectors

theorem onicVfProbeQueues_probed {vectors : Nat} (enough : 2 ≤ vectors) (few : vectors ≤ 65)
    (granted : 1 ≤ res.qmax.toNat) (small : res.qmax.toNat ≤ onicMaxQueues) :
    ∃ priv, onicVfProbeQueues vectors res.qmax = .ok priv ∧ ProbedFor res priv := by
  have some_left : ¬ min ((vectors - onicVfNonQVectors) % 65536) res.qmax.toNat = 0 := by
    rw [onicVfNonQVectors]
    omega
  refine ⟨_, by rw [onicVfProbeQueues, if_neg some_left], ⟨Nat.pos_of_ne_zero some_left, ?_, small, rfl, rfl, rfl⟩⟩
  exact Nat.min_le_right _ _

theorem ProbedFor.vector (probed : ProbedFor res priv) (inside : qid < priv.numQVectors) :
    priv.qVector (qid % priv.numQVectors) = some qid := by
  rw [probed.vectors, Nat.mod_eq_of_lt inside, onicVfQIrqInit, if_pos inside]

theorem ProbedFor.below (probed : ProbedFor res priv) (inside : qid < priv.numQVectors) :
    qid < onicMaxQueues ∧ qid < res.qmax.toNat :=
  ⟨inside.trans_le (probed.granted.trans probed.small), inside.trans_le probed.granted⟩

/-- A number below the limit comes through every width unchanged. -/
theorem toNat_ofNat_small {w : Nat} (wide : 6 ≤ w) (small : qid < onicMaxQueues) : (BitVec.ofNat w qid).toNat = qid := by
  have room : onicMaxQueues ≤ 2 ^ w := (show onicMaxQueues = 2 ^ 6 from rfl) ▸ Nat.pow_le_pow_right (by decide) wide
  rw [BitVec.toNat_ofNat, Nat.mod_eq_of_lt (small.trans_le room)]

theorem setWidth_ofNat_small {w w' : Nat} (wide : 6 ≤ w) (wide' : 6 ≤ w') (small : qid < onicMaxQueues) :
    (BitVec.ofNat w qid).setWidth w' = BitVec.ofNat w' qid := by
  apply BitVec.eq_of_toNat_eq
  have room : onicMaxQueues ≤ 2 ^ w' := (show onicMaxQueues = 2 ^ 6 from rfl) ▸ Nat.pow_le_pow_right (by decide) wide'
  rw [BitVec.toNat_setWidth, toNat_ofNat_small wide small, toNat_ofNat_small wide' small,
    Nat.mod_eq_of_lt (small.trans_le room)]

theorem VfTxQueue.cfg_valid (probed : ProbedFor res priv) (inside : qid < priv.numQVectors) {q : VfTxQueue}
    (nonzero : q.ring.dmaAddr ≠ 0) (aligned : PageAligned q.ring.dmaAddr) : CfgValid res (q.cfg qid qid) := by
  obtain ⟨small, below⟩ := probed.below inside
  have number : (BitVec.ofNat 32 qid).toNat = qid := toNat_ofNat_small (by decide) small
  have rngcntIdx : (q.cfg qid qid).rngcntIdx.toNat < qdmaNumDescRngcnt := show onicVfTxRngcntIdx.toNat < 16 by decide
  have address := onicPfMboxDmaAddr_split q.ring.dmaAddr
  exact ⟨rfl, number.trans_lt below, number.trans_lt below, rngcntIdx, address ▸ nonzero, address ▸ aligned.isAligned64⟩

theorem VfRxQueue.cfg_valid (probed : ProbedFor res priv) (inside : qid < priv.numQVectors) {q : VfRxQueue}
    (nonzero : q.descRing.dmaAddr ≠ 0) (aligned : PageAligned q.descRing.dmaAddr) : CfgValid res (q.cfg qid qid) := by
  obtain ⟨small, below⟩ := probed.below inside
  have number : (BitVec.ofNat 32 qid).toNat = qid := toNat_ofNat_small (by decide) small
  have rngcntIdx : (q.cfg qid qid).rngcntIdx.toNat < qdmaNumDescRngcnt :=
    show onicVfRxDescRngcntIdx.toNat < 16 by decide
  have address := onicPfMboxDmaAddr_split q.descRing.dmaAddr
  exact ⟨rfl, number.trans_lt below, number.trans_lt below, rngcntIdx, address ▸ nonzero, address ▸ aligned.isAligned64⟩

/-- The handler returns what the initialisation of the queue returns. -/
theorem okUnless_exec {p : Program CtxtEngine Input Int} {resp resp' : Msg} {e e' : CtxtEngine} {err : Int}
    (ran : Program.Exec (okUnless resp <$> p) e (err, resp') e') : Program.Exec p e err e' := by
  obtain ⟨rv, init, is⟩ := Program.exec_map.mp ran
  have same : err = rv := congrArg Prod.fst is
  exact same ▸ init

/-- A vector on its way from the request to the 11 bits of a context. -/
theorem vector_through (small : qid < onicMaxQueues) :
    ((((BitVec.ofNat 32 qid).setWidth 16).setWidth 11).setWidth 64).toNat = qid := by
  rw [setWidth_ofNat_small (by decide) (by decide) small, setWidth_ofNat_small (by decide) (by decide) small,
    setWidth_ofNat_small (by decide) (by decide) small, toNat_ofNat_small (by decide) small]

theorem txCtxt_agrees {q : VfTxQueue} {qdev : QdmaDev} {c : IssuedCmd} (small : qid < onicMaxQueues)
    (vector : q.vector = some qid) (count : q.ring.count = onicVfTxRingCount) (wr : c.cmd.op = CtxtCmdOp.wr.code)
    (carries : c.Carries (txSwCtxt qdev (h2cParam (q.cfg qid qid)
      (onicPfMboxDmaAddr (q.cfg qid qid).descDmaLo (q.cfg qid qid).descDmaHi))).words) : TxCtxtAgrees q c.data := by
  refine ⟨?_, ?_, ?_⟩
  · rw [hwSwDescBase, carries wr _ (by decide), carries wr _ (by decide)]
    exact (SwCtxt.hw_descBase _).trans (onicPfMboxDmaAddr_split q.ring.dmaAddr)
  · rw [vector, hwSwVec, carries wr _ (by decide)]
    exact congrArg some ((congrArg BitVec.toNat (SwCtxt.hw_vec _)).trans (vector_through small)).symm
  · rw [count, hwSwRngszIdx, carries wr _ (by decide)]
    exact congrArg (rngcntPool[·]?) (SwCtxt.hw_rngszIdx _)

theorem vf_tx_config (probed : ProbedFor res priv) (found : onicPfMboxFindVfResource vfs srcFuncId = some res)
    (inside : qid < priv.numTxQueues) {id buffer : Nat} {mem : DmaMem} (nonzero : mem.addr ≠ 0)
    (aligned : PageAligned mem.addr) :
    ∃ cfg, onicVfTxCfg (some (onicVfTxQueueOf priv qid id buffer mem)) qid = .ok cfg ∧ ∀ seq,
      TxConfigAgrees (onicVfTxQueueOf priv qid id buffer mem) res vfs srcFuncId ((configRequest cfg).set 2 seq) := by
  rw [probed.tx] at inside
  obtain ⟨small, below⟩ := probed.below inside
  have vector : (onicVfTxQueueOf priv qid id buffer mem).vector = some qid := probed.vector inside
  refine ⟨(onicVfTxQueueOf priv qid id buffer mem).cfg qid qid, by simp only [onicVfTxCfg, vector]; exact if_neg nofun,
    fun seq => ?_⟩
  have accepted := onicPfMboxConfigQueue_tx seq found
    ((onicVfTxQueueOf priv qid id buffer mem).cfg_valid probed inside nonzero aligned) rfl
  have same_qid : (BitVec.ofNat 32 qid).setWidth 16 = BitVec.ofNat 16 qid :=
    setWidth_ofNat_small (by decide) (by decide) small
  rw [show (((onicVfTxQueueOf priv qid id buffer mem).cfg qid qid).qid).setWidth 16 = _ from same_qid] at accepted
  refine ⟨⟨_, _, accepted⟩, fun e err resp e' ran => ?_⟩
  rw [accepted] at ran
  obtain ⟨cmds, issued, writes, ends⟩ := onicQdmaInitTxQueue_writes _ _ (okUnless_exec ran)
  refine ⟨cmds, issued, fun c mem wr => ?_, ?_⟩
  · obtain ⟨is_cmd, carries⟩ := writes c mem wr
    exact ⟨is_cmd, txCtxt_agrees small vector rfl wr carries⟩
  · rcases ends with busy | ⟨ok, c, mem, is_cmd⟩
    · exact .inl busy
    · exact .inr ⟨ok, c, mem, by rw [is_cmd, queueCmd_op]⟩

theorem rxSwCtxt_agrees {q : VfRxQueue} {qdev : QdmaDev} {cmplDma : BitVec 64} {c : IssuedCmd}
    (count : q.descRing.count = onicVfRxRingCount) (wr : c.cmd.op = CtxtCmdOp.wr.code)
    (carries : c.Carries (rxSwCtxt qdev (c2hParam (q.cfg qid qid)
      (onicPfMboxDmaAddr (q.cfg qid qid).descDmaLo (q.cfg qid qid).descDmaHi) cmplDma)).words) :
    RxSwCtxtAgrees q c.data := by
  refine ⟨?_, ?_⟩
  · rw [hwSwDescBase, carries wr _ (by decide), carries wr _ (by decide)]
    exact (SwCtxt.hw_descBase _).trans (onicPfMboxDmaAddr_split q.descRing.dmaAddr)
  · rw [count, hwSwRngszIdx, carries wr _ (by decide)]
    exact congrArg (rngcntPool[·]?) (SwCtxt.hw_rngszIdx _)

theorem rxPfchCtxt_agrees {q : VfRxQueue} {descDma cmplDma : BitVec 64} {c : IssuedCmd}
    (wr : c.cmd.op = CtxtCmdOp.wr.code)
    (carries : c.Carries (rxPfchCtxt (c2hParam (q.cfg qid qid) descDma cmplDma)).words) : RxPfchCtxtAgrees c.data := by
  refine ⟨2048, ?_, by decide⟩
  rw [hwPfchBufszIdx, carries wr _ (by decide)]
  exact congrArg (c2hBufszPool[·]?) (PfchCtxt.hw_bufszIdx _)

theorem rxCmplCtxt_agrees {q : VfRxQueue} {qdev : QdmaDev} {descDma : BitVec 64} {c : IssuedCmd}
    (small : qid < onicMaxQueues) (vector : q.vector = some qid) (count : q.cmplRing.count = onicVfCmplRingCount)
    (aligned : PageAligned q.cmplRing.dmaAddr) (wr : c.cmd.op = CtxtCmdOp.wr.code)
    (carries : c.Carries (rxCmplCtxt qdev (c2hParam (q.cfg qid qid) descDma
      (onicPfMboxDmaAddr (q.cfg qid qid).cmplDmaLo (q.cfg qid qid).cmplDmaHi))).words) :
    RxCmplCtxtAgrees q c.data := by
  have address : onicPfMboxDmaAddr (q.cfg qid qid).cmplDmaLo (q.cfg qid qid).cmplDmaHi = q.cmplRing.dmaAddr :=
    onicPfMboxDmaAddr_split _
  rw [address] at carries
  refine ⟨?_, ?_, ?_⟩
  · rw [hwCmplBaddr, carries wr _ (by decide), carries wr _ (by decide)]
    exact CmplCtxt.hw_baddr _ fun i less => aligned.low less
  · rw [vector, hwCmplVec, carries wr _ (by decide)]
    exact congrArg some ((congrArg BitVec.toNat (CmplCtxt.hw_vec _)).trans (vector_through small)).symm
  · rw [count, hwCmplRngszIdx, carries wr _ (by decide)]
    exact congrArg (rngcntPool[·]?) (CmplCtxt.hw_rngszIdx _)

theorem vf_rx_config (probed : ProbedFor res priv) (found : onicPfMboxFindVfResource vfs srcFuncId = some res)
    (inside : qid < priv.numRxQueues) {id buffer pagePool : Nat} {pages : List Nat} {desc cmpl : DmaMem}
    (nonzero : desc.addr ≠ 0) (aligned : PageAligned desc.addr) (cmpl_nonzero : cmpl.addr ≠ 0)
    (cmpl_aligned : PageAligned cmpl.addr) :
    ∃ cfg, onicVfRxCfg (some (onicVfRxQueueOf priv qid id buffer pagePool pages desc cmpl)) qid = .ok cfg ∧ ∀ seq,
      RxConfigAgrees (onicVfRxQueueOf priv qid id buffer pagePool pages desc cmpl) res vfs srcFuncId
        ((configRequest cfg).set 2 seq) := by
  rw [probed.rx] at inside
  obtain ⟨small, below⟩ := probed.below inside
  have vector : (onicVfRxQueueOf priv qid id buffer pagePool pages desc cmpl).vector = some qid := probed.vector inside
  refine ⟨(onicVfRxQueueOf priv qid id buffer pagePool pages desc cmpl).cfg qid qid,
    by simp only [onicVfRxCfg, vector]; rfl, fun seq => ?_⟩
  have address : onicPfMboxDmaAddr (lower32Bits cmpl.addr) (upper32Bits cmpl.addr) = cmpl.addr := onicPfMboxDmaAddr_split _
  have accepted := onicPfMboxConfigQueue_rx seq found
    ((onicVfRxQueueOf priv qid id buffer pagePool pages desc cmpl).cfg_valid probed inside nonzero aligned) rfl
    (show onicVfRxBufszIdx.toNat < 16 by decide) (show onicVfRxCmplRngcntIdx.toNat < 16 by decide)
    (show onicVfRxCmplDescSz.toNat ≤ 3 by decide) (address.trans_ne cmpl_nonzero)
    ((congrArg isAligned64 address).trans cmpl_aligned.isAligned64)
  have same_qid : (BitVec.ofNat 32 qid).setWidth 16 = BitVec.ofNat 16 qid :=
    setWidth_ofNat_small (by decide) (by decide) small
  rw [show (((onicVfRxQueueOf priv qid id buffer pagePool pages desc cmpl).cfg qid qid).qid).setWidth 16 = _
    from same_qid] at accepted
  refine ⟨⟨_, _, accepted⟩, fun e err resp e' ran => ?_⟩
  rw [accepted] at ran
  obtain ⟨cmds, issued, writes, ends⟩ := onicQdmaInitRxQueue_writes _ _ (okUnless_exec ran)
  refine ⟨cmds, issued, fun c mem wr => ?_, ends⟩
  obtain ⟨call, there, is_cmd, carries⟩ := writes c mem wr
  simp only [List.mem_cons, List.not_mem_nil, or_false] at there
  rcases there with rfl | rfl | rfl
  · exact .inl ⟨is_cmd, rxSwCtxt_agrees rfl wr carries⟩
  · exact .inr (.inl ⟨is_cmd, rxPfchCtxt_agrees wr carries⟩)
  · exact .inr (.inr ⟨is_cmd, rxCmplCtxt_agrees small vector rfl cmpl_aligned wr carries⟩)

end

/-- VF and PF agree on every queue that the VF's probe comes to use. -/
theorem vf_queue_config_agrees {vfs : VfTable} {srcFuncId : BitVec 16} {res : OnicVfResource}
    (found : onicPfMboxFindVfResource vfs srcFuncId = some res) (granted : 1 ≤ res.qmax.toNat)
    (small : res.qmax.toNat ≤ onicMaxQueues) {vectors : Nat} (enough : 2 ≤ vectors) (few : vectors ≤ 65) :
    ∃ priv, onicVfProbeQueues vectors res.qmax = .ok priv ∧
      (∀ qid id buffer mem, qid < priv.numTxQueues → mem.addr ≠ 0 → PageAligned mem.addr →
        ∃ cfg, onicVfTxCfg (some (onicVfTxQueueOf priv qid id buffer mem)) qid = .ok cfg ∧ ∀ seq,
          TxConfigAgrees (onicVfTxQueueOf priv qid id buffer mem) res vfs srcFuncId
            ((configRequest cfg).set 2 seq)) ∧
      ∀ qid id buffer pagePool pages desc cmpl, qid < priv.numRxQueues → desc.addr ≠ 0 → PageAligned desc.addr →
        cmpl.addr ≠ 0 → PageAligned cmpl.addr →
        ∃ cfg, onicVfRxCfg (some (onicVfRxQueueOf priv qid id buffer pagePool pages desc cmpl)) qid = .ok cfg ∧
          ∀ seq, RxConfigAgrees (onicVfRxQueueOf priv qid id buffer pagePool pages desc cmpl) res vfs srcFuncId
            ((configRequest cfg).set 2 seq) := by
  obtain ⟨priv, probe, probed⟩ := onicVfProbeQueues_probed enough few granted small
  refine ⟨priv, probe, ?_, ?_⟩
  · intro qid id buffer mem inside nonzero aligned
    exact vf_tx_config probed found inside nonzero aligned
  · intro qid id buffer pagePool pages desc cmpl inside nonzero aligned cmpl_nonzero cmpl_aligned
    exact vf_rx_config probed found inside nonzero aligned cmpl_nonzero cmpl_aligned

/-- A VF with two vectors behind the PF that granted it four queues. -/
theorem vf_queue_config_agrees_first_vf :
    ∃ priv, onicVfProbeQueues 3 firstVf.qmax = .ok priv ∧ priv.numTxQueues = 2 ∧
      ∃ cfg, onicVfTxCfg (some (onicVfTxQueueOf priv 1 0 0 ⟨0, 0x10000⟩)) 1 = .ok cfg ∧
        TxConfigAgrees (onicVfTxQueueOf priv 1 0 0 ⟨0, 0x10000⟩) firstVf oneVf 4 ((configRequest cfg).set 2 1) := by
  obtain ⟨priv, probe, tx, -⟩ := @vf_queue_config_agrees oneVf 4 firstVf (by decide) (by decide) (by decide) 3
    (by decide) (by decide)
  have two : priv.numTxQueues = 2 := by
    cases probe
    rfl
  obtain ⟨cfg, is_cfg, agrees⟩ := tx 1 0 0 ⟨0, 0x10000⟩ (by omega) (by decide) (by rw [PageAligned]; decide)
  exact ⟨priv, probe, two, cfg, is_cfg, agrees 1⟩

end OpenNic
