import OpenNic.Mailbox.PfDriver

namespace OpenNic

open Program

/-- A CONFIG_QUEUE request that passes every check against the function's entry. -/
structure ValidConfig (res : OnicVfResource) (req : Msg) : Prop where
  opcode : req.opcode = opConfigQueue
  len : req.len = sizeofQcfg
  reserved : req.qcfg.reserved = 0
  qid : req.qcfg.qid.toNat < res.qmax.toNat
  vector : req.qcfg.vector.toNat < res.qmax.toNat
  rngcntIdx : req.qcfg.rngcntIdx.toNat < 16
  descDma : onicPfMboxDmaAddr req.qcfg.descDmaLo req.qcfg.descDmaHi ≠ 0
  descAligned : isAligned64 (onicPfMboxDmaAddr req.qcfg.descDmaLo req.qcfg.descDmaHi) = true
  dir : req.qcfg.dir = queueDirTx ∨ req.qcfg.dir = queueDirRx
  bufszIdx : req.qcfg.dir = queueDirRx → req.qcfg.bufszIdx.toNat < 16
  cmplRngcntIdx : req.qcfg.dir = queueDirRx → req.qcfg.cmplRngcntIdx.toNat < 16
  cmplDescSz : req.qcfg.dir = queueDirRx → req.qcfg.cmplDescSz.toNat ≤ 3
  cmplDma : req.qcfg.dir = queueDirRx →
    onicPfMboxDmaAddr req.qcfg.cmplDmaLo req.qcfg.cmplDmaHi ≠ 0
  cmplAligned : req.qcfg.dir = queueDirRx →
    isAligned64 (onicPfMboxDmaAddr req.qcfg.cmplDmaLo req.qcfg.cmplDmaHi) = true

structure ValidClear (res : OnicVfResource) (req : Msg) : Prop where
  opcode : req.opcode = opClearQueue
  len : req.len = sizeofQclear
  qid : req.qid.toNat < res.qmax.toNat
  dir : req.dir = queueDirTx ∨ req.dir = queueDirRx

structure ValidGet (vfs : VfTable) (src : FuncId) (req : Msg) : Prop where
  opcode : req.opcode = opGetQueueRes
  len : req.len = 0
  entry : (onicPfMboxFindVfResource vfs (src.setWidth 16)).isSome

/-- A queue command of a function that has an enabled entry and passes its checks. -/
def ValidQueueCmd (vfs : VfTable) (src : FuncId) (req : Msg) : Prop :=
  ∃ res, onicPfMboxFindVfResource vfs (src.setWidth 16) = some res ∧
    (ValidConfig res req ∨ ValidClear res req)

/-- The command names a queue of the function's entry and carries its function id. -/
def InRange (vfs : VfTable) (src : FuncId) (c : IssuedCmd) : Prop :=
  ∃ res, onicPfMboxFindVfResource vfs (src.setWidth 16) = some res ∧
    res.qbase.toNat ≤ c.cmd.qid.toNat ∧ c.cmd.qid.toNat < res.qbase.toNat + res.qmax.toNat ∧
    c.cmd.sel ≠ CtxtCmdSel.fmap.code ∧ ∀ f ∈ c.funcId, f.toNat = res.funcId.toNat

/-- The queues of each enabled entry exist in the hardware. -/
def VfTable.Fits (vfs : VfTable) : Prop :=
  ∀ i, (vfs.vfRes i).enabled = true →
    (vfs.vfRes i).qbase.toNat + (vfs.vfRes i).qmax.toNat ≤ 2048

/-- The 16-bit sum and the 11-bit field keep a local qid below `qmax` in the range. -/
theorem ofQueue_inRange {vfs : VfTable} {src : FuncId} {res : OnicVfResource} {qid : Word} {c : IssuedCmd}
    (fits : vfs.Fits) (found : onicPfMboxFindVfResource vfs (src.setWidth 16) = some res)
    (local_ : qid.toNat < res.qmax.toNat)
    (of : c.OfQueue ⟨res.funcId, res.qbase, res.qmax⟩ (qid.setWidth 16)) : InRange vfs src c := by
  obtain ⟨enabled, same, i, entry⟩ := onicPfMboxFindVfResource_some found
  have room := fits i (by rw [entry]; exact enabled)
  rw [entry] at room
  have number : c.cmd.qid.toNat = res.qbase.toNat + qid.toNat := by
    rw [of.qid, qdmaGetRealQid]
    simp only [BitVec.toNat_setWidth, BitVec.toNat_add]
    omega
  refine ⟨res, found, by omega, by omega, of.not_fmap, fun f carried => ?_⟩
  rw [of.funcId f carried, same]
  have := src.isLt
  simp only [BitVec.toNat_setWidth]
  omega

theorem onicPfMboxGetVfQdev_ok {vfs : VfTable} {src : BitVec 16} {qid : Word} {dev : QdmaDev}
    (h : onicPfMboxGetVfQdev true vfs src qid = .ok dev) :
    ∃ res, onicPfMboxFindVfResource vfs src = some res ∧ qid.toNat < res.qmax.toNat ∧
      dev = ⟨res.funcId, res.qbase, res.qmax⟩ := by
  simp only [onicPfMboxGetVfQdev, Bool.not_true, Bool.false_eq_true, ↓reduceIte] at h
  split at h
  · cases h
  · rename_i res found
    split at h
    · cases h
    · rename_i inside
      cases h
      exact ⟨res, found, by omega, rfl⟩

/-- A call that leaves the engine alone and answers with an error. -/
def Refused (p : Program CtxtEngine Input (Int × Msg)) : Prop :=
  ∃ err resp, p = .done (err, resp) ∧ resp.status = stsErr

theorem initQueueCmdResp_status (opcode seq qid dir : Word) :
    (onicPfMboxInitQueueCmdResp opcode seq qid dir).status = stsErr := by
  simp [onicPfMboxInitQueueCmdResp, Msg.status, Msg.set, Function.update]

/-- Either a check fails, or all of them hold and only the named queue is touched. -/
theorem onicPfMboxConfigQueue_cases (vfs : VfTable) (src : BitVec 16) (req : Msg)
    (op : req.opcode = opConfigQueue) :
    Refused (onicPfMboxConfigQueue true vfs src req) ∨
    ∃ res, onicPfMboxFindVfResource vfs src = some res ∧ ValidConfig res req ∧
      Keeps (AllIssued (IssuedCmd.OfQueue ⟨res.funcId, res.qbase, res.qmax⟩ (req.qcfg.qid.setWidth 16)))
        (onicPfMboxConfigQueue true vfs src req) := by
  have refused (err : Int) :
      Refused (.done (err, onicPfMboxInitQueueCmdResp opConfigQueueResp req.seq req.qcfg.qid req.qcfg.dir)) :=
    ⟨err, _, rfl, initQueueCmdResp_status _ _ _ _⟩
  simp only [onicPfMboxConfigQueue]
  split
  · exact .inl (refused _)
  · rename_i header
    split
    · exact .inl (refused _)
    · rename_i dev lookup
      obtain ⟨res, found, qid, rfl⟩ := onicPfMboxGetVfQdev_ok lookup
      split
      · exact .inl (refused _)
      · rename_i bounds
        split
        · exact .inl (refused _)
        · rename_i desc
          have valid : ∀ dir : req.qcfg.dir = queueDirTx ∨ req.qcfg.dir = queueDirRx,
              (req.qcfg.dir = queueDirRx → req.qcfg.bufszIdx.toNat < 16 ∧
                req.qcfg.cmplRngcntIdx.toNat < 16 ∧ req.qcfg.cmplDescSz.toNat ≤ 3 ∧
                onicPfMboxDmaAddr req.qcfg.cmplDmaLo req.qcfg.cmplDmaHi ≠ 0 ∧
                isAligned64 (onicPfMboxDmaAddr req.qcfg.cmplDmaLo req.qcfg.cmplDmaHi) = true) →
              ValidConfig res req := by
            intro dir rx
            simp only [not_or, ge_iff_le, Nat.not_le, Decidable.not_not, Bool.not_eq_true,
              Bool.not_eq_false'] at header bounds desc
            exact ⟨op, header.1, header.2, qid, bounds.1, bounds.2, desc.1, desc.2, dir,
              fun is => (rx is).1, fun is => (rx is).2.1, fun is => (rx is).2.2.1,
              fun is => (rx is).2.2.2.1, fun is => (rx is).2.2.2.2⟩
          split
          · rename_i tx
            refine .inr ⟨res, found, valid (.inl tx) fun rx => ?_, ?_⟩
            · rw [tx] at rx
              exact absurd rx (by decide)
            · exact .map (onicQdmaInitTxQueue_keeps _ _ _) _
          · split
            · rename_i rx
              split
              · exact .inl (refused _)
              · rename_i ring
                split
                · exact .inl (refused _)
                · rename_i cmpl
                  simp only [not_or, ge_iff_le, gt_iff_lt, Nat.not_le, Nat.not_lt, Bool.not_eq_true,
                    Bool.not_eq_false'] at ring cmpl
                  refine .inr ⟨res, found, valid (.inr rx) fun _ => ?_, ?_⟩
                  · exact ⟨ring.1, ring.2.1, ring.2.2, cmpl.1, cmpl.2⟩
                  · exact .map (onicQdmaInitRxQueue_keeps _ _ _) _
            · exact .inl (refused _)

theorem onicPfMboxClearQueue_cases (vfs : VfTable) (src : BitVec 16) (req : Msg)
    (op : req.opcode = opClearQueue) :
    Refused (onicPfMboxClearQueue true vfs src req) ∨
    ∃ res, onicPfMboxFindVfResource vfs src = some res ∧ ValidClear res req ∧
      Keeps (AllIssued (IssuedCmd.OfQueue ⟨res.funcId, res.qbase, res.qmax⟩ (req.qid.setWidth 16)))
        (onicPfMboxClearQueue true vfs src req) := by
  have refused (err : Int) :
      Refused (.done (err, onicPfMboxInitQueueCmdResp opClearQueueResp req.seq req.qid req.dir)) :=
    ⟨err, _, rfl, initQueueCmdResp_status _ _ _ _⟩
  simp only [onicPfMboxClearQueue]
  split
  · exact .inl (refused _)
  · rename_i len
    simp only [Decidable.not_not] at len
    split
    · exact .inl (refused _)
    · rename_i dev lookup
      obtain ⟨res, found, qid, rfl⟩ := onicPfMboxGetVfQdev_ok lookup
      split
      · rename_i tx
        refine .inr ⟨res, found, ⟨op, len, qid, .inl tx⟩, ?_⟩
        exact .bind AllIssued.trans (onicQdmaClearTxQueue_keeps _ _) fun _ => .done AllIssued.refl _
      · split
        · rename_i rx
          refine .inr ⟨res, found, ⟨op, len, qid, .inr rx⟩, ?_⟩
          exact .bind AllIssued.trans (onicQdmaClearRxQueue_keeps _ _) fun _ => .done AllIssued.refl _
        · exact .inl (refused _)

theorem makeQueueResResp_status {vfs : VfTable} {src : BitVec 16} {seq : Word}
    (missing : onicPfMboxFindVfResource vfs src = none) :
    (onicPfMboxMakeQueueResResp vfs src seq).2.status = stsErr := by
  simp [onicPfMboxMakeQueueResResp, missing, Msg.status, Msg.set, Function.update]

/-- The `switch`: a queue command that passes its checks stays in the range of its
    sender, and nothing else reaches the engine. -/
theorem handleRequest_cases {vfs : VfTable} (fits : vfs.Fits) (src : FuncId) (req : Msg) :
    (ValidQueueCmd vfs src req ∧
      Keeps (AllIssued (InRange vfs src)) (handleRequest true vfs (src.setWidth 16) req)) ∨
    ∃ err resp, handleRequest true vfs (src.setWidth 16) req = .done (err, resp) ∧
      (¬ ValidGet vfs src req → resp.status = stsErr) := by
  have widen {res : OnicVfResource} {qid : Word} {p : Program CtxtEngine Input (Int × Msg)}
      (found : onicPfMboxFindVfResource vfs (src.setWidth 16) = some res)
      (local_ : qid.toNat < res.qmax.toNat)
      (keeps : Keeps (AllIssued (IssuedCmd.OfQueue ⟨res.funcId, res.qbase, res.qmax⟩ (qid.setWidth 16))) p) :
      Keeps (AllIssued (InRange vfs src)) p := by
    intro e r e' ran
    obtain ⟨cmds, issued, all⟩ := keeps e r e' ran
    exact ⟨cmds, issued, fun c mem => ofQueue_inRange fits found local_ (all c mem)⟩
  have refused (resp : Msg) (err : Int) (status : resp.status = stsErr) :
      ∃ err' resp', (Program.done (err, resp) : Program CtxtEngine Input _) = .done (err', resp') ∧
        (¬ ValidGet vfs src req → resp'.status = stsErr) := ⟨err, resp, rfl, fun _ => status⟩
  simp only [handleRequest]
  split
  · rename_i get
    right
    split
    · exact refused _ _ (by simp [Msg.status, Msg.set, Function.update])
    · rename_i len
      refine ⟨_, _, rfl, fun invalid => makeQueueResResp_status ?_⟩
      simp only [Decidable.not_not] at len
      cases found : onicPfMboxFindVfResource vfs (src.setWidth 16) with
      | none => rfl
      | some res => exact absurd ⟨get, len, by rw [found]; rfl⟩ invalid
  · split
    · rename_i op
      rcases onicPfMboxConfigQueue_cases vfs (src.setWidth 16) req op with
        ⟨err, resp, is, status⟩ | ⟨res, found, valid, keeps⟩
      · rw [is]
        exact .inr (refused _ _ status)
      · exact .inl ⟨⟨res, found, .inl valid⟩, widen found valid.qid keeps⟩
    · split
      · rename_i op
        rcases onicPfMboxClearQueue_cases vfs (src.setWidth 16) req op with
          ⟨err, resp, is, status⟩ | ⟨res, found, valid, keeps⟩
        · rw [is]
          exact .inr (refused _ _ status)
        · exact .inl ⟨⟨res, found, .inr valid⟩, widen found valid.qid keeps⟩
      · exact .inr (refused _ _ (by simp [Msg.status, Msg.set, Function.update]))

/-- What handling one request of `src` does to the context engine, and its answer. -/
structure Isolated (vfs : VfTable) (src : FuncId) (req : Msg) (before after : CtxtEngine)
    (resp : Msg) : Prop where
  commands : ∃ cmds, CtxtEngine.Issued cmds before after ∧ ∀ c ∈ cmds, InRange vfs src c
  rejected : ¬ ValidQueueCmd vfs src req →
    after = before ∧ (¬ ValidGet vfs src req → resp.status = stsErr)
  outside : ∀ sel (qid : BitVec 11), (∀ res, onicPfMboxFindVfResource vfs (src.setWidth 16) = some res →
      qid.toNat < res.qbase.toNat ∨ res.qbase.toNat + res.qmax.toNat ≤ qid.toNat) →
    after.ctxt sel qid = before.ctxt sel qid
  fmap : after.ctxt CtxtCmdSel.fmap.code = before.ctxt CtxtCmdSel.fmap.code

theorem Isolated.of_issued {vfs : VfTable} {src : FuncId} {req resp : Msg} {before after : CtxtEngine}
    (commands : AllIssued (InRange vfs src) before after)
    (rejected : ¬ ValidQueueCmd vfs src req →
      after = before ∧ (¬ ValidGet vfs src req → resp.status = stsErr)) :
    Isolated vfs src req before after resp := by
  obtain ⟨cmds, issued, all⟩ := commands
  refine ⟨⟨cmds, issued, all⟩, rejected, fun sel qid apart => ?_, ?_⟩
  · apply issued.others
    rintro c mem - rfl
    obtain ⟨res, found, low, high, -⟩ := all c mem
    rcases apart res found with below | above <;> omega
  · funext qid
    apply issued.others
    intro c mem is_fmap
    obtain ⟨res, found, -, -, not_fmap, -⟩ := all c mem
    exact absurd is_fmap not_fmap

theorem handleRequest_isolated {vfs : VfTable} (fits : vfs.Fits) {src : FuncId} {req resp : Msg}
    {err : Int} {e e' : CtxtEngine}
    (ran : Exec (handleRequest true vfs (src.setWidth 16) req) e (err, resp) e') :
    Isolated vfs src req e e' resp := by
  rcases handleRequest_cases fits src req with ⟨valid, keeps⟩ | ⟨err', resp', is, status⟩
  · exact .of_issued (keeps _ _ _ ran) fun invalid => absurd valid invalid
  · rw [is] at ran
    obtain ⟨same, rfl⟩ := exec_done.mp ran
    obtain ⟨rfl, rfl⟩ : err = err' ∧ resp = resp' := by simpa using same
    exact .of_issued (AllIssued.refl _) fun _ => ⟨rfl, status⟩

theorem onicPfMboxReadMsg_exec {s s' : PfSys} {req msg : Msg} (shown : s.inMsg = some req)
    (ran : Exec onicPfMboxReadMsg s msg s') : s' = s ∧ msg = req := by
  have filled := ran.fold (I := fun n (msg : Msg) now =>
    now = s ∧ ∀ i : Fin 32, i.val < n → msg i = req i)
  obtain ⟨same, all⟩ := filled (fun n msg now msg' after low high ⟨same, before⟩ body => by
    obtain ⟨word, mid, load, last⟩ := exec_bind.mp body
    obtain ⟨input, taken⟩ := exec_access.mp load
    obtain ⟨rfl, rfl⟩ := exec_done.mp last
    simp only [same, shown, Option.some.injEq, Prod.mk.injEq] at taken
    obtain ⟨rfl, rfl⟩ := taken
    refine ⟨rfl, fun i less => ?_⟩
    by_cases here : i = Fin.ofNat 32 n
    · simp [Msg.set, here]
    · have apart : i.val ≠ n := by
        rintro rfl
        exact here (by simp)
      simpa only [Msg.set, Function.update_of_ne here] using before i (by omega))
    ⟨rfl, fun i less => absurd less (Nat.not_lt_zero _)⟩
  exact ⟨same, funext fun i => all i (by omega)⟩

/-- Besides the window the message is written to nothing changes. -/
theorem onicPfMboxWriteMsg_exec {s s' : PfSys} {msg : Msg} {u : Unit}
    (ran : Exec (onicPfMboxWriteMsg msg) s u s') :
    s' = { s with outMsg := Function.update s.outMsg s.targetFn msg } := by
  have filled := ran.fold (I := fun n _ now =>
    ∃ out : Msg, now = { s with outMsg := Function.update s.outMsg s.targetFn out } ∧
      ∀ i : Fin 32, i.val < n → out i = msg i)
  obtain ⟨out, rfl, all⟩ := filled (fun n _ now _ after low high ⟨out, same, before⟩ body => by
    rw [PfMbox.writeOutMsg, exec_modify] at body
    subst same body
    refine ⟨out.set (Fin.ofNat 32 n) (msg (Fin.ofNat 32 n)), by simp, fun i less => ?_⟩
    by_cases here : i = Fin.ofNat 32 n
    · simp [Msg.set, here]
    · have apart : i.val ≠ n := by
        rintro rfl
        exact here (by simp)
      simpa only [Msg.set, Function.update_of_ne here] using before i (by omega))
    ⟨s.outMsg s.targetFn, by simp, fun i less => absurd less (Nat.not_lt_zero _)⟩
  rw [show out = msg from funext fun i => all i (by omega)]

theorem engineLens : Lens PfSys.engine (fun e (s : PfSys) => { s with engine := e }) where
  get_set _ _ := rfl
  set_get _ := rfl
  set_set _ _ _ := rfl

theorem answerRequest_isolated {s s' : PfSys} {src : FuncId} {req : Msg} {ret : Int}
    (fits : s.vfs.Fits) (target : s.targetFn = src) (free : s.responses src = none)
    (shown : s.inMsg = some req) (ran : Exec (answerRequest src) s ret s') :
    ret = 1 ∧ ∃ resp, s'.responses src = some resp ∧
      Isolated s.vfs src req s.engine s'.engine resp := by
  obtain ⟨msg, loaded, load, execution⟩ := exec_bind.mp ran
  obtain ⟨rfl, rfl⟩ := onicPfMboxReadMsg_exec shown load
  obtain ⟨vfs, marked, mark, handling⟩ := exec_bind.mp execution
  obtain ⟨input, taken⟩ := exec_access.mp mark
  cases taken
  obtain ⟨⟨err, resp⟩, handled, handle, release⟩ := exec_bind.mp handling
  obtain ⟨engine_ran, frame⟩ := (exec_lift engineLens).mp handle
  obtain ⟨_, received, receive, answer⟩ := exec_bind.mp release
  obtain rfl := exec_modify.mp receive
  obtain ⟨_, written, write, sending⟩ := exec_bind.mp answer
  obtain rfl := onicPfMboxWriteMsg_exec write
  obtain ⟨_, sent, send, last⟩ := exec_bind.mp sending
  obtain rfl := exec_modify.mp send
  obtain ⟨rfl, rfl⟩ := exec_done.mp last
  have kept : handled.targetFn = src ∧ handled.responses src = none := by
    rw [frame]
    exact ⟨target, free⟩
  have isolated := handleRequest_isolated fits engine_ran
  refine ⟨rfl, resp, ?_, ?_⟩
  · simp [PfSys.send, PfSys.receive, kept.1, kept.2]
  · simpa [PfSys.send, PfSys.receive, kept.1, kept.2] using isolated

/-- One call of the handler: where it does not come to answer a request nothing
    happens, and otherwise it keeps to the range of the request's sender. -/
theorem onic_pf_mbox_process_one_isolated {s s' : PfSys} {ret : Int} (fits : s.vfs.Fits)
    (ran : Exec onicPfMboxProcessOne s ret s') :
    ((s.qdevMapped = false ∨ s.requests = [] ∨ (s.responses s.curSrc).isSome) ∧ ret ≠ 1 ∧
      s'.engine = s.engine ∧ s'.responses = s.responses) ∨
    ∃ src req rest, s.requests = (src, req) :: rest ∧ ret = 1 ∧
      ∃ resp, s'.responses src = some resp ∧ Isolated s.vfs src req s.engine s'.engine resp := by
  obtain ⟨mapped, _, look, polling⟩ := exec_bind.mp ran
  obtain ⟨rfl, rfl⟩ := exec_read.mp look
  split at polling
  · obtain ⟨status, _, poll, selecting⟩ := exec_bind.mp polling
    obtain ⟨rfl, rfl⟩ := exec_read.mp poll
    rw [PfSys.mboxSts_iMsg, PfSys.curSrcFn_mboxSts] at selecting
    split at selecting
    · rename_i idle
      obtain ⟨rfl, rfl⟩ := exec_done.mp selecting
      exact .inl ⟨.inr (.inl (by simpa using idle)), by decide, rfl, rfl⟩
    · rename_i pending
      rename PfSys => s
      obtain ⟨⟨src, req⟩, rest, requests⟩ : ∃ r rest, s.requests = r :: rest := by
        cases h : s.requests with
        | nil => simp [h] at pending
        | cons r rest => exact ⟨r, rest, rfl⟩
      have src_is : s.curSrc = src := by simp [PfSys.curSrc, requests]
      obtain ⟨_, selected, select, checking⟩ := exec_bind.mp selecting
      have is_selected := exec_modify.mp select
      obtain ⟨status, _, check, answering⟩ := exec_bind.mp checking
      obtain ⟨rfl, rfl⟩ := exec_read.mp check
      rw [PfSys.mboxSts_oMsg] at answering
      subst is_selected
      split at answering
      · rename_i busy
        obtain ⟨rfl, rfl⟩ := exec_done.mp answering
        exact .inl ⟨.inr (.inr busy), by decide, rfl, rfl⟩
      · rename_i free
        rw [src_is] at answering free
        have shown : ({ s with targetFn := src } : PfSys).inMsg = some req := by
          simp [PfSys.inMsg, requests]
        have isolated := answerRequest_isolated (s := { s with targetFn := src }) fits rfl
          (by simpa using free) shown answering
        exact .inr ⟨src, req, rest, requests, isolated⟩
  · rename_i unmapped
    obtain ⟨rfl, rfl⟩ := exec_done.mp polling
    exact .inl ⟨.inl (by simpa using unmapped), by decide, rfl, rfl⟩

def configTxRequest : Msg :=
  ((((Msg.zero.set 0 opConfigQueue).set 2 1).set 3 sizeofQcfg).set 4 3).set 12 0x1000

theorem onic_pf_mbox_process_one_isolated_config :
    ∃ s', Exec onicPfMboxProcessOne (.withRequests oneVf [(4, configTxRequest)]) 1 s' ∧
      ∃ resp, s'.responses 4 = some resp ∧
        Isolated oneVf 4 configTxRequest (PfSys.withRequests oneVf [(4, configTxRequest)]).engine
          s'.engine resp := by
  have finishes : (onicPfMboxProcessOne.run (List.replicate 200 ⟨0, true⟩)
      (.withRequests oneVf [(4, configTxRequest)])).isSome = true := by decide
  obtain ⟨⟨ret, s'⟩, ran⟩ := Option.isSome_iff_exists.mp finishes
  have exec := Exec.of_run ran
  rcases onic_pf_mbox_process_one_isolated (fun _ _ => by show 64 + 4 ≤ 2048; decide) exec with
    ⟨idle, -⟩ | ⟨src, req, rest, requests, rfl, answered⟩
  · rcases idle with unmapped | empty | busy
    · cases unmapped
    · cases empty
    · cases busy
  · cases requests
    exact ⟨s', exec, answered⟩

end OpenNic
