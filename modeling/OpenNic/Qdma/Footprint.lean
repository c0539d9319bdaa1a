import OpenNic.Mailbox.PfDriver

namespace OpenNic

/-- What one access may do to the contexts: zero any of them, and write those of the
    queues in `W`. -/
def WritesOnly (W : BitVec 11 → Prop) (e e' : CtxtEngine) : Prop :=
  ∀ sel qid, ¬ W qid → e'.ctxt sel qid = e.ctxt sel qid ∨ e'.ctxt sel qid = fun _ => 0

section

variable {W : BitVec 11 → Prop}

theorem WritesOnly.of_ctxt {e e' : CtxtEngine} (same : e'.ctxt = e.ctxt) : WritesOnly W e e' :=
  fun _ _ _ => .inl (by rw [same])

theorem WritesOnly.refl (e : CtxtEngine) : WritesOnly W e e := .of_ctxt rfl

theorem setCtxt_apply (e : CtxtEngine) (sel sel' : BitVec 4) (qid qid' : BitVec 11) (words : Nat → Word) :
    (e.setCtxt sel qid words).ctxt sel' qid' = if sel' = sel ∧ qid' = qid then words else e.ctxt sel' qid' := by
  by_cases same : sel' = sel
  · subst same
    by_cases here : qid' = qid
    · subst here
      simp [CtxtEngine.setCtxt]
    · simp [CtxtEngine.setCtxt, here]
  · simp [CtxtEngine.setCtxt, same]

theorem CtxtEngine.perform_writesOnly (e : CtxtEngine) {cmd : CtxtCmd} (allowed : cmd.op = CtxtCmdOp.wr.code → W cmd.qid) :
    WritesOnly W e (e.perform cmd) := by
  intro sel qid outside
  rw [perform]
  by_cases write : cmd.op = CtxtCmdOp.wr.code
  · rw [if_pos write, setCtxt_apply]
    have elsewhere : ¬ (sel = cmd.sel ∧ qid = cmd.qid) := fun same => outside (same.2 ▸ allowed write)
    exact .inl (if_neg elsewhere)
  · rw [if_neg write]
    by_cases read : cmd.op = CtxtCmdOp.rd.code
    · rw [if_pos read]
      exact .inl rfl
    · rw [if_neg read, setCtxt_apply]
      by_cases here : sel = cmd.sel ∧ qid = cmd.qid
      · exact .inr (if_pos here)
      · exact .inl (if_neg here)

/-- A command that is neither a write nor a read leaves a zero context. -/
theorem CtxtEngine.perform_zero (e : CtxtEngine) {cmd : CtxtCmd} (write : cmd.op ≠ CtxtCmdOp.wr.code)
    (read : cmd.op ≠ CtxtCmdOp.rd.code) : (e.perform cmd).ctxt cmd.sel cmd.qid = fun _ => 0 := by
  rw [perform, if_neg write, if_neg read, setCtxt_apply, if_pos ⟨rfl, rfl⟩]

theorem lockCtxt_steps : lockCtxt.Steps (WritesOnly W) := by
  apply Program.Steps.access
  intro _ e a e' taken
  split at taken
  · cases taken
  · cases taken
    exact .of_ctxt rfl

theorem unlockCtxt_steps : unlockCtxt.Steps (WritesOnly W) := .modify fun _ => .of_ctxt rfl

theorem writeCtxtDataRegs_steps (data : List Word) : (writeCtxtDataRegs data).Steps (WritesOnly W) := by
  apply Program.Steps.fold
  intro i _
  apply Program.Steps.bind
  · exact .modify fun _ => .of_ctxt rfl
  intro _
  exact .modify fun _ => .of_ctxt rfl

theorem writeCtxtCmd_steps {cmd : CtxtCmd} (allowed : cmd.op = CtxtCmdOp.wr.code → W cmd.qid) :
    (writeCtxtCmd cmd.word).Steps (WritesOnly W) := by
  apply Program.Steps.access
  intro input e a e' taken
  simp only [CtxtCmd.bits_word, Option.some.injEq, Prod.mk.injEq, true_and] at taken
  subst taken
  split
  · exact CtxtEngine.perform_writesOnly _ allowed
  · exact .of_ctxt rfl

theorem pollCtxtCmd_steps (left : Nat) : (pollCtxtCmd left).Steps (WritesOnly W) := by
  induction left with
  | zero => exact True.intro
  | succ left ih =>
    apply Program.Steps.bind
    · apply Program.Steps.access
      intro _ e a e' taken
      cases taken
      exact .refl e
    intro val
    split
    · exact True.intro
    · split
      · exact True.intro
      · exact ih

theorem readCtxtDataRegs_steps (data : List Word) : (readCtxtDataRegs data).Steps (WritesOnly W) := by
  apply Program.Steps.fold
  intro i data
  split
  · apply Program.Steps.bind
    · exact .read .refl _
    intro _
    exact True.intro
  · exact True.intro

/-- What comes after the command is written. -/
def finishCtxtCmd (cmd : CtxtCmd) (data : List Word) : Program CtxtEngine Input (Int × List Word) := do
  if ← pollCtxtCmd (ctxtProgTimeoutUs / ctxtProgPollIntervalUs) then
    let data ← (if cmd.op = CtxtCmdOp.rd.code then readCtxtDataRegs data else .done data)
    unlockCtxt
    .done (0, data)
  else
    unlockCtxt
    .done (-EBUSY, data)

theorem qdmaProgramCtxt_eq (cmd : CtxtCmd) (data : List Word) : qdmaProgramCtxt cmd data = (do
    lockCtxt
    (if cmd.op = CtxtCmdOp.wr.code then writeCtxtDataRegs data else .done ())
    writeCtxtCmd cmd.word
    finishCtxtCmd cmd data) := rfl

theorem finishCtxtCmd_steps (cmd : CtxtCmd) (data : List Word) : (finishCtxtCmd cmd data).Steps (WritesOnly W) := by
  apply (pollCtxtCmd_steps _).bind
  intro answered
  cases answered with
  | true =>
    apply Program.Steps.bind
    · split
      · exact readCtxtDataRegs_steps data
      · exact True.intro
    intro _
    exact unlockCtxt_steps.bind fun _ => True.intro
  | false => exact unlockCtxt_steps.bind fun _ => True.intro

theorem qdmaProgramCtxt_steps {cmd : CtxtCmd} {data : List Word} (allowed : cmd.op = CtxtCmdOp.wr.code → W cmd.qid) :
    (qdmaProgramCtxt cmd data).Steps (WritesOnly W) := by
  rw [qdmaProgramCtxt_eq]
  apply lockCtxt_steps.bind
  intro _
  apply Program.Steps.bind
  · split
    · exact writeCtxtDataRegs_steps data
    · exact True.intro
  intro _
  apply (writeCtxtCmd_steps allowed).bind
  intro _
  exact finishCtxtCmd_steps cmd data

theorem map_steps {α β : Type} {p : Program CtxtEngine Input α} (steps : p.Steps (WritesOnly W)) (f : α → β) :
    (f <$> p).Steps (WritesOnly W) := by
  rw [← bind_pure_comp]
  exact steps.bind fun _ => True.intro

section

variable {qdev : QdmaDev} {qid : BitVec 16} {sel : CtxtCmdSel} {op : CtxtCmdOp}

theorem writeCtxt_steps {data : List Word} (inside : W ((qdmaGetRealQid qdev qid).setWidth 11)) :
    (writeCtxt (queueCmd qdev qid sel op) data).Steps (WritesOnly W) :=
  map_steps (qdmaProgramCtxt_steps fun _ => inside) _

theorem clearCtxt_steps {cmd : CtxtCmd} (not_write : cmd.op ≠ CtxtCmdOp.wr.code) : (clearCtxt cmd).Steps (WritesOnly W) :=
  map_steps (qdmaProgramCtxt_steps fun write => absurd write not_write) _

theorem clearQueueCtxt_steps (not_write : op ≠ .wr) : (clearCtxt (queueCmd qdev qid sel op)).Steps (WritesOnly W) :=
  clearCtxt_steps fun write => not_write (CtxtCmdOp.code_inj.mp write)

theorem onicQdmaClearTxQueue_steps : (onicQdmaClearTxQueue qdev qid).Steps (WritesOnly W) := by
  apply (clearQueueCtxt_steps (by decide)).bind
  intro _
  apply (clearQueueCtxt_steps (by decide)).bind
  intro _
  exact (clearQueueCtxt_steps (by decide)).bind fun _ => True.intro

theorem onicQdmaClearRxQueue_steps : (onicQdmaClearRxQueue qdev qid).Steps (WritesOnly W) := by
  apply (clearQueueCtxt_steps (by decide)).bind
  intro _
  apply (clearQueueCtxt_steps (by decide)).bind
  intro _
  apply (clearQueueCtxt_steps (by decide)).bind
  intro _
  apply (clearQueueCtxt_steps (by decide)).bind
  intro _
  exact (clearQueueCtxt_steps (by decide)).bind fun _ => True.intro

theorem orClear_steps {cleanup : Program CtxtEngine Input Unit} {calls : List (Program CtxtEngine Input Int)}
    (clean : cleanup.Steps (WritesOnly W)) (each : ∀ call ∈ calls, call.Steps (WritesOnly W)) :
    (orClear cleanup calls).Steps (WritesOnly W) := by
  induction calls with
  | nil => exact True.intro
  | cons call calls ih =>
    apply (each call List.mem_cons_self).bind
    intro rv
    split
    · exact clean.bind fun _ => True.intro
    · exact ih fun other mem => each other (List.mem_cons_of_mem _ mem)

theorem onicQdmaInitTxQueue_steps (param : H2cParam) (inside : W ((qdmaGetRealQid qdev qid).setWidth 11)) :
    (onicQdmaInitTxQueue qdev qid param).Steps (WritesOnly W) := by
  apply orClear_steps onicQdmaClearTxQueue_steps
  intro call mem
  simp only [List.mem_cons, List.not_mem_nil, or_false] at mem
  rcases mem with rfl | rfl | rfl | rfl
  · exact clearQueueCtxt_steps (by decide)
  · exact writeCtxt_steps inside
  · exact clearQueueCtxt_steps (by decide)
  · exact clearQueueCtxt_steps (by decide)

theorem onicQdmaInitRxQueue_steps (param : C2hParam) (inside : W ((qdmaGetRealQid qdev qid).setWidth 11)) :
    (onicQdmaInitRxQueue qdev qid param).Steps (WritesOnly W) := by
  apply orClear_steps onicQdmaClearRxQueue_steps
  intro call mem
  simp only [List.mem_cons, List.not_mem_nil, or_false] at mem
  rcases mem with rfl | rfl | rfl | rfl | rfl | rfl | rfl | rfl
  · exact clearQueueCtxt_steps (by decide)
  · exact writeCtxt_steps inside
  · exact clearQueueCtxt_steps (by decide)
  · exact clearQueueCtxt_steps (by decide)
  · exact clearQueueCtxt_steps (by decide)
  · exact writeCtxt_steps inside
  · exact clearQueueCtxt_steps (by decide)
  · exact writeCtxt_steps inside

end

section

variable {mapped : Bool} {vfs : VfTable} {srcFuncId : BitVec 16} {req : Msg}

/-- The queue that a `CONFIG_QUEUE` may write, as the hardware numbers it. -/
def ConfigWrites (vfs : VfTable) (srcFuncId : BitVec 16) (req : Msg) (hw : BitVec 11) : Prop :=
  req.opcode = opConfigQueue ∧ ∃ res, onicPfMboxFindVfResource vfs srcFuncId = some res ∧
    req.qcfg.qid.toNat < res.qmax.toNat ∧
    hw = (qdmaGetRealQid ⟨res.funcId, res.qbase, res.qmax⟩ (req.qcfg.qid.setWidth 16)).setWidth 11

theorem onicPfMboxConfigQueue_steps (op : req.opcode = opConfigQueue) :
    (onicPfMboxConfigQueue mapped vfs srcFuncId req).Steps (WritesOnly (ConfigWrites vfs srcFuncId req)) := by
  simp only [onicPfMboxConfigQueue]
  split
  · exact True.intro
  · split
    · exact True.intro
    · rename_i dev lookup
      have inside : ConfigWrites vfs srcFuncId req ((qdmaGetRealQid dev (req.qcfg.qid.setWidth 16)).setWidth 11) := by
        rw [onicPfMboxGetVfQdev] at lookup
        split at lookup
        · cases lookup
        · split at lookup
          · cases lookup
          · rename_i res found
            split at lookup
            · cases lookup
            · rename_i small
              cases lookup
              exact ⟨op, res, found, Nat.lt_of_not_le small, rfl⟩
      split
      · exact True.intro
      · split
        · exact True.intro
        · split
          · exact map_steps (onicQdmaInitTxQueue_steps _ inside) _
          · split
            · split
              · exact True.intro
              · split
                · exact True.intro
                · exact map_steps (onicQdmaInitRxQueue_steps _ inside) _
            · exact True.intro

theorem onicPfMboxClearQueue_steps :
    (onicPfMboxClearQueue mapped vfs srcFuncId req).Steps (WritesOnly W) := by
  simp only [onicPfMboxClearQueue]
  split
  · exact True.intro
  · split
    · exact True.intro
    · split
      · exact onicQdmaClearTxQueue_steps.bind fun _ => True.intro
      · split
        · exact onicQdmaClearRxQueue_steps.bind fun _ => True.intro
        · exact True.intro

theorem handleRequest_steps :
    (handleRequest mapped vfs srcFuncId req).Steps (WritesOnly (ConfigWrites vfs srcFuncId req)) := by
  simp only [handleRequest]
  split
  · split
    · exact True.intro
    · exact True.intro
  · split
    · rename_i op
      exact onicPfMboxConfigQueue_steps op
    · split
      · exact onicPfMboxClearQueue_steps
      · exact True.intro

end

end

end OpenNic
