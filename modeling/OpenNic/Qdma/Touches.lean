import OpenNic.Qdma.Footprint
import OpenNic.Qdma.FunctionMap

namespace OpenNic

/-- One access changes no context but those in `W`, be it to zero or not. -/
def Touches (W : BitVec 4 → BitVec 11 → Prop) (e e' : CtxtEngine) : Prop :=
  ∀ sel qid, ¬ W sel qid → e'.ctxt sel qid = e.ctxt sel qid

/-- The contexts of one queue. -/
def OfQueue (hw : BitVec 11) (_ : BitVec 4) (qid : BitVec 11) : Prop := qid = hw

/-- The function maps. -/
def OfFmap (sel : BitVec 4) (_ : BitVec 11) : Prop := sel = CtxtCmdSel.fmap.code

/-- A queue of a device as the hardware numbers it. -/
def QdmaDev.hwQueue (qdev : QdmaDev) (qid : BitVec 16) : BitVec 11 := (qdmaGetRealQid qdev qid).setWidth 11

section

variable {W : BitVec 4 → BitVec 11 → Prop}

theorem Touches.of_ctxt {e e' : CtxtEngine} (same : e'.ctxt = e.ctxt) : Touches W e e' :=
  fun sel qid _ => congrFun (congrFun same sel) qid

theorem CtxtEngine.perform_touches (e : CtxtEngine) {cmd : CtxtCmd} (inside : W cmd.sel cmd.qid) : Touches W e (e.perform cmd) := by
  intro sel qid outside
  have elsewhere : ¬ (sel = cmd.sel ∧ qid = cmd.qid) := by
    rintro ⟨rfl, rfl⟩
    exact outside inside
  unfold perform
  split
  · rw [setCtxt_apply, if_neg elsewhere]
  · split
    · rfl
    · rw [setCtxt_apply, if_neg elsewhere]

theorem lockCtxt_touches : lockCtxt.Steps (Touches W) := by
  apply Program.Steps.access
  intro _ e a e' taken
  split at taken
  · cases taken
  · cases taken
    exact .of_ctxt rfl

theorem writeCtxtDataRegs_touches (data : List Word) : (writeCtxtDataRegs data).Steps (Touches W) := by
  apply Program.Steps.fold
  intro i _
  apply Program.Steps.bind
  · exact .modify fun _ => .of_ctxt rfl
  intro _
  exact .modify fun _ => .of_ctxt rfl

theorem writeCtxtCmd_touches {cmd : CtxtCmd} (inside : W cmd.sel cmd.qid) : (writeCtxtCmd cmd.word).Steps (Touches W) := by
  apply Program.Steps.access
  intro input e a e' taken
  simp only [CtxtCmd.bits_word, Option.some.injEq, Prod.mk.injEq, true_and] at taken
  subst taken
  split
  · exact CtxtEngine.perform_touches _ inside
  · exact .of_ctxt rfl

theorem pollCtxtCmd_touches (left : Nat) : (pollCtxtCmd left).Steps (Touches W) := by
  induction left with
  | zero => exact True.intro
  | succ left ih =>
    apply Program.Steps.bind
    · apply Program.Steps.access
      intro _ e a e' taken
      cases taken
      exact .of_ctxt rfl
    intro val
    split
    · exact True.intro
    · split
      · exact True.intro
      · exact ih

theorem readCtxtDataRegs_touches (data : List Word) : (readCtxtDataRegs data).Steps (Touches W) := by
  apply Program.Steps.fold
  intro i data
  split
  · apply Program.Steps.bind
    · exact .read (fun _ => .of_ctxt rfl) _
    intro _
    exact True.intro
  · exact True.intro

theorem qdmaProgramCtxt_touches {cmd : CtxtCmd} {data : List Word} (inside : W cmd.sel cmd.qid) :
    (qdmaProgramCtxt cmd data).Steps (Touches W) := by
  have unlock : unlockCtxt.Steps (Touches W) := .modify fun _ => .of_ctxt rfl
  unfold qdmaProgramCtxt
  apply lockCtxt_touches.bind
  intro _
  apply Program.Steps.bind
  · split
    · exact writeCtxtDataRegs_touches data
    · exact True.intro
  intro _
  apply (writeCtxtCmd_touches inside).bind
  intro _
  apply (pollCtxtCmd_touches _).bind
  intro answered
  split
  · apply Program.Steps.bind
    · split
      · exact readCtxtDataRegs_touches data
      · exact True.intro
    intro _
    exact unlock.bind fun _ => True.intro
  · exact unlock.bind fun _ => True.intro

theorem writeCtxt_touches {cmd : CtxtCmd} {data : List Word} (inside : W cmd.sel cmd.qid) :
    (writeCtxt cmd data).Steps (Touches W) := by
  unfold writeCtxt
  rw [← bind_pure_comp]
  exact (qdmaProgramCtxt_touches inside).bind fun _ => True.intro

theorem clearCtxt_touches {cmd : CtxtCmd} (inside : W cmd.sel cmd.qid) : (clearCtxt cmd).Steps (Touches W) :=
  writeCtxt_touches inside

theorem orClear_touches {cleanup : Program CtxtEngine Input Unit} {calls : List (Program CtxtEngine Input Int)}
    (clean : cleanup.Steps (Touches W)) (each : ∀ call ∈ calls, call.Steps (Touches W)) :
    (orClear cleanup calls).Steps (Touches W) := by
  induction calls with
  | nil => exact True.intro
  | cons call calls ih =>
    apply (each call List.mem_cons_self).bind
    intro rv
    split
    · exact clean.bind fun _ => True.intro
    · exact ih fun other mem => each other (List.mem_cons_of_mem _ mem)

end

section

variable {qdev : QdmaDev} {qid : BitVec 16}

theorem queueCall_touches (sel : CtxtCmdSel) (op : CtxtCmdOp) (data : List Word) :
    (writeCtxt (queueCmd qdev qid sel op) data).Steps (Touches (OfQueue (qdev.hwQueue qid))) :=
  writeCtxt_touches rfl

theorem onicQdmaClearTxQueue_touches : (onicQdmaClearTxQueue qdev qid).Steps (Touches (OfQueue (qdev.hwQueue qid))) := by
  apply (queueCall_touches _ _ _).bind
  intro _
  apply (queueCall_touches _ _ _).bind
  intro _
  exact (queueCall_touches _ _ _).bind fun _ => True.intro

theorem onicQdmaClearRxQueue_touches : (onicQdmaClearRxQueue qdev qid).Steps (Touches (OfQueue (qdev.hwQueue qid))) := by
  apply (queueCall_touches _ _ _).bind
  intro _
  apply (queueCall_touches _ _ _).bind
  intro _
  apply (queueCall_touches _ _ _).bind
  intro _
  apply (queueCall_touches _ _ _).bind
  intro _
  exact (queueCall_touches _ _ _).bind fun _ => True.intro

theorem onicQdmaInitTxQueue_touches (param : H2cParam) :
    (onicQdmaInitTxQueue qdev qid param).Steps (Touches (OfQueue (qdev.hwQueue qid))) := by
  apply orClear_touches onicQdmaClearTxQueue_touches
  intro call mem
  simp only [List.mem_cons, List.not_mem_nil, or_false] at mem
  rcases mem with rfl | rfl | rfl | rfl <;> exact queueCall_touches _ _ _

theorem onicQdmaInitRxQueue_touches (param : C2hParam) :
    (onicQdmaInitRxQueue qdev qid param).Steps (Touches (OfQueue (qdev.hwQueue qid))) := by
  apply orClear_touches onicQdmaClearRxQueue_touches
  intro call mem
  simp only [List.mem_cons, List.not_mem_nil, or_false] at mem
  rcases mem with rfl | rfl | rfl | rfl | rfl | rfl | rfl | rfl <;> exact queueCall_touches _ _ _

theorem qdmaWriteFmapCtxt_touches (ctxt : FmapCtxt) : (qdmaWriteFmapCtxt qdev ctxt).Steps (Touches OfFmap) := by
  have call : (writeCtxt (fmapCmd qdev .wr) ctxt.words).Steps (Touches OfFmap) := writeCtxt_touches rfl
  apply call.bind
  intro rv
  split <;> exact True.intro

theorem qdmaClearFmapCtxt_touches : (qdmaClearFmapCtxt qdev).Steps (Touches OfFmap) := by
  have call : (clearCtxt (fmapCmd qdev .clr)).Steps (Touches OfFmap) := clearCtxt_touches rfl
  exact call.bind fun _ => True.intro

end

section

variable {mapped : Bool} {vfs : VfTable} {srcFuncId : BitVec 16} {req : Msg}

/-- The queues of the function that a request comes from. -/
def OfRequester (vfs : VfTable) (srcFuncId : BitVec 16) (_ : BitVec 4) (hw : BitVec 11) : Prop :=
  ∃ res qid, onicPfMboxFindVfResource vfs srcFuncId = some res ∧ qid.toNat < res.qmax.toNat ∧
    hw = (QdmaDev.mk res.funcId res.qbase res.qmax).hwQueue qid

theorem onicPfMboxGetVfQdev_requester {qid : Word} {dev : QdmaDev} (lookup : onicPfMboxGetVfQdev mapped vfs srcFuncId qid = .ok dev) :
    ∃ res, onicPfMboxFindVfResource vfs srcFuncId = some res ∧ qid.toNat < res.qmax.toNat ∧
      dev = ⟨res.funcId, res.qbase, res.qmax⟩ := by
  unfold onicPfMboxGetVfQdev at lookup
  split at lookup
  · cases lookup
  · split at lookup
    · cases lookup
    · rename_i res found
      split at lookup
      · cases lookup
      · rename_i small
        cases lookup
        exact ⟨res, found, Nat.lt_of_not_le small, rfl⟩

/-- Whatever is done to a queue that the lookup has let through is done to one of the requester. -/
theorem requester_steps {α : Type} {qid : Word} {dev : QdmaDev} {p : Program CtxtEngine Input α}
    (lookup : onicPfMboxGetVfQdev mapped vfs srcFuncId qid = .ok dev)
    (steps : p.Steps (Touches (OfQueue (dev.hwQueue (qid.setWidth 16))))) : p.Steps (Touches (OfRequester vfs srcFuncId)) := by
  obtain ⟨res, found, small, rfl⟩ := onicPfMboxGetVfQdev_requester lookup
  have bound := res.qmax.isLt
  have number : (qid.setWidth 16).toNat = qid.toNat := by
    rw [BitVec.toNat_setWidth]
    omega
  apply steps.mono
  intro e e' touches sel hw outside
  apply touches
  rintro rfl
  exact outside ⟨res, qid.setWidth 16, found, by omega, rfl⟩

theorem map_touches {α β : Type} {W : BitVec 4 → BitVec 11 → Prop} {p : Program CtxtEngine Input α} (steps : p.Steps (Touches W))
    (f : α → β) : (f <$> p).Steps (Touches W) := by
  rw [← bind_pure_comp]
  exact steps.bind fun _ => True.intro

theorem onicPfMboxConfigQueue_touches :
    (onicPfMboxConfigQueue mapped vfs srcFuncId req).Steps (Touches (OfRequester vfs srcFuncId)) := by
  unfold onicPfMboxConfigQueue
  dsimp only
  split
  · exact True.intro
  · split
    · exact True.intro
    · rename_i dev lookup
      split
      · exact True.intro
      · split
        · exact True.intro
        · split
          · exact map_touches (requester_steps lookup (onicQdmaInitTxQueue_touches _)) _
          · split
            · split
              · exact True.intro
              · split
                · exact True.intro
                · exact map_touches (requester_steps lookup (onicQdmaInitRxQueue_touches _)) _
            · exact True.intro

theorem onicPfMboxClearQueue_touches :
    (onicPfMboxClearQueue mapped vfs srcFuncId req).Steps (Touches (OfRequester vfs srcFuncId)) := by
  unfold onicPfMboxClearQueue
  dsimp only
  split
  · exact True.intro
  · split
    · exact True.intro
    · rename_i dev lookup
      split
      · exact (requester_steps lookup onicQdmaClearTxQueue_touches).bind fun _ => True.intro
      · split
        · exact (requester_steps lookup onicQdmaClearRxQueue_touches).bind fun _ => True.intro
        · exact True.intro

/-- A request touches the contexts of the function it comes from and no other. -/
theorem handleRequest_touches : (handleRequest mapped vfs srcFuncId req).Steps (Touches (OfRequester vfs srcFuncId)) := by
  unfold handleRequest
  dsimp only
  split
  · split
    · exact True.intro
    · exact True.intro
  · split
    · exact onicPfMboxConfigQueue_touches
    · split
      · exact onicPfMboxClearQueue_touches
      · exact True.intro

end

end OpenNic
