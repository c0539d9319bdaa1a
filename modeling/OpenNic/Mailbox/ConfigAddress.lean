import OpenNic.Mailbox.Isolation
import OpenNic.Vf.ConfigAgreement

namespace OpenNic

theorem PageAligned.of_low {addr : BitVec 64} (low : ∀ i, i < 12 → addr.getLsbD i = false) : PageAligned addr := by
  have none : addr.toNat % 2 ^ 12 = 0 := by
    apply Nat.eq_of_testBit_eq
    intro i
    rw [Nat.testBit_mod_two_pow, BitVec.testBit_toNat, Nat.zero_testBit]
    by_cases less : i < 12
    · simp [low i less]
    · simp [less]
  exact none

/-- The format has no room for the bits within a page. -/
theorem hwCmplBaddr_aligned (words : Nat → Word) : PageAligned (hwCmplBaddr words) := by
  apply PageAligned.of_low
  intro i less
  simp [hwCmplBaddr, less, show i < 38 by omega]

theorem CmplCtxt.hw_baddr_iff (ctxt : CmplCtxt) :
    hwCmplBaddr (fun i => ctxt.words.getD i 0) = ctxt.baddr ↔ PageAligned ctxt.baddr := by
  constructor
  · intro same
    rw [← same]
    exact hwCmplBaddr_aligned _
  · intro aligned
    exact ctxt.hw_baddr fun i less => aligned.low less

theorem IssuedCmd.Carries.hwSwDescBase {c : IssuedCmd} {ctxt : SwCtxt} (carries : c.Carries ctxt.words)
    (wr : c.cmd.op = CtxtCmdOp.wr.code) : hwSwDescBase c.data = ctxt.descBase := by
  rw [OpenNic.hwSwDescBase, carries wr _ (by decide), carries wr _ (by decide)]
  exact ctxt.hw_descBase

theorem IssuedCmd.Carries.hwCmplBaddr {c : IssuedCmd} {ctxt : CmplCtxt} (carries : c.Carries ctxt.words)
    (wr : c.cmd.op = CtxtCmdOp.wr.code) : hwCmplBaddr c.data = hwCmplBaddr fun i => ctxt.words.getD i 0 := by
  rw [OpenNic.hwCmplBaddr, OpenNic.hwCmplBaddr, carries wr _ (by decide), carries wr _ (by decide)]

/-- A command that writes a context of this kind. -/
def IssuedCmd.Writes (c : IssuedCmd) (sel : CtxtCmdSel) : Prop :=
  c.cmd.op = CtxtCmdOp.wr.code ∧ c.cmd.sel = sel.code

/-- The SW and the CMPL context are written, and they hold the addresses that the request names. -/
structure RxAddressesStored (cfg : QueueCfg) (cmds : List IssuedCmd) : Prop where
  sw : ∃ c ∈ cmds, c.Writes .swC2h
  cmpl : ∃ c ∈ cmds, c.Writes .cmpl
  descBase : ∀ c ∈ cmds, c.Writes .swC2h → hwSwDescBase c.data = onicPfMboxDmaAddr cfg.descDmaLo cfg.descDmaHi
  baddr : ∀ c ∈ cmds, c.Writes .cmpl → hwCmplBaddr c.data = onicPfMboxDmaAddr cfg.cmplDmaLo cfg.cmplDmaHi

section

variable {req resp : Msg} {e e' : CtxtEngine} {err : Int}

/-- A request that some check refuses is not answered with status OK. -/
theorem Refused.not_ok {p : Program CtxtEngine Input (Int × Msg)} (refused : Refused p)
    (ran : Program.Exec p e (err, resp) e') : resp.status ≠ stsOk := by
  rcases refused with ⟨err', resp', rfl, status⟩
  have same : resp = resp' := congrArg Prod.snd (Program.exec_done.mp ran).1
  rw [same, status]
  decide

theorem onicPfMboxConfigQueue_rx_cases (mapped : Bool) (vfs : VfTable) (srcFuncId : BitVec 16)
    (rx : req.qcfg.dir = queueDirRx) :
    Refused (onicPfMboxConfigQueue mapped vfs srcFuncId req) ∨
    ∃ qdev : QdmaDev, onicPfMboxConfigQueue mapped vfs srcFuncId req =
      okUnless (onicPfMboxInitQueueCmdResp opConfigQueueResp req.seq req.qcfg.qid req.qcfg.dir) <$>
        onicQdmaInitRxQueue qdev (req.qcfg.qid.setWidth 16) (c2hParam req.qcfg
          (onicPfMboxDmaAddr req.qcfg.descDmaLo req.qcfg.descDmaHi)
          (onicPfMboxDmaAddr req.qcfg.cmplDmaLo req.qcfg.cmplDmaHi)) := by
  have refused (err : Int) :
      Refused (.done (err, onicPfMboxInitQueueCmdResp opConfigQueueResp req.seq req.qcfg.qid req.qcfg.dir)) :=
    ⟨err, _, rfl, initQueueCmdResp_status _ _ _ _⟩
  have not_tx : req.qcfg.dir ≠ queueDirTx := by
    rw [rx]
    decide
  simp only [onicPfMboxConfigQueue, if_neg not_tx, if_pos rx]
  split
  · exact .inl (refused _)
  · split
    · exact .inl (refused _)
    · rename_i qdev _
      split
      · exact .inl (refused _)
      · split
        · exact .inl (refused _)
        · split
          · exact .inl (refused _)
          · split
            · exact .inl (refused _)
            · exact .inr ⟨qdev, rfl⟩

theorem okUnless_ok {p : Program CtxtEngine Input Int} {init : Msg} (status : init.status = stsErr)
    (ran : Program.Exec (okUnless init <$> p) e (err, resp) e') (ok : resp.status = stsOk) : Program.Exec p e 0 e' := by
  rcases Program.exec_map.mp ran with ⟨rv, first, is⟩
  simp only [okUnless, Prod.mk.injEq] at is
  by_cases zero : rv = 0
  · exact zero ▸ first
  · have same : resp = init := by simpa [zero] using is.2
    rw [same, status] at ok
    exact absurd ok (by decide)

end

theorem onicQdmaInitRxQueue_stores {qdev : QdmaDev} {qid : BitVec 16} {param : C2hParam} {e e' : CtxtEngine}
    (ran : Program.Exec (onicQdmaInitRxQueue qdev qid param) e 0 e') :
    ∃ cmds, CtxtEngine.Issued cmds e e' ∧ (∃ c ∈ cmds, c.Writes .swC2h) ∧ (∃ c ∈ cmds, c.Writes .cmpl) ∧
      (∀ c ∈ cmds, c.Writes .swC2h → hwSwDescBase c.data = param.descDmaAddr) ∧
      ∀ c ∈ cmds, c.Writes .cmpl → hwCmplBaddr c.data = hwCmplBaddr fun i => (rxCmplCtxt qdev param).words.getD i 0 := by
  rcases onicQdmaInitRxQueue_writes _ _ ran with ⟨cmds, issued, writes, busy | ⟨-, all⟩⟩
  · cases busy
  · refine ⟨cmds, issued, ?_, ?_, fun c mem is => ?_, fun c mem is => ?_⟩
    · rcases all .swC2h (by simp) with ⟨c, mem, is_cmd⟩
      exact ⟨c, mem, by rw [is_cmd, queueCmd_op], by rw [is_cmd, queueCmd_sel]⟩
    · rcases all .cmpl (by simp) with ⟨c, mem, is_cmd⟩
      exact ⟨c, mem, by rw [is_cmd, queueCmd_op], by rw [is_cmd, queueCmd_sel]⟩
    · have sel := is.2
      rcases writes c mem is.1 with ⟨call, there, is_cmd, carries⟩
      simp only [List.mem_cons, List.not_mem_nil, or_false] at there
      rcases there with rfl | rfl | rfl
      · exact carries.hwSwDescBase is.1
      · simp [is_cmd] at sel
      · simp [is_cmd] at sel
    · have sel := is.2
      rcases writes c mem is.1 with ⟨call, there, is_cmd, carries⟩
      simp only [List.mem_cons, List.not_mem_nil, or_false] at there
      rcases there with rfl | rfl | rfl
      · simp [is_cmd] at sel
      · simp [is_cmd] at sel
      · exact carries.hwCmplBaddr is.1

/-- A request of direction RX that the PF answers with status OK has its addresses stored if and only
    if the completion ring's begins a page; the check before asks for a multiple of 64. -/
theorem pf_rx_addresses_stored_iff {mapped : Bool} {vfs : VfTable} {srcFuncId : BitVec 16} {req resp : Msg}
    {e e' : CtxtEngine} {err : Int} (rx : req.qcfg.dir = queueDirRx)
    (ran : Program.Exec (onicPfMboxConfigQueue mapped vfs srcFuncId req) e (err, resp) e') (ok : resp.status = stsOk) :
    ∃ cmds, CtxtEngine.Issued cmds e e' ∧
      (RxAddressesStored req.qcfg cmds ↔ PageAligned (onicPfMboxDmaAddr req.qcfg.cmplDmaLo req.qcfg.cmplDmaHi)) := by
  rcases onicPfMboxConfigQueue_rx_cases mapped vfs srcFuncId rx with refused | ⟨qdev, accepted⟩
  · exact absurd ok (refused.not_ok ran)
  · rw [accepted] at ran
    have init := okUnless_ok (initQueueCmdResp_status ..) ran ok
    rcases onicQdmaInitRxQueue_stores init with ⟨cmds, issued, sw, cmpl, descBase, baddr⟩
    refine ⟨cmds, issued, fun stored => ?_, fun aligned => ?_⟩
    · rcases cmpl with ⟨c, mem, is⟩
      rw [← stored.baddr c mem is]
      exact hwCmplBaddr_aligned _
    · refine ⟨sw, cmpl, descBase, fun c mem is => ?_⟩
      rw [baddr c mem is]
      exact (CmplCtxt.hw_baddr_iff _).mpr aligned

/-- The request of a VF for its queue 0, with the completion ring at this address. -/
def rxConfigAt (cmplDmaLo : Word) : Msg :=
  configRequest ⟨0, queueDirRx, 0, 8, 4, 8, 0, 0, 0x10000, 0, cmplDmaLo, 0⟩

theorem pf_rx_addresses_stored_page : ∃ e' cmds,
    CtxtEngine.Issued cmds (PfSys.withRequests oneVf []).engine e' ∧
    (RxAddressesStored (rxConfigAt 0x20000).qcfg cmds ↔ PageAligned (onicPfMboxDmaAddr 0x20000 0)) := by
  have seen : ((onicPfMboxConfigQueue true oneVf 4 (rxConfigAt 0x20000)).eval ⟨0, true⟩
      (PfSys.withRequests oneVf []).engine).map (fun r => r.1.2.status) = some stsOk := by decide +kernel
  rcases Option.map_eq_some_iff.mp seen with ⟨⟨⟨err, resp⟩, e'⟩, ran, ok⟩
  exact ⟨e', pf_rx_addresses_stored_iff (by decide) (.of_eval ran) ok⟩

/-- A completion ring at a multiple of 64 that begins no page is accepted, and the context has the
    address of the page. -/
theorem pf_rx_unaligned_accepted : ∃ err resp e',
    Program.Exec (onicPfMboxConfigQueue true oneVf 4 (rxConfigAt 0x20040)) (PfSys.withRequests oneVf []).engine (err, resp) e' ∧
    resp.status = stsOk ∧ ∃ c ∈ e'.issued, c.Writes .cmpl ∧ hwCmplBaddr c.data = 0x20000 := by
  have seen : ((onicPfMboxConfigQueue true oneVf 4 (rxConfigAt 0x20040)).eval ⟨0, true⟩
      (PfSys.withRequests oneVf []).engine).map (fun r => (r.1.2.status, r.2.issued.getLast?.map fun c =>
        (c.cmd.op, c.cmd.sel, hwCmplBaddr c.data))) =
      some (stsOk, some (CtxtCmdOp.wr.code, CtxtCmdSel.cmpl.code, 0x20000)) := by decide +kernel
  rcases Option.map_eq_some_iff.mp seen with ⟨⟨⟨err, resp⟩, e'⟩, ran, values⟩
  simp only [Prod.mk.injEq] at values
  rcases Option.map_eq_some_iff.mp values.2 with ⟨c, last, values'⟩
  simp only [Prod.mk.injEq] at values'
  exact ⟨err, resp, e', .of_eval ran, values.1, c, List.mem_of_getLast? last, ⟨values'.1, values'.2.1⟩, values'.2.2⟩

end OpenNic
