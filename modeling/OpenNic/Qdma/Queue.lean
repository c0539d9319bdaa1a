import OpenNic.Qdma.Context

namespace OpenNic

def rngcntPool : List Nat :=
  [4096, 64, 128, 192, 256, 384, 512, 768, 1024, 1536, 3072, 4096, 6144, 8192, 12288, 16384]

def c2hBufszPool : List Nat :=
  [4096, 256, 512, 1024, 2048, 3968, 4096, 4096, 4096, 4096, 4096, 4096, 4096, 8192, 9018, 16384]

/-- `struct onic_qdma_h2c_param` -/
structure H2cParam where
  rngcntIdx : BitVec 8
  dmaAddr : BitVec 64
  vid : BitVec 16

/-- `struct onic_qdma_c2h_param` -/
structure C2hParam where
  bufszIdx : BitVec 8
  descRngcntIdx : BitVec 8
  cmplRngcntIdx : BitVec 8
  cmplDescSz : BitVec 8
  descDmaAddr : BitVec 64
  cmplDmaAddr : BitVec 64
  vid : BitVec 16

/-- `rv = ...; if (rv < 0) goto cleanup;` for each call in turn. -/
def orClear (cleanup : Program CtxtEngine Input Unit) :
    List (Program CtxtEngine Input Int) → Program CtxtEngine Input Int
  | [] => .done 0
  | call :: calls => do
    let rv ← call
    if rv < 0 then
      cleanup
      .done rv
    else orClear cleanup calls

def onicQdmaClearTxQueue (qdev : QdmaDev) (qid : BitVec 16) : Program CtxtEngine Input Unit := do
  let _ ← qdmaInvalidateSwCtxt qdev qid .h2c
  let _ ← qdmaInvalidateHwCtxt qdev qid .h2c
  let _ ← qdmaInvalidateCrCtxt qdev qid .h2c

def onicQdmaClearRxQueue (qdev : QdmaDev) (qid : BitVec 16) : Program CtxtEngine Input Unit := do
  let _ ← qdmaInvalidateSwCtxt qdev qid .c2h
  let _ ← qdmaInvalidateHwCtxt qdev qid .c2h
  let _ ← qdmaInvalidateCrCtxt qdev qid .c2h
  let _ ← qdmaInvalidatePfchCtxt qdev qid
  let _ ← qdmaInvalidateCmplCtxt qdev qid

def txSwCtxt (qdev : QdmaDev) (param : H2cParam) : SwCtxt :=
  { SwCtxt.zero with
    funcId := qdev.funcId.setWidth 8
    qen := 1
    wbkEn := 1
    descSz := 1
    wbiChk := 1
    wbiIntvlEn := 1
    rngszIdx := param.rngcntIdx.setWidth 4
    descBase := param.dmaAddr
    vec := param.vid.setWidth 11 }

/-- The test `qid < 0` before it never holds of a `u16`. -/
def onicQdmaInitTxQueue (qdev : QdmaDev) (qid : BitVec 16) (param : H2cParam) :
    Program CtxtEngine Input Int :=
  orClear (onicQdmaClearTxQueue qdev qid)
    [qdmaClearSwCtxt qdev qid .h2c,
      qdmaWriteSwCtxt qdev qid .h2c (txSwCtxt qdev param),
      qdmaClearHwCtxt qdev qid .h2c,
      qdmaClearCrCtxt qdev qid .h2c]

def rxSwCtxt (qdev : QdmaDev) (param : C2hParam) : SwCtxt :=
  { SwCtxt.zero with
    funcId := qdev.funcId.setWidth 8
    qen := 1
    wbkEn := 1
    fcrdEn := 1
    rngszIdx := param.descRngcntIdx.setWidth 4
    descBase := param.descDmaAddr }

def rxPfchCtxt (param : C2hParam) : PfchCtxt :=
  { PfchCtxt.zero with
    bufszIdx := param.bufszIdx.setWidth 4
    pfchEn := 1
    valid := 1 }

def rxCmplCtxt (qdev : QdmaDev) (param : C2hParam) : CmplCtxt :=
  { CmplCtxt.zero with
    statEn := 1
    intrEn := 1
    trigMode := 0x5
    funcId := qdev.funcId.setWidth 8
    color := 1
    rngszIdx := param.cmplRngcntIdx.setWidth 4
    baddr := param.cmplDmaAddr
    descSz := param.cmplDescSz.setWidth 2
    valid := 1
    vec := param.vid.setWidth 11 }

def onicQdmaInitRxQueue (qdev : QdmaDev) (qid : BitVec 16) (param : C2hParam) :
    Program CtxtEngine Input Int :=
  orClear (onicQdmaClearRxQueue qdev qid)
    [qdmaClearSwCtxt qdev qid .c2h,
      qdmaWriteSwCtxt qdev qid .c2h (rxSwCtxt qdev param),
      qdmaClearHwCtxt qdev qid .c2h,
      qdmaClearCrCtxt qdev qid .c2h,
      qdmaClearPfchCtxt qdev qid,
      qdmaWritePfchCtxt qdev qid (rxPfchCtxt param),
      qdmaClearCmplCtxt qdev qid,
      qdmaWriteCmplCtxt qdev qid (rxCmplCtxt qdev param)]

/-- The function id in a SW or CMPL context that the command writes. -/
def IssuedCmd.funcId (c : IssuedCmd) : Option (BitVec 64) :=
  if c.cmd.op = CtxtCmdOp.wr.code then
    if c.cmd.sel = CtxtCmdSel.swC2h.code ∨ c.cmd.sel = CtxtCmdSel.swH2c.code then
      some (bitfieldGet (genmask 24 17) ((c.data 0).setWidth 64))
    else if c.cmd.sel = CtxtCmdSel.cmpl.code then
      some (bitfieldGet (genmask 12 5) ((c.data 0).setWidth 64))
    else none
  else none

/-- A command on this queue of this function. -/
structure IssuedCmd.OfQueue (qdev : QdmaDev) (qid : BitVec 16) (c : IssuedCmd) : Prop where
  qid : c.cmd.qid = (qdmaGetRealQid qdev qid).setWidth 11
  not_fmap : c.cmd.sel ≠ CtxtCmdSel.fmap.code
  funcId : ∀ f ∈ c.funcId, f = (qdev.funcId.setWidth 8).setWidth 64

/-- Commands that all satisfy `P` were issued, and contexts they do not name kept. -/
def AllIssued (P : IssuedCmd → Prop) (before after : CtxtEngine) : Prop :=
  ∃ cmds, CtxtEngine.Issued cmds before after ∧ ∀ c ∈ cmds, P c

namespace AllIssued

variable {P : IssuedCmd → Prop}

theorem refl (e : CtxtEngine) : AllIssued P e e := ⟨[], .nil rfl rfl, by simp⟩

theorem trans (a b c : CtxtEngine) (h : AllIssued P a b) (h' : AllIssued P b c) : AllIssued P a c := by
  obtain ⟨first, issued, all⟩ := h
  obtain ⟨second, issued', all'⟩ := h'
  refine ⟨first ++ second, issued.trans issued', fun c mem => ?_⟩
  rcases List.mem_append.mp mem with mem | mem
  · exact all c mem
  · exact all' c mem

end AllIssued

theorem fieldGet_same {high low w : Nat} (small : high < 32) (ordered : low ≤ high) (val : BitVec w)
    (fits : w ≤ high + 1 - low) :
    bitfieldGet (genmask high low) ((field (genmask high low) val).setWidth 64) = val.setWidth 64 := by
  rw [field, bitfieldGet_word small ordered]
  apply bitfieldGet_fieldSet_of_lt (by omega) ordered
  have bound : (val.setWidth 64).toNat ≤ val.toNat := by
    rw [BitVec.toNat_setWidth]
    exact Nat.mod_le _ _
  have room : 2 ^ w ≤ 2 ^ (high + 1 - low) := Nat.pow_le_pow_right (by decide) fits
  have := val.isLt
  omega

theorem fieldGet_other {high low high' low' w : Nat} (small : high < 32) (ordered : low ≤ high)
    (small' : high' < 64) (ordered' : low' ≤ high') (apart : high < low' ∨ high' < low)
    (val : BitVec w) :
    bitfieldGet (genmask high low) ((field (genmask high' low') val).setWidth 64) = 0 := by
  rw [field, bitfieldGet_word small ordered]
  exact bitfieldGet_fieldSet_disjoint (by omega) ordered small' ordered' apart _

theorem SwCtxt.words_funcId (ctxt : SwCtxt) :
    bitfieldGet (genmask 24 17) ((ctxt.words.getD 0 0).setWidth 64) = ctxt.funcId.setWidth 64 := by
  simp only [SwCtxt.words, List.getD_cons_zero, BitVec.setWidth_or, bitfieldGet_or,
    bit_eq_genmask (show 16 < 64 by decide)]
  rw [fieldGet_same (by decide) (by decide) ctxt.funcId (by decide),
    fieldGet_other (by decide) (by decide) (by decide) (by decide) (by decide) ctxt.pidx,
    fieldGet_other (by decide) (by decide) (by decide) (by decide) (by decide) ctxt.irqArm]
  simp

theorem CmplCtxt.words_funcId (ctxt : CmplCtxt) :
    bitfieldGet (genmask 12 5) ((ctxt.words.getD 0 0).setWidth 64) = ctxt.funcId.setWidth 64 := by
  have other {high low w : Nat} (small : high < 64) (ordered : low ≤ high)
      (apart : 12 < low ∨ high < 5) (val : BitVec w) :
      bitfieldGet (genmask 12 5) ((field (genmask high low) val).setWidth 64) = 0 :=
    fieldGet_other (by decide) (by decide) small ordered apart val
  simp only [CmplCtxt.words, List.getD_cons_zero, BitVec.setWidth_or, bitfieldGet_or,
    bit_eq_genmask (show 0 < 64 by decide), bit_eq_genmask (show 1 < 64 by decide),
    bit_eq_genmask (show 27 < 64 by decide)]
  rw [fieldGet_same (by decide) (by decide) ctxt.funcId (by decide),
    other (by decide) (by decide) (by decide) ctxt.statEn,
    other (by decide) (by decide) (by decide) ctxt.intrEn,
    other (by decide) (by decide) (by decide) ctxt.trigMode,
    other (by decide) (by decide) (by decide) ctxt.counterIdx,
    other (by decide) (by decide) (by decide) ctxt.timerIdx,
    other (by decide) (by decide) (by decide) ctxt.intrSt,
    other (by decide) (by decide) (by decide) ctxt.color,
    other (by decide) (by decide) (by decide) ctxt.rngszIdx]
  simp

/-- What is shown of one command with its data holds of the call that issues it. -/
theorem writeCtxt_keeps {P : IssuedCmd → Prop} {cmd : CtxtCmd} {data : List Word}
    (holds : ∀ c : IssuedCmd, c.cmd = cmd → c.Carries data → P c) :
    Program.Keeps (AllIssued P) (writeCtxt cmd data) := by
  apply Program.Keeps.map
  intro e r e' ran
  obtain ⟨c, is_cmd, carries, issued⟩ := qdmaProgramCtxt_issued ran
  exact ⟨[c], issued, by simpa using holds c is_cmd carries⟩

section

variable (qdev : QdmaDev) (qid : BitVec 16)

/-- Everything but a SW or CMPL write is a command on the queue by its qid alone. -/
theorem queueCmd_keeps (sel : CtxtCmdSel) (op : CtxtCmdOp) (data : List Word)
    (not_fmap : sel ≠ .fmap)
    (plain : op = .wr → sel ≠ .swC2h ∧ sel ≠ .swH2c ∧ sel ≠ .cmpl) :
    Program.Keeps (AllIssued (IssuedCmd.OfQueue qdev qid)) (writeCtxt (queueCmd qdev qid sel op) data) := by
  apply writeCtxt_keeps
  intro c is_cmd _
  refine ⟨by rw [is_cmd]; rfl, ?_, ?_⟩
  · simpa [is_cmd] using not_fmap
  · have none_written : c.funcId = none := by
      by_cases writes : op = .wr
      · simp [IssuedCmd.funcId, is_cmd, writes, plain writes]
      · simp [IssuedCmd.funcId, is_cmd, writes]
    simp [none_written]

theorem qdmaWriteSwCtxt_keeps (dir : QdmaDir) (ctxt : SwCtxt) (own : ctxt.funcId = qdev.funcId.setWidth 8) :
    Program.Keeps (AllIssued (IssuedCmd.OfQueue qdev qid)) (qdmaWriteSwCtxt qdev qid dir ctxt) := by
  apply writeCtxt_keeps
  intro c is_cmd carries
  have first : c.data 0 = ctxt.words.getD 0 0 := carries (by rw [is_cmd]; rfl) 0 (by decide)
  have written : c.funcId = some ((qdev.funcId.setWidth 8).setWidth 64) := by
    have sel : c.cmd.sel = CtxtCmdSel.swC2h.code ∨ c.cmd.sel = CtxtCmdSel.swH2c.code := by
      rw [is_cmd]
      cases dir
      · exact .inr rfl
      · exact .inl rfl
    rw [IssuedCmd.funcId, if_pos (by rw [is_cmd]; rfl), if_pos sel, first, SwCtxt.words_funcId, own]
  refine ⟨by rw [is_cmd]; rfl, ?_, by simp [written]⟩
  cases dir <;> simp [is_cmd, swSel]

theorem qdmaWriteCmplCtxt_keeps (ctxt : CmplCtxt) (own : ctxt.funcId = qdev.funcId.setWidth 8) :
    Program.Keeps (AllIssued (IssuedCmd.OfQueue qdev qid)) (qdmaWriteCmplCtxt qdev qid ctxt) := by
  apply writeCtxt_keeps
  intro c is_cmd carries
  have first : c.data 0 = ctxt.words.getD 0 0 := carries (by rw [is_cmd]; rfl) 0 (by decide)
  have written : c.funcId = some ((qdev.funcId.setWidth 8).setWidth 64) := by
    have not_sw : ¬ (c.cmd.sel = CtxtCmdSel.swC2h.code ∨ c.cmd.sel = CtxtCmdSel.swH2c.code) := by
      simp [is_cmd]
    rw [IssuedCmd.funcId, if_pos (by rw [is_cmd]; rfl), if_neg not_sw,
      if_pos (by rw [is_cmd]; rfl), first, CmplCtxt.words_funcId, own]
  exact ⟨by rw [is_cmd]; rfl, by simp [is_cmd], by simp [written]⟩

theorem orClear_keeps {P : IssuedCmd → Prop} {cleanup : Program CtxtEngine Input Unit}
    {calls : List (Program CtxtEngine Input Int)} (clears : Program.Keeps (AllIssued P) cleanup)
    (each : ∀ call ∈ calls, Program.Keeps (AllIssued P) call) :
    Program.Keeps (AllIssued P) (orClear cleanup calls) := by
  induction calls with
  | nil => exact .done AllIssued.refl 0
  | cons call calls ih =>
    apply Program.Keeps.bind AllIssued.trans (each call (by simp))
    intro rv
    split
    · exact .bind AllIssued.trans clears fun _ => .done AllIssued.refl rv
    · exact ih fun call mem => each call (List.mem_cons_of_mem _ mem)

theorem onicQdmaClearTxQueue_keeps :
    Program.Keeps (AllIssued (IssuedCmd.OfQueue qdev qid)) (onicQdmaClearTxQueue qdev qid) := by
  apply Program.Keeps.bind AllIssued.trans (queueCmd_keeps qdev qid _ .inv [] (by decide) (by decide))
  intro _
  apply Program.Keeps.bind AllIssued.trans (queueCmd_keeps qdev qid _ .inv [] (by decide) (by decide))
  intro _
  apply Program.Keeps.bind AllIssued.trans (queueCmd_keeps qdev qid _ .inv [] (by decide) (by decide))
  exact fun _ => .done AllIssued.refl ()

theorem onicQdmaClearRxQueue_keeps :
    Program.Keeps (AllIssued (IssuedCmd.OfQueue qdev qid)) (onicQdmaClearRxQueue qdev qid) := by
  apply Program.Keeps.bind AllIssued.trans (queueCmd_keeps qdev qid _ .inv [] (by decide) (by decide))
  intro _
  apply Program.Keeps.bind AllIssued.trans (queueCmd_keeps qdev qid _ .inv [] (by decide) (by decide))
  intro _
  apply Program.Keeps.bind AllIssued.trans (queueCmd_keeps qdev qid _ .inv [] (by decide) (by decide))
  intro _
  apply Program.Keeps.bind AllIssued.trans (queueCmd_keeps qdev qid _ .inv [] (by decide) (by decide))
  intro _
  apply Program.Keeps.bind AllIssued.trans (queueCmd_keeps qdev qid _ .inv [] (by decide) (by decide))
  exact fun _ => .done AllIssued.refl ()

/-- On success and on every error path only this queue's contexts are touched, and
    they carry the function's own id. -/
theorem onicQdmaInitTxQueue_keeps (param : H2cParam) :
    Program.Keeps (AllIssued (IssuedCmd.OfQueue qdev qid)) (onicQdmaInitTxQueue qdev qid param) := by
  apply orClear_keeps (onicQdmaClearTxQueue_keeps qdev qid)
  simp only [List.mem_cons, List.not_mem_nil, or_false]
  rintro call (rfl | rfl | rfl | rfl)
  · exact queueCmd_keeps qdev qid _ .clr [] (by decide) (by decide)
  · exact qdmaWriteSwCtxt_keeps qdev qid .h2c _ rfl
  · exact queueCmd_keeps qdev qid _ .clr [] (by decide) (by decide)
  · exact queueCmd_keeps qdev qid _ .clr [] (by decide) (by decide)

theorem onicQdmaInitRxQueue_keeps (param : C2hParam) :
    Program.Keeps (AllIssued (IssuedCmd.OfQueue qdev qid)) (onicQdmaInitRxQueue qdev qid param) := by
  apply orClear_keeps (onicQdmaClearRxQueue_keeps qdev qid)
  simp only [List.mem_cons, List.not_mem_nil, or_false]
  rintro call (rfl | rfl | rfl | rfl | rfl | rfl | rfl | rfl)
  · exact queueCmd_keeps qdev qid _ .clr [] (by decide) (by decide)
  · exact qdmaWriteSwCtxt_keeps qdev qid .c2h _ rfl
  · exact queueCmd_keeps qdev qid _ .clr [] (by decide) (by decide)
  · exact queueCmd_keeps qdev qid _ .clr [] (by decide) (by decide)
  · exact queueCmd_keeps qdev qid _ .clr [] (by decide) (by decide)
  · exact queueCmd_keeps qdev qid _ .wr _ (by decide) (by decide)
  · exact queueCmd_keeps qdev qid _ .clr [] (by decide) (by decide)
  · exact qdmaWriteCmplCtxt_keeps qdev qid _ rfl

end

end OpenNic
