import OpenNic.Qdma.Queue

namespace OpenNic

/-- What the hardware takes out of one word of a context. -/
def hwField (high low : Nat) (word : Word) : BitVec 64 := bitfieldGet (genmask high low) (word.setWidth 64)

def hwSwDescBase (words : Nat → Word) : BitVec 64 :=
  (hwField 31 0 (words 3) <<< 32) ||| hwField 31 0 (words 2)

def hwSwRngszIdx (words : Nat → Word) : Nat := (hwField 15 12 (words 1)).toNat

def hwSwVec (words : Nat → Word) : BitVec 64 := hwField 10 0 (words 4)

/-- A completion ring's base has no bits below its page. -/
def hwCmplBaddr (words : Nat → Word) : BitVec 64 :=
  (hwField 25 0 (words 2) <<< 38) ||| (hwField 31 6 (words 1) <<< 12)

def hwCmplRngszIdx (words : Nat → Word) : Nat := (hwField 31 28 (words 0)).toNat

def hwCmplVec (words : Nat → Word) : BitVec 64 := hwField 14 4 (words 4)

def hwPfchBufszIdx (words : Nat → Word) : Nat := (hwField 4 1 (words 0)).toNat

section

variable {high low : Nat}

theorem hwField_or (a b : Word) : hwField high low (a ||| b) = hwField high low a ||| hwField high low b := by
  rw [hwField, BitVec.setWidth_or, bitfieldGet_or]
  rfl

theorem hwField_same {w : Nat} (small : high < 32) (ordered : low ≤ high) (val : BitVec w)
    (fits : w ≤ high + 1 - low) : hwField high low (field (genmask high low) val) = val.setWidth 64 :=
  fieldGet_same small ordered val fits

theorem hwField_other {high' low' w : Nat} (small : high < 32) (ordered : low ≤ high) (small' : high' < 64)
    (ordered' : low' ≤ high') (apart : high < low' ∨ high' < low) (val : BitVec w) :
    hwField high low (field (genmask high' low') val) = 0#64 :=
  fieldGet_other small ordered small' ordered' apart val

/-- A part of an address on its way through a field of the same width. -/
theorem hwField_part {high' low' : Nat} (small : high < 32) (ordered : low ≤ high) (small' : high' < 64)
    (ordered' : low' ≤ high') (same : high' - low' = high - low) (addr : BitVec 64) :
    hwField high low (field (genmask high low) ((bitfieldGet (genmask high' low') addr).setWidth 32)) =
      bitfieldGet (genmask high' low') addr := by
  have fits : (bitfieldGet (genmask high' low') addr).toNat < 2 ^ (high + 1 - low) := by
    apply Nat.lt_pow_two_of_testBit
    intro i above
    have outside : ¬ low' + i ≤ high' := by omega
    rw [BitVec.testBit_toNat, getLsbD_bitfieldGet small' ordered']
    simp [outside]
  have narrow : 2 ^ (high + 1 - low) ≤ 2 ^ 32 := Nat.pow_le_pow_right (by decide) (by omega)
  have kept : ((bitfieldGet (genmask high' low') addr).setWidth 32).setWidth 64 =
      bitfieldGet (genmask high' low') addr := by
    apply BitVec.eq_of_toNat_eq
    rw [BitVec.toNat_setWidth, BitVec.toNat_setWidth, Nat.mod_eq_of_lt (fits.trans_le narrow),
      Nat.mod_eq_of_lt (by omega)]
  rw [hwField, field, bitfieldGet_word small ordered, kept]
  exact bitfieldGet_fieldSet_of_lt (by omega) ordered _ fits

end

/-- The bits within a page of an address that begins one. -/
theorem low_of_aligned {addr : BitVec 64} (aligned : addr.toNat % 4096 = 0) {i : Nat} (less : i < 12) :
    addr.getLsbD i = false := by
  have page : addr.toNat % 2 ^ 12 = 0 := aligned
  have bit : (addr.toNat % 2 ^ 12).testBit i = false := by rw [page, Nat.zero_testBit]
  rw [Nat.testBit_mod_two_pow, BitVec.testBit_toNat] at bit
  simpa only [less, decide_true, Bool.true_and] using bit

section

variable (ctxt : SwCtxt)

theorem SwCtxt.hw_descBase : hwSwDescBase (fun i => ctxt.words.getD i 0) = ctxt.descBase := by
  simp only [hwSwDescBase, SwCtxt.words, List.getD_cons_succ, List.getD_cons_zero]
  simp (disch := decide) only [hwField_part]
  apply BitVec.eq_of_getLsbD_eq
  intro i small
  rw [BitVec.getLsbD_or, BitVec.getLsbD_shiftLeft, getLsbD_bitfieldGet (by decide) (by decide),
    getLsbD_bitfieldGet (by decide) (by decide)]
  by_cases lower : i < 32
  · simp [lower, show i ≤ 31 by omega]
  · simp [small, lower, show ¬ i ≤ 31 by omega, show 32 + (i - 32) = i by omega, show i ≤ 63 by omega]

theorem SwCtxt.hw_rngszIdx : hwSwRngszIdx (fun i => ctxt.words.getD i 0) = ctxt.rngszIdx.toNat := by
  simp only [hwSwRngszIdx, SwCtxt.words, List.getD_cons_succ, List.getD_cons_zero, hwField_or]
  simp (disch := decide) only [bit_eq_genmask, hwField_other, hwField_same, BitVec.or_zero, BitVec.zero_or]
  rw [BitVec.toNat_setWidth, Nat.mod_eq_of_lt (ctxt.rngszIdx.isLt.trans (by decide))]

theorem SwCtxt.hw_vec : hwSwVec (fun i => ctxt.words.getD i 0) = ctxt.vec.setWidth 64 := by
  simp only [hwSwVec, SwCtxt.words, List.getD_cons_succ, List.getD_cons_zero, hwField_or]
  simp (disch := decide) only [bit_eq_genmask, hwField_other, hwField_same, BitVec.or_zero]

end

section

variable (ctxt : CmplCtxt)

theorem CmplCtxt.hw_baddr (aligned : ∀ i, i < 12 → ctxt.baddr.getLsbD i = false) :
    hwCmplBaddr (fun i => ctxt.words.getD i 0) = ctxt.baddr := by
  simp only [hwCmplBaddr, CmplCtxt.words, List.getD_cons_succ, List.getD_cons_zero, hwField_or]
  simp (disch := decide) only [hwField_part, hwField_other, BitVec.or_zero]
  apply BitVec.eq_of_getLsbD_eq
  intro i small
  rw [BitVec.getLsbD_or, BitVec.getLsbD_shiftLeft, BitVec.getLsbD_shiftLeft,
    getLsbD_bitfieldGet (by decide) (by decide), getLsbD_bitfieldGet (by decide) (by decide)]
  by_cases page : i < 12
  · simp [aligned i page, page, show i < 38 by omega]
  · by_cases lower : i < 38
    · simp [small, page, lower, show 12 + (i - 12) = i by omega, show i ≤ 37 by omega]
    · simp [small, page, lower, show 38 + (i - 38) = i by omega, show 12 + (i - 12) = i by omega,
        show i ≤ 63 by omega, show ¬ i ≤ 37 by omega]

theorem CmplCtxt.hw_rngszIdx : hwCmplRngszIdx (fun i => ctxt.words.getD i 0) = ctxt.rngszIdx.toNat := by
  simp only [hwCmplRngszIdx, CmplCtxt.words, List.getD_cons_zero, hwField_or]
  simp (disch := decide) only [bit_eq_genmask, hwField_other, hwField_same, BitVec.or_zero, BitVec.zero_or]
  rw [BitVec.toNat_setWidth, Nat.mod_eq_of_lt (ctxt.rngszIdx.isLt.trans (by decide))]

theorem CmplCtxt.hw_vec : hwCmplVec (fun i => ctxt.words.getD i 0) = ctxt.vec.setWidth 64 := by
  simp only [hwCmplVec, CmplCtxt.words, List.getD_cons_succ, List.getD_cons_zero, hwField_or]
  simp (disch := decide) only [bit_eq_genmask, hwField_other, hwField_same, BitVec.or_zero, BitVec.zero_or]

end

theorem PfchCtxt.hw_bufszIdx (ctxt : PfchCtxt) :
    hwPfchBufszIdx (fun i => ctxt.words.getD i 0) = ctxt.bufszIdx.toNat := by
  simp only [hwPfchBufszIdx, PfchCtxt.words, List.getD_cons_zero, hwField_or]
  simp (disch := decide) only [bit_eq_genmask, hwField_other, hwField_same, BitVec.or_zero, BitVec.zero_or]
  rw [BitVec.toNat_setWidth, Nat.mod_eq_of_lt (ctxt.bufszIdx.isLt.trans (by decide))]

/-- What `orClear` issues: invalidations and the calls' own commands, all of those where
    it succeeds. -/
theorem orClear_issued {cleanup : Program CtxtEngine Input Unit}
    (clears : Program.Keeps (AllIssued fun c => c.cmd.op = CtxtCmdOp.inv.code) cleanup)
    (calls : List (CtxtCmd × List Word)) {e e' : CtxtEngine} {rv : Int}
    (ran : Program.Exec (orClear cleanup (calls.map fun call => writeCtxt call.1 call.2)) e rv e') :
    ∃ cmds, CtxtEngine.Issued cmds e e' ∧
      (∀ c ∈ cmds, c.cmd.op = CtxtCmdOp.inv.code ∨ ∃ call ∈ calls, c.cmd = call.1 ∧ c.Carries call.2) ∧
      (rv = -EBUSY ∨ rv = 0 ∧ ∀ call ∈ calls, ∃ c ∈ cmds, c.cmd = call.1 ∧ c.Carries call.2) := by
  induction calls generalizing e with
  | nil =>
    obtain ⟨rfl, rfl⟩ := Program.exec_done.mp ran
    exact ⟨[], .nil rfl rfl, by simp, .inr ⟨rfl, by simp⟩⟩
  | cons call calls ih =>
    obtain ⟨rv', mid, first, ran⟩ := Program.exec_bind.mp ran
    obtain ⟨r, program, is⟩ := Program.exec_map.mp first
    subst is
    obtain ⟨c, is_cmd, carries, issued⟩ := qdmaProgramCtxt_issued program
    rcases qdmaProgramCtxt_returns program with ok | busy
    · rw [ok, if_neg (by decide)] at ran
      obtain ⟨cmds, rest, each, ends⟩ := ih ran
      refine ⟨c :: cmds, issued.trans rest, fun c' mem => ?_, ?_⟩
      · rcases List.mem_cons.mp mem with rfl | mem
        · exact .inr ⟨call, List.mem_cons_self, is_cmd, carries⟩
        · rcases each c' mem with inv | ⟨call', there, same⟩
          · exact .inl inv
          · exact .inr ⟨call', List.mem_cons_of_mem _ there, same⟩
      · refine ends.imp_right fun ⟨zero, all⟩ => ⟨zero, fun call' there => ?_⟩
        rcases List.mem_cons.mp there with rfl | there
        · exact ⟨c, List.mem_cons_self, is_cmd, carries⟩
        · obtain ⟨c', mem, same⟩ := all call' there
          exact ⟨c', List.mem_cons_of_mem _ mem, same⟩
    · rw [busy, if_pos (by decide)] at ran
      obtain ⟨_, last, clear, ran⟩ := Program.exec_bind.mp ran
      obtain ⟨rfl, rfl⟩ := Program.exec_done.mp ran
      obtain ⟨cmds, rest, each⟩ := clears _ _ _ clear
      refine ⟨c :: cmds, issued.trans rest, fun c' mem => ?_, .inl rfl⟩
      rcases List.mem_cons.mp mem with rfl | mem
      · exact .inr ⟨call, List.mem_cons_self, is_cmd, carries⟩
      · exact .inl (each c' mem)

/-- The calls that write a context. -/
def writesOf (calls : List (CtxtCmd × List Word)) : List (CtxtCmd × List Word) :=
  calls.filter fun call => call.1.op = CtxtCmdOp.wr.code

theorem orClear_writes {cleanup : Program CtxtEngine Input Unit}
    (clears : Program.Keeps (AllIssued fun c => c.cmd.op = CtxtCmdOp.inv.code) cleanup)
    (calls : List (CtxtCmd × List Word)) {e e' : CtxtEngine} {rv : Int}
    (ran : Program.Exec (orClear cleanup (calls.map fun call => writeCtxt call.1 call.2)) e rv e') :
    ∃ cmds, CtxtEngine.Issued cmds e e' ∧
      (∀ c ∈ cmds, c.cmd.op = CtxtCmdOp.wr.code → ∃ call ∈ writesOf calls, c.cmd = call.1 ∧ c.Carries call.2) ∧
      (rv = -EBUSY ∨ rv = 0 ∧ ∀ call ∈ writesOf calls, ∃ c ∈ cmds, c.cmd = call.1) := by
  obtain ⟨cmds, issued, each, ends⟩ := orClear_issued clears calls ran
  refine ⟨cmds, issued, fun c mem wr => ?_, ends.imp_right fun ⟨ok, all⟩ => ⟨ok, fun call there => ?_⟩⟩
  · rcases each c mem with inv | ⟨call, there, is_cmd, carries⟩
    · rw [wr] at inv
      cases inv
    · exact ⟨call, List.mem_filter.mpr ⟨there, decide_eq_true (is_cmd ▸ wr)⟩, is_cmd, carries⟩
  · obtain ⟨c, mem, is_cmd, -⟩ := all call (List.mem_filter.mp there).1
    exact ⟨c, mem, is_cmd⟩

section

variable (qdev : QdmaDev) (qid : BitVec 16)

theorem invalidate_keeps (sel : CtxtCmdSel) :
    Program.Keeps (AllIssued fun c => c.cmd.op = CtxtCmdOp.inv.code) (clearCtxt (queueCmd qdev qid sel .inv)) :=
  writeCtxt_keeps fun c is_cmd _ => by rw [is_cmd, queueCmd_op]

theorem onicQdmaClearTxQueue_inv :
    Program.Keeps (AllIssued fun c => c.cmd.op = CtxtCmdOp.inv.code) (onicQdmaClearTxQueue qdev qid) := by
  apply Program.Keeps.bind AllIssued.trans (invalidate_keeps qdev qid _)
  intro _
  apply Program.Keeps.bind AllIssued.trans (invalidate_keeps qdev qid _)
  intro _
  apply Program.Keeps.bind AllIssued.trans (invalidate_keeps qdev qid _)
  exact fun _ => .done AllIssued.refl ()

theorem onicQdmaClearRxQueue_inv :
    Program.Keeps (AllIssued fun c => c.cmd.op = CtxtCmdOp.inv.code) (onicQdmaClearRxQueue qdev qid) := by
  apply Program.Keeps.bind AllIssued.trans (invalidate_keeps qdev qid _)
  intro _
  apply Program.Keeps.bind AllIssued.trans (invalidate_keeps qdev qid _)
  intro _
  apply Program.Keeps.bind AllIssued.trans (invalidate_keeps qdev qid _)
  intro _
  apply Program.Keeps.bind AllIssued.trans (invalidate_keeps qdev qid _)
  intro _
  apply Program.Keeps.bind AllIssued.trans (invalidate_keeps qdev qid _)
  exact fun _ => .done AllIssued.refl ()

theorem onicQdmaInitTxQueue_writes {param : H2cParam} {e e' : CtxtEngine} {rv : Int}
    (ran : Program.Exec (onicQdmaInitTxQueue qdev qid param) e rv e') :
    ∃ cmds, CtxtEngine.Issued cmds e e' ∧
      (∀ c ∈ cmds, c.cmd.op = CtxtCmdOp.wr.code →
        c.cmd = queueCmd qdev qid .swH2c .wr ∧ c.Carries (txSwCtxt qdev param).words) ∧
      (rv = -EBUSY ∨ rv = 0 ∧ ∃ c ∈ cmds, c.cmd = queueCmd qdev qid .swH2c .wr) := by
  obtain ⟨cmds, issued, writes, ends⟩ := orClear_writes (onicQdmaClearTxQueue_inv qdev qid)
    [(queueCmd qdev qid .swH2c .clr, []), (queueCmd qdev qid .swH2c .wr, (txSwCtxt qdev param).words),
      (queueCmd qdev qid .hwH2c .clr, []), (queueCmd qdev qid .crH2c .clr, [])] ran
  refine ⟨cmds, issued, fun c mem wr => ?_, ends.imp_right fun ⟨ok, all⟩ => ⟨ok, all _ List.mem_cons_self⟩⟩
  obtain ⟨call, there, same⟩ := writes c mem wr
  obtain rfl := List.mem_singleton.mp there
  exact same

theorem onicQdmaInitRxQueue_writes {param : C2hParam} {e e' : CtxtEngine} {rv : Int}
    (ran : Program.Exec (onicQdmaInitRxQueue qdev qid param) e rv e') :
    ∃ cmds, CtxtEngine.Issued cmds e e' ∧
      (∀ c ∈ cmds, c.cmd.op = CtxtCmdOp.wr.code → ∃ call ∈ [
        (queueCmd qdev qid .swC2h .wr, (rxSwCtxt qdev param).words),
        (queueCmd qdev qid .pfch .wr, (rxPfchCtxt param).words),
        (queueCmd qdev qid .cmpl .wr, (rxCmplCtxt qdev param).words)], c.cmd = call.1 ∧ c.Carries call.2) ∧
      (rv = -EBUSY ∨ rv = 0 ∧ ∀ sel ∈ [CtxtCmdSel.swC2h, .pfch, .cmpl], ∃ c ∈ cmds, c.cmd = queueCmd qdev qid sel .wr) := by
  obtain ⟨cmds, issued, writes, ends⟩ := orClear_writes (onicQdmaClearRxQueue_inv qdev qid)
    [(queueCmd qdev qid .swC2h .clr, []), (queueCmd qdev qid .swC2h .wr, (rxSwCtxt qdev param).words),
      (queueCmd qdev qid .hwC2h .clr, []), (queueCmd qdev qid .crC2h .clr, []), (queueCmd qdev qid .pfch .clr, []),
      (queueCmd qdev qid .pfch .wr, (rxPfchCtxt param).words), (queueCmd qdev qid .cmpl .clr, []),
      (queueCmd qdev qid .cmpl .wr, (rxCmplCtxt qdev param).words)] ran
  refine ⟨cmds, issued, writes, ends.imp_right fun ⟨ok, all⟩ => ⟨ok, fun sel mem => ?_⟩⟩
  simp only [List.mem_cons, List.not_mem_nil, or_false] at mem
  rcases mem with rfl | rfl | rfl
  · exact all _ List.mem_cons_self
  · exact all _ (List.mem_cons_of_mem _ List.mem_cons_self)
  · exact all _ (List.mem_cons_of_mem _ (List.mem_cons_of_mem _ List.mem_cons_self))

end

end OpenNic
