import OpenNic.Common.Kernel
import OpenNic.Program.Resumption

namespace OpenNic

inductive QdmaDir
  | h2c
  | c2h
  deriving DecidableEq

inductive CtxtCmdOp
  | clr
  | wr
  | rd
  | inv
  deriving DecidableEq

def CtxtCmdOp.code : CtxtCmdOp → BitVec 2
  | clr => 0
  | wr => 1
  | rd => 2
  | inv => 3

inductive CtxtCmdSel
  | swC2h
  | swH2c
  | hwC2h
  | hwH2c
  | crC2h
  | crH2c
  | cmpl
  | pfch
  | intrCoal
  | pasidRamLow
  | pasidRamHigh
  | timer
  | fmap
  deriving DecidableEq

def CtxtCmdSel.code : CtxtCmdSel → BitVec 4
  | swC2h => 0
  | swH2c => 1
  | hwC2h => 2
  | hwH2c => 3
  | crC2h => 4
  | crH2c => 5
  | cmpl => 6
  | pfch => 7
  | intrCoal => 8
  | pasidRamLow => 9
  | pasidRamHigh => 10
  | timer => 11
  | fmap => 12

@[simp] theorem CtxtCmdOp.code_inj {op op' : CtxtCmdOp} : op.code = op'.code ↔ op = op' := by
  cases op <;> cases op' <;> decide

@[simp] theorem CtxtCmdSel.code_inj {sel sel' : CtxtCmdSel} : sel.code = sel'.code ↔ sel = sel' := by
  cases sel <;> cases sel' <;> decide

/-- `union qdma_ctxt_cmd` -/
structure CtxtCmd where
  sel : BitVec 4
  op : BitVec 2
  qid : BitVec 11
  deriving DecidableEq

def CtxtCmd.word (cmd : CtxtCmd) : Word :=
  (cmd.sel.setWidth 32 <<< 1) ||| (cmd.op.setWidth 32 <<< 5) ||| (cmd.qid.setWidth 32 <<< 7)

def CtxtCmd.bits (word : Word) : CtxtCmd where
  sel := word.extractLsb' 1 4
  op := word.extractLsb' 5 2
  qid := word.extractLsb' 7 11

@[simp] theorem CtxtCmd.bits_word (cmd : CtxtCmd) : CtxtCmd.bits cmd.word = cmd := by
  obtain ⟨sel, op, qid⟩ := cmd
  simp only [CtxtCmd.bits, CtxtCmd.word, CtxtCmd.mk.injEq]
  refine ⟨?_, ?_, ?_⟩ <;> (apply BitVec.eq_of_getLsbD_eq; intro i small)
  · have wide : 1 + i < 32 := by omega
    simp [small, wide, show 1 + i < 5 by omega, show 1 + i < 7 by omega]
  · have wide : 5 + i < 32 := by omega
    simp [small, wide, show 5 + i < 7 by omega, show 5 + i - 1 = 4 + i by omega]
  · have wide : 7 + i < 32 := by omega
    have sel_clear : sel.getLsbD (6 + i) = false := BitVec.getLsbD_of_ge _ _ (by omega)
    simp [small, wide, sel_clear, show 7 + i - 1 = 6 + i by omega,
      show 7 + i - 5 = 2 + i by omega]

/-- A command as the hardware receives it, with the data registers at that time. -/
structure IssuedCmd where
  cmd : CtxtCmd
  data : Nat → Word

/-- The indirect context registers and the contexts behind them. `issued` is the
    history of the commands. -/
structure CtxtEngine where
  data : Nat → Word
  mask : Nat → Word
  ctxt : BitVec 4 → BitVec 11 → Nat → Word
  ctxtLock : Bool
  issued : List IssuedCmd

namespace CtxtEngine

def setCtxt (e : CtxtEngine) (sel : BitVec 4) (qid : BitVec 11) (words : Nat → Word) : CtxtEngine :=
  { e with ctxt := Function.update e.ctxt sel (Function.update (e.ctxt sel) qid words) }

def perform (e : CtxtEngine) (cmd : CtxtCmd) : CtxtEngine :=
  if cmd.op = CtxtCmdOp.wr.code then
    e.setCtxt cmd.sel cmd.qid fun i =>
      (e.data i &&& e.mask i) ||| (e.ctxt cmd.sel cmd.qid i &&& ~~~ e.mask i)
  else if cmd.op = CtxtCmdOp.rd.code then { e with data := e.ctxt cmd.sel cmd.qid }
  else e.setCtxt cmd.sel cmd.qid fun _ => 0

end CtxtEngine

def writeCtxtData (i : Nat) (val : Word) : Program CtxtEngine Input Unit :=
  .modify fun e => { e with data := Function.update e.data i val }

def writeCtxtMask (i : Nat) (val : Word) : Program CtxtEngine Input Unit :=
  .modify fun e => { e with mask := Function.update e.mask i val }

/-- A command that never gets done is one whose effect does not show. -/
def writeCtxtCmd (word : Word) : Program CtxtEngine Input Unit :=
  .access fun input e =>
    let logged := { e with issued := e.issued ++ [⟨CtxtCmd.bits word, e.data⟩] }
    some ((), if input.flag then logged.perform (CtxtCmd.bits word) else logged)

def readCtxtCmd : Program CtxtEngine Input Word := .access fun input e => some (input.word, e)

def readCtxtData (i : Nat) : Program CtxtEngine Input Word := .read fun e => e.data i

def lockCtxt : Program CtxtEngine Input Unit :=
  .access fun _ e => if e.ctxtLock then none else some ((), { e with ctxtLock := true })

def unlockCtxt : Program CtxtEngine Input Unit := .modify fun e => { e with ctxtLock := false }

def ctxtCmdBusyMask : Word := 0x1

def ctxtProgTimeoutUs : Nat := 500 * 1000

def ctxtProgPollIntervalUs : Nat := 100

def ctxtProgNumDataRegs : Nat := 8

/-- The polls left; `false` is `goto ctxt_prog_timeout`. -/
def pollCtxtCmd : Nat → Program CtxtEngine Input Bool
  | 0 => .done true
  | left + 1 => do
    let val ← readCtxtCmd
    if val &&& ctxtCmdBusyMask = 0 then .done true
    else if left = 0 then .done false
    else pollCtxtCmd left

def writeCtxtDataRegs (data : List Word) : Program CtxtEngine Input Unit :=
  .fold (fun i _ => do
    writeCtxtData i (data.getD i 0)
    writeCtxtMask i 0xFFFFFFFF) 0 ctxtProgNumDataRegs ()

def readCtxtDataRegs (data : List Word) : Program CtxtEngine Input (List Word) :=
  .fold (fun i data =>
    if i < data.length then do
      let val ← readCtxtData i
      .done (data.set i val)
    else .done data) 0 ctxtProgNumDataRegs data

def qdmaProgramCtxt (cmd : CtxtCmd) (data : List Word) :
    Program CtxtEngine Input (Int × List Word) := do
  lockCtxt
  (if cmd.op = CtxtCmdOp.wr.code then writeCtxtDataRegs data else .done ())
  writeCtxtCmd cmd.word
  if ← pollCtxtCmd (ctxtProgTimeoutUs / ctxtProgPollIntervalUs) then
    let data ← (if cmd.op = CtxtCmdOp.rd.code then readCtxtDataRegs data else .done data)
    unlockCtxt
    .done (0, data)
  else
    unlockCtxt
    .done (-EBUSY, data)

/-- `struct qdma_dev` -/
structure QdmaDev where
  funcId : BitVec 16
  qBase : BitVec 16
  numQueues : BitVec 16
  deriving DecidableEq

def qdmaGetRealQid (qdev : QdmaDev) (qid : BitVec 16) : BitVec 16 := qid + qdev.qBase

/-- A command on a queue of the function; `cmd.bits.qid` takes the low 11 bits. -/
def queueCmd (qdev : QdmaDev) (qid : BitVec 16) (sel : CtxtCmdSel) (op : CtxtCmdOp) : CtxtCmd where
  sel := sel.code
  op := op.code
  qid := (qdmaGetRealQid qdev qid).setWidth 11

@[simp] theorem queueCmd_sel (qdev : QdmaDev) (qid : BitVec 16) (sel : CtxtCmdSel) (op : CtxtCmdOp) :
    (queueCmd qdev qid sel op).sel = sel.code := rfl

@[simp] theorem queueCmd_op (qdev : QdmaDev) (qid : BitVec 16) (sel : CtxtCmdSel) (op : CtxtCmdOp) :
    (queueCmd qdev qid sel op).op = op.code := rfl

def swSel : QdmaDir → CtxtCmdSel
  | .c2h => .swC2h
  | .h2c => .swH2c

def hwSel : QdmaDir → CtxtCmdSel
  | .c2h => .hwC2h
  | .h2c => .hwH2c

def crSel : QdmaDir → CtxtCmdSel
  | .c2h => .crC2h
  | .h2c => .crH2c

/-- One `FIELD_SET` of a context word. -/
def field (mask : BitVec 64) {w : Nat} (val : BitVec w) : Word :=
  (fieldSet mask (val.setWidth 64)).setWidth 32

structure SwCtxt where
  pidx : BitVec 16
  irqArm : BitVec 1
  funcId : BitVec 8
  qen : BitVec 1
  fcrdEn : BitVec 1
  wbiChk : BitVec 1
  wbiIntvlEn : BitVec 1
  at_ : BitVec 1
  fetchMax : BitVec 3
  rngszIdx : BitVec 4
  descSz : BitVec 2
  bypass : BitVec 1
  mmChn : BitVec 1
  wbkEn : BitVec 1
  irqEn : BitVec 1
  portId : BitVec 3
  irqNoLast : BitVec 1
  err : BitVec 2
  errWbSent : BitVec 1
  irqReq : BitVec 1
  mrkrDis : BitVec 1
  isMm : BitVec 1
  descBase : BitVec 64
  vec : BitVec 11
  intrAggr : BitVec 1

def SwCtxt.zero : SwCtxt :=
  ⟨0, 0, 0, 0, 0, 0, 0, 0, 0, 0, 0, 0, 0, 0, 0, 0, 0, 0, 0, 0, 0, 0, 0, 0, 0⟩

def SwCtxt.words (ctxt : SwCtxt) : List Word :=
  let descBaseL := (bitfieldGet (genmask 31 0) ctxt.descBase).setWidth 32
  let descBaseH := (bitfieldGet (genmask 63 32) ctxt.descBase).setWidth 32
  [field (genmask 15 0) ctxt.pidx ||| field (bit 16) ctxt.irqArm |||
      field (genmask 24 17) ctxt.funcId,
    field (bit 0) ctxt.qen ||| field (bit 1) ctxt.fcrdEn ||| field (bit 2) ctxt.wbiChk |||
      field (bit 3) ctxt.wbiIntvlEn ||| field (bit 4) ctxt.at_ ||| field (genmask 7 5) ctxt.fetchMax |||
      field (genmask 15 12) ctxt.rngszIdx ||| field (genmask 17 16) ctxt.descSz |||
      field (bit 18) ctxt.bypass ||| field (bit 19) ctxt.mmChn ||| field (bit 20) ctxt.wbkEn |||
      field (bit 21) ctxt.irqEn ||| field (genmask 24 22) ctxt.portId |||
      field (bit 25) ctxt.irqNoLast ||| field (genmask 27 26) ctxt.err |||
      field (bit 28) ctxt.errWbSent ||| field (bit 29) ctxt.irqReq ||| field (bit 30) ctxt.mrkrDis |||
      field (bit 31) ctxt.isMm,
    field (genmask 31 0) descBaseL,
    field (genmask 31 0) descBaseH,
    field (genmask 10 0) ctxt.vec ||| field (bit 11) ctxt.intrAggr]

structure PfchCtxt where
  bypass : BitVec 1
  bufszIdx : BitVec 4
  portId : BitVec 3
  err : BitVec 1
  pfchEn : BitVec 1
  inPfch : BitVec 1
  swCrdt : BitVec 16
  valid : BitVec 1

def PfchCtxt.zero : PfchCtxt := ⟨0, 0, 0, 0, 0, 0, 0, 0⟩

def PfchCtxt.words (ctxt : PfchCtxt) : List Word :=
  let swCrdtL := (bitfieldGet (genmask 2 0) (ctxt.swCrdt.setWidth 64)).setWidth 32
  let swCrdtH := (bitfieldGet (genmask 15 3) (ctxt.swCrdt.setWidth 64)).setWidth 32
  [field (bit 0) ctxt.bypass ||| field (genmask 4 1) ctxt.bufszIdx ||| field (genmask 7 5) ctxt.portId |||
      field (bit 26) ctxt.err ||| field (bit 27) ctxt.pfchEn ||| field (bit 28) ctxt.inPfch |||
      field (genmask 31 29) swCrdtL,
    field (genmask 12 0) swCrdtH ||| field (bit 13) ctxt.valid]

structure CmplCtxt where
  statEn : BitVec 1
  intrEn : BitVec 1
  trigMode : BitVec 3
  funcId : BitVec 8
  counterIdx : BitVec 4
  timerIdx : BitVec 4
  intrSt : BitVec 2
  color : BitVec 1
  rngszIdx : BitVec 4
  baddr : BitVec 64
  descSz : BitVec 2
  pidx : BitVec 16
  cidx : BitVec 16
  valid : BitVec 1
  err : BitVec 2
  userTrigPend : BitVec 1
  timerRunning : BitVec 1
  fullUpd : BitVec 1
  ovfChkDis : BitVec 1
  at_ : BitVec 1
  vec : BitVec 11
  intrAggr : BitVec 1

def CmplCtxt.zero : CmplCtxt :=
  ⟨0, 0, 0, 0, 0, 0, 0, 0, 0, 0, 0, 0, 0, 0, 0, 0, 0, 0, 0, 0, 0, 0⟩

def CmplCtxt.words (ctxt : CmplCtxt) : List Word :=
  let baddrL := (bitfieldGet (genmask 37 12) ctxt.baddr).setWidth 32
  let baddrH := (bitfieldGet (genmask 63 38) ctxt.baddr).setWidth 32
  let pidxL := (bitfieldGet (genmask 3 0) (ctxt.pidx.setWidth 64)).setWidth 32
  let pidxH := (bitfieldGet (genmask 15 4) (ctxt.pidx.setWidth 64)).setWidth 32
  [field (bit 0) ctxt.statEn ||| field (bit 1) ctxt.intrEn ||| field (genmask 4 2) ctxt.trigMode |||
      field (genmask 12 5) ctxt.funcId ||| field (genmask 20 17) ctxt.counterIdx |||
      field (genmask 24 21) ctxt.timerIdx ||| field (genmask 26 25) ctxt.intrSt |||
      field (bit 27) ctxt.color ||| field (genmask 31 28) ctxt.rngszIdx,
    field (genmask 31 6) baddrL,
    field (genmask 25 0) baddrH ||| field (genmask 27 26) ctxt.descSz ||| field (genmask 31 28) pidxL,
    field (genmask 11 0) pidxH ||| field (genmask 27 12) ctxt.cidx ||| field (bit 28) ctxt.valid |||
      field (genmask 30 29) ctxt.err ||| field (bit 31) ctxt.userTrigPend,
    field (bit 0) ctxt.timerRunning ||| field (bit 1) ctxt.fullUpd ||| field (bit 2) ctxt.ovfChkDis |||
      field (bit 3) ctxt.at_ ||| field (genmask 14 4) ctxt.vec ||| field (bit 15) ctxt.intrAggr]

/-- The calls that write a context return what `qdma_program_ctxt` returns. -/
def writeCtxt (cmd : CtxtCmd) (data : List Word) : Program CtxtEngine Input Int :=
  Prod.fst <$> qdmaProgramCtxt cmd data

def clearCtxt (cmd : CtxtCmd) : Program CtxtEngine Input Int :=
  Prod.fst <$> qdmaProgramCtxt cmd []

section

variable (qdev : QdmaDev) (qid : BitVec 16) (dir : QdmaDir)

def qdmaWriteSwCtxt (ctxt : SwCtxt) := writeCtxt (queueCmd qdev qid (swSel dir) .wr) ctxt.words

def qdmaClearSwCtxt := clearCtxt (queueCmd qdev qid (swSel dir) .clr)

def qdmaInvalidateSwCtxt := clearCtxt (queueCmd qdev qid (swSel dir) .inv)

def qdmaClearHwCtxt := clearCtxt (queueCmd qdev qid (hwSel dir) .clr)

def qdmaInvalidateHwCtxt := clearCtxt (queueCmd qdev qid (hwSel dir) .inv)

def qdmaClearCrCtxt := clearCtxt (queueCmd qdev qid (crSel dir) .clr)

def qdmaInvalidateCrCtxt := clearCtxt (queueCmd qdev qid (crSel dir) .inv)

def qdmaWritePfchCtxt (ctxt : PfchCtxt) := writeCtxt (queueCmd qdev qid .pfch .wr) ctxt.words

def qdmaClearPfchCtxt := clearCtxt (queueCmd qdev qid .pfch .clr)

def qdmaInvalidatePfchCtxt := clearCtxt (queueCmd qdev qid .pfch .inv)

def qdmaWriteCmplCtxt (ctxt : CmplCtxt) := writeCtxt (queueCmd qdev qid .cmpl .wr) ctxt.words

def qdmaClearCmplCtxt := clearCtxt (queueCmd qdev qid .cmpl .clr)

def qdmaInvalidateCmplCtxt := clearCtxt (queueCmd qdev qid .cmpl .inv)

end

/-- Between the two states exactly `cmds` were issued and no other context changed. -/
structure CtxtEngine.Issued (cmds : List IssuedCmd) (before after : CtxtEngine) : Prop where
  log : after.issued = before.issued ++ cmds
  others : ∀ sel qid, (∀ c ∈ cmds, c.cmd.sel = sel → c.cmd.qid ≠ qid) →
    after.ctxt sel qid = before.ctxt sel qid

theorem CtxtEngine.Issued.nil {before after : CtxtEngine} (log : after.issued = before.issued)
    (ctxt : after.ctxt = before.ctxt) : Issued [] before after :=
  ⟨by rw [log, List.append_nil], fun _ _ _ => by rw [ctxt]⟩

theorem CtxtEngine.Issued.trans {a b c : CtxtEngine} {first second : List IssuedCmd}
    (h : Issued first a b) (h' : Issued second b c) : Issued (first ++ second) a c := by
  constructor
  · rw [h'.log, h.log, List.append_assoc]
  · intro sel qid apart
    rw [h'.others sel qid fun c mem => apart c (List.mem_append_right _ mem),
      h.others sel qid fun c mem => apart c (List.mem_append_left _ mem)]

theorem CtxtEngine.perform_others (e : CtxtEngine) (cmd : CtxtCmd) {sel : BitVec 4} {qid : BitVec 11}
    (apart : cmd.sel = sel → cmd.qid ≠ qid) : (e.perform cmd).ctxt sel qid = e.ctxt sel qid := by
  have others (words : Nat → Word) : (e.setCtxt cmd.sel cmd.qid words).ctxt sel qid = e.ctxt sel qid := by
    by_cases same : sel = cmd.sel
    · subst same
      simp [setCtxt, Function.update_of_ne (apart rfl).symm]
    · simp [setCtxt, Function.update_of_ne same]
  unfold perform
  split
  · exact others _
  · split
    · rfl
    · exact others _

@[simp] theorem CtxtEngine.perform_issued (e : CtxtEngine) (cmd : CtxtCmd) :
    (e.perform cmd).issued = e.issued := by
  unfold perform setCtxt
  split
  · rfl
  · split <;> rfl

theorem writeCtxtDataRegs_spec {data : List Word} {e e' : CtxtEngine} {u : Unit}
    (ran : Program.Exec (writeCtxtDataRegs data) e u e') :
    e'.issued = e.issued ∧ e'.ctxt = e.ctxt ∧
      ∀ i, i < ctxtProgNumDataRegs → e'.data i = data.getD i 0 := by
  have round := ran.fold (I := fun n _ now => now.issued = e.issued ∧ now.ctxt = e.ctxt ∧
    ∀ i, i < n → now.data i = data.getD i 0)
  rw [Nat.zero_add] at round
  apply round
  · rintro n _ now _ after - - ⟨issued, ctxt, filled⟩ body
    obtain ⟨_, mid, first, last⟩ := Program.exec_bind.mp body
    rw [writeCtxtData, Program.exec_modify] at first
    rw [writeCtxtMask, Program.exec_modify] at last
    subst first last
    refine ⟨issued, ctxt, fun i less => ?_⟩
    by_cases here : i = n
    · subst here
      simp
    · simpa [Function.update_of_ne here] using filled i (by omega)
  · exact ⟨rfl, rfl, fun i less => absurd less (Nat.not_lt_zero i)⟩

theorem pollCtxtCmd_keeps (left : Nat) : Program.Keeps Eq (pollCtxtCmd left) := by
  induction left with
  | zero => exact .done (R := Eq) (fun _ => rfl) true
  | succ left ih =>
    apply Program.Keeps.bind (R := Eq) fun _ _ _ => Eq.trans
    · intro e val e' ran
      obtain ⟨i, taken⟩ := Program.exec_access.mp ran
      cases taken
      rfl
    · intro val
      split
      · exact .done (R := Eq) (fun _ => rfl) true
      · split
        · exact .done (R := Eq) (fun _ => rfl) false
        · exact ih

theorem readCtxtDataRegs_keeps (data : List Word) : Program.Keeps Eq (readCtxtDataRegs data) := by
  intro e result e' ran
  have round := ran.fold (I := fun _ _ now => e = now)
  apply round
  · rintro i data now data' after - - rfl body
    split at body
    · obtain ⟨val, mid, first, last⟩ := Program.exec_bind.mp body
      rw [readCtxtData, Program.exec_read] at first
      exact (first.2.symm.trans (Program.exec_done.mp last).2.symm)
    · exact (Program.exec_done.mp body).2.symm
  · rfl

/-- A command with what came of it: whether its poll saw it done, and whether its effect shows. -/
structure CmdOutcome extends IssuedCmd where
  done : Bool
  effect : Bool

/-- The data registers of a write command as `qdma_program_ctxt` fills them. -/
def IssuedCmd.Carries (c : IssuedCmd) (data : List Word) : Prop :=
  c.cmd.op = CtxtCmdOp.wr.code → ∀ i, i < ctxtProgNumDataRegs → c.data i = data.getD i 0

/-- What one command does to the contexts. -/
structure CtxtEngine.Took (o : CmdOutcome) (before after : CtxtEngine) : Prop where
  issued : Issued [o.toIssuedCmd] before after
  kept : o.effect = false → after.ctxt = before.ctxt
  zeroed : o.effect = true → o.cmd.op = CtxtCmdOp.clr.code ∨ o.cmd.op = CtxtCmdOp.inv.code →
    after.ctxt o.cmd.sel o.cmd.qid = fun _ => 0

theorem CtxtEngine.perform_zeroes (e : CtxtEngine) {cmd : CtxtCmd}
    (op : cmd.op = CtxtCmdOp.clr.code ∨ cmd.op = CtxtCmdOp.inv.code) : (e.perform cmd).ctxt cmd.sel cmd.qid = fun _ => 0 := by
  have not_wr : cmd.op ≠ CtxtCmdOp.wr.code := by rcases op with op | op <;> simp [op]
  have not_rd : cmd.op ≠ CtxtCmdOp.rd.code := by rcases op with op | op <;> simp [op]
  rw [perform, if_neg not_wr, if_neg not_rd]
  simp [setCtxt]

theorem writeCtxtCmd_took {cmd : CtxtCmd} {e e' : CtxtEngine} {u : Unit} (done : Bool)
    (ran : Program.Exec (writeCtxtCmd cmd.word) e u e') : ∃ effect, CtxtEngine.Took ⟨⟨cmd, e.data⟩, done, effect⟩ e e' := by
  obtain ⟨input, taken⟩ := Program.exec_access.mp ran
  simp only [CtxtCmd.bits_word, Option.some.injEq, Prod.mk.injEq, true_and] at taken
  subst taken
  refine ⟨input.flag, ⟨?_, ?_⟩, ?_, ?_⟩
  · split <;> simp
  · intro sel qid apart
    have outside := apart _ (List.mem_singleton_self _)
    split
    · exact CtxtEngine.perform_others _ cmd outside
    · rfl
  · intro none
    have none : input.flag = false := none
    simp [none]
  · intro shows op
    have shows : input.flag = true := shows
    simp only [shows, ↓reduceIte]
    exact CtxtEngine.perform_zeroes _ op

/-- The call that issues one command, done or not. -/
theorem qdmaProgramCtxt_took {cmd : CtxtCmd} {data : List Word} {r : Int × List Word}
    {e e' : CtxtEngine} (ran : Program.Exec (qdmaProgramCtxt cmd data) e r e') :
    ∃ o : CmdOutcome, o.cmd = cmd ∧ o.Carries data ∧ CtxtEngine.Took o e e' ∧ r.1 = if o.done then 0 else -EBUSY := by
  obtain ⟨_, locked, lock, ran⟩ := Program.exec_bind.mp ran
  obtain ⟨_, taken⟩ := Program.exec_access.mp lock
  obtain ⟨_, filled, fill, ran⟩ := Program.exec_bind.mp ran
  obtain ⟨_, sent, send, ran⟩ := Program.exec_bind.mp ran
  obtain ⟨answered, polled, poll, ran⟩ := Program.exec_bind.mp ran
  have quiet_lock : CtxtEngine.Issued [] e locked ∧ locked.ctxt = e.ctxt := by
    split at taken
    · cases taken
    · cases taken
      exact ⟨.nil rfl rfl, rfl⟩
  have quiet_fill : (CtxtEngine.Issued [] locked filled ∧ filled.ctxt = locked.ctxt) ∧ (cmd.op = CtxtCmdOp.wr.code →
      ∀ i, i < ctxtProgNumDataRegs → filled.data i = data.getD i 0) := by
    split at fill
    · obtain ⟨issued, ctxt, holds⟩ := writeCtxtDataRegs_spec fill
      exact ⟨⟨.nil issued ctxt, ctxt⟩, fun _ => holds⟩
    · rename_i other
      obtain ⟨-, rfl⟩ := Program.exec_done.mp fill
      exact ⟨⟨.nil rfl rfl, rfl⟩, fun wr => absurd wr other⟩
  have quiet_end : (CtxtEngine.Issued [] sent e' ∧ e'.ctxt = sent.ctxt) ∧ r.1 = if answered then 0 else -EBUSY := by
    obtain rfl := pollCtxtCmd_keeps _ _ _ _ poll
    cases answered with
    | true =>
      obtain ⟨data', mid, load, ran⟩ := Program.exec_bind.mp ran
      have same : sent = mid := by
        split at load
        · exact readCtxtDataRegs_keeps _ _ _ _ load
        · exact (Program.exec_done.mp load).2.symm
      subst same
      obtain ⟨_, mid, unlock, ran⟩ := Program.exec_bind.mp ran
      obtain rfl := Program.exec_modify.mp unlock
      obtain ⟨rfl, rfl⟩ := Program.exec_done.mp ran
      exact ⟨⟨.nil rfl rfl, rfl⟩, rfl⟩
    | false =>
      obtain ⟨_, mid, unlock, ran⟩ := Program.exec_bind.mp ran
      obtain rfl := Program.exec_modify.mp unlock
      obtain ⟨rfl, rfl⟩ := Program.exec_done.mp ran
      exact ⟨⟨.nil rfl rfl, rfl⟩, rfl⟩
  obtain ⟨effect, took⟩ := writeCtxtCmd_took answered send
  refine ⟨⟨⟨cmd, filled.data⟩, answered, effect⟩, rfl, quiet_fill.2, ⟨?_, fun none => ?_, fun shows op => ?_⟩, quiet_end.2⟩
  · simpa using ((quiet_lock.1.trans quiet_fill.1.1).trans took.issued).trans quiet_end.1.1
  · rw [quiet_end.1.2, took.kept none, quiet_fill.1.2, quiet_lock.2]
  · rw [quiet_end.1.2]
    exact took.zeroed shows op

theorem qdmaProgramCtxt_issued {cmd : CtxtCmd} {data : List Word} {r : Int × List Word}
    {e e' : CtxtEngine} (ran : Program.Exec (qdmaProgramCtxt cmd data) e r e') :
    ∃ c : IssuedCmd, c.cmd = cmd ∧ c.Carries data ∧ CtxtEngine.Issued [c] e e' := by
  rcases qdmaProgramCtxt_took ran with ⟨o, is_cmd, carries, took, -⟩
  exact ⟨o.toIssuedCmd, is_cmd, carries, took.issued⟩

theorem qdmaProgramCtxt_returns {cmd : CtxtCmd} {data : List Word} {r : Int × List Word}
    {e e' : CtxtEngine} (ran : Program.Exec (qdmaProgramCtxt cmd data) e r e') :
    r.1 = 0 ∨ r.1 = -EBUSY := by
  rcases qdmaProgramCtxt_took ran with ⟨o, -, -, -, returns⟩
  cases done : o.done with
  | true => exact .inl (by simpa [done] using returns)
  | false => exact .inr (by simpa [done] using returns)

end OpenNic
