import OpenNic.Qdma.Queue

namespace OpenNic

/-- The commands one after the other, each with what came of it. -/
def CtxtEngine.Ran : List CmdOutcome → CtxtEngine → CtxtEngine → Prop
  | [], e, e' => e' = e
  | o :: os, e, e' => ∃ mid, CtxtEngine.Took o e mid ∧ CtxtEngine.Ran os mid e'

namespace CtxtEngine.Ran

variable {e e' e'' : CtxtEngine} {os os' : List CmdOutcome}

theorem split (ran : CtxtEngine.Ran (os ++ os') e e') : ∃ mid, CtxtEngine.Ran os e mid ∧ CtxtEngine.Ran os' mid e' := by
  induction os generalizing e with
  | nil => exact ⟨e, rfl, ran⟩
  | cons o os ih =>
    rcases ran with ⟨next, took, later⟩
    rcases ih later with ⟨mid, first, last⟩
    exact ⟨mid, ⟨next, took, first⟩, last⟩

/-- A context that no command names is left alone. -/
theorem others (ran : CtxtEngine.Ran os e e') {sel : BitVec 4} {qid : BitVec 11}
    (apart : ∀ o ∈ os, o.cmd.sel = sel → o.cmd.qid ≠ qid) : e'.ctxt sel qid = e.ctxt sel qid := by
  induction os generalizing e with
  | nil => rw [show e' = e from ran]
  | cons o os ih =>
    rcases ran with ⟨mid, took, later⟩
    rw [ih later fun o mem => apart o (List.mem_cons_of_mem _ mem)]
    apply took.issued.others
    intro c mem
    rw [List.mem_singleton.mp mem]
    exact apart o List.mem_cons_self

/-- Invalidations leave a context that is zero as it is. -/
theorem stays_zero (ran : CtxtEngine.Ran os e e') (inv : ∀ o ∈ os, o.cmd.op = CtxtCmdOp.inv.code) {sel : BitVec 4}
    {qid : BitVec 11} (zero : e.ctxt sel qid = fun _ => 0) : e'.ctxt sel qid = fun _ => 0 := by
  induction os generalizing e with
  | nil => rw [show e' = e from ran, zero]
  | cons o os ih =>
    rcases ran with ⟨mid, took, later⟩
    apply ih later fun o mem => inv o (List.mem_cons_of_mem _ mem)
    by_cases same : o.cmd.sel = sel ∧ o.cmd.qid = qid
    · rcases same with ⟨rfl, rfl⟩
      cases effect : o.effect with
      | true => exact took.zeroed effect (.inr (inv o List.mem_cons_self))
      | false => rw [took.kept effect, zero]
    · rw [← zero]
      apply took.issued.others
      intro c mem sel' qid'
      rw [List.mem_singleton.mp mem] at sel' qid'
      exact same ⟨sel', qid'⟩

theorem zeroed (ran : CtxtEngine.Ran os e e') (inv : ∀ o ∈ os, o.cmd.op = CtxtCmdOp.inv.code) (effect : ∀ o ∈ os, o.effect = true) :
    ∀ o ∈ os, e'.ctxt o.cmd.sel o.cmd.qid = fun _ => 0 := by
  induction os generalizing e with
  | nil => simp
  | cons o os ih =>
    rcases ran with ⟨mid, took, later⟩
    have rest_inv : ∀ o ∈ os, o.cmd.op = CtxtCmdOp.inv.code := fun o mem => inv o (List.mem_cons_of_mem _ mem)
    intro o' mem
    rcases List.mem_cons.mp mem with rfl | mem
    · apply later.stays_zero rest_inv
      exact took.zeroed (effect _ List.mem_cons_self) (.inr (inv _ List.mem_cons_self))
    · exact ih later rest_inv (fun o mem => effect o (List.mem_cons_of_mem _ mem)) o' mem

end CtxtEngine.Ran

theorem writeCtxt_took {cmd : CtxtCmd} {data : List Word} {rv : Int} {e e' : CtxtEngine}
    (ran : Program.Exec (writeCtxt cmd data) e rv e') :
    ∃ o : CmdOutcome, o.cmd = cmd ∧ CtxtEngine.Took o e e' ∧ rv = if o.done then 0 else -EBUSY := by
  rcases Program.exec_map.mp ran with ⟨r, program, rfl⟩
  rcases qdmaProgramCtxt_took program with ⟨o, is_cmd, -, took, returns⟩
  exact ⟨o, is_cmd, took, returns⟩

/-- A program that issues these commands whatever comes of them. -/
def IssuesAll (cmds : List CtxtCmd) (p : Program CtxtEngine Input Unit) : Prop :=
  ∀ e u e', Program.Exec p e u e' → ∃ os : List CmdOutcome, os.map (·.cmd) = cmds ∧ CtxtEngine.Ran os e e'

theorem IssuesAll.nil : IssuesAll [] (.done ()) := by
  intro e u e' ran
  exact ⟨[], rfl, (Program.exec_done.mp ran).2⟩

theorem IssuesAll.cons {cmd : CtxtCmd} {cmds : List CtxtCmd} {rest : Program CtxtEngine Input Unit}
    (later : IssuesAll cmds rest) : IssuesAll (cmd :: cmds) (do let _ ← clearCtxt cmd; rest) := by
  intro e u e' ran
  rcases Program.exec_bind.mp ran with ⟨rv, mid, first, second⟩
  rcases writeCtxt_took first with ⟨o, is_cmd, took, -⟩
  rcases later _ _ _ second with ⟨os, are_cmds, ends⟩
  exact ⟨o :: os, by simp [is_cmd, are_cmds], mid, took, ends⟩

end OpenNic
