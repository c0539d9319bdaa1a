import OpenNic.Sriov.Teardown

namespace OpenNic

section

variable {n k : Nat}

theorem Untouchable.not_configured {s : Card} (inv : TeardownInv n s) (ok : NoLateConfig s) {t : PfThread} {i : Fin onicMaxVfs}
    {qid : Nat} (configuring : s.configuring t = some (vfFuncId i, qid)) :
    ¬ Untouchable n (s.priv 0).vfs s.clearing (vfQueue n i qid) := by
  rintro ⟨j, r, inside, same, past⟩
  obtain ⟨i', enabled, funcId, inside'⟩ := inv.configuring t _ qid configuring
  obtain rfl := vfFuncId_inj.mp funcId
  obtain ⟨rfl, rfl⟩ := vfQueue_inj inv.small inside' inside same
  rcases past with disabled | ⟨come, clearing, less⟩
  · rw [disabled] at enabled
    cases enabled
  · exact absurd (ok t _ qid come configuring clearing) (Nat.not_le.mpr less)

/-- A handler has marked the queue it may write. -/
def MarkedBy (n : Nat) (t : PfThread) (vfs : VfTable) (srcFuncId : BitVec 16) (req : Msg) (s : Card) : Prop :=
  ∀ hw, ConfigWrites vfs srcFuncId req hw →
    ∃ i qid, s.configuring t = some (vfFuncId i, qid) ∧ hw = vfQueue n i qid

theorem stable_marked {t : PfThread} {vfs : VfTable} {srcFuncId : BitVec 16} {req : Msg} :
    (teardownContract n (.mbox t)).Stable (MarkedBy n t vfs srcFuncId req) := by
  intro s s' marked rely _ _ hw writes
  obtain ⟨i, qid, configuring, is⟩ := marked hw writes
  exact ⟨i, qid, Eq.trans (b := s.configuring t) rely configuring, is⟩

/-- What a mailbox thread does to its own mark. -/
theorem TeardownInv.mark {s : Card} (inv : TeardownInv n s) (t : PfThread) {target : Option (BitVec 16 × Nat)}
    (entry : ∀ funcId qid, target = some (funcId, qid) →
      ∃ i, ((s.priv 0).vfs.vfRes i).enabled = true ∧ funcId = vfFuncId i ∧ qid < queuesPerVf) :
    TeardownInv n { s with configuring := Function.update s.configuring t target } ∧
      (teardownContract n (.mbox t)).guarantee s { s with configuring := Function.update s.configuring t target } := by
  refine ⟨⟨inv.small, inv.entries, fun u funcId qid configuring => ?_⟩, fun u other => ?_⟩
  · change Function.update s.configuring t target u = some (funcId, qid) at configuring
    by_cases same : u = t
    · subst same
      rw [Function.update_self] at configuring
      exact entry funcId qid configuring
    · rw [Function.update_of_ne same] at configuring
      exact inv.configuring u funcId qid configuring
  · cases u with
    | pf f => exact fun _ => ⟨rfl, rfl, fun _ _ _ zero => zero⟩
    | mbox u => exact Function.update_of_ne (fun same => other (congrArg SriovThread.mbox same)) _ _

/-- The lookup finds an entry of the table as it is, and marks the queue. -/
theorem configTarget_entry {s : Card} (inv : TeardownInv n s) {srcFuncId : BitVec 16} {req : Msg} {funcId : BitVec 16}
    {qid : Nat} (is : configTarget (s.priv 0).vfs srcFuncId req = some (funcId, qid)) :
    ∃ i, ((s.priv 0).vfs.vfRes i).enabled = true ∧ funcId = vfFuncId i ∧ qid < queuesPerVf := by
  rw [configTarget] at is
  split at is
  · cases is
  · rename_i res found
    obtain ⟨enabled, -, i, entry⟩ := onicPfMboxFindVfResource_some found
    subst entry
    have setUp := inv.entries i enabled
    split at is
    · rename_i config
      cases is
      exact ⟨i, enabled, setUp.funcId, setUp.qmax_toNat ▸ config.2⟩
    · cases is

theorem configTarget_marks {s : Card} (inv : TeardownInv n s) {srcFuncId : BitVec 16} {req : Msg} {hw : BitVec 11}
    (writes : ConfigWrites (s.priv 0).vfs srcFuncId req hw) :
    ∃ i qid, configTarget (s.priv 0).vfs srcFuncId req = some (vfFuncId i, qid) ∧ hw = vfQueue n i qid := by
  obtain ⟨op, res, found, inside, is⟩ := writes
  obtain ⟨enabled, -, i, entry⟩ := onicPfMboxFindVfResource_some found
  subst entry
  have setUp := inv.entries i enabled
  refine ⟨i, req.qcfg.qid.toNat, ?_, ?_⟩
  · simp only [configTarget, found]
    rw [if_pos ⟨op, inside⟩, setUp.funcId]
  · rw [setUp.qmax_toNat] at inside
    have number : (req.qcfg.qid.setWidth 16).toNat = req.qcfg.qid.toNat := by
      rw [BitVec.toNat_setWidth]
      rw [queuesPerVf] at inside
      omega
    have real := setUp.realQid inv.small (number.symm ▸ inside)
    rw [is, real, number]

/-- Only a `CONFIG_QUEUE` writes, and only to the queue that its handler has marked. -/
theorem onicPfMboxHandle_teardown (t : PfThread) (srcFuncId : BitVec 16) (req : Msg) :
    (teardownContract n (.mbox t)).Triple (fun _ => True) (onicPfMboxHandle completing t srcFuncId req) fun _ _ => True := by
  apply Contract.Triple.bind (M := fun r s => MarkedBy n t r.2 srcFuncId req s)
  · apply Contract.Triple.access (fun _ _ _ _ _ _ => True.intro) fun _ => stable_marked
    intro s _ r s' _ inv _ taken _
    cases taken
    obtain ⟨inv', guarantee⟩ := inv.mark t fun _ _ => configTarget_entry inv
    refine ⟨inv', guarantee, fun hw writes => ?_⟩
    obtain ⟨i, qid, target, is⟩ := configTarget_marks inv writes
    exact ⟨i, qid, (Function.update_self ..).trans target, is⟩
  rintro ⟨mapped, vfs⟩
  apply Contract.Triple.bind (M := fun _ => MarkedBy n t vfs srcFuncId req)
  · apply Contract.Triple.lift_steps (handleRequest_steps.comap _) stable_marked
    intro e s ok inv marked writes _
    refine ⟨⟨inv.small, inv.entries, inv.configuring⟩, fun u other => ?_, marked⟩
    cases u with
    | pf f =>
      refine fun _ => ⟨rfl, rfl, fun sel hw untouchable zero => ?_⟩
      have outside : ¬ ConfigWrites vfs srcFuncId req hw := by
        intro inside
        obtain ⟨i, qid, configuring, rfl⟩ := marked hw inside
        exact Untouchable.not_configured inv ok configuring untouchable
      rcases writes sel hw outside with same | cleared
      · exact same.trans zero
      · exact cleared
    | mbox u => exact rfl
  intro _
  apply Contract.Triple.modify stable_marked fun _ _ _ _ _ _ => True.intro
  intro s _ inv _ _
  obtain ⟨inv', guarantee⟩ := @TeardownInv.mark n s inv t none nofun
  exact ⟨inv', guarantee, True.intro⟩

end

/-- One teardown runs, and requests are handled at any time. -/
def teardownRules : Pool.Rules SriovThread Card CardInput where
  calls t _ p :=
    match t with
    | .pf _ => False
    | .mbox t => ∃ srcFuncId req, p = onicPfMboxHandle completing t srcFuncId req
  env _ _ := False

/-- The master PF with `n` queues and the entries of `k` VFs, before its teardown. -/
structure VfsConfigured (n k : Nat) (s : Card) : Prop where
  few : k ≤ onicMaxVfs
  small : n ≤ onicMaxQueues
  qdev : (s.priv 0).qdev ≠ none
  enabled : ∀ i, ((s.priv 0).vfs.vfRes i).enabled = true ↔ i.val < k
  entries : ∀ i, ((s.priv 0).vfs.vfRes i).enabled = true → SetUp n i ((s.priv 0).vfs.vfRes i)
  clearing : s.clearing = none
  configuring : ∀ t, s.configuring t = none

/-- `onic_free_vf_resources` is about to start. -/
def teardownStart (s : Card) (numVfs : Nat) : Pool SriovThread Card CardInput :=
  ⟨s, Function.update (fun _ => .done ()) (.pf 0) (onicFreeVfResources completing 0 numVfs)⟩

theorem teardownStart_pf (s : Card) (numVfs : Nat) :
    (teardownStart s numVfs).thread (.pf 0) = onicFreeVfResources completing 0 numVfs := by
  simp [teardownStart]

theorem teardownStart_other (s : Card) (numVfs : Nat) {t : SriovThread} (other : t ≠ .pf 0) :
    (teardownStart s numVfs).thread t = .done () := by
  simp [teardownStart, other]

section

variable {n k : Nat}

def TeardownIdle (n k : Nat) (t : SriovThread) (s : Card) : Prop :=
  match t with
  | .pf f => f = 0 → TornDown n k s
  | .mbox _ => True

theorem teardownRules_fit :
    Pool.Fits teardownRules NoLateConfig (TeardownInv n) (teardownContract n) (TeardownIdle n k) where
  same_ok _ := rfl
  same_inv _ := rfl
  threads _ u other _ _ _ _ guarantee := guarantee u other.symm
  env _ _ _ _ _ happens := happens.elim
  calls t s p called ok inv _ := by
    cases t with
    | pf f => exact called.elim
    | mbox t =>
      obtain ⟨srcFuncId, req, rfl⟩ := called
      exact onicPfMboxHandle_teardown t srcFuncId req s ok inv trivial

theorem VfsConfigured.inv {s : Card} (configured : VfsConfigured n k s) : TeardownInv n s := by
  refine ⟨configured.small, configured.entries, fun t funcId qid is => ?_⟩
  rw [configured.configuring t] at is
  cases is

theorem VfsConfigured.round {s : Card} (configured : VfsConfigured n k s) : TeardownRound n k 0 s := by
  refine ⟨s.priv 0, s.clearing, ⟨fun j => ?_, configured.qdev⟩, rfl, rfl, ?_⟩
  · rw [configured.enabled j]
    omega
  · rintro sel hw ⟨-, j, r, -, -, ⟨before, -⟩ | ⟨-, less⟩⟩
    · exact absurd before (Nat.not_lt_zero _)
    · exact absurd less (Nat.not_lt_zero _)

/-- What the callbacks of the PF leave behind is such a state. -/
theorem Bound.vfsConfigured {s : Card} (bound : Bound 0 n k (s.view 0)) (ok : PfOk 0 (s.view 0))
    (clearing : s.clearing = none) (configuring : ∀ t, s.configuring t = none) : VfsConfigured n k s where
  few := bound.numVfs ▸ (s.priv 0).vfs.bound
  small := bound.small
  qdev := bound.qdev_some
  enabled := bound.entries
  entries i enabled := by
    obtain ⟨-, entry⟩ := bound.entry ok enabled
    exact ⟨entry.funcId, entry.qbase, entry.qmax⟩
  clearing := clearing
  configuring := configuring

theorem sriov_teardown_clears {s : Card} {numVfs : Nat} {P : Pool SriovThread Card CardInput}
    (configured : VfsConfigured n k s) (all : k ≤ numVfs)
    (reach : Pool.Reach teardownRules NoLateConfig (teardownStart s numVfs) P) (returned : P.thread (.pf 0) = .done ())
    (i : Fin onicMaxVfs) (freed : i.val < k) (qid : Nat) (inside : qid < queuesPerVf) (sel : CtxtCmdSel)
    (mem : sel ∈ queueSels) : P.state.engine.ctxt sel.code (vfQueue n i qid) = fun _ => 0 := by
  have ok : NoLateConfig s := by
    intro t funcId qid come is
    rw [configured.configuring t] at is
    cases is
  have start (t : SriovThread) : (teardownContract n t).wp ((teardownStart s numVfs).thread t) (fun _ => TeardownIdle n k t) s := by
    by_cases same : t = .pf 0
    · subst same
      rw [teardownStart_pf]
      exact Contract.wp_mono (onicFreeVfResources_teardown configured.few all s ok configured.inv configured.round)
        fun _ _ _ _ torn _ => torn
    · rw [teardownStart_other s numVfs same]
      intro s' _ _ _
      cases t with
      | pf f => exact fun is => absurd (congrArg SriovThread.pf is) same
      | mbox t => trivial
  obtain ⟨ok', inv', threads⟩ := teardownRules_fit.reach reach ok configured.inv start
  have here := threads (.pf 0)
  rw [returned] at here
  have torn : TornDown n k P.state := here P.state ((teardownContract n _).rely_refl _) ok' inv' rfl
  exact torn.2 i qid sel freed inside mem

end

theorem masterWithVf_configured : VfsConfigured 64 1 masterWithVf where
  few := by decide
  small := by decide
  qdev := by decide +kernel
  enabled := by decide +kernel
  entries i enabled := by
    have all : ∀ i, ((masterWithVf.priv 0).vfs.vfRes i).enabled = true →
        ((masterWithVf.priv 0).vfs.vfRes i).funcId = vfFuncId i ∧
        ((masterWithVf.priv 0).vfs.vfRes i).qbase = BitVec.ofNat 16 (64 + queuesPerVf * i) ∧
        ((masterWithVf.priv 0).vfs.vfRes i).qmax = BitVec.ofNat 16 queuesPerVf := by decide +kernel
    obtain ⟨funcId, qbase, qmax⟩ := all i enabled
    exact ⟨funcId, qbase, qmax⟩
  clearing := by decide +kernel
  configuring _ := by rfl

/-- A teardown of one VF without requests. -/
def teardownMoves : List (Pool.Move SriovThread Card CardInput) := List.replicate 141 (.access (.pf 0) grantAll)

def noLateConfig (s : Card) : Bool :=
  [PfThread.user, .error].all fun t =>
    match s.configuring t, s.clearing with
    | some (funcId, qid), some (funcId', come) => funcId != funcId' || decide (come ≤ qid)
    | _, _ => true

theorem noLateConfig_sound (s : Card) (checked : noLateConfig s = true) : NoLateConfig s := by
  intro t funcId qid come configuring clearing
  have each := List.all_eq_true.mp checked t (by cases t <;> decide)
  rw [configuring, clearing] at each
  simpa using each

theorem sriov_teardown_clears_one_vf :
    ∃ P, Pool.Reach teardownRules NoLateConfig (teardownStart masterWithVf 1) P ∧ P.thread (.pf 0) = .done () ∧
      P.state.engine.ctxt CtxtCmdSel.swH2c.code (vfQueue 64 ⟨0, by decide⟩ 3) = fun _ => 0 := by
  have played : ((teardownStart masterWithVf 1).play noLateConfig teardownMoves).map (fun P => (P.thread (.pf 0)).isDone) =
      some true := by decide +kernel
  obtain ⟨P, ran, finished⟩ := Option.map_eq_some_iff.mp played
  have allowed : ∀ m ∈ teardownMoves, m.Allowed teardownRules := by
    intro m mem
    obtain ⟨-, rfl⟩ := List.mem_replicate.mp mem
    trivial
  have reach := Pool.reach_of_play noLateConfig_sound allowed ran
  have returned := Program.eq_done finished
  exact ⟨P, reach, returned, sriov_teardown_clears masterWithVf_configured (Nat.le_refl 1) reach returned ⟨0, by decide⟩
    (by decide) 3 (by decide) .swH2c (by decide)⟩

/-- A `CONFIG_QUEUE` of TX queue 0. -/
def lateRequest : Msg := (((Msg.zero.set 0 opConfigQueue).set 2 1).set 3 sizeofQcfg).set 12 0x1000

/-- The request is handled when queue 0 is cleared and the entry still stands. -/
def lateMoves : List (Pool.Move SriovThread Card CardInput) :=
  List.replicate 35 (.access (.pf 0) grantAll) ++
    .call (.mbox .user) (onicPfMboxHandle completing .user 4 lateRequest) ::
      (List.replicate 34 (.access (.mbox .user) grantAll) ++ List.replicate 106 (.access (.pf 0) grantAll))

theorem sriov_teardown_leaves_context :
    ¬ ∀ P, Pool.Reach teardownRules (fun _ => True) (teardownStart masterWithVf 1) P → P.thread (.pf 0) = .done () →
      P.thread (.mbox .user) = .done () → P.thread (.mbox .error) = .done () →
      ∀ sel ∈ queueSels, P.state.engine.ctxt sel.code (vfQueue 64 ⟨0, by decide⟩ 0) = fun _ => 0 := by
  intro all
  -- bit 0 of word 1 is `qen`
  have played : ((teardownStart masterWithVf 1).play (fun _ => true) lateMoves).map
      (fun P => (P.thread (.pf 0)).isDone && (P.thread (.mbox .user)).isDone && (P.thread (.mbox .error)).isDone &&
        (P.state.engine.ctxt CtxtCmdSel.swH2c.code (vfQueue 64 ⟨0, by decide⟩ 0) 1).getLsbD 0) = some true := by
    decide +kernel
  obtain ⟨P, ran, outcome⟩ := Option.map_eq_some_iff.mp played
  simp only [Bool.and_eq_true] at outcome
  obtain ⟨⟨⟨returned, user⟩, error⟩, enabled⟩ := outcome
  have allowed : ∀ m ∈ lateMoves, m.Allowed teardownRules := by
    intro m mem
    simp only [lateMoves, List.mem_append, List.mem_cons, List.mem_replicate] at mem
    rcases mem with ⟨-, rfl⟩ | rfl | ⟨-, rfl⟩ | ⟨-, rfl⟩
    · trivial
    · exact fun _ => ⟨4, lateRequest, rfl⟩
    · trivial
    · trivial
  have reach : Pool.Reach teardownRules (fun _ => True) _ P := Pool.reach_of_play (fun _ _ => trivial) allowed ran
  have zero := all P reach (Program.eq_done returned) (Program.eq_done user) (Program.eq_done error) .swH2c (by decide)
  rw [zero] at enabled
  cases enabled

end OpenNic
