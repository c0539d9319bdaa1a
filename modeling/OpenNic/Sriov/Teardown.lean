import OpenNic.Qdma.Footprint
import OpenNic.Sriov.Runs

namespace OpenNic

/-- The contexts of a queue, as the hardware selects them. -/
def queueSels : List CtxtCmdSel := [.crH2c, .hwH2c, .swH2c, .cmpl, .pfch, .crC2h, .hwC2h, .swC2h]

/-- Queue `qid` of VF `i` behind a PF with `n` queues, as the hardware numbers it. -/
def vfQueue (n : Nat) (i : Fin onicMaxVfs) (qid : Nat) : BitVec 11 := BitVec.ofNat 11 (n + queuesPerVf * i + qid)

theorem vfQueue_inj {n : Nat} (small : n ≤ onicMaxQueues) {i j : Fin onicMaxVfs} {q r : Nat} (inside : q < queuesPerVf)
    (inside' : r < queuesPerVf) (same : vfQueue n i q = vfQueue n j r) : i = j ∧ q = r := by
  have number := congrArg BitVec.toNat same
  have few : i.val < 4 := i.isLt
  have few' : j.val < 4 := j.isLt
  rw [vfQueue, vfQueue, BitVec.toNat_ofNat, BitVec.toNat_ofNat] at number
  simp only [queuesPerVf, onicMaxQueues] at number small inside inside'
  have equal : i.val = j := by omega
  exact ⟨Fin.ext equal, by omega⟩

/-- The entry of VF `i` behind a PF with `n` queues. -/
structure SetUp (n : Nat) (i : Fin onicMaxVfs) (res : OnicVfResource) : Prop where
  funcId : res.funcId = vfFuncId i
  qbase : res.qbase = BitVec.ofNat 16 (n + queuesPerVf * i)
  qmax : res.qmax = BitVec.ofNat 16 queuesPerVf

theorem SetUp.qmax_toNat {n : Nat} {i : Fin onicMaxVfs} {res : OnicVfResource} (setUp : SetUp n i res) :
    res.qmax.toNat = queuesPerVf := by
  rw [setUp.qmax]
  decide

theorem SetUp.realQid {n : Nat} (small : n ≤ onicMaxQueues) {i : Fin onicMaxVfs} {res : OnicVfResource}
    (setUp : SetUp n i res) {qid : BitVec 16} (inside : qid.toNat < queuesPerVf) :
    (qdmaGetRealQid ⟨res.funcId, res.qbase, res.qmax⟩ qid).setWidth 11 = vfQueue n i qid.toNat := by
  have few : i.val < 4 := i.isLt
  apply BitVec.eq_of_toNat_eq
  simp only [qdmaGetRealQid, vfQueue, setUp.qbase, BitVec.toNat_setWidth, BitVec.toNat_add, BitVec.toNat_ofNat]
  simp only [queuesPerVf, onicMaxQueues] at inside small ⊢
  omega

/-- No command has its effect lost. -/
def completing (input : Input) : Input := { input with flag := true }

/-- Between the lookup and the last context command of a `CONFIG_QUEUE`, the teardown does
    not come to the queue. -/
def NoLateConfig (s : Card) : Prop :=
  ∀ t funcId qid come, s.configuring t = some (funcId, qid) → s.clearing = some (funcId, come) → come ≤ qid

/-- The queues that no handler may write any more: those of a VF without an entry, and those
    that the teardown has come to. -/
def Untouchable (n : Nat) (vfs : VfTable) (clearing : Option (BitVec 16 × Nat)) (hw : BitVec 11) : Prop :=
  ∃ i qid, qid < queuesPerVf ∧ hw = vfQueue n i qid ∧
    ((vfs.vfRes i).enabled = false ∨ ∃ come, clearing = some (vfFuncId i, come) ∧ qid < come)

structure TeardownInv (n : Nat) (s : Card) : Prop where
  small : n ≤ onicMaxQueues
  entries : ∀ i, ((s.priv 0).vfs.vfRes i).enabled = true → SetUp n i ((s.priv 0).vfs.vfRes i)
  configuring : ∀ t funcId qid, s.configuring t = some (funcId, qid) →
    ∃ i, ((s.priv 0).vfs.vfRes i).enabled = true ∧ funcId = vfFuncId i ∧ qid < queuesPerVf

/-- What a thread sees of the others: the teardown sees that zero contexts it counts on stay
    zero, a handler that its mark stays. -/
def Undisturbing (n : Nat) (s s' : Card) : SriovThread → Prop
  | .pf f => f = 0 → s'.priv 0 = s.priv 0 ∧ s'.clearing = s.clearing ∧
      ∀ sel hw, Untouchable n (s.priv 0).vfs s.clearing hw → (s.engine.ctxt sel hw = fun _ => 0) →
        s'.engine.ctxt sel hw = fun _ => 0
  | .mbox t => s'.configuring t = s.configuring t

theorem Undisturbing.refl (n : Nat) (s : Card) (t : SriovThread) : Undisturbing n s s t := by
  cases t with
  | pf f => exact fun _ => ⟨rfl, rfl, fun _ _ _ zero => zero⟩
  | mbox t => exact rfl

theorem Undisturbing.trans {n : Nat} {a b c : Card} {t : SriovThread} (h : Undisturbing n a b t)
    (h' : Undisturbing n b c t) : Undisturbing n a c t := by
  cases t with
  | pf f =>
    intro zero
    obtain ⟨priv, clearing, keeps⟩ := h zero
    obtain ⟨priv', clearing', keeps'⟩ := h' zero
    refine ⟨priv'.trans priv, clearing'.trans clearing, fun sel hw untouchable is => ?_⟩
    rw [priv, clearing] at keeps'
    exact keeps' sel hw untouchable (keeps sel hw untouchable is)
  | mbox t => exact Eq.trans (b := b.configuring t) h' h

def teardownContract (n : Nat) (t : SriovThread) : Contract Card where
  ok := NoLateConfig
  inv := TeardownInv n
  rely s s' := Undisturbing n s s' t
  guarantee s s' := ∀ u, u ≠ t → Undisturbing n s s' u
  rely_refl s := .refl n s t
  rely_trans := Undisturbing.trans
  guarantee_refl s u _ := .refl n s u

section

variable {n : Nat} {p : PfPriv} {clearing : Option (BitVec 16 × Nat)} {zero : BitVec 4 → BitVec 11 → Prop}

/-- Where the teardown is: the private data, how far it has come, and the contexts it knows to be zero. -/
structure TeardownAt (p : PfPriv) (clearing : Option (BitVec 16 × Nat)) (zero : BitVec 4 → BitVec 11 → Prop)
    (s : Card) : Prop where
  priv : s.priv 0 = p
  clearing : s.clearing = clearing
  zero : ∀ sel hw, zero sel hw → s.engine.ctxt sel hw = fun _ => 0

theorem stable_teardownAt (safe : ∀ sel hw, zero sel hw → Untouchable n p.vfs clearing hw) :
    (teardownContract n (.pf 0)).Stable (TeardownAt p clearing zero) := by
  intro s s' at_ rely _ _
  obtain ⟨priv, is, keeps⟩ := rely rfl
  rw [at_.priv, at_.clearing] at keeps
  exact ⟨priv.trans at_.priv, is.trans at_.clearing, fun sel hw holds =>
    keeps sel hw (safe sel hw holds) (at_.zero sel hw holds)⟩

/-- What the teardown does to the engine or to the function maps disturbs no handler. -/
theorem TeardownInv.own {s s' : Card} (inv : TeardownInv n s) (priv : s'.priv = s.priv)
    (configuring : s'.configuring = s.configuring) :
    TeardownInv n s' ∧ (teardownContract n (.pf 0)).guarantee s s' := by
  refine ⟨⟨inv.small, priv ▸ inv.entries, priv ▸ configuring ▸ inv.configuring⟩, fun u other => ?_⟩
  cases u with
  | pf f => exact fun is => absurd (congrArg SriovThread.pf is) other
  | mbox t => exact congrFun configuring t

theorem TeardownInv.setEngine {s : Card} (inv : TeardownInv n s) (e : CtxtEngine) :
    TeardownInv n (s.setEngine e) ∧ (teardownContract n (.pf 0)).guarantee s (s.setEngine e) := inv.own rfl rfl

theorem TeardownInv.setClearing {s : Card} (inv : TeardownInv n s) (c : Option (BitVec 16 × Nat)) :
    TeardownInv n { s with clearing := c } ∧ (teardownContract n (.pf 0)).guarantee s { s with clearing := c } :=
  inv.own rfl rfl

theorem TeardownInv.setFmap {s : Card} (inv : TeardownInv n s) (funcId : BitVec 16) (ctxt : Option FmapCtxt) :
    TeardownInv n (s.setFmap funcId ctxt) ∧ (teardownContract n (.pf 0)).guarantee s (s.setFmap funcId ctxt) :=
  inv.own rfl rfl

theorem quiet_triple {α : Type} {q : Program CtxtEngine Input α} (steps : q.Steps (WritesOnly fun _ => False))
    (safe : ∀ sel hw, zero sel hw → Untouchable n p.vfs clearing hw) :
    (teardownContract n (.pf 0)).Triple (TeardownAt p clearing zero) (onCard completing q)
      fun _ => TeardownAt p clearing zero := by
  apply Contract.Triple.lift_steps (steps.comap _) (stable_teardownAt safe)
  intro e s _ inv at_ writes _
  obtain ⟨inv', guarantee⟩ := inv.setEngine e
  refine ⟨inv', guarantee, at_.priv, at_.clearing, fun sel hw holds => ?_⟩
  have before := at_.zero sel hw holds
  rcases writes sel hw not_false with same | cleared
  · exact same.trans before
  · exact cleared

theorem onCard_bind {via : Input → Input} {α β : Type} (p : Program CtxtEngine Input α) (f : α → Program CtxtEngine Input β) :
    onCard via (p >>= f) = onCard via p >>= fun a => onCard via (f a) := by
  simp only [onCard, Program.comap_bind, Program.lift_bind]

/-- The command that clears a context leaves it zero, and what was zero stays zero. -/
theorem clearCtxt_triple {cmd : CtxtCmd} (write : cmd.op ≠ CtxtCmdOp.wr.code) (read : cmd.op ≠ CtxtCmdOp.rd.code)
    (safe : ∀ sel hw, zero sel hw → Untouchable n p.vfs clearing hw) (here : Untouchable n p.vfs clearing cmd.qid) :
    (teardownContract n (.pf 0)).Triple (TeardownAt p clearing zero) (onCard completing (clearCtxt cmd))
      fun _ => TeardownAt p clearing fun sel hw => zero sel hw ∨ (sel = cmd.sel ∧ hw = cmd.qid) := by
  have safe' : ∀ sel hw, zero sel hw ∨ (sel = cmd.sel ∧ hw = cmd.qid) → Untouchable n p.vfs clearing hw := by
    rintro sel hw (holds | ⟨-, rfl⟩)
    · exact safe sel hw holds
    · exact here
  rw [clearCtxt, ← bind_pure_comp, qdmaProgramCtxt_eq]
  simp only [onCard_bind]
  rw [if_neg write]
  apply Contract.Triple.bind (M := fun _ => TeardownAt p clearing fun sel hw => zero sel hw ∨ (sel = cmd.sel ∧ hw = cmd.qid))
  · apply Contract.Triple.bind (quiet_triple lockCtxt_steps safe)
    intro _
    apply Contract.Triple.bind (quiet_triple (q := .done ()) True.intro safe)
    intro _
    apply Contract.Triple.bind (M := fun _ => TeardownAt p clearing fun sel hw => zero sel hw ∨ (sel = cmd.sel ∧ hw = cmd.qid))
    · apply Contract.Triple.access (stable_teardownAt safe) fun _ => stable_teardownAt safe'
      intro s input _ s' _ inv at_ taken _
      simp only [completing, CtxtCmd.bits_word, if_true, Option.map_some, Option.some.injEq, Prod.mk.injEq, true_and] at taken
      subst taken
      obtain ⟨inv', guarantee⟩ := inv.setEngine
        (CtxtEngine.perform { s.engine with issued := s.engine.issued ++ [⟨cmd, s.engine.data⟩] } cmd)
      refine ⟨inv', guarantee, at_.priv, at_.clearing, fun sel hw holds => ?_⟩
      rcases holds with holds | ⟨rfl, rfl⟩
      · have kept : WritesOnly (fun _ => False) s.engine _ :=
          CtxtEngine.perform_writesOnly { s.engine with issued := s.engine.issued ++ [⟨cmd, s.engine.data⟩] }
            fun is => absurd is write
        rcases kept sel hw not_false with same | cleared
        · exact same.trans (at_.zero sel hw holds)
        · exact cleared
      · exact CtxtEngine.perform_zero _ write read
    intro _
    exact quiet_triple (finishCtxtCmd_steps cmd []) safe'
  intro _
  exact quiet_triple (q := .done _) True.intro safe'

/-- Some contexts of one more queue. -/
def andQueue (zero : BitVec 4 → BitVec 11 → Prop) (sels : List CtxtCmdSel) (hw : BitVec 11) : BitVec 4 → BitVec 11 → Prop :=
  fun sel hw' => zero sel hw' ∨ hw' = hw ∧ ∃ s ∈ sels, sel = s.code

theorem andQueue_safe (safe : ∀ sel hw, zero sel hw → Untouchable n p.vfs clearing hw) (sels : List CtxtCmdSel)
    {hw : BitVec 11} (here : Untouchable n p.vfs clearing hw) :
    ∀ sel hw', andQueue zero sels hw sel hw' → Untouchable n p.vfs clearing hw' := by
  rintro sel hw' (holds | ⟨rfl, -⟩)
  · exact safe sel hw' holds
  · exact here

theorem TeardownAt.mono {zero' : BitVec 4 → BitVec 11 → Prop} {s : Card} (at_ : TeardownAt p clearing zero s)
    (weaker : ∀ sel hw, zero' sel hw → zero sel hw) : TeardownAt p clearing zero' s :=
  ⟨at_.priv, at_.clearing, fun sel hw holds => at_.zero sel hw (weaker sel hw holds)⟩

/-- The next invalidation of a queue. -/
theorem invalidate_triple {qdev : QdmaDev} {qid : BitVec 16} {hw : BitVec 11} (sel : CtxtCmdSel) (sels : List CtxtCmdSel)
    (is : (qdmaGetRealQid qdev qid).setWidth 11 = hw) (safe : ∀ sel hw, zero sel hw → Untouchable n p.vfs clearing hw)
    (here : Untouchable n p.vfs clearing hw) :
    (teardownContract n (.pf 0)).Triple (TeardownAt p clearing (andQueue zero sels hw))
      (onCard completing (clearCtxt (queueCmd qdev qid sel .inv)))
      fun _ => TeardownAt p clearing (andQueue zero (sel :: sels) hw) := by
  have cmd_qid : (queueCmd qdev qid sel .inv).qid = hw := is
  have safe' := andQueue_safe safe sels here
  apply (clearCtxt_triple (by simp) (by simp) safe' (cmd_qid ▸ here)).conseq (fun _ _ at_ => at_)
  intro _ s _ at_
  apply at_.mono
  rintro sel' hw' (holds | ⟨rfl, s, mem, rfl⟩)
  · exact .inl (.inl holds)
  · rcases List.mem_cons.mp mem with rfl | mem
    · exact .inr ⟨rfl, cmd_qid.symm⟩
    · exact .inl (.inr ⟨rfl, s, mem, rfl⟩)

/-- The loop body of the teardown: all eight contexts of a queue. -/
theorem clearQueue_triple {qdev : QdmaDev} {qid : BitVec 16} {hw : BitVec 11}
    (is : (qdmaGetRealQid qdev qid).setWidth 11 = hw) (safe : ∀ sel hw, zero sel hw → Untouchable n p.vfs clearing hw)
    (here : Untouchable n p.vfs clearing hw) :
    (teardownContract n (.pf 0)).Triple (TeardownAt p clearing zero) (do
      onCard completing (onicQdmaClearRxQueue qdev qid)
      onCard completing (onicQdmaClearTxQueue qdev qid)) fun _ => TeardownAt p clearing (andQueue zero queueSels hw) := by
  simp only [onicQdmaClearRxQueue, onicQdmaClearTxQueue, onCard_bind]
  apply Contract.Triple.from_pre (TeardownAt p clearing (andQueue zero [] hw))
  · intro s _ at_
    apply at_.mono
    rintro sel hw' (holds | ⟨-, s, mem, -⟩)
    · exact holds
    · cases mem
  have next (sel : CtxtCmdSel) (sels : List CtxtCmdSel) := invalidate_triple sel sels is safe here
  apply Contract.Triple.bind
  · apply Contract.Triple.bind (next .swC2h [])
    intro _
    apply Contract.Triple.bind (next .hwC2h _)
    intro _
    apply Contract.Triple.bind (next .crC2h _)
    intro _
    apply Contract.Triple.bind (next .pfch _)
    intro _
    apply Contract.Triple.bind (next .cmpl _)
    intro _
    exact quiet_triple (q := .done ()) True.intro (andQueue_safe safe _ here)
  intro _
  apply Contract.Triple.bind (next .swH2c _)
  intro _
  apply Contract.Triple.bind (next .hwH2c _)
  intro _
  apply Contract.Triple.bind (next .crH2c _)
  intro _
  exact quiet_triple (q := .done ()) True.intro (andQueue_safe safe _ here)

theorem readAt_triple {α : Type} (get : PfPriv → α) (safe : ∀ sel hw, zero sel hw → Untouchable n p.vfs clearing hw) :
    (teardownContract n (.pf 0)).Triple (TeardownAt p clearing zero) (readPriv 0 get)
      fun a s => get p = a ∧ TeardownAt p clearing zero s := by
  apply Contract.Triple.read (stable_teardownAt safe) fun a => (stable_teardownAt safe).pure_and
  intro s _ _ at_
  exact ⟨by rw [at_.priv], at_⟩

end

section

variable {n k : Nat}

/-- The contexts that are zero when the teardown has come to queue `qid` of VF `i`, of `k` VFs. -/
def ZeroBefore (n k i qid : Nat) (sel : BitVec 4) (hw : BitVec 11) : Prop :=
  (∃ s ∈ queueSels, sel = s.code) ∧ ∃ (j : Fin onicMaxVfs) (r : Nat), r < queuesPerVf ∧ hw = vfQueue n j r ∧
    (j.val < i ∧ j.val < k ∨ j.val = i ∧ r < qid)

/-- The entries that the teardown has not come to. -/
def Remaining (k i : Nat) (vfs : VfTable) : Prop := ∀ j, (vfs.vfRes j).enabled = true ↔ i ≤ j.val ∧ j.val < k

theorem zeroBefore_safe {vfs : VfTable} {clearing : Option (BitVec 16 × Nat)} {i : Fin onicMaxVfs} {qid : Nat}
    (remaining : Remaining k i vfs) (mark : 0 < qid → ∃ come, qid ≤ come ∧ clearing = some (vfFuncId i, come))
    (sel : BitVec 4) (hw : BitVec 11)
    (holds : ZeroBefore n k i qid sel hw) : Untouchable n vfs clearing hw := by
  obtain ⟨-, j, r, inside, is, ⟨before, -⟩ | ⟨here, less⟩⟩ := holds
  · refine ⟨j, r, inside, is, .inl ?_⟩
    by_contra enabled
    have late := ((remaining j).mp (by simpa using enabled)).1
    omega
  · have same : j = i := Fin.ext here
    subst same
    obtain ⟨come, far, marked⟩ := mark (by omega)
    exact ⟨j, r, inside, is, .inr ⟨come, marked, by omega⟩⟩

theorem zeroBefore_next {i : Fin onicMaxVfs} {qid : Nat} (sel : BitVec 4) (hw : BitVec 11)
    (holds : ZeroBefore n k i (qid + 1) sel hw) :
    andQueue (ZeroBefore n k i qid) queueSels (vfQueue n i qid) sel hw := by
  obtain ⟨contexts, j, r, inside, rfl, before | ⟨here, less⟩⟩ := holds
  · exact .inl ⟨contexts, j, r, inside, rfl, .inl before⟩
  · by_cases last : r = qid
    · have same : j = i := Fin.ext here
      subst same last
      exact .inr ⟨rfl, contexts⟩
    · exact .inl ⟨contexts, j, r, inside, rfl, .inr ⟨here, by omega⟩⟩

/-- How far the teardown has marked its way through VF `i`. -/
def reached (c : Option (BitVec 16 × Nat)) (i : Fin onicMaxVfs) (qid : Nat) : Option (BitVec 16 × Nat) :=
  if qid = 0 then c else some (vfFuncId i, qid)

theorem clearQueues_triple {p : PfPriv} {i : Fin onicMaxVfs} {res : OnicVfResource} (setUp : SetUp n i res)
    (small : n ≤ onicMaxQueues) (remaining : Remaining k i p.vfs) (c : Option (BitVec 16 × Nat)) :
    (teardownContract n (.pf 0)).Triple (TeardownAt p (reached c i 0) (ZeroBefore n k i 0)) (.fold (fun qid _ => do
        .modify fun s => { s with clearing := some (res.funcId, qid + 1) }
        onCard completing (onicQdmaClearRxQueue ⟨res.funcId, res.qbase, res.qmax⟩ (BitVec.ofNat 16 qid))
        onCard completing (onicQdmaClearTxQueue ⟨res.funcId, res.qbase, res.qmax⟩ (BitVec.ofNat 16 qid))) 0 queuesPerVf ())
      fun _ => TeardownAt p (reached c i (0 + queuesPerVf)) (ZeroBefore n k i (0 + queuesPerVf)) := by
  have safe (qid : Nat) : ∀ sel hw, ZeroBefore n k i qid sel hw → Untouchable n p.vfs (reached c i qid) hw :=
    zeroBefore_safe remaining fun positive => ⟨qid, Nat.le_refl qid, if_neg (by omega)⟩
  apply Contract.Triple.fold
    (I := fun (qid : Nat) (_ : Unit) => TeardownAt p (reached c i qid) (ZeroBefore n k i qid)) fun qid _ => stable_teardownAt (safe qid)
  intro qid _ _ few
  have inside : qid < queuesPerVf := by omega
  have marked : reached c i (qid + 1) = some (vfFuncId i, qid + 1) := if_neg (Nat.succ_ne_zero qid)
  have safe' : ∀ sel hw, ZeroBefore n k i qid sel hw → Untouchable n p.vfs (some (vfFuncId i, qid + 1)) hw :=
    zeroBefore_safe remaining fun _ => ⟨qid + 1, Nat.le_succ qid, rfl⟩
  have here : Untouchable n p.vfs (some (vfFuncId i, qid + 1)) (vfQueue n i qid) :=
    ⟨i, qid, inside, rfl, .inr ⟨qid + 1, rfl, Nat.lt_succ_self qid⟩⟩
  have number : (BitVec.ofNat 16 qid).toNat = qid := by
    rw [BitVec.toNat_ofNat]
    rw [queuesPerVf] at inside
    omega
  have local_ : (BitVec.ofNat 16 qid).toNat < queuesPerVf := number.symm ▸ inside
  have is := setUp.realQid small local_
  rw [number] at is
  apply Contract.Triple.bind (M := fun _ => TeardownAt p (some (vfFuncId i, qid + 1)) (ZeroBefore n k i qid))
  · apply Contract.Triple.modify (stable_teardownAt (safe qid)) (stable_teardownAt safe')
    intro s _ inv at_ _
    obtain ⟨inv', guarantee⟩ := inv.setClearing (some (res.funcId, qid + 1))
    exact ⟨inv', guarantee, at_.priv, by rw [setUp.funcId], at_.zero⟩
  intro _
  apply (clearQueue_triple is safe' here).conseq (fun _ _ at_ => at_)
  intro _ s _ at_
  rw [marked]
  exact at_.mono zeroBefore_next

/-- Before a round of the teardown. -/
def TeardownRound (n k i : Nat) (s : Card) : Prop :=
  ∃ p c, (Remaining k i p.vfs ∧ p.qdev ≠ none) ∧ TeardownAt p c (ZeroBefore n k i 0) s

theorem round_safe {i qid : Nat} {vfs : VfTable} {c : Option (BitVec 16 × Nat)} (remaining : Remaining k i vfs) (first : qid = 0)
    (sel : BitVec 4) (hw : BitVec 11) (holds : ZeroBefore n k i qid sel hw) : Untouchable n vfs c hw := by
  obtain ⟨-, j, r, inside, is, ⟨before, -⟩ | ⟨here, less⟩⟩ := holds
  · refine ⟨j, r, inside, is, .inl ?_⟩
    by_contra enabled
    have late := ((remaining j).mp (by simpa using enabled)).1
    omega
  · omega

theorem stable_round (i : Nat) : (teardownContract n (.pf 0)).Stable (TeardownRound n k i) := by
  rintro s s' ⟨p, c, ⟨remaining, qdev⟩, at_⟩ rely ok inv
  exact ⟨p, c, ⟨remaining, qdev⟩, stable_teardownAt (round_safe remaining rfl) s s' at_ rely ok inv⟩

theorem clearFmap_teardown {p : PfPriv} {c : Option (BitVec 16 × Nat)} {zero : BitVec 4 → BitVec 11 → Prop}
    (safe : ∀ sel hw, zero sel hw → Untouchable n p.vfs c hw) (qdev : QdmaDev) :
    (teardownContract n (.pf 0)).Triple (TeardownAt p c zero) (clearFmap completing qdev) fun _ => TeardownAt p c zero := by
  apply Contract.Triple.bind (M := fun _ => TeardownAt p c zero)
  · apply Contract.Triple.modify (stable_teardownAt safe) (stable_teardownAt safe)
    intro s _ inv at_ _
    obtain ⟨inv', guarantee⟩ := inv.setFmap qdev.funcId none
    exact ⟨inv', guarantee, at_.priv, at_.clearing, at_.zero⟩
  intro _
  apply quiet_triple _ safe
  apply Program.Steps.bind (clearCtxt_steps (by simp [fmapCmd]))
  exact fun _ => True.intro

theorem eraseVf_priv (s : Card) (i : Nat) :
    (s.eraseVf 0 i).priv 0 = { s.priv 0 with vfs := (s.priv 0).vfs.setRes i .zero } := by
  simp [Card.eraseVf, Card.setPriv]

/-- Once its entry is gone no handler can be configuring one of its queues. -/
theorem TeardownInv.erase {s : Card} (inv : TeardownInv n s) (ok : NoLateConfig s) {i : Fin onicMaxVfs}
    (all : s.clearing = some (vfFuncId i, queuesPerVf)) : TeardownInv n (s.eraseVf 0 i) := by
  refine ⟨inv.small, fun j enabled => ?_, fun t funcId qid configuring => ?_⟩
  · rw [eraseVf_priv] at enabled ⊢
    by_cases same : j = i
    · subst same
      have gone := setRes_self (s.priv 0).vfs j .zero
      rw [gone] at enabled
      cases enabled
    · have kept := setRes_other (s.priv 0).vfs same .zero
      rw [kept] at enabled ⊢
      exact inv.entries j enabled
  · obtain ⟨j, enabled, rfl, inside⟩ := inv.configuring t funcId qid configuring
    have other : j ≠ i := fun same => by
      subst same
      exact absurd (ok t _ qid _ configuring all) (Nat.not_le.mpr inside)
    refine ⟨j, ?_, rfl, inside⟩
    have kept := setRes_other (s.priv 0).vfs other .zero
    rw [eraseVf_priv, kept]
    exact enabled

theorem Remaining.erase {vfs : VfTable} {i : Fin onicMaxVfs} (remaining : Remaining k i vfs) :
    Remaining k (i + 1) (vfs.setRes i .zero) := by
  intro j
  by_cases same : j = i
  · subst same
    rw [setRes_self]
    exact iff_of_false nofun (by omega)
  · rw [setRes_other _ same, remaining j]
    have apart : j.val ≠ i := fun is => same (Fin.ext is)
    omega

theorem onicFreeVfResource_teardown (i : Fin onicMaxVfs) :
    (teardownContract n (.pf 0)).Triple (TeardownRound n k i) (onicFreeVfResource completing 0 i)
      fun _ => TeardownRound n k (i + 1) := by
  apply Contract.Triple.exists_pre
  intro p
  apply Contract.Triple.exists_pre
  intro c
  apply Contract.Triple.pure_pre
  rintro ⟨remaining, qdev⟩
  have safe := round_safe (n := n) (c := c) remaining rfl
  apply Contract.Triple.bind (readAt_triple (fun priv => priv.vfs.res i) safe)
  intro res
  apply Contract.Triple.pure_pre
  rintro rfl
  rw [VfTable.res_eq]
  cases enabled : (p.vfs.vfRes i).enabled with
  | false =>
    rw [if_pos (by decide)]
    refine Contract.Triple.done (stable_teardownAt safe) ?_
    intro s _ at_
    have past : ¬ i.val < k := fun less => by
      rw [(remaining i).mpr ⟨Nat.le_refl _, less⟩] at enabled
      cases enabled
    refine ⟨p, c, ⟨fun j => ?_, qdev⟩, at_.mono ?_⟩
    · rw [remaining j]
      omega
    · rintro sel hw ⟨contexts, j, r, inside, is, before | ⟨-, less⟩⟩
      · exact ⟨contexts, j, r, inside, is, .inl (by omega)⟩
      · exact absurd less (Nat.not_lt_zero r)
  | true =>
    rw [if_neg (by decide)]
    have less := ((remaining i).mp enabled).2
    apply Contract.Triple.from_pre fun s =>
      (n ≤ onicMaxQueues ∧ SetUp n i (p.vfs.vfRes i)) ∧ TeardownAt p c (ZeroBefore n k i 0) s
    · intro s inv at_
      have entry := inv.entries i
      rw [at_.priv] at entry
      exact ⟨⟨inv.small, entry enabled⟩, at_⟩
    apply Contract.Triple.pure_pre
    rintro ⟨small, setUp⟩
    have safe' : ∀ sel hw, ZeroBefore n k i queuesPerVf sel hw →
        Untouchable n p.vfs (some (vfFuncId i, queuesPerVf)) hw :=
      zeroBefore_safe remaining fun _ => ⟨queuesPerVf, Nat.le_refl _, rfl⟩
    apply Contract.Triple.bind (M := fun _ => TeardownAt p (some (vfFuncId i, queuesPerVf)) (ZeroBefore n k i queuesPerVf))
    · rw [setUp.qmax_toNat]
      exact clearQueues_triple setUp small remaining c
    intro _
    apply Contract.Triple.bind (clearFmap_teardown safe' _)
    intro _
    apply Contract.Triple.modify (stable_teardownAt safe') (stable_round _)
    intro s ok inv at_ _
    refine ⟨inv.erase ok at_.clearing, ?_, ?_⟩
    · intro u other
      cases u with
      | pf f => exact fun is => absurd (congrArg SriovThread.pf is) other
      | mbox t => exact rfl
    · refine ⟨{ p with vfs := p.vfs.setRes i .zero }, none, ⟨remaining.erase, qdev⟩, ?_, rfl, ?_⟩
      · rw [eraseVf_priv, at_.priv]
      · rintro sel hw ⟨contexts, j, r, inside, is, ⟨before, few⟩ | ⟨-, less⟩⟩
        · apply at_.zero
          refine ⟨contexts, j, r, inside, is, ?_⟩
          omega
        · exact absurd less (Nat.not_lt_zero r)

/-- The teardown is done: no VF has an entry, and the contexts of all their queues are zero. -/
def TornDown (n k : Nat) (s : Card) : Prop :=
  (∀ i, ((s.priv 0).vfs.vfRes i).enabled = false) ∧
    ∀ (i : Fin onicMaxVfs) (qid : Nat) (sel : CtxtCmdSel), i.val < k → qid < queuesPerVf → sel ∈ queueSels →
      s.engine.ctxt sel.code (vfQueue n i qid) = fun _ => 0

theorem TeardownRound.tornDown {s : Card} {i : Nat} (all : k ≤ i) (round : TeardownRound n k i s) : TornDown n k s := by
  obtain ⟨p, c, ⟨remaining, -⟩, at_⟩ := round
  refine ⟨fun j => ?_, fun j qid sel few inside mem => ?_⟩
  · rw [at_.priv]
    by_contra enabled
    have late := (remaining j).mp (by simpa using enabled)
    omega
  · exact at_.zero _ _ ⟨⟨sel, mem, rfl⟩, j, qid, inside, rfl, .inl ⟨by omega, few⟩⟩

theorem stable_tornDown : (teardownContract n (.pf 0)).Stable (TornDown n k) := by
  rintro s s' ⟨none, zero⟩ rely - -
  obtain ⟨priv, -, keeps⟩ := rely rfl
  refine ⟨fun i => by rw [priv]; exact none i, fun i qid sel few inside mem => ?_⟩
  exact keeps _ _ ⟨i, qid, inside, rfl, .inl (none i)⟩ (zero i qid sel few inside mem)

theorem setNum_priv (s : Card) (num : Fin (onicMaxVfs + 1)) :
    (s.setPriv 0 fun priv => { priv with vfs := priv.vfs.setNum num }).priv 0 =
      { s.priv 0 with vfs := (s.priv 0).vfs.setNum num } := by
  simp [Card.setPriv]

theorem TeardownInv.setNum {s : Card} (inv : TeardownInv n s) (num : Fin (onicMaxVfs + 1)) :
    TeardownInv n (s.setPriv 0 fun priv => { priv with vfs := priv.vfs.setNum num }) := by
  refine ⟨inv.small, fun i enabled => ?_, fun t funcId qid configuring => ?_⟩
  · rw [setNum_priv] at enabled ⊢
    exact inv.entries i enabled
  · rw [setNum_priv]
    exact inv.configuring t funcId qid configuring

theorem TornDown.setNum {s : Card} (torn : TornDown n k s) (num : Fin (onicMaxVfs + 1)) :
    TornDown n k (s.setPriv 0 fun priv => { priv with vfs := priv.vfs.setNum num }) := by
  refine ⟨fun i => ?_, torn.2⟩
  rw [setNum_priv]
  exact torn.1 i

theorem onicFreeVfResources_teardown {numVfs : Nat} (few : k ≤ onicMaxVfs) (enough : k ≤ numVfs) :
    (teardownContract n (.pf 0)).Triple (TeardownRound n k 0) (onicFreeVfResources completing 0 numVfs)
      fun _ => TornDown n k := by
  apply Contract.Triple.exists_pre
  intro p
  apply Contract.Triple.exists_pre
  intro c
  apply Contract.Triple.pure_pre
  rintro ⟨remaining, qdev⟩
  apply Contract.Triple.bind (readAt_triple PfPriv.qdev (round_safe remaining rfl))
  intro found
  apply Contract.Triple.pure_pre
  rintro rfl
  cases present : p.qdev with
  | none => exact absurd present qdev
  | some d =>
    apply Contract.Triple.from_pre (TeardownRound n k 0) fun s _ at_ => ⟨p, c, ⟨remaining, qdev⟩, at_⟩
    apply Contract.Triple.bind (M := fun _ => TeardownRound n k (0 + min numVfs onicMaxVfs))
    · apply Contract.Triple.fold (I := fun (i : Nat) (_ : Unit) => TeardownRound n k i) fun i _ => stable_round i
      intro i _ _ high
      exact onicFreeVfResource_teardown ⟨i, by omega⟩
    intro _
    apply Contract.Triple.modify (stable_round _) stable_tornDown
    intro s _ inv round _
    refine ⟨inv.setNum 0, fun u other => ?_, (round.tornDown (by omega)).setNum 0⟩
    cases u with
    | pf f => exact fun is => absurd (congrArg SriovThread.pf is) other
    | mbox t => exact rfl

end

end OpenNic
