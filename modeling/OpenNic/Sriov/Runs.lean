import OpenNic.Sriov.Binding
import Mathlib.Data.Fintype.Card
import Mathlib.Tactic.IntervalCases

namespace OpenNic

section

variable (via : Input → Input)

/-- The PCI core calls `sriov_configure` with 0 only while VFs are enabled and with a
    positive number only while none are. -/
inductive PfCall (f : Fin 4) (priv : PfPriv) : Program Card CardInput Unit → Prop
  | probe (unbound : priv.bound = false) : PfCall f priv (do
      let _ ← onicProbe via f
      .done ())
  | remove (bound : priv.bound = true) : PfCall f priv (onicRemove via f)
  | disable (bound : priv.bound = true) (enabled : priv.pciNumVf ≠ 0) : PfCall f priv (callSriovConfigure via f 0)
  | enable (bound : priv.bound = true) (disabled : priv.pciNumVf = 0) (numVfs : Int) (positive : 0 < numVfs) :
    PfCall f priv (callSriovConfigure via f numVfs)

def sriovRules : Pool.Rules SriovThread Card CardInput where
  calls t s p :=
    match t with
    | .pf f => PfCall via f (s.priv f) p
    | .mbox k => ∃ srcFuncId req, p = onicPfMboxHandle via k srcFuncId req
  env _ _ := False

end

def SriovIdle (t : SriovThread) (s : Card) : Prop :=
  match t with
  | .pf f => PfIdle f (s.view f)
  | .mbox _ => True

section

variable {via : Input → Input}

theorem pf_call_triple {f : Fin 4} {s : Card} {p : Program Card CardInput Unit} (called : PfCall via f (s.priv f) p)
    (inv : CardOk s) (idle : PfIdle f (s.view f)) : (cardContract (.pf f)).wp p (fun _ => SriovIdle (.pf f)) s := by
  rcases idle with unbound | ⟨⟨n, k, bound⟩, -⟩
  · have not_bound : (s.priv f).bound = false := unbound.1.bound
    cases called with
    | probe =>
      apply Contract.wp_bind (onicProbe_triple s trivial inv unbound) trivial inv
      intro _
      exact Contract.Triple.done (stable_view (PfIdle f)) fun _ _ idle => idle
    | remove is_bound => exact absurd (is_bound.symm.trans not_bound) nofun
    | disable is_bound => exact absurd (is_bound.symm.trans not_bound) nofun
    | enable is_bound => exact absurd (is_bound.symm.trans not_bound) nofun
  · have is_bound : (s.priv f).bound = true := bound.bound
    cases called with
    | probe not_bound => exact absurd (is_bound.symm.trans not_bound) nofun
    | remove =>
      exact Contract.wp_mono (onicRemove_triple bound s trivial inv rfl) fun _ _ _ _ unbound => .inl unbound
    | disable _ enabled => exact callSriovConfigure_triple (Int.le_refl 0) nofun bound s trivial inv rfl
    | enable _ disabled numVfs positive =>
      have none : k = 0 := bound.pciNumVf.symm.trans disabled
      exact callSriovConfigure_triple (Int.le_of_lt positive) (fun _ => none) bound s trivial inv rfl

/-- The mailbox reads the table and programs contexts. -/
theorem onicPfMboxHandle_steps (k : PfThread) (srcFuncId : BitVec 16) (req : Msg) :
    (onicPfMboxHandle via k srcFuncId req).Steps fun s s' => ∀ f, s'.view f = s.view f := by
  apply Program.Steps.bind
  · apply Program.Steps.access
    intro _ s a s' taken f
    cases taken
    rfl
  rintro ⟨mapped, vfs⟩
  apply Program.Steps.bind
  · exact (Program.Steps.trivial _).lift fun _ _ _ _ => rfl
  intro _
  exact Program.Steps.modify fun _ _ => rfl

theorem sriovRules_fit :
    Pool.Fits (sriovRules via) (fun _ => True) CardOk cardContract SriovIdle where
  same_ok _ := rfl
  same_inv _ := rfl
  threads t u other s s' _ _ guarantee f is := guarantee f fun same => other (same.trans is.symm)
  env _ _ _ _ _ happens := happens.elim
  calls t s p called _ inv idle := by
    cases t with
    | pf f => exact pf_call_triple called inv idle
    | mbox k =>
      obtain ⟨srcFuncId, req, rfl⟩ := called
      apply Contract.Triple.of_steps (onicPfMboxHandle_steps k srcFuncId req) _ s trivial inv trivial
      intro s s' inv same
      refine ⟨fun f => ?_, fun f _ => same f⟩
      rw [same f]
      exact inv f

/-- The card before the first driver is bound. -/
def Card.reset (engine : CtxtEngine) : Card := ⟨engine, fun _ => .zero, fun _ => none, none, fun _ => none⟩

theorem unbound_reset (engine : CtxtEngine) (f : Fin 4) : Unbound ((Card.reset engine).view f) :=
  ⟨⟨rfl, fun _ => rfl, rfl, rfl⟩, rfl⟩

theorem cardOk_reset (engine : CtxtEngine) : CardOk (Card.reset engine) := by
  intro f
  have closed := (unbound_reset engine f).1
  exact closed.none.ok nofun nofun

/-- What holds at every access and of every PF that is between two calls. -/
theorem sriov_reach {engine : CtxtEngine} {P : Pool SriovThread Card CardInput}
    (reach : Pool.Reach (sriovRules via) (fun _ => True) (Pool.start (Card.reset engine)) P) :
    CardOk P.state ∧ ∀ f, P.thread (.pf f) = .done () → PfIdle f (P.state.view f) := by
  have start (t : SriovThread) : SriovIdle t (Card.reset engine) := by
    cases t with
    | pf f => exact .inl (unbound_reset engine f)
    | mbox k => trivial
  obtain ⟨-, inv, threads⟩ := sriovRules_fit.reach reach trivial (cardOk_reset engine) fun t s' rely _ _ => by
    cases t with
    | pf f =>
      have same : s'.view f = (Card.reset engine).view f := rely f rfl
      show PfIdle f (s'.view f)
      rw [same]
      exact start (.pf f)
    | mbox k => trivial
  refine ⟨inv, fun f idle => ?_⟩
  have here := threads (.pf f)
  rw [idle] at here
  exact here P.state ((cardContract (.pf f)).rely_refl _) trivial inv

theorem VfEntry.qbase_toNat {v : PfView} {n : Nat} {i : Fin onicMaxVfs} (entry : VfEntry v n i) :
    (v.priv.vfs.vfRes i).qbase.toNat = n + queuesPerVf * i := by
  have small := entry.small
  have few : i.val < 4 := i.isLt
  rw [entry.qbase, BitVec.toNat_ofNat]
  rw [onicMaxQueues] at small
  rw [queuesPerVf]
  omega

theorem VfEntry.qmax_toNat {v : PfView} {n : Nat} {i : Fin onicMaxVfs} (entry : VfEntry v n i) :
    (v.priv.vfs.vfRes i).qmax.toNat = queuesPerVf := by
  rw [entry.qmax]
  decide

/-- The table of the VFs of a PF between two calls. -/
structure VfTableValid (fmap : BitVec 16 → Option FmapCtxt) (returned : Option (Int × Int)) (vfs : VfTable) : Prop where
  count : vfs.numVfs = (Finset.univ.filter fun i => (vfs.vfRes i).enabled = true).card
  enabled : ∀ i, (vfs.vfRes i).enabled = true ↔ i.val < vfs.numVfs
  distinct : ∀ i j, (vfs.vfRes i).enabled = true → (vfs.vfRes j).enabled = true → i ≠ j →
    (vfs.vfRes i).funcId ≠ (vfs.vfRes j).funcId
  disjoint : ∀ i j, (vfs.vfRes i).enabled = true → (vfs.vfRes j).enabled = true → i ≠ j → ∀ qid : Nat,
    ¬ (((vfs.vfRes i).qbase.toNat ≤ qid ∧ qid < (vfs.vfRes i).qbase.toNat + (vfs.vfRes i).qmax.toNat) ∧
      (vfs.vfRes j).qbase.toNat ≤ qid ∧ qid < (vfs.vfRes j).qbase.toNat + (vfs.vfRes j).qmax.toNat)
  programmed : ∀ i, (vfs.vfRes i).enabled = true → ∃ ctxt, fmap (vfs.vfRes i).funcId = some ctxt ∧
    ctxt.qbase.toNat = (vfs.vfRes i).qbase.toNat ∧ ctxt.qmax.toNat = (vfs.vfRes i).qmax.toNat
  failed : ∀ num rv, returned = some (num, rv) → rv < 0 → ¬ (num = 0 ∧ rv = -EBUSY) →
    (∀ i, (vfs.vfRes i).enabled = false) ∧ vfs.numVfs = 0
  found : ∀ funcId res, onicPfMboxFindVfResource vfs funcId = some res ↔
    ∃ i, (vfs.vfRes i).enabled = true ∧ (vfs.vfRes i).funcId = funcId ∧ vfs.vfRes i = res

theorem find_iff {vfs : VfTable} (enabled : ∀ i, (vfs.vfRes i).enabled = true ↔ i.val < vfs.numVfs)
    (distinct : ∀ i j, (vfs.vfRes i).enabled = true → (vfs.vfRes j).enabled = true → i ≠ j →
      (vfs.vfRes i).funcId ≠ (vfs.vfRes j).funcId) (funcId : BitVec 16) (res : OnicVfResource) :
    onicPfMboxFindVfResource vfs funcId = some res ↔
      ∃ i, (vfs.vfRes i).enabled = true ∧ (vfs.vfRes i).funcId = funcId ∧ vfs.vfRes i = res := by
  constructor
  · intro found
    obtain ⟨live, same, i, entry⟩ := onicPfMboxFindVfResource_some found
    exact ⟨i, by rw [entry]; exact live, by rw [entry]; exact same, entry⟩
  · rintro ⟨i, live, same, rfl⟩
    cases found : onicPfMboxFindVfResource vfs funcId with
    | none =>
      rcases onicPfMboxFindVfResource_none found i ((enabled i).mp live) with disabled | other
      · rw [disabled] at live
        cases live
      · exact absurd same other
    | some res =>
      obtain ⟨live', same', j, entry⟩ := onicPfMboxFindVfResource_some found
      by_cases here : i = j
      · rw [here, entry]
      · have apart := distinct i j live (by rw [entry]; exact live') here
        rw [entry] at apart
        exact absurd (same.trans same'.symm) apart

theorem count_below {k : Nat} (few : k ≤ onicMaxVfs) :
    (Finset.univ.filter fun i : Fin onicMaxVfs => i.val < k).card = k := by
  have small : k < 5 := Nat.lt_succ_of_le few
  interval_cases k <;> decide

theorem NoEntry.valid {v : PfView} (none : NoEntry v) (numVfs : v.priv.vfs.numVfs = 0) (fmap : BitVec 16 → Option FmapCtxt)
    (returned : Option (Int × Int)) : VfTableValid fmap returned v.priv.vfs := by
  have off {i : Fin onicMaxVfs} (live : (v.priv.vfs.vfRes i).enabled = true) : False := by
    rw [none i] at live
    cases live
  have enabled (i : Fin onicMaxVfs) : (v.priv.vfs.vfRes i).enabled = true ↔ i.val < v.priv.vfs.numVfs := by
    rw [numVfs]
    exact iff_of_false off (Nat.not_lt_zero _)
  refine ⟨?_, enabled, fun i j live => (off live).elim, fun i j live => (off live).elim, fun i live => (off live).elim,
    fun _ _ _ _ _ => ⟨none, numVfs⟩, find_iff enabled fun i j live => (off live).elim⟩
  simp only [enabled]
  exact (count_below v.priv.vfs.bound).symm

/-- The entry of an enabled VF, with the number of queues of its PF. -/
theorem Bound.entry {f : Fin 4} {n k : Nat} {v : PfView} (bound : Bound f n k v) (ok : PfOk f v) {i : Fin onicMaxVfs}
    (live : (v.priv.vfs.vfRes i).enabled = true) : f = 0 ∧ VfEntry v n i := by
  obtain ⟨master, m, entry⟩ := ok.entries i live
  have same := bound.qdev.symm.trans entry.device
  simp only [Option.some.injEq, QdmaDev.mk.injEq] at same
  have count := congrArg BitVec.toNat same.2.2
  have small := entry.small
  have small' := bound.small
  rw [BitVec.toNat_ofNat, BitVec.toNat_ofNat] at count
  rw [onicMaxQueues] at small small'
  have is : m = n := by omega
  exact ⟨master, is ▸ entry⟩

theorem Bound.valid {f : Fin 4} {n k : Nat} {s : Card} (bound : Bound f n k (s.view f)) (ok : PfOk f (s.view f))
    (closed : ReturnedClosed (s.view f)) : VfTableValid s.fmap (s.view f).priv.returned (s.view f).priv.vfs := by
  have enabled (i : Fin onicMaxVfs) :
      ((s.view f).priv.vfs.vfRes i).enabled = true ↔ i.val < (s.view f).priv.vfs.numVfs := by
    rw [bound.numVfs]
    exact bound.entries i
  have distinct (i j : Fin onicMaxVfs) (live : ((s.view f).priv.vfs.vfRes i).enabled = true)
      (live' : ((s.view f).priv.vfs.vfRes j).enabled = true) (apart : i ≠ j) :
      ((s.view f).priv.vfs.vfRes i).funcId ≠ ((s.view f).priv.vfs.vfRes j).funcId := by
    rw [(bound.entry ok live).2.funcId, (bound.entry ok live').2.funcId]
    exact fun same => apart (vfFuncId_inj.mp same)
  refine ⟨?_, enabled, distinct, ?_, ?_, ?_, find_iff enabled distinct⟩
  · simp only [enabled]
    exact (count_below (s.view f).priv.vfs.bound).symm
  · intro i j live live' apart qid
    have different : i.val ≠ j := fun same => apart (Fin.ext same)
    rw [(bound.entry ok live).2.qbase_toNat, (bound.entry ok live').2.qbase_toNat, (bound.entry ok live).2.qmax_toNat,
      (bound.entry ok live').2.qmax_toNat, queuesPerVf]
    omega
  · intro i live
    obtain ⟨rfl, entry⟩ := bound.entry ok live
    have written : s.fmap (vfFuncId i) = some ⟨BitVec.ofNat 11 (n + queuesPerVf * i), BitVec.ofNat 12 queuesPerVf⟩ :=
      bound.fmap i ((bound.entries i).mp live)
    rw [entry.funcId]
    refine ⟨_, written, ?_, ?_⟩
    · have small := entry.small
      have few : i.val < 4 := i.isLt
      rw [onicMaxQueues] at small
      rw [entry.qbase_toNat, BitVec.toNat_ofNat, queuesPerVf]
      omega
    · rw [entry.qmax_toNat]
      show (BitVec.ofNat 12 queuesPerVf).toNat = queuesPerVf
      decide
  · intro num rv is negative other
    rcases closed num rv is negative with assigned | freed
    · exact absurd assigned other
    · exact freed

end

/-- Everything succeeds, and every PF is granted 64 vectors. -/
def grantAll : CardInput := ⟨⟨0, true⟩, 0, true, ⟨63, by decide⟩, 0⟩

/-- The card after a call that nothing interferes with. -/
def afterCall (p : Program Card CardInput Unit) (s : Card) : Card := ((p.eval grantAll s).map Prod.snd).getD s

theorem reach_call {via : Input → Input} {s : Card} (t : SriovThread) {p : Program Card CardInput Unit}
    (allowed : (sriovRules via).calls t s p) (finishes : (p.eval grantAll s).isSome = true) :
    Pool.Reach (sriovRules via) (fun _ => True) (Pool.start s) (Pool.start (afterCall p s)) := by
  obtain ⟨⟨u, s'⟩, ran⟩ := Option.isSome_iff_exists.mp finishes
  have is : afterCall p s = s' := by
    rw [afterCall, ran]
    rfl
  rw [is]
  exact Pool.reach_of_exec (t := t) rfl allowed (.of_eval ran)

def probeCall (f : Fin 4) : Program Card CardInput Unit := do
  let _ ← onicProbe id f
  .done ()

def blankEngine : CtxtEngine := ⟨fun _ => 0, fun _ => 0, fun _ _ _ => 0, false, []⟩

def masterProbed : Card := afterCall (probeCall 0) (Card.reset blankEngine)

def masterWithVf : Card := afterCall (callSriovConfigure id 0 1) masterProbed

theorem reach_masterProbed :
    Pool.Reach (sriovRules id) (fun _ => True) (Pool.start (Card.reset blankEngine)) (Pool.start masterProbed) :=
  reach_call (.pf 0) (PfCall.probe rfl) (by decide +kernel)

theorem reach_masterWithVf :
    Pool.Reach (sriovRules id) (fun _ => True) (Pool.start (Card.reset blankEngine)) (Pool.start masterWithVf) :=
  reach_masterProbed.trans
    (reach_call (.pf 0) (PfCall.enable (by decide +kernel) (by decide +kernel) 1 (by decide)) (by decide +kernel))

theorem sriov_table_valid {via : Input → Input} {engine : CtxtEngine} {P : Pool SriovThread Card CardInput} {f : Fin 4}
    (reach : Pool.Reach (sriovRules via) (fun _ => True) (Pool.start (Card.reset engine)) P)
    (idle : P.thread (.pf f) = .done ()) :
    VfTableValid P.state.fmap (P.state.priv f).returned (P.state.priv f).vfs := by
  obtain ⟨inv, threads⟩ := sriov_reach reach
  rcases threads f idle with unbound | ⟨⟨n, k, bound⟩, closed⟩
  · exact unbound.1.none.valid unbound.1.numVfs _ _
  · exact bound.valid (inv f) closed

theorem sriov_table_valid_one_vf :
    (masterWithVf.priv 0).vfs.numVfs = 1 ∧
      VfTableValid masterWithVf.fmap (masterWithVf.priv 0).returned (masterWithVf.priv 0).vfs :=
  ⟨by decide +kernel, sriov_table_valid (P := Pool.start masterWithVf) (f := 0) reach_masterWithVf rfl⟩

end OpenNic
