import OpenNic.Mailbox.Agreement
import OpenNic.Sriov.Runs

namespace OpenNic

/-- What a VF may do with the queues it was told of: the card maps exactly them to it,
    and no other VF of the table has one of them. -/
structure QueuesGranted (fmap : BitVec 16 → Option FmapCtxt) (vfs : VfTable) (funcId : BitVec 16) (res : VfQueueRes) :
    Prop where
  own : res.funcId = funcId
  positive : 1 ≤ res.qmax.toNat
  bounded : res.qmax.toNat ≤ onicMaxQueues
  mapped : ∃ ctxt, fmap funcId = some ctxt ∧ ctxt.qbase.toNat = res.qbase.toNat ∧ ctxt.qmax.toNat = res.qmax.toNat
  apart : ∀ j, (vfs.vfRes j).enabled = true → (vfs.vfRes j).funcId ≠ funcId → ∀ qid : Nat,
    ¬ ((res.qbase.toNat ≤ qid ∧ qid < res.qbase.toNat + res.qmax.toNat) ∧
      (vfs.vfRes j).qbase.toNat ≤ qid ∧ qid < (vfs.vfRes j).qbase.toNat + (vfs.vfRes j).qmax.toNat)

/-- Every enabled entry is for a few queues, which a VF accepts. -/
def SizesFit (vfs : VfTable) : Prop :=
  ∀ i, (vfs.vfRes i).enabled = true → 1 ≤ (vfs.vfRes i).qmax.toNat ∧ (vfs.vfRes i).qmax.toNat ≤ onicMaxQueues

theorem VfTableValid.granted {fmap : BitVec 16 → Option FmapCtxt} {returned : Option (Int × Int)} {vfs : VfTable}
    (valid : VfTableValid fmap returned vfs) (sizes : SizesFit vfs) {funcId : BitVec 16} {res : OnicVfResource}
    (found : onicPfMboxFindVfResource vfs funcId = some res) :
    QueuesGranted fmap vfs funcId ⟨res.funcId, res.qbase, res.qmax, res.mac⟩ := by
  obtain ⟨i, live, same, rfl⟩ := (valid.found funcId res).mp found
  obtain ⟨ctxt, mapped, qbase, qmax⟩ := valid.programmed i live
  rw [same] at mapped
  have few := sizes i live
  refine ⟨same, few.1, few.2, ⟨ctxt, mapped, qbase, qmax⟩, fun j live' other => ?_⟩
  have different : i ≠ j := by
    rintro rfl
    exact other same
  exact valid.disjoint i j live live' different

theorem NoEntry.sizes {v : PfView} (none : NoEntry v) : SizesFit v.priv.vfs := by
  intro i live
  rw [none i] at live
  cases live

theorem Bound.sizes {f : Fin 4} {n k : Nat} {v : PfView} (bound : Bound f n k v) (ok : PfOk f v) : SizesFit v.priv.vfs := by
  intro i live
  rw [(bound.entry ok live).2.qmax_toNat]
  decide

/-- The table and the function maps of a card, as a PF leaves them between two calls. -/
theorem configured_table {via : Input → Input} {engine : CtxtEngine} {Q : Pool SriovThread Card CardInput} {f : Fin 4}
    (configured : Pool.Reach (sriovRules via) (fun _ => True) (Pool.start (Card.reset engine)) Q)
    (idle : Q.thread (.pf f) = .done ()) :
    VfTableValid Q.state.fmap (Q.state.priv f).returned (Q.state.priv f).vfs ∧ SizesFit (Q.state.priv f).vfs := by
  obtain ⟨inv, threads⟩ := sriov_reach configured
  rcases threads f idle with unbound | ⟨⟨n, k, bound⟩, closed⟩
  · exact ⟨unbound.1.none.valid unbound.1.numVfs _ _, unbound.1.none.sizes⟩
  · exact ⟨bound.valid (inv f) closed, bound.sizes (inv f)⟩

section

variable {me : FuncId} {N : Nat}

theorem linkIdle_fresh {l : Link} (fresh : LinkFresh me N l) (t : LinkThread) :
    (linkContract me l.vf.mboxSeq N t).wp (.done () : Program Link Input Unit) (fun _ => linkIdle t) l := by
  intro l' between ok inv
  cases t with
  | pf u =>
    have outside : u ∉ l.pf.inside := by
      rw [fresh.pf.inside]
      exact List.not_mem_nil
    exact stable_outside l.pf l'.pf outside between ok.1.1 inv.pf
  | irq => exact between.irqInside.trans fresh.irqInside
  | cmd k =>
    have unlocked : Idle k l := by
      unfold Idle
      rw [fresh.mboxLock]
      exact nofun
    exact stable_idle l l' unlocked between ok inv

theorem link_reach {l : Link} {P : Pool LinkThread Link Input} (few : N < 2 ^ 32) (fresh : LinkFresh me N l)
    (reach : Pool.Reach (linkRules me) (fun l => Assumed N l ∧ Apart l) (Pool.start l) P) :
    LinkInv me l.vf.mboxSeq N P.state := by
  have alone : NoOverlap l.pf := by
    unfold NoOverlap
    rw [fresh.pf.inside]
    exact Nat.zero_le 1
  have none : l.vf.sent.length ≤ N := by
    rw [fresh.sent]
    exact Nat.zero_le N
  have apart : Apart l := by
    unfold Apart
    rw [fresh.irqInside]
    exact fun both => nomatch both.1
  exact ((linkRules_fit few).reach reach ⟨⟨alone, none⟩, apart⟩ fresh.inv (linkIdle_fresh fresh)).2.1

theorem vf_resource_programmed {via : Input → Input} {engine : CtxtEngine} {Q : Pool SriovThread Card CardInput} {f : Fin 4}
    {l : Link} {P : Pool LinkThread Link Input} {r : Returned}
    (configured : Pool.Reach (sriovRules via) (fun _ => True) (Pool.start (Card.reset engine)) Q)
    (idle : Q.thread (.pf f) = .done ()) (few : N < 2 ^ 32) (fresh : LinkFresh me N l)
    (reach : Pool.Reach (linkRules me) (fun l => Assumed N l ∧ Apart l) (Pool.start l) P)
    (tables : ∀ x ∈ P.state.pf.executed, x.vfs = (Q.state.priv f).vfs) (mem : r ∈ P.state.vf.returned)
    (get : r.req.opcode = opGetQueueRes) (fine : r.ret = 0) :
    QueuesGranted Q.state.fmap (Q.state.priv f).vfs (me.setWidth 16) r.res := by
  obtain ⟨valid, sizes⟩ := configured_table configured idle
  obtain ⟨-, x, executed, -, -, -, stored⟩ := (link_reach few fresh reach).returned r mem fine
  obtain ⟨res, found, same⟩ := stored get
  rw [tables x executed] at found
  rw [same]
  exact valid.granted sizes found

end

theorem VfTable.ext_entries {vfs vfs' : VfTable}
    (same : (List.ofFn vfs.vfRes, vfs.numVfs) = (List.ofFn vfs'.vfRes, vfs'.numVfs)) : vfs = vfs' := by
  obtain ⟨entries, numVfs⟩ := Prod.mk.inj same
  cases vfs
  cases vfs'
  obtain rfl := List.ofFn_injective entries
  obtain rfl := numVfs
  rfl

/-- The link of the VF of `masterWithVf`, just after probing. -/
def masterLink : Link := { firstLink with pf := .withRequests (masterWithVf.priv 0).vfs [] }

theorem masterLink_fresh (N : Nat) : LinkFresh 4 N masterLink where
  pf := ⟨rfl, rfl, rfl, rfl⟩
  requests _ mem := nomatch mem
  response _ full := nomatch full
  sent := rfl
  returned := rfl
  mboxLock := rfl
  mboxResp := rfl
  irqInside := rfl
  cmdInside := rfl

theorem vf_resource_programmed_one_vf :
    ∃ P, Pool.Reach (linkRules 4) (fun l => Assumed 1 l ∧ Apart l) (Pool.start masterLink) P ∧
      ∃ r ∈ P.state.vf.returned, r.ret = 0 ∧ r.res.qmax = 4 ∧
        QueuesGranted masterWithVf.fmap (masterWithVf.priv 0).vfs 4 r.res := by
  have played : ((Pool.start masterLink).play (fun l => decide (Assumed 1 l ∧ Apart l)) takenMoves).map
      (fun P => (P.state.vf.returned.map fun r => (r.ret, r.req.opcode, r.res.qmax),
        P.state.pf.executed.map fun x => (List.ofFn x.vfs.vfRes, x.vfs.numVfs))) =
      some ([(0, opGetQueueRes, 4)], [(List.ofFn (masterWithVf.priv 0).vfs.vfRes, (masterWithVf.priv 0).vfs.numVfs)]) := by
    decide +kernel
  obtain ⟨P, ran, results⟩ := Option.map_eq_some_iff.mp played
  have reach : Pool.Reach (linkRules 4) (fun l => Assumed 1 l ∧ Apart l) _ P :=
    Pool.reach_of_play (fun l => of_decide_eq_true) takenMoves_allowed ran
  obtain ⟨returned, executed⟩ := Prod.mk.inj results
  obtain ⟨r, single, is⟩ := List.map_eq_singleton_iff.mp returned
  obtain ⟨ret, opcode, qmax⟩ : r.ret = 0 ∧ r.req.opcode = opGetQueueRes ∧ r.res.qmax = 4 := by
    simpa using is
  have mem : r ∈ P.state.vf.returned := by
    rw [single]
    exact List.mem_singleton_self r
  refine ⟨P, reach, r, mem, ret, qmax, ?_⟩
  apply vf_resource_programmed (Q := Pool.start masterWithVf) (f := 0) reach_masterWithVf rfl (by decide)
    (masterLink_fresh 1) reach _ mem opcode ret
  intro x one
  apply VfTable.ext_entries
  have among := List.mem_map_of_mem (f := fun x : Executed => (List.ofFn x.vfs.vfRes, x.vfs.numVfs)) one
  rw [executed] at among
  exact List.mem_singleton.mp among

end OpenNic
