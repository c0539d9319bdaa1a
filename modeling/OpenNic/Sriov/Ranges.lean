import OpenNic.Sriov.Runs

namespace OpenNic

/-- Who holds queues of the card. -/
inductive RangeHolder
  | pf (f : Fin 4)
  | vf (i : Fin onicMaxVfs)

/-- The queues of a live PF or of an enabled VF, as its function map has them. -/
def Card.HoldsQueues (s : Card) : RangeHolder → FmapCtxt → Prop
  | .pf f, ctxt => (s.priv f).qdev.isSome = true ∧ s.fmap (pfFuncId f) = some ctxt
  | .vf i, ctxt => ((s.priv 0).vfs.vfRes i).enabled = true ∧ s.fmap (vfFuncId i) = some ctxt

/-- `[qbase, qbase + qmax)` -/
def FmapCtxt.Owns (ctxt : FmapCtxt) (qid : Nat) : Prop :=
  ctxt.qbase.toNat ≤ qid ∧ qid < ctxt.qbase.toNat + ctxt.qmax.toNat

/-- No queue has two holders, and the queues are those that the hardware has. -/
structure DisjointRanges (s : Card) : Prop where
  disjoint : ∀ x y a b, s.HoldsQueues x a → s.HoldsQueues y b → x ≠ y → ∀ qid, ¬ (a.Owns qid ∧ b.Owns qid)
  below : ∀ x a, s.HoldsQueues x a → a.qbase.toNat + a.qmax.toNat ≤ 2048

/-- The queues of an enabled VF start right after those of the master PF and of the VFs
    before it; here they get past the 64 that belong to the master PF, while PF 1 has the
    queues from there on. -/
def VfsPastStride (s : Card) : Prop :=
  ∃ i a d b, s.HoldsQueues (.vf i) a ∧ (s.priv 0).qdev = some d ∧ s.HoldsQueues (.pf 1) b ∧
    onicMaxQueues < d.numQueues.toNat + queuesPerVf * (i + 1) ∧
    d.numQueues.toNat + queuesPerVf * i < onicMaxQueues + b.qmax.toNat

section

variable {s : Card} {n : Nat}

theorem CardOk.pf_range (inv : CardOk s) {f : Fin 4} {a : FmapCtxt} (holds : s.HoldsQueues (.pf f) a) :
    a.qbase.toNat = onicMaxQueues * f ∧ 1 ≤ a.qmax.toNat ∧ a.qmax.toNat ≤ onicMaxQueues := by
  obtain ⟨n, positive, small, rfl⟩ := (inv f).own a holds.2
  have few := f.isLt
  simp only [BitVec.toNat_ofNat]
  rw [onicMaxQueues] at small ⊢
  omega

theorem CardOk.vf_range (inv : CardOk s) {i : Fin onicMaxVfs} {a : FmapCtxt} (holds : s.HoldsQueues (.vf i) a) :
    ∃ d, (s.priv 0).qdev = some d ∧ 1 ≤ d.numQueues.toNat ∧ d.numQueues.toNat ≤ onicMaxQueues ∧
      a.qbase.toNat = d.numQueues.toNat + queuesPerVf * i ∧ a.qmax.toNat = queuesPerVf ∧
      ∀ b, s.fmap (pfFuncId 0) = some b → b.qmax.toNat = d.numQueues.toNat := by
  obtain ⟨-, n, entry⟩ := (inv 0).entries i holds.1
  have few : i.val < 4 := i.isLt
  have positive := entry.positive
  have small := entry.small
  have written := entry.fmap a holds.2
  rw [onicMaxQueues] at small
  have count : (BitVec.ofNat 16 n).toNat = n := by
    rw [BitVec.toNat_ofNat]
    omega
  refine ⟨⟨0, 0, BitVec.ofNat 16 n⟩, entry.device, ?_, ?_, ?_, ?_, fun b own => ?_⟩
  · rwa [count]
  · rw [count, onicMaxQueues]
    exact small
  · rw [written, count]
    simp only [BitVec.toNat_ofNat, queuesPerVf]
    omega
  · rw [written]
    show (BitVec.ofNat 12 queuesPerVf).toNat = queuesPerVf
    decide
  · rw [entry.own b own, count, BitVec.toNat_ofNat]
    omega

/-- The queues of a VF lie past those of the master PF, and can only get into those of PF 1. -/
theorem CardOk.pf_vf_disjoint (inv : CardOk s) (within : ¬ VfsPastStride s) {f : Fin 4} {i : Fin onicMaxVfs} {a b : FmapCtxt}
    (pf : s.HoldsQueues (.pf f) a) (vf : s.HoldsQueues (.vf i) b) (qid : Nat) : ¬ (a.Owns qid ∧ b.Owns qid) := by
  rintro ⟨⟨low, high⟩, low', high'⟩
  obtain ⟨base, positive, small⟩ := inv.pf_range pf
  obtain ⟨d, device, positive', small', base', size', own⟩ := inv.vf_range vf
  have few : i.val < 4 := i.isLt
  simp only [onicMaxQueues, queuesPerVf] at base small small' base' size'
  by_cases master : f.val = 0
  · have zero : f = 0 := Fin.ext master
    subst zero
    have same := own a pf.2
    rw [master] at base
    omega
  · have first : f.val = 1 := by omega
    have one : f = 1 := Fin.ext first
    subst one
    refine within ⟨i, b, d, a, vf, device, pf, ?_, ?_⟩
    · rw [onicMaxQueues, queuesPerVf]
      omega
    · rw [onicMaxQueues, queuesPerVf]
      omega

theorem CardOk.disjoint_ranges (inv : CardOk s) (within : ¬ VfsPastStride s) : DisjointRanges s := by
  constructor
  · intro x y a b holds holds' apart qid
    cases x with
    | pf f =>
      cases y with
      | pf g =>
        rintro ⟨⟨low, high⟩, low', high'⟩
        obtain ⟨base, -, small⟩ := inv.pf_range holds
        obtain ⟨base', -, small'⟩ := inv.pf_range holds'
        have different : f.val ≠ g := fun same => apart (congrArg RangeHolder.pf (Fin.ext same))
        rw [onicMaxQueues] at base base' small small'
        omega
      | vf j => exact inv.pf_vf_disjoint within holds holds' qid
    | vf i =>
      cases y with
      | pf g =>
        rintro ⟨first, second⟩
        exact inv.pf_vf_disjoint within holds' holds qid ⟨second, first⟩
      | vf j =>
        rintro ⟨⟨low, high⟩, low', high'⟩
        obtain ⟨d, device, -, -, base, size, -⟩ := inv.vf_range holds
        obtain ⟨d', device', -, -, base', size', -⟩ := inv.vf_range holds'
        cases device.symm.trans device'
        have different : i.val ≠ j := fun same => apart (congrArg RangeHolder.vf (Fin.ext same))
        rw [queuesPerVf] at base base' size size'
        omega
  · intro x a holds
    cases x with
    | pf f =>
      obtain ⟨base, -, small⟩ := inv.pf_range holds
      have few := f.isLt
      rw [onicMaxQueues] at base small
      omega
    | vf i =>
      obtain ⟨d, -, -, small, base, size, -⟩ := inv.vf_range holds
      have few : i.val < 4 := i.isLt
      rw [queuesPerVf] at base size
      rw [onicMaxQueues] at small
      omega

/-- The VF and PF 1 both hold the first queue that is past queue 63. -/
theorem CardOk.shared_queue (inv : CardOk s) (past : VfsPastStride s) : ¬ DisjointRanges s := by
  intro ranges
  obtain ⟨i, a, d, b, vf, device, pf, reaches, starts⟩ := past
  obtain ⟨base, positive, small⟩ := inv.pf_range pf
  obtain ⟨d', device', positive', small', base', size', -⟩ := inv.vf_range vf
  cases device.symm.trans device'
  have few : i.val < 4 := i.isLt
  have one : (1 : Fin 4).val = 1 := rfl
  simp only [onicMaxQueues, queuesPerVf, one] at reaches starts base small' base' size'
  apply ranges.disjoint (.vf i) (.pf 1) a b vf pf (by simp) (max a.qbase.toNat 64)
  exact ⟨⟨by omega, by omega⟩, by omega, by omega⟩

end

theorem queue_ranges_disjoint_iff {via : Input → Input} {engine : CtxtEngine} {P : Pool SriovThread Card CardInput}
    (reach : Pool.Reach (sriovRules via) (fun _ => True) (Pool.start (Card.reset engine)) P) :
    DisjointRanges P.state ↔ ¬ VfsPastStride P.state := by
  obtain ⟨inv, -⟩ := sriov_reach reach
  constructor
  · exact fun ranges past => inv.shared_queue past ranges
  · exact inv.disjoint_ranges

theorem queue_ranges_disjoint_one_vf : DisjointRanges masterWithVf ↔ ¬ VfsPastStride masterWithVf :=
  queue_ranges_disjoint_iff (P := Pool.start masterWithVf) reach_masterWithVf

/-- The master PF with 64 queues, one VF and then PF 1. -/
def masterWithVfAndPf1 : Card := afterCall (probeCall 1) masterWithVf

theorem reach_masterWithVfAndPf1 :
    Pool.Reach (sriovRules id) (fun _ => True) (Pool.start (Card.reset blankEngine)) (Pool.start masterWithVfAndPf1) :=
  reach_masterWithVf.trans (reach_call (.pf 1) (PfCall.probe (by decide +kernel)) (by decide +kernel))

theorem queue_ranges_collide :
    ¬ ∀ P, Pool.Reach (sriovRules id) (fun _ => True) (Pool.start (Card.reset blankEngine)) P → DisjointRanges P.state := by
  intro all
  have ranges := all _ reach_masterWithVfAndPf1
  have vf : masterWithVfAndPf1.HoldsQueues (.vf ⟨0, by decide⟩) ⟨64, 4⟩ := ⟨by decide +kernel, by decide +kernel⟩
  have pf : masterWithVfAndPf1.HoldsQueues (.pf 1) ⟨64, 64⟩ := ⟨by decide +kernel, by decide +kernel⟩
  exact ranges.disjoint _ _ _ _ vf pf nofun 64 ⟨⟨by decide, by decide⟩, by decide, by decide⟩

end OpenNic
