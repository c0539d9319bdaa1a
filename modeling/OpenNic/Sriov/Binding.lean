import OpenNic.Sriov.Calls

namespace OpenNic

section

variable {via : Input → Input} {f : Fin 4} {n k : Nat} {v : PfView}

theorem Bound.toClosed (bound : Bound f n 0 v) : Closed true v :=
  ⟨bound.bound, bound.closed.1, bound.numVfs, bound.pciNumVf⟩

/-- The device of a PF without VFs can be replaced. -/
theorem Closed.setQdev {b : Bool} (closed : Closed b v) (ok : PfOk f v) (qdev : Option QdmaDev)
    (device : ∀ d ∈ qdev, d.funcId = pfFuncId f) :
    PfOk f { v with priv := { v.priv with qdev := qdev } } ∧ Closed b { v with priv := { v.priv with qdev := qdev } } :=
  ⟨NoEntry.ok closed.none device ok.own, closed.bound, closed.none, closed.numVfs, closed.pciNumVf⟩

theorem onicClearHardware_triple {b : Bool} :
    (cardContract (.pf f)).Triple (fun s => Closed b (s.view f)) (onicClearHardware via f)
      fun _ s => Closed b (s.view f) ∧ (s.view f).priv.qdev = none := by
  apply Contract.Triple.bind (readPriv_triple (Closed b) PfPriv.qdev)
  intro qdev
  cases qdev with
  | none => exact Contract.Triple.done (stable_view fun w => Closed b w ∧ w.priv.qdev = none) fun _ _ holds => holds
  | some d =>
    apply Contract.Triple.from_pre fun s => d.funcId = pfFuncId f ∧ Closed b (s.view f)
    · rintro s inv ⟨closed, is⟩
      exact ⟨(inv f).device d is, closed⟩
    apply Contract.Triple.pure_pre
    intro funcId
    apply Contract.Triple.bind (clearFmap_triple (φ := Closed b) (ψ := Closed b) (.inl funcId)
      (fun w => { w with own := none }) (fun s => by rw [funcId]; exact view_fmap_own none)
      fun w ok closed => ⟨NoEntry.ok closed.none ok.device nofun, closed.bound, closed.none, closed.numVfs, closed.pciNumVf⟩)
    intro _
    apply Contract.Triple.pure_pre
    intro _
    apply modPriv_triple (ψ := fun w => Closed b w ∧ w.priv.qdev = none)
    intro w ok closed
    obtain ⟨ok', closed'⟩ := closed.setQdev ok none nofun
    exact ⟨ok', closed', rfl⟩

theorem onicClearCapacity_triple {b : Bool} :
    (cardContract (.pf f)).Triple (fun s => Closed b (s.view f) ∧ (s.view f).priv.qdev = none) (onicClearCapacity f)
      fun _ s => Closed b (s.view f) ∧ (s.view f).priv.qdev = none := by
  apply modPriv_triple (φ := fun w => Closed b w ∧ w.priv.qdev = none) (ψ := fun w => Closed b w ∧ w.priv.qdev = none)
  rintro w ok ⟨closed, absent⟩
  exact ⟨ok.frame rfl rfl, ⟨closed.bound, closed.none, closed.numVfs, closed.pciNumVf⟩, absent⟩

theorem unbind_triple :
    (cardContract (.pf f)).Triple (fun s => Closed true (s.view f)) (do
      onicClearHardware via f
      onicClearCapacity f
      modPriv f fun priv => { priv with bound := false }) fun _ s => Unbound (s.view f) := by
  apply Contract.Triple.bind onicClearHardware_triple
  intro _
  apply Contract.Triple.bind onicClearCapacity_triple
  intro _
  apply modPriv_triple (φ := fun w => Closed true w ∧ w.priv.qdev = none) (ψ := Unbound)
  rintro w ok ⟨closed, absent⟩
  exact ⟨ok.frame rfl rfl, ⟨rfl, closed.none, closed.numVfs, closed.pciNumVf⟩, absent⟩

theorem onicRemove_triple (bound : Bound f n k v) :
    (cardContract (.pf f)).Triple (fun s => s.view f = v) (onicRemove via f) fun _ s => Unbound (s.view f) := by
  apply Contract.Triple.bind (readPriv_triple (fun w => w = v) PfPriv.pciNumVf)
  intro pciNumVf
  apply Contract.Triple.from_pre fun s => pciNumVf = k ∧ s.view f = v
  · rintro s - ⟨is, same⟩
    rw [is] at same
    exact ⟨same.symm.trans bound.pciNumVf, is⟩
  apply Contract.Triple.pure_pre
  rintro rfl
  by_cases disabled : pciNumVf = 0
  · subst disabled
    rw [if_neg (by decide)]
    apply Contract.Triple.from_pre fun s => Closed true (s.view f)
    · rintro s - is
      rw [is]
      exact bound.toClosed
    exact unbind_triple
  · rw [if_pos disabled]
    apply Contract.Triple.bind (M := fun _ s => s.view f = { v with priv := { v.priv with pciNumVf := 0 } })
    · apply modPriv_triple (φ := fun w => w = v) (ψ := fun w => w = { v with priv := { v.priv with pciNumVf := 0 } })
      rintro w ok rfl
      exact ⟨ok.frame rfl rfl, rfl⟩
    intro _
    apply Contract.Triple.bind (readPriv_triple (fun w => w = { v with priv := { v.priv with pciNumVf := 0 } })
      fun priv => priv.vfs.numVfs)
    intro numVfs
    apply Contract.Triple.from_pre fun s => numVfs = pciNumVf ∧ s.view f = { v with priv := { v.priv with pciNumVf := 0 } }
    · rintro s - ⟨is, same⟩
      rw [is] at same
      exact ⟨same.symm.trans bound.numVfs, is⟩
    apply Contract.Triple.pure_pre
    rintro rfl
    apply Contract.Triple.bind (sriovDisable_triple bound)
    intro _
    apply Contract.Triple.from_pre (fun s => Closed true (s.view f)) fun _ _ bound => bound.toClosed
    exact unbind_triple

/-- A PF that is being probed and has been granted `n` queues. -/
def Sized (n : Nat) (v : PfView) : Prop := Closed false v ∧ max v.priv.numTxQueues v.priv.numRxQueues = n

/-- A PF whose function map is written. -/
structure Probed (f : Fin 4) (n : Nat) (v : PfView) : Prop where
  closed : Closed false v
  qdev : v.priv.qdev = some ⟨pfFuncId f, BitVec.ofNat 16 (f * onicMaxQueues), BitVec.ofNat 16 n⟩
  own : v.own = some ⟨BitVec.ofNat 11 (f * onicMaxQueues), BitVec.ofNat 12 n⟩

theorem onicInitCapacity_triple :
    (cardContract (.pf f)).Triple (fun s => Unbound (s.view f)) (onicInitCapacity f)
      fun rv s => (rv < 0 ∧ Unbound (s.view f)) ∨
        (¬ rv < 0 ∧ ∃ n, (1 ≤ n ∧ n ≤ onicMaxQueues) ∧ Sized n (s.view f)) := by
  apply Contract.Triple.bind (M := fun rv s => (rv = -ENOSPC ∧ Unbound (s.view f)) ∨
    (rv = 0 ∧ ∃ n, (1 ≤ n ∧ n ≤ onicMaxQueues) ∧ Closed false (s.view f) ∧ (s.view f).priv.numQVectors = n))
  · apply Contract.Triple.bind (input_triple Unbound fun input => if input.flag then some input.vectors else none)
    intro vectors
    apply Contract.Triple.pure_pre
    intro _
    cases vectors with
    | none => exact Contract.Triple.done (stable_view Unbound) fun _ _ unbound => .inl ⟨rfl, unbound⟩
    | some vectors =>
      have few := vectors.isLt
      apply Contract.Triple.bind (M := fun _ s => Closed false (s.view f) ∧ (s.view f).priv.numQVectors = vectors.val + 1)
      · apply modPriv_triple (φ := Unbound) (ψ := fun w => Closed false w ∧ w.priv.numQVectors = vectors.val + 1)
        rintro w ok ⟨closed, -⟩
        exact ⟨ok.frame rfl rfl, ⟨closed.bound, closed.none, closed.numVfs, closed.pciNumVf⟩, rfl⟩
      intro _
      exact Contract.Triple.done (stable_view fun w => Closed false w ∧ w.priv.numQVectors = vectors.val + 1) fun _ _ holds =>
        .inr ⟨rfl, vectors.val + 1, ⟨by omega, by omega⟩, holds⟩
  intro rv
  by_cases failed : rv < 0
  · rw [if_pos failed]
    apply Contract.Triple.from_pre fun s => Unbound (s.view f)
    · rintro s - (⟨-, unbound⟩ | ⟨rfl, -⟩)
      · exact unbound
      · exact absurd failed (by decide)
    exact Contract.Triple.done (stable_view Unbound) fun _ _ unbound => .inl ⟨failed, unbound⟩
  · rw [if_neg failed]
    apply Contract.Triple.from_pre fun s =>
      ∃ n, (1 ≤ n ∧ n ≤ onicMaxQueues) ∧ Closed false (s.view f) ∧ (s.view f).priv.numQVectors = n
    · rintro s - (⟨rfl, -⟩ | ⟨-, holds⟩)
      · exact absurd (show (-ENOSPC : Int) < 0 by decide) failed
      · exact holds
    apply Contract.Triple.exists_pre
    intro n
    apply Contract.Triple.pure_pre
    rintro ⟨positive, small⟩
    apply Contract.Triple.bind (M := fun _ s => Sized n (s.view f))
    · apply modPriv_triple (φ := fun w => Closed false w ∧ w.priv.numQVectors = n) (ψ := Sized n)
      rintro w ok ⟨closed, rfl⟩
      refine ⟨ok.frame rfl rfl, ⟨closed.bound, closed.none, closed.numVfs, closed.pciNumVf⟩, ?_⟩
      exact (Nat.max_self _).trans (Nat.min_eq_left small)
    intro _
    exact Contract.Triple.done (stable_view (Sized n)) fun _ _ sized => .inr ⟨by decide, n, ⟨positive, small⟩, sized⟩

/-- Writing the function map of a PF that has no VFs. -/
theorem ownFmap_ok {w : PfView} {b : Bool} (closed : Closed b w) (ok : PfOk f w) (positive : 1 ≤ n) (small : n ≤ onicMaxQueues) :
    PfOk f { w with own := none } ∧
      PfOk f { w with own := some ⟨BitVec.ofNat 11 (f * onicMaxQueues), BitVec.ofNat 12 n⟩ } := by
  refine ⟨NoEntry.ok closed.none ok.device nofun, NoEntry.ok closed.none ok.device fun ctxt mem => ?_⟩
  exact ⟨n, positive, small, (Option.mem_some_iff.mp mem).symm⟩

theorem qbase_setWidth :
    ∀ f : Fin 4, (BitVec.ofNat 11 (f.val * onicMaxQueues)).setWidth 16 = BitVec.ofNat 16 (f.val * onicMaxQueues) := by
  decide

theorem onicInitHardware_triple (positive : 1 ≤ n) (small : n ≤ onicMaxQueues) :
    (cardContract (.pf f)).Triple (fun s => Sized n (s.view f)) (onicInitHardware via f)
      fun rv s => (rv < 0 ∧ Closed false (s.view f) ∧ (s.view f).priv.qdev = none) ∨ (¬ rv < 0 ∧ Probed f n (s.view f)) := by
  have fail (rv : Int) (negative : rv < 0) :
      (cardContract (.pf f)).Triple (fun s => Closed false (s.view f)) (do
        onicClearHardware via f
        .done rv)
        fun rv s => (rv < 0 ∧ Closed false (s.view f) ∧ (s.view f).priv.qdev = none) ∨ (¬ rv < 0 ∧ Probed f n (s.view f)) := by
    apply Contract.Triple.bind onicClearHardware_triple
    intro _
    exact Contract.Triple.done (stable_view fun w => Closed false w ∧ w.priv.qdev = none) fun _ _ holds => .inl ⟨negative, holds⟩
  apply Contract.Triple.bind (input_triple (Sized n) CardInput.flag)
  intro mapped
  apply Contract.Triple.pure_pre
  intro _
  cases mapped with
  | false => exact Contract.Triple.from_pre _ (fun _ _ sized => sized.1) (fail (-ENOMEM) (by decide))
  | true =>
    rw [if_pos rfl]
    apply Contract.Triple.bind (M := fun _ s => Sized n (s.view f))
    · apply modPriv_triple (φ := Sized n) (ψ := Sized n)
      rintro w ok ⟨closed, sized⟩
      obtain ⟨ok', closed'⟩ := closed.setQdev ok (some ⟨BitVec.ofNat 16 f, 0, 0⟩) fun d mem => by
        rw [← Option.mem_some_iff.mp mem]
        rfl
      exact ⟨ok', closed', sized⟩
    intro _
    apply Contract.Triple.bind (readPriv_triple (Sized n) fun priv => max priv.numTxQueues priv.numRxQueues)
    intro qmax
    apply Contract.Triple.from_pre fun s => qmax = n ∧ Closed false (s.view f)
    · rintro s - ⟨⟨closed, sized⟩, is⟩
      exact ⟨is.symm.trans sized, closed⟩
    apply Contract.Triple.pure_pre
    rintro rfl
    apply Contract.Triple.bind (clearFmap_triple (φ := Closed false) (ψ := Closed false) (.inl rfl)
      (fun w => { w with own := none }) (fun s => view_fmap_own none)
      fun w ok closed => ⟨(ownFmap_ok closed ok positive small).1, closed.bound, closed.none, closed.numVfs, closed.pciNumVf⟩)
    rintro ⟨rv, qdev⟩
    apply Contract.Triple.pure_pre
    rintro ⟨-, is⟩
    dsimp only at is
    subst is
    apply Contract.Triple.bind (M := fun _ s => Closed false (s.view f))
    · apply modPriv_triple (φ := Closed false) (ψ := Closed false)
      intro w ok closed
      apply closed.setQdev ok
      intro d mem
      rw [← Option.mem_some_iff.mp mem]
      rfl
    intro _
    dsimp only
    by_cases failed : rv < 0
    · rw [if_pos failed]
      exact fail rv failed
    · rw [if_neg failed]
      apply Contract.Triple.bind (writeFmap_triple (φ := Closed false) (ψ := Closed false)
        (χ := fun w => Closed false w ∧ w.own = some ⟨BitVec.ofNat 11 (f * onicMaxQueues), BitVec.ofNat 12 qmax⟩) (.inl rfl)
        (fun written w => { w with own := written }) (fun written s => view_fmap_own written)
        (fun w ok closed => ownFmap_ok closed ok positive small)
        (fun w closed => ⟨closed.bound, closed.none, closed.numVfs, closed.pciNumVf⟩)
        (fun w closed => ⟨⟨closed.bound, closed.none, closed.numVfs, closed.pciNumVf⟩, rfl⟩))
      rintro ⟨rv, qdev⟩
      apply Contract.Triple.pure_pre
      intro written
      dsimp only
      by_cases negative : rv < 0
      · have is := written.failed negative
        simp only [Prod.mk.injEq] at is
        obtain ⟨-, rfl⟩ := is
        apply Contract.Triple.from_pre (fun s => Closed false (s.view f)) fun _ _ holds => holds.1 negative
        apply Contract.Triple.bind (M := fun _ s => Closed false (s.view f))
        · apply modPriv_triple (φ := Closed false) (ψ := Closed false)
          intro w ok closed
          apply closed.setQdev ok
          intro d mem
          rw [← Option.mem_some_iff.mp mem]
          rfl
        intro _
        rw [if_pos negative]
        exact fail rv negative
      · have is := written.done negative
        simp only [Prod.mk.injEq] at is
        obtain ⟨-, rfl⟩ := is
        apply Contract.Triple.from_pre _ fun _ _ holds => holds.2 negative
        apply Contract.Triple.bind (M := fun _ s => Probed f qmax (s.view f))
        · apply modPriv_triple (φ := fun w => Closed false w ∧ w.own =
            some ⟨BitVec.ofNat 11 (f * onicMaxQueues), BitVec.ofNat 12 qmax⟩) (ψ := Probed f qmax)
          rintro w ok ⟨closed, own⟩
          have base := qbase_setWidth f
          have size : (BitVec.ofNat 12 qmax).setWidth 16 = BitVec.ofNat 16 qmax := by
            apply BitVec.eq_of_toNat_eq
            rw [BitVec.toNat_setWidth, BitVec.toNat_ofNat, BitVec.toNat_ofNat]
            rw [onicMaxQueues] at small
            omega
          obtain ⟨ok', closed'⟩ := closed.setQdev ok
            (some ⟨pfFuncId f, BitVec.ofNat 16 (f * onicMaxQueues), BitVec.ofNat 16 qmax⟩) fun d mem => by
              rw [← Option.mem_some_iff.mp mem]
          rw [base, size]
          exact ⟨ok', closed', rfl, own⟩
        intro _
        rw [if_neg negative]
        exact Contract.Triple.done (stable_view (Probed f qmax)) fun _ _ probed => .inr ⟨by decide, probed⟩

/-- The PF is bound at last. -/
theorem Probed.bound (probed : Probed f n v) (positive : 1 ≤ n) (small : n ≤ onicMaxQueues) :
    Bound f n 0 { v with priv := { v.priv with bound := true } } where
  positive := positive
  small := small
  bound := rfl
  qdev := probed.qdev
  own := probed.own
  master := nofun
  numVfs := probed.closed.numVfs
  pciNumVf := probed.closed.pciNumVf
  entries j := by
    rw [probed.closed.none j]
    exact iff_of_false nofun (Nat.not_lt_zero _)
  fmap j less := absurd less (Nat.not_lt_zero _)

theorem onicProbe_triple :
    (cardContract (.pf f)).Triple (fun s => Unbound (s.view f)) (onicProbe via f) fun _ s => PfIdle f (s.view f) := by
  have unbound (rv : Int) :
      (cardContract (.pf f)).Triple (fun s => Unbound (s.view f)) (do
        onicClearCapacity f
        .done rv) fun _ s => PfIdle f (s.view f) := by
    apply Contract.Triple.bind onicClearCapacity_triple
    intro _
    exact Contract.Triple.done (stable_view Unbound) fun _ _ unbound => .inl unbound
  apply Contract.Triple.bind (M := fun _ s => Unbound (s.view f))
  · apply modPriv_triple (φ := Unbound) (ψ := Unbound)
    intro w ok _
    have none : NoEntry { w with priv := .zero } := fun _ => rfl
    exact ⟨none.ok nofun ok.own, ⟨rfl, none, rfl, rfl⟩, rfl⟩
  intro _
  apply Contract.Triple.bind onicInitCapacity_triple
  intro rv
  by_cases failed : rv < 0
  · rw [if_pos failed]
    apply Contract.Triple.from_pre fun s => Unbound (s.view f)
    · rintro s - (⟨-, unbound⟩ | ⟨done, -⟩)
      · exact unbound
      · exact absurd failed done
    exact Contract.Triple.done (stable_view Unbound) fun _ _ unbound => .inl unbound
  · rw [if_neg failed]
    apply Contract.Triple.from_pre fun s => ∃ n, (1 ≤ n ∧ n ≤ onicMaxQueues) ∧ Sized n (s.view f)
    · rintro s - (⟨negative, -⟩ | ⟨-, sized⟩)
      · exact absurd negative failed
      · exact sized
    apply Contract.Triple.exists_pre
    intro n
    apply Contract.Triple.pure_pre
    rintro ⟨positive, small⟩
    apply Contract.Triple.bind (onicInitHardware_triple positive small)
    intro rv
    by_cases failed : rv < 0
    · rw [if_pos failed]
      apply Contract.Triple.from_pre fun s => Unbound (s.view f)
      · rintro s - (⟨-, unbound⟩ | ⟨done, -⟩)
        · exact unbound
        · exact absurd failed done
      exact unbound rv
    · rw [if_neg failed]
      apply Contract.Triple.from_pre fun s => Probed f n (s.view f)
      · rintro s - (⟨negative, -⟩ | ⟨-, probed⟩)
        · exact absurd negative failed
        · exact probed
      apply Contract.Triple.bind (input_triple (Probed f n) CardInput.flag)
      intro rest
      apply Contract.Triple.pure_pre
      intro _
      cases rest with
      | false =>
        rw [if_neg (by decide)]
        apply Contract.Triple.from_pre (fun s => Closed false (s.view f)) fun _ _ probed => probed.closed
        apply Contract.Triple.bind onicClearHardware_triple
        intro _
        exact unbound (-ENOMEM)
      | true =>
        rw [if_pos rfl]
        apply Contract.Triple.bind (M := fun _ s => Bound f n 0 (s.view f))
        · apply modPriv_triple (φ := Probed f n) (ψ := Bound f n 0)
          intro w ok probed
          exact ⟨ok.frame rfl rfl, probed.bound positive small⟩
        intro _
        exact Contract.Triple.done (stable_view (Bound f n 0)) fun _ _ bound =>
          .inr ⟨⟨n, 0, bound⟩, fun _ _ _ _ => .inr bound.closed⟩

end

end OpenNic
