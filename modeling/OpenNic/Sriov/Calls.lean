import OpenNic.Sriov.Table

namespace OpenNic

/-- A PF without VFs. -/
structure Closed (bound : Bool) (v : PfView) : Prop where
  bound : v.priv.bound = bound
  none : NoEntry v
  numVfs : v.priv.vfs.numVfs = 0
  pciNumVf : v.priv.pciNumVf = 0

/-- A PF that is not bound to the driver. -/
def Unbound (v : PfView) : Prop := Closed false v ∧ v.priv.qdev = none

/-- A PF with `n` queues and `k` VFs between two calls. -/
structure Bound (f : Fin 4) (n k : Nat) (v : PfView) : Prop where
  positive : 1 ≤ n
  small : n ≤ onicMaxQueues
  bound : v.priv.bound = true
  qdev : v.priv.qdev = some ⟨pfFuncId f, BitVec.ofNat 16 (f * onicMaxQueues), BitVec.ofNat 16 n⟩
  own : v.own = some ⟨BitVec.ofNat 11 (f * onicMaxQueues), BitVec.ofNat 12 n⟩
  master : 0 < k → f = 0
  numVfs : v.priv.vfs.numVfs = k
  pciNumVf : v.priv.pciNumVf = k
  entries : ∀ j, (v.priv.vfs.vfRes j).enabled = true ↔ j.val < k
  fmap : ∀ j : Fin onicMaxVfs, j.val < k →
    v.vf j = some ⟨BitVec.ofNat 11 (n + queuesPerVf * j), BitVec.ofNat 12 queuesPerVf⟩

/-- What a failed `sriov_configure` leaves, unless it failed because VFs are assigned. -/
def ReturnedClosed (v : PfView) : Prop :=
  ∀ num rv, v.priv.returned = some (num, rv) → rv < 0 → (num = 0 ∧ rv = -EBUSY) ∨ (NoEntry v ∧ v.priv.vfs.numVfs = 0)

/-- Between two calls of one PF. -/
def PfIdle (f : Fin 4) (v : PfView) : Prop := Unbound v ∨ (∃ n k, Bound f n k v) ∧ ReturnedClosed v

section

variable {via : Input → Input} {f : Fin 4} {n k : Nat} {v : PfView}

theorem Bound.qdev_some (bound : Bound f n k v) : v.priv.qdev ≠ none := by
  rw [bound.qdev]
  exact nofun

theorem Bound.left (bound : Bound f n k v) : Left v k 0 v :=
  ⟨Kept.refl v, fun j enabled => ⟨Nat.zero_le _, (bound.entries j).mp enabled⟩⟩

/-- All VFs are gone again. -/
theorem Bound.freed {base v' : PfView} (bound : Bound f n k v) (freed : Freed base v')
    (priv : base.priv = { v.priv with pciNumVf := 0 }) (own : base.own = v.own) : Bound f n 0 v' where
  positive := bound.positive
  small := bound.small
  bound := by
    rw [freed.kept.priv, priv]
    exact bound.bound
  qdev := by
    rw [freed.kept.qdev, priv]
    exact bound.qdev
  own := freed.kept.own.trans (own.trans bound.own)
  master := nofun
  numVfs := freed.numVfs
  pciNumVf := by rw [freed.kept.priv, priv]
  entries j := by
    rw [freed.none j]
    exact iff_of_false nofun (Nat.not_lt_zero _)
  fmap j less := absurd less (Nat.not_lt_zero _)

theorem Bound.closed (bound : Bound f n 0 v) : NoEntry v ∧ v.priv.vfs.numVfs = 0 := by
  refine ⟨fun j => ?_, bound.numVfs⟩
  by_contra enabled
  exact absurd ((bound.entries j).mp (by simpa using enabled)) (Nat.not_lt_zero _)

theorem Bound.base (bound : Bound 0 n 0 v) : Master v n where
  positive := bound.positive
  small := bound.small
  qdev := bound.qdev
  own ctxt mem := by
    rw [bound.own] at mem
    exact (Option.mem_some_iff.mp mem).symm

theorem Bound.start (bound : Bound 0 n 0 v) : Configured v n 0 v where
  kept := Kept.refl v
  numVfs := bound.numVfs
  entries := bound.entries
  fmap j less := absurd less (Nat.not_lt_zero _)

/-- What comes out of a `sriov_configure`, before it is recorded. -/
def SriovDone (f : Fin 4) (num rv : Int) (v : PfView) : Prop :=
  ∃ n k, Bound f n k v ∧ (rv < 0 → (num = 0 ∧ rv = -EBUSY) ∨ (NoEntry v ∧ v.priv.vfs.numVfs = 0))

theorem sriovDisable_triple {enabledVfs : Nat} (bound : Bound f n enabledVfs v) :
    (cardContract (.pf f)).Triple (fun s => s.view f = { v with priv := { v.priv with pciNumVf := 0 } })
      (onicFreeVfResources via f enabledVfs) fun _ s => Bound f n 0 (s.view f) := by
  have device : ({ v with priv := { v.priv with pciNumVf := 0 } } : PfView).priv.qdev ≠ none := bound.qdev_some
  apply (onicFreeVfResources_triple (Nat.le_refl enabledVfs) device).conseq
  · intro s _ is
    rw [is]
    exact ⟨Kept.refl _, bound.left.2⟩
  · exact fun _ s _ freed => bound.freed freed rfl rfl

/-- The table is set up for `k` VFs, which `pci_enable_sriov` has not enabled yet. -/
structure TableReady (n k : Nat) (v : PfView) : Prop where
  bound : Bound 0 n k { v with priv := { v.priv with pciNumVf := k } }
  pciNumVf : v.priv.pciNumVf = 0

theorem Configured.tableReady {w : PfView} (bound : Bound 0 n 0 v) (few : Fin (onicMaxVfs + 1))
    (configured : Configured v n (0 + few.val) w) :
    TableReady n few { w with priv := { w.priv with vfs := w.priv.vfs.setNum few } } := by
  have few_at : 0 + few.val = few := Nat.zero_add _
  rw [few_at] at configured
  refine ⟨⟨bound.positive, bound.small, ?_, configured.kept.qdev.trans bound.qdev, configured.kept.own.trans bound.own,
    fun _ => rfl, rfl, rfl, configured.entries, configured.fmap⟩, ?_⟩
  · show w.priv.bound = true
    rw [configured.kept.priv]
    exact bound.bound
  · show w.priv.pciNumVf = 0
    rw [configured.kept.priv]
    exact bound.pciNumVf

theorem onicConfigVfResources_triple (numVfs : Fin (onicMaxVfs + 1)) (bound : Bound 0 n 0 v) :
    (cardContract (.pf 0)).Triple (fun s => s.view 0 = v) (onicConfigVfResources via 0 numVfs)
      fun rv s => (rv = 0 ∧ TableReady n numVfs (s.view 0)) ∨ (rv < 0 ∧ Bound 0 n 0 (s.view 0)) := by
  apply Contract.Triple.bind (readPriv_triple (fun w => w = v) PfPriv.qdev)
  intro qdev
  apply Contract.Triple.from_pre fun s => qdev = some ⟨0, 0, BitVec.ofNat 16 n⟩ ∧ s.view 0 = v
  · rintro s - ⟨is, same⟩
    rw [is] at same
    exact ⟨same.symm.trans bound.qdev, is⟩
  apply Contract.Triple.pure_pre
  rintro rfl
  have small : (BitVec.ofNat 16 n).toNat = n := by
    have below := bound.small
    rw [onicMaxQueues] at below
    rw [BitVec.toNat_ofNat]
    omega
  have loop := @onicConfigVfLoop_triple via v n bound.base 0 numVfs (by omega)
  dsimp only
  rw [show (0 : BitVec 16).toNat + (BitVec.ofNat 16 n).toNat = n + queuesPerVf * 0 by rw [small]; simp]
  apply Contract.Triple.bind (loop.conseq (fun s _ is => by rw [is]; exact bound.start) fun _ _ _ done => done)
  intro err
  by_cases zero : err = 0
  · subst zero
    rw [if_neg (by decide)]
    apply Contract.Triple.bind (M := fun _ s => TableReady n numVfs (s.view 0))
    · apply Contract.Triple.from_pre fun s => Configured v n (0 + numVfs.val) (s.view 0)
      · rintro s - (⟨-, configured⟩ | ⟨negative, -⟩)
        · exact configured
        · exact absurd negative (by decide)
      apply modPriv_triple
      intro w ok configured
      exact ⟨ok.frame rfl rfl, configured.tableReady bound numVfs⟩
    intro _
    exact Contract.Triple.done (stable_view (TableReady n numVfs)) fun s _ ready => .inl ⟨rfl, ready⟩
  · rw [if_pos zero]
    apply Contract.Triple.from_pre fun s => err < 0 ∧ Bound 0 n 0 (s.view 0)
    · rintro s - (⟨is, -⟩ | ⟨negative, freed⟩)
      · exact absurd is zero
      · exact ⟨negative, bound.freed freed (by rw [← bound.pciNumVf]) rfl⟩
    apply Contract.Triple.pure_pre
    intro negative
    exact Contract.Triple.done (stable_view (Bound 0 n 0)) fun s _ bound => .inr ⟨negative, bound⟩

/-- `pci_enable_sriov` -/
theorem pciEnableSriov_triple (numVfs : Fin (onicMaxVfs + 1)) :
    (cardContract (.pf 0)).Triple (fun s => TableReady n numVfs (s.view 0)) (.access fun (input : CardInput) s => some (input.rv,
        if input.rv < 0 then s else s.setPriv 0 fun priv => { priv with pciNumVf := numVfs }))
      fun rv s => (rv < 0 ∧ TableReady n numVfs (s.view 0)) ∨ (¬ rv < 0 ∧ Bound 0 n numVfs (s.view 0)) := by
  apply Contract.Triple.access (stable_view (TableReady n numVfs))
    fun rv => stable_view fun w => (rv < 0 ∧ TableReady n numVfs w) ∨ (¬ rv < 0 ∧ Bound 0 n numVfs w)
  intro s input rv s' _ inv ready taken _
  cases taken
  by_cases negative : input.rv < 0
  · rw [if_pos negative]
    exact ⟨inv, Contract.guarantee_refl _ s, .inl ⟨negative, ready⟩⟩
  · rw [if_neg negative]
    have is : (s.setPriv 0 fun priv => { priv with pciNumVf := numVfs }).view 0 = _ := view_setPriv _
    obtain ⟨inv', guarantee⟩ := own_change inv is ((inv 0).frame rfl rfl) fun g other => view_setPriv_other _ other
    refine ⟨inv', guarantee, .inr ⟨negative, ?_⟩⟩
    rw [is]
    exact ready.bound

theorem onicSriovConfigure_triple {numVfs : Int} (nonneg : 0 ≤ numVfs) (free : 0 < numVfs → k = 0) (bound : Bound f n k v) :
    (cardContract (.pf f)).Triple (fun s => s.view f = v) (onicSriovConfigure via f numVfs)
      fun rv s => SriovDone f numVfs rv (s.view f) := by
  rw [onicSriovConfigure]
  by_cases zero : numVfs = 0
  · subst zero
    rw [if_pos rfl]
    apply Contract.Triple.bind (input_triple (fun w => w = v) CardInput.flag)
    intro assigned
    apply Contract.Triple.pure_pre
    intro _
    cases assigned with
    | true =>
      exact Contract.Triple.done (stable_view fun w => w = v) fun s _ is => by
        rw [is]
        exact ⟨n, k, bound, fun _ => .inl ⟨rfl, rfl⟩⟩
    | false =>
      apply Contract.Triple.bind (readPriv_triple (fun w => w = v) PfPriv.pciNumVf)
      intro enabledVfs
      apply Contract.Triple.from_pre fun s => enabledVfs = k ∧ s.view f = v
      · rintro s - ⟨is, same⟩
        rw [is] at same
        exact ⟨same.symm.trans bound.pciNumVf, is⟩
      apply Contract.Triple.pure_pre
      rintro rfl
      apply Contract.Triple.bind (M := fun _ s => s.view f = { v with priv := { v.priv with pciNumVf := 0 } })
      · apply modPriv_triple (φ := fun w => w = v) (ψ := fun w => w = { v with priv := { v.priv with pciNumVf := 0 } })
        rintro w ok rfl
        exact ⟨ok.frame rfl rfl, rfl⟩
      intro _
      apply Contract.Triple.bind (sriovDisable_triple bound)
      intro _
      exact Contract.Triple.done (stable_view (Bound f n 0)) fun s _ bound => ⟨n, 0, bound, nofun⟩
  · have closed : k = 0 := free (by omega)
    subst closed
    rw [if_neg zero]
    by_cases other : f ≠ 0
    · rw [if_pos other]
      exact Contract.Triple.done (stable_view fun w => w = v) fun s _ is => by
        rw [is]
        exact ⟨n, 0, bound, fun _ => .inr bound.closed⟩
    · have master : f = 0 := not_not.mp other
      subst master
      rw [if_neg other]
      split
      · rename_i small
        apply Contract.Triple.bind (onicConfigVfResources_triple _ bound)
        intro rv
        by_cases negative : rv < 0
        · rw [if_pos negative]
          apply Contract.Triple.from_pre fun s => Bound 0 n 0 (s.view 0)
          · rintro s - (⟨is, -⟩ | ⟨-, freed⟩)
            · omega
            · exact freed
          exact Contract.Triple.done (stable_view (Bound 0 n 0)) fun s _ bound => ⟨n, 0, bound, fun _ => .inr bound.closed⟩
        · rw [if_neg negative]
          apply Contract.Triple.from_pre fun s => TableReady n (⟨numVfs.toNat, by omega⟩ : Fin (onicMaxVfs + 1)) (s.view 0)
          · rintro s - (⟨-, ready⟩ | ⟨is, -⟩)
            · exact ready
            · exact absurd is negative
          apply Contract.Triple.bind (pciEnableSriov_triple _)
          intro rv
          by_cases negative : rv < 0
          · rw [if_pos negative]
            apply Contract.Triple.from_pre fun s =>
              ∃ w, TableReady n numVfs.toNat w ∧ s.view 0 = { w with priv := { w.priv with pciNumVf := 0 } }
            · rintro s - (⟨-, ready⟩ | ⟨is, -⟩)
              · exact ⟨s.view 0, ready, by rw [← ready.pciNumVf]⟩
              · exact absurd negative is
            apply Contract.Triple.exists_pre
            intro w
            apply Contract.Triple.pure_pre
            intro ready
            apply Contract.Triple.bind (sriovDisable_triple ready.bound)
            intro _
            exact Contract.Triple.done (stable_view (Bound 0 n 0)) fun s _ bound => ⟨n, 0, bound, fun _ => .inr bound.closed⟩
          · rw [if_neg negative]
            apply Contract.Triple.from_pre fun s => Bound 0 n numVfs.toNat (s.view 0)
            · rintro s - (⟨is, -⟩ | ⟨-, bound⟩)
              · exact absurd is negative
              · exact bound
            exact Contract.Triple.done (stable_view (Bound 0 n numVfs.toNat)) fun s _ bound =>
              ⟨n, numVfs.toNat, bound, fun negative => absurd nonneg (by omega)⟩
      · exact Contract.Triple.done (stable_view fun w => w = v) fun s _ is => by
          rw [is]
          exact ⟨n, 0, bound, fun _ => .inr bound.closed⟩

theorem callSriovConfigure_triple {numVfs : Int} (nonneg : 0 ≤ numVfs) (free : 0 < numVfs → k = 0) (bound : Bound f n k v) :
    (cardContract (.pf f)).Triple (fun s => s.view f = v) (callSriovConfigure via f numVfs) fun _ s => PfIdle f (s.view f) := by
  apply Contract.Triple.bind (onicSriovConfigure_triple nonneg free bound)
  intro rv
  apply modPriv_triple (φ := SriovDone f numVfs rv) (ψ := PfIdle f)
  rintro w ok ⟨n, k, bound, failed⟩
  have kept : Bound f n k { w with priv := { w.priv with returned := some (numVfs, rv) } } :=
    ⟨bound.positive, bound.small, bound.bound, bound.qdev, bound.own, bound.master, bound.numVfs, bound.pciNumVf,
      bound.entries, bound.fmap⟩
  refine ⟨ok.frame rfl rfl, .inr ⟨⟨n, k, kept⟩, fun num last is negative => ?_⟩⟩
  have same : (numVfs, rv) = (num, last) := Option.some.inj is
  cases same
  exact failed negative

end

end OpenNic
