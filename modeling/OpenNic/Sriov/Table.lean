import OpenNic.Sriov.Invariant

namespace OpenNic

/-- Everything but the entries of the VFs and their function maps is as in `base`. -/
structure Kept (base v : PfView) : Prop where
  priv : v.priv = { base.priv with vfs := v.priv.vfs }
  own : v.own = base.own

theorem Kept.refl (v : PfView) : Kept v v := ⟨rfl, rfl⟩

theorem Kept.qdev {base v : PfView} (kept : Kept base v) : v.priv.qdev = base.priv.qdev := by rw [kept.priv]

theorem Kept.setVfs {base v : PfView} (kept : Kept base v) (vfs : VfTable) :
    Kept base { v with priv := { v.priv with vfs := vfs } } :=
  ⟨by
    show { v.priv with vfs := vfs } = _
    rw [kept.priv], kept.own⟩

section

variable {f : Fin 4} {v : PfView} {n : Nat} {i : Fin onicMaxVfs}

theorem VfEntry.congr {v' : PfView} (entry : VfEntry v n i) (qdev : v'.priv.qdev = v.priv.qdev)
    (own : ∀ ctxt ∈ v'.own, ctxt ∈ v.own) (res : v'.priv.vfs.vfRes i = v.priv.vfs.vfRes i)
    (fmap : ∀ ctxt ∈ v'.vf i, ctxt ∈ v.vf i) : VfEntry v' n i where
  positive := entry.positive
  small := entry.small
  device := qdev.trans entry.device
  own ctxt mem := entry.own ctxt (own ctxt mem)
  funcId := res ▸ entry.funcId
  qbase := res ▸ entry.qbase
  qmax := res ▸ entry.qmax
  fmap ctxt mem := entry.fmap ctxt (fmap ctxt mem)

theorem PfOk.forget_vf (ok : PfOk f v) (j : Fin onicMaxVfs) : PfOk f { v with vf := Function.update v.vf j none } := by
  refine ⟨ok.device, ok.own, fun i enabled => ?_⟩
  obtain ⟨master, n, entry⟩ := ok.entries i enabled
  refine ⟨master, n, entry.congr rfl (fun _ mem => mem) rfl fun ctxt mem => ?_⟩
  change ctxt ∈ Function.update v.vf j none i at mem
  by_cases same : i = j
  · subst same
    rw [Function.update_self] at mem
    cases mem
  · rwa [Function.update_of_ne same] at mem

/-- The map of a function without an entry can be anything. -/
theorem PfOk.set_vf (ok : PfOk f v) {j : Fin onicMaxVfs} (free : (v.priv.vfs.vfRes j).enabled = false) (ctxt : Option FmapCtxt) :
    PfOk f { v with vf := Function.update v.vf j ctxt } := by
  refine ⟨ok.device, ok.own, fun i enabled => ?_⟩
  obtain ⟨master, n, entry⟩ := ok.entries i enabled
  have other : i ≠ j := fun same => by
    subst same
    rw [free] at enabled
    cases enabled
  refine ⟨master, n, entry.congr rfl (fun _ mem => mem) rfl fun written mem => ?_⟩
  change written ∈ Function.update v.vf j ctxt i at mem
  rwa [Function.update_of_ne other] at mem

theorem setRes_self (vfs : VfTable) (j : Fin onicMaxVfs) (res : OnicVfResource) : (vfs.setRes j res).vfRes j = res := if_pos rfl

theorem setRes_other (vfs : VfTable) {i j : Fin onicMaxVfs} (other : i ≠ j) (res : OnicVfResource) :
    (vfs.setRes j res).vfRes i = vfs.vfRes i :=
  if_neg fun same => other (Fin.ext same)

theorem PfOk.erase (ok : PfOk f v) (j : Fin onicMaxVfs) :
    PfOk f { v with priv := { v.priv with vfs := v.priv.vfs.setRes j .zero } } := by
  refine ⟨ok.device, ok.own, fun i enabled => ?_⟩
  change ((v.priv.vfs.setRes j .zero).vfRes i).enabled = true at enabled
  by_cases same : i = j
  · subst same
    rw [setRes_self] at enabled
    cases enabled
  · have kept := setRes_other v.priv.vfs same .zero
    rw [kept] at enabled
    obtain ⟨master, n, entry⟩ := ok.entries i enabled
    exact ⟨master, n, entry.congr rfl (fun _ mem => mem) kept fun _ mem => mem⟩

/-- A change of the private data that leaves the device and the entries alone. -/
theorem PfOk.frame (ok : PfOk f v) {priv : PfPriv} (qdev : priv.qdev = v.priv.qdev)
    (vfRes : priv.vfs.vfRes = v.priv.vfs.vfRes) : PfOk f { v with priv := priv } := by
  refine ⟨fun d mem => ok.device d (qdev ▸ mem), ok.own, fun i enabled => ?_⟩
  have same : priv.vfs.vfRes i = v.priv.vfs.vfRes i := congrFun vfRes i
  change (priv.vfs.vfRes i).enabled = true at enabled
  rw [same] at enabled
  obtain ⟨master, n, entry⟩ := ok.entries i enabled
  exact ⟨master, n, entry.congr qdev (fun _ mem => mem) same fun _ mem => mem⟩

end

section

variable {via : Input → Input} {f : Fin 4} {base : PfView} {k : Nat}

/-- The entries from `i` on and below `k` may still be there. -/
def Left (base : PfView) (k i : Nat) (v : PfView) : Prop :=
  Kept base v ∧ ∀ j : Fin onicMaxVfs, (v.priv.vfs.vfRes j).enabled = true → i ≤ j ∧ j < k

theorem Left.setFmap {i : Nat} {v : PfView} (left : Left base k i v) (vf : Fin onicMaxVfs → Option FmapCtxt) :
    Left base k i { v with vf := vf } :=
  ⟨⟨left.1.priv, left.1.own⟩, left.2⟩

theorem VfTable.res_eq (vfs : VfTable) (i : Fin onicMaxVfs) : vfs.res i = vfs.vfRes i :=
  congrArg vfs.vfRes (Fin.ext (Nat.mod_eq_of_lt i.isLt))

theorem onicFreeVfResource_triple (i : Fin onicMaxVfs) :
    (cardContract (.pf f)).Triple (fun s => Left base k i (s.view f)) (onicFreeVfResource via f i)
      fun _ s => Left base k (i + 1) (s.view f) := by
  apply Contract.Triple.bind (readPriv_triple (Left base k i) fun priv => priv.vfs.res i)
  intro res
  split
  · rename_i disabled
    refine Contract.Triple.done (stable_view fun v => Left base k i v ∧ v.priv.vfs.res i = res) ?_
    rintro s - ⟨⟨kept, left⟩, is⟩
    rw [VfTable.res_eq] at is
    refine ⟨kept, fun j enabled => ?_⟩
    obtain ⟨low, high⟩ := left j enabled
    have other : j.val ≠ i := fun here => by
      rw [Fin.ext here, is] at enabled
      rw [enabled] at disabled
      cases disabled
    omega
  · rename_i enabled
    have live : res.enabled = true := by simpa using enabled
    -- the entry's own function and the master PF are known from the invariant
    apply Contract.Triple.from_pre fun s => (f = 0 ∧ res.funcId = vfFuncId i) ∧ Left base k i (s.view f)
    · rintro s inv ⟨left, is⟩
      rw [VfTable.res_eq] at is
      obtain ⟨master, n, entry⟩ := (inv f).entries i (by rw [is]; exact live)
      exact ⟨⟨master, is ▸ entry.funcId⟩, left⟩
    apply Contract.Triple.pure_pre
    rintro ⟨master, funcId⟩
    subst master
    have mine : FuncIdOf 0 res.funcId := .inr ⟨rfl, _, funcId⟩
    apply Contract.Triple.bind (M := fun _ s => Left base k i (s.view 0))
    · apply Contract.Triple.fold (I := fun (_ : Nat) (_ : Unit) (s : Card) => Left base k i (s.view 0))
        fun _ _ => stable_view (Left base k i)
      intro qid _ _ _
      apply Contract.Triple.bind (M := fun _ s => Left base k i (s.view 0))
      · apply Contract.Triple.modify (stable_view _) (stable_view _)
        exact fun s _ inv left _ => ⟨inv, fun g _ => rfl, left⟩
      intro _
      apply Contract.Triple.bind (onCard_triple (Program.Results.trivial _) (Left base k i))
      intro _
      apply Contract.Triple.pure_pre
      intro _
      exact (onCard_triple (Program.Results.trivial _) (Left base k i)).conseq (fun _ _ left => left) fun _ _ _ done => done.2
    intro _
    apply Contract.Triple.bind (clearFmap_triple (φ := Left base k i) (ψ := Left base k i) mine
      (fun v => { v with vf := Function.update v.vf i none }) (fun s => by rw [funcId]; exact view_fmap_vf i none)
      fun v ok left => ⟨ok.forget_vf _, left.setFmap _⟩)
    intro _
    apply Contract.Triple.pure_pre
    intro _
    apply Contract.Triple.modify (stable_view (Left base k i)) (stable_view (Left base k (i + 1)))
    rintro s - inv ⟨kept, left⟩ -
    have is : (s.setPriv 0 fun priv => { priv with vfs := priv.vfs.setRes i .zero }).view 0 = _ := view_setPriv _
    obtain ⟨inv', guarantee⟩ := own_change inv is ((inv 0).erase i) fun g other => view_setPriv_other _ other
    refine ⟨inv', guarantee, ?_⟩
    have after : Left base k (i + 1) ((s.setPriv 0 fun priv => { priv with vfs := priv.vfs.setRes i .zero }).view 0) := by
      rw [is]
      refine ⟨kept.setVfs _, fun j enabled => ?_⟩
      change (((s.priv 0).vfs.setRes i .zero).vfRes j).enabled = true at enabled
      by_cases same : j = i
      · subst same
        rw [setRes_self] at enabled
        cases enabled
      · rw [setRes_other _ same] at enabled
        obtain ⟨low, high⟩ := left j enabled
        have apart : j.val ≠ i := fun eq => same (Fin.ext eq)
        omega
    exact after

/-- All entries are gone. -/
structure Freed (base v : PfView) : Prop where
  kept : Kept base v
  none : NoEntry v
  numVfs : v.priv.vfs.numVfs = 0

theorem onicFreeVfResources_triple {numVfs : Nat} (enough : k ≤ numVfs) (device : base.priv.qdev ≠ none) :
    (cardContract (.pf f)).Triple (fun s => Left base k 0 (s.view f)) (onicFreeVfResources via f numVfs)
      fun _ s => Freed base (s.view f) := by
  apply Contract.Triple.bind (readPriv_triple (Left base k 0) PfPriv.qdev)
  intro qdev
  cases qdev with
  | none =>
    refine Contract.Triple.done (stable_view fun v => Left base k 0 v ∧ v.priv.qdev = none) ?_
    rintro s - ⟨⟨kept, -⟩, absent⟩
    exact absurd (kept.qdev.symm.trans absent) device
  | some d =>
    apply Contract.Triple.from_pre (fun s => Left base k 0 (s.view f)) fun _ _ holds => holds.1
    apply Contract.Triple.bind (M := fun _ s => Left base k (0 + min numVfs onicMaxVfs) (s.view f))
    · apply Contract.Triple.fold (I := fun (i : Nat) (_ : Unit) (s : Card) => Left base k i (s.view f))
        fun i _ => stable_view (Left base k i)
      intro i _ _ high
      exact onicFreeVfResource_triple ⟨i, by omega⟩
    intro _
    apply modPriv_triple (ψ := Freed base)
    rintro v ok ⟨kept, left⟩
    have none : NoEntry v := by
      intro j
      by_contra enabled
      obtain ⟨low, high⟩ := left j (by simpa using enabled)
      have small := j.isLt
      omega
    exact ⟨ok.frame rfl rfl, kept.setVfs _, none, rfl⟩

end

/-- The first `i` VFs are set up. -/
structure Configured (base : PfView) (n i : Nat) (v : PfView) : Prop where
  kept : Kept base v
  numVfs : v.priv.vfs.numVfs = 0
  entries : ∀ j, (v.priv.vfs.vfRes j).enabled = true ↔ j.val < i
  fmap : ∀ j : Fin onicMaxVfs, j.val < i →
    v.vf j = some ⟨BitVec.ofNat 11 (n + queuesPerVf * j), BitVec.ofNat 12 queuesPerVf⟩

section

variable {via : Input → Input} {base : PfView} {n : Nat}

theorem Configured.left {v : PfView} {i : Nat} (configured : Configured base n i v) : Left base i 0 v :=
  ⟨configured.kept, fun j enabled => ⟨Nat.zero_le _, (configured.entries j).mp enabled⟩⟩

/-- The map of a VF that is not set up is nobody's business. -/
theorem Configured.setFmap {v : PfView} {i : Nat} (configured : Configured base n i v) {j : Fin onicMaxVfs}
    (above : i ≤ j) (written : Option FmapCtxt) :
    Configured base n i { v with vf := Function.update v.vf j written } := by
  refine ⟨⟨configured.kept.priv, configured.kept.own⟩, configured.numVfs, configured.entries, fun m less => ?_⟩
  have other : m ≠ j := fun same => by
    subst same
    omega
  exact (Function.update_of_ne other _ _).trans (configured.fmap m less)

/-- The map of the next VF is written, too. -/
def Programmed (base : PfView) (n : Nat) (i : Fin onicMaxVfs) (v : PfView) : Prop :=
  Configured base n i v ∧ v.vf i = some ⟨BitVec.ofNat 11 (n + queuesPerVf * i), BitVec.ofNat 12 queuesPerVf⟩

/-- What a PF needs to configure its VFs. -/
structure Master (base : PfView) (n : Nat) : Prop where
  positive : 1 ≤ n
  small : n ≤ onicMaxQueues
  qdev : base.priv.qdev = some ⟨0, 0, BitVec.ofNat 16 n⟩
  own : ∀ ctxt ∈ base.own, ctxt = ⟨0, BitVec.ofNat 12 n⟩

/-- The entry of one more VF. -/
theorem Configured.next {v : PfView} {i : Fin onicMaxVfs} (master : Master base n) (ok : PfOk 0 v)
    (configured : Configured base n i v)
    (written : v.vf i = some ⟨BitVec.ofNat 11 (n + queuesPerVf * i), BitVec.ofNat 12 queuesPerVf⟩) (mac : BitVec 48) :
    let res : OnicVfResource := ⟨BitVec.ofNat 16 i, vfFuncId i, BitVec.ofNat 16 (n + queuesPerVf * i),
      BitVec.ofNat 16 queuesPerVf, BitVec.ofNat 16 queuesPerVf, BitVec.ofNat 16 queuesPerVf, mac, true⟩
    let v' : PfView := { v with priv := { v.priv with vfs := v.priv.vfs.setRes i res } }
    PfOk 0 v' ∧ Configured base n (i + 1) v' := by
  intro res v'
  have device : v.priv.qdev = some ⟨0, 0, BitVec.ofNat 16 n⟩ := configured.kept.qdev.trans master.qdev
  have own : ∀ ctxt ∈ v.own, ctxt = ⟨0, BitVec.ofNat 12 n⟩ := configured.kept.own ▸ master.own
  have entry : v'.priv.vfs.vfRes i = res := setRes_self _ _ _
  have other {j : Fin onicMaxVfs} (apart : j ≠ i) : v'.priv.vfs.vfRes j = v.priv.vfs.vfRes j := setRes_other _ apart _
  refine ⟨⟨ok.device, ok.own, fun j enabled => ?_⟩, configured.kept.setVfs _, configured.numVfs, fun j => ?_, fun j less => ?_⟩
  · by_cases same : j = i
    · subst same
      refine ⟨rfl, n, master.positive, master.small, device, own, ?_, ?_, ?_, fun ctxt mem => ?_⟩
      · rw [entry]
      · rw [entry]
      · rw [entry]
      · rw [show v'.vf j = v.vf j from rfl, written] at mem
        exact (Option.mem_some_iff.mp mem).symm
    · rw [other same] at enabled
      obtain ⟨zero, m, is⟩ := ok.entries j enabled
      exact ⟨zero, m, is.congr rfl (fun _ mem => mem) (other same) fun _ mem => mem⟩
  · by_cases same : j = i
    · subst same
      rw [entry]
      exact iff_of_true rfl (Nat.lt_succ_self _)
    · have apart : j.val ≠ i := fun eq => same (Fin.ext eq)
      rw [other same, configured.entries j]
      omega
  · by_cases same : j = i
    · subst same
      exact written
    · have apart : j.val ≠ i := fun eq => same (Fin.ext eq)
      exact configured.fmap j (by omega)

/-- The induction is on the rounds left; a round that fails frees what the rounds before
    it have set up. -/
theorem onicConfigVfLoop_triple (master : Master base n) {i left : Nat} (fits : i + left ≤ onicMaxVfs) :
    (cardContract (.pf 0)).Triple (fun s => Configured base n i (s.view 0))
      (onicConfigVfLoop via 0 i left (n + queuesPerVf * i))
      fun rv s => (rv = 0 ∧ Configured base n (i + left) (s.view 0)) ∨ (rv < 0 ∧ Freed base (s.view 0)) := by
  induction left generalizing i with
  | zero =>
    exact Contract.Triple.done (stable_view (Configured base n i)) fun s _ configured => .inl ⟨rfl, configured⟩
  | succ left ih =>
    have small : i < onicMaxVfs := by omega
    have mine : FuncIdOf 0 (BitVec.ofNat 16 (4 + i)) := .inr ⟨rfl, ⟨i, small⟩, rfl⟩
    have disabled {v : PfView} (configured : Configured base n i v) : (v.priv.vfs.vfRes ⟨i, small⟩).enabled = false := by
      by_contra enabled
      exact absurd ((configured.entries ⟨i, small⟩).mp (by simpa using enabled)) (Nat.lt_irrefl i)
    apply Contract.Triple.bind (writeFmap_triple (φ := Configured base n i) (ψ := Left base i 0)
      (χ := Programmed base n ⟨i, small⟩) mine
      (fun written v => { v with vf := Function.update v.vf ⟨i, small⟩ written })
      (fun written s => view_fmap_vf ⟨i, small⟩ written)
      (fun v ok configured => ⟨ok.set_vf (disabled configured) _, ok.set_vf (disabled configured) _⟩)
      (fun v configured => configured.left.setFmap _) (fun v configured => ⟨configured.setFmap (Nat.le_refl i) _, Function.update_self ..⟩))
    rintro ⟨err, vfQdev⟩
    apply Contract.Triple.pure_pre
    intro written
    by_cases negative : err < 0
    · have is := written.failed negative
      simp only [Prod.mk.injEq] at is
      obtain ⟨rfl, rfl⟩ := is
      apply Contract.Triple.from_pre (fun s => Left base i 0 (s.view 0)) fun _ _ holds => holds.1 negative
      dsimp only
      rw [if_pos (by decide)]
      apply Contract.Triple.bind (clearFmap_triple (φ := Left base i 0) (ψ := Left base i 0) mine
        (fun v => { v with vf := Function.update v.vf ⟨i, small⟩ none }) (fun s => view_fmap_vf ⟨i, small⟩ none)
        fun v ok left => ⟨ok.forget_vf _, left.setFmap _⟩)
      intro _
      apply Contract.Triple.pure_pre
      intro _
      apply Contract.Triple.bind (onicFreeVfResources_triple (Nat.le_refl i) (by rw [master.qdev]; exact nofun))
      intro _
      exact Contract.Triple.done (stable_view (Freed base)) fun s _ freed => .inr ⟨by decide, freed⟩
    · have is := written.done negative
      simp only [Prod.mk.injEq] at is
      obtain ⟨rfl, rfl⟩ := is
      apply Contract.Triple.from_pre (fun s => Programmed base n ⟨i, small⟩ (s.view 0)) fun _ _ holds => holds.2 negative
      dsimp only
      rw [if_neg (by decide)]
      apply Contract.Triple.bind (input_triple (Programmed base n ⟨i, small⟩) CardInput.mac)
      intro mac
      apply Contract.Triple.pure_pre
      intro _
      apply Contract.Triple.bind (M := fun _ s => Configured base n (i + 1) (s.view 0))
      · apply modPriv_triple
        rintro v ok ⟨configured, written⟩
        exact Configured.next (i := ⟨i, small⟩) master ok configured written mac
      intro _
      have rest := ih (i := i + 1) (by omega)
      rwa [Nat.mul_succ, ← Nat.add_assoc, show i + 1 + left = i + (left + 1) by omega] at rest

end

end OpenNic
