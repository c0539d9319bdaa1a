import OpenNic.Pf.Shell
import OpenNic.Program.Parties
import OpenNic.Sriov.PfDriver

namespace OpenNic

open RegisterFile

namespace Shell

/-- The registers that `onic_qdma_init_csr` gives the values of the pools. -/
def PoolReg (off : Nat) : Prop :=
  (0x204 ≤ off ∧ off < 0x244) ∨ (0xA00 ≤ off ∧ off < 0xA80) ∨ (0xAB0 ≤ off ∧ off < 0xAF0)

instance (off : Nat) : Decidable (PoolReg off) := inferInstanceAs (Decidable (_ ∨ _))

/-- What belongs to one PF: the registers of its function, and for the master those of the pools. -/
structure View where
  priv : ShellPriv
  block : Nat → Word
  csr : Nat → Word
  calibrated : Bool

def view (s : Shell) (f : Fin 4) : View where
  priv := s.priv f
  block k := if k < 0x1000 then s.regs (qdmaFuncOffset f + k) else 0
  csr off := if f = 0 ∧ PoolReg off then s.csr (none, off) else 0
  calibrated := decide (f = 0) && s.calibrated

def poolVal (pool : List Nat) (i : Nat) : Word := BitVec.ofNat 32 (pool.getD i 0)

/-- The registers have the values of the pools. -/
structure Calibrated (csr : Nat → Word) : Prop where
  rngcnt : ∀ i, i < 16 → csr (qdmaOffsetGlblRngSz + i * 4) = poolVal rngcntPool i
  bufsz : ∀ i, i < 16 → csr (qdmaOffsetC2hBufSz + i * 4) = poolVal c2hBufszPool i
  timer : ∀ i, i < 16 → csr (qdmaOffsetC2hTimerCnt + i * 4) = poolVal c2hTimerPool i
  thres : ∀ i, i < 16 → csr (qdmaOffsetC2hCntTh + i * 4) = poolVal c2hThresPool i

/-- The shell spreads the packets of the function over its `n` queues and no others. -/
structure Steered (f : Fin 4) (n : Nat) (block : Nat → Word) : Prop where
  positive : 1 ≤ n
  small : n ≤ 64
  qconf : block 0 = qconf f n
  entries : ∀ i, i < indirectionTableSize → (block (0x400 + i * 4)).toNat < n

structure Ok (f : Fin 4) (v : View) : Prop where
  calibrated : v.calibrated = true → Calibrated v.csr
  steered : v.priv.registered = true → Steered f v.priv.numQueues v.block
  master : v.priv.registered = true → f = 0 → v.calibrated = true

def parties : Parties Shell (Fin 4) View := ⟨view, Ok⟩

section

variable {f g : Fin 4} {s : Shell}

theorem view_setPriv (change : ShellPriv → ShellPriv) :
    (s.setPriv f change).view f = { s.view f with priv := change (s.priv f) } := by
  simp only [view, setPriv, Function.update_self]

theorem view_setPriv_other (change : ShellPriv → ShellPriv) (other : g ≠ f) : (s.setPriv f change).view g = s.view g := by
  simp only [view, setPriv, Function.update_of_ne other]

/-- The registers of a function are apart from those of the others. -/
theorem block_other {k k' : Nat} (apart : g ≠ f) (small : k < 0x1000) (small' : k' < 0x1000) :
    qdmaFuncOffset g + k' ≠ qdmaFuncOffset f + k := by
  have different : g.val ≠ f.val := fun same => apart (Fin.ext same)
  unfold qdmaFuncOffset qdmaSubsystemOffset
  omega

theorem view_write {k : Nat} (small : k < 0x1000) (val : Word) :
    ({ s with regs := Function.update s.regs (qdmaFuncOffset f + k) val } : Shell).view f =
      { s.view f with block := Function.update (s.view f).block k val } := by
  have block : (fun k' => if k' < 0x1000 then Function.update s.regs (qdmaFuncOffset f + k) val (qdmaFuncOffset f + k') else 0) =
      Function.update (fun k' => if k' < 0x1000 then s.regs (qdmaFuncOffset f + k') else 0) k val := by
    funext k'
    by_cases same : k' = k
    · subst same
      simp [small]
    · have apart : qdmaFuncOffset f + k' ≠ qdmaFuncOffset f + k := by omega
      rw [Function.update_of_ne apart, Function.update_of_ne same]
  simp only [view, block]

theorem view_write_other {k : Nat} (small : k < 0x1000) (val : Word) (other : g ≠ f) :
    ({ s with regs := Function.update s.regs (qdmaFuncOffset f + k) val } : Shell).view g = s.view g := by
  have block : (fun k' => if k' < 0x1000 then Function.update s.regs (qdmaFuncOffset f + k) val (qdmaFuncOffset g + k') else 0) =
      fun k' => if k' < 0x1000 then s.regs (qdmaFuncOffset g + k') else 0 := by
    funext k'
    by_cases small' : k' < 0x1000
    · rw [if_pos small', if_pos small', Function.update_of_ne (block_other other small small')]
    · rw [if_neg small', if_neg small']
  simp only [view, block]

/-- The system configuration and the CMACs lie outside the registers of the functions. -/
theorem unseen_write {off : Nat} (outside : off < 0x1000 ∨ 0x5000 ≤ off) (val : Word) :
    parties.Unseen s { s with regs := Function.update s.regs off val } := by
  intro g
  have few : g.val < 4 := g.isLt
  have block : (fun k => if k < 0x1000 then Function.update s.regs off val (qdmaFuncOffset g + k) else 0) =
      fun k => if k < 0x1000 then s.regs (qdmaFuncOffset g + k) else 0 := by
    funext k
    by_cases small : k < 0x1000
    · have apart : qdmaFuncOffset g + k ≠ off := by
        unfold qdmaFuncOffset qdmaSubsystemOffset
        omega
      rw [if_pos small, if_pos small, Function.update_of_ne apart]
    · rw [if_neg small, if_neg small]
  simp only [parties, view, block]

theorem unseen_csr {off : Nat} (other : ¬ PoolReg off) (owner : Option (Fin 4)) (val : Word) :
    parties.Unseen s { s with csr := Function.update s.csr (owner, off) val } := by
  intro g
  have csr : (fun o => if g = 0 ∧ PoolReg o then Function.update s.csr (owner, off) val (none, o) else 0) =
      fun o => if g = 0 ∧ PoolReg o then s.csr (none, o) else 0 := by
    funext o
    by_cases mine : g = 0 ∧ PoolReg o
    · have apart : ((none, o) : Option (Fin 4) × Nat) ≠ (owner, off) := by
        intro same
        exact other ((Prod.mk.inj same).2 ▸ mine.2)
      rw [if_pos mine, if_pos mine, Function.update_of_ne apart]
    · rw [if_neg mine, if_neg mine]
  simp only [parties, view, csr]

theorem poolReg_shared {off : Nat} (mine : PoolReg off) : bar0 f off = (none, off) := by
  have low : off < qdmaOffsetDmapSel := by
    unfold PoolReg at mine
    unfold qdmaOffsetDmapSel
    omega
  unfold bar0
  rw [if_pos low]

theorem view_csr {off : Nat} (mine : PoolReg off) (val : Word) :
    ({ s with csr := Function.update s.csr (bar0 0 off) val } : Shell).view 0 =
      { s.view 0 with csr := Function.update (s.view 0).csr off val } := by
  have csr : (fun o => if (0 : Fin 4) = 0 ∧ PoolReg o then Function.update s.csr (bar0 0 off) val (none, o) else 0) =
      Function.update (fun o => if (0 : Fin 4) = 0 ∧ PoolReg o then s.csr (none, o) else 0) off val := by
    funext o
    rw [poolReg_shared mine]
    by_cases same : o = off
    · subst same
      simp [mine]
    · have apart : ((none, o) : Option (Fin 4) × Nat) ≠ (none, off) := fun eq => same (Prod.mk.inj eq).2
      rw [Function.update_of_ne apart, Function.update_of_ne same]
  exact congrArg (fun c => { s.view 0 with csr := c }) csr

theorem view_csr_other {off : Nat} (val : Word) (other : g ≠ 0) :
    ({ s with csr := Function.update s.csr (bar0 0 off) val } : Shell).view g = s.view g := by
  simp only [view, other, false_and, if_false]

theorem unseen_refl (s : Shell) : parties.Unseen s s := fun _ => rfl

end

section

open Program

variable {f : Fin 4}

theorem obtained_steps : obtained.Steps parties.Unseen := by
  apply Steps.access
  intro _ s _ s' taken
  cases taken
  exact unseen_refl s

theorem outcome_steps : outcome.Steps parties.Unseen := by
  apply Steps.access
  intro _ s _ s' taken
  cases taken
  exact unseen_refl s

theorem await_steps (off : Nat) (mask : Word) : (onicAwaitReg off mask).Steps parties.Unseen := by
  apply Steps.access
  intro _ s _ s' taken
  split at taken
  · cases taken
    exact unseen_refl s
  · cases taken

theorem write_steps {off : Nat} (outside : off < 0x1000 ∨ 0x5000 ≤ off) (val : Word) :
    (onicWriteReg off val).Steps parties.Unseen :=
  Steps.modify fun _ => unseen_write outside val

theorem ip_write_steps {off : Nat} (other : ¬ PoolReg off) (val : Word) : (qdmaWriteReg f off val).Steps parties.Unseen :=
  Steps.modify fun _ => unseen_csr other _ val

theorem writeCmac_steps (i : Nat) (settings : List (Nat × Word)) : (writeCmac i settings).Steps parties.Unseen := by
  induction settings with
  | nil => exact Steps.done ()
  | cons setting rest ih =>
    have outside : 0x5000 ≤ cmacOffset i + setting.1 := by
      unfold cmacOffset
      split <;> omega
    exact (write_steps (.inr outside) _).bind fun _ => ih

theorem onicEnableCmac_steps (rsFec : Bool) (cmacId : Nat) : (onicEnableCmac rsFec cmacId).Steps parties.Unseen := by
  have settings : (do
      (if rsFec then writeCmac cmacId [(0x107C, 0x3), (0x1000, 0x7)] else .done ())
      writeCmac cmacId cmacSettings
      .done 0 : Program Shell ShellInput Int).Steps parties.Unseen := by
    have rest : (do
        writeCmac cmacId cmacSettings
        .done 0 : Program Shell ShellInput Int).Steps parties.Unseen := (writeCmac_steps cmacId _).bind fun _ => Steps.done 0
    split
    · exact (writeCmac_steps cmacId _).bind fun _ => rest
    · exact rest
  unfold onicEnableCmac
  split
  · exact Steps.done _
  · split
    · exact ((write_steps (.inl (by decide)) _).bind fun _ => await_steps _ _).bind fun _ => settings
    · exact ((write_steps (.inl (by decide)) _).bind fun _ => await_steps _ _).bind fun _ => settings

theorem countCmacs_steps (rsFec : Bool) (left i : Nat) : (countCmacs f rsFec left i).Steps parties.Unseen := by
  induction left generalizing i with
  | zero => exact Steps.done i
  | succ left ih =>
    apply (Steps.read unseen_refl _).bind
    intro val
    split
    · exact Steps.done i
    · split
      · apply ((onicEnableCmac_steps rsFec i).bind fun _ => Steps.done ()).bind
        exact fun _ => ih (i + 1)
      · exact ih (i + 1)

theorem unmaskErrors_steps {leaves : List (Nat × Word × BitVec 64)} (others : ∀ leaf ∈ leaves, ¬ PoolReg leaf.1) :
    (unmaskErrors f leaves).Steps parties.Unseen := by
  induction leaves with
  | nil => exact Steps.done ()
  | cons leaf leaves ih =>
    have rest := ih fun other mem => others other (List.mem_cons_of_mem leaf mem)
    apply ((ip_write_steps (others leaf List.mem_cons_self) _).bind _).bind
    · exact fun _ => rest
    · intro _
      apply (Steps.read unseen_refl _).bind
      exact fun _ => ip_write_steps (by decide) _

theorem onicQdmaInitErrorInterrupt_steps (vid : Nat) : (onicQdmaInitErrorInterrupt f vid).Steps parties.Unseen := by
  apply (ip_write_steps (by decide) _).bind
  intro _
  apply (unmaskErrors_steps (by decide)).bind
  exact fun _ => ip_write_steps (by decide) _

/-- The doorbells are not among the registers of the pools. -/
theorem doorbell_steps {base : Nat} (high : qdmaOffsetDmapSel ≤ base) (qid : BitVec 16) (val : Word) :
    (qdmaWriteReg f (base + qid.toNat * 16) val).Steps parties.Unseen := by
  apply ip_write_steps
  unfold qdmaOffsetDmapSel at high
  unfold PoolReg
  omega

end

section

variable {f : Fin 4} {φ ψ : View → Prop} {v : View}

theorem Ok.unregistered (ok : Ok f v) (free : v.priv.registered = false) (block : Nat → Word) : Ok f { v with block := block } :=
  ⟨ok.calibrated, fun busy => absurd (free.symm.trans busy) nofun, ok.master⟩

theorem Ok.setPriv (ok : Ok f v) {priv : ShellPriv} (free : priv.registered = false) : Ok f { v with priv := priv } :=
  ⟨ok.calibrated, fun busy => absurd (free.symm.trans busy) nofun, fun busy => absurd (free.symm.trans busy) nofun⟩

theorem modPriv_triple {change : ShellPriv → ShellPriv}
    (step : ∀ v, Ok f v → φ v → Ok f { v with priv := change v.priv } ∧ ψ { v with priv := change v.priv }) :
    (parties.contract (some f)).Triple (fun s => φ (s.view f)) (modPriv f change) fun _ s => ψ (s.view f) := by
  apply Parties.own_modify (D := parties) (φ := φ) (ψ := ψ)
  · exact fun s g other => view_setPriv_other change other
  · intro s ok holds
    have is : parties.view (s.setPriv f change) f = { s.view f with priv := change (s.priv f) } := view_setPriv change
    rw [is]
    exact step _ ok holds

theorem readPriv_triple {α : Type} (get : ShellPriv → α) :
    (parties.contract (some f)).Triple (fun s => φ (s.view f)) (readPriv f get)
      fun a s => get (s.view f).priv = a ∧ φ (s.view f) :=
  Parties.read (D := parties) (φ := φ) (ψ := fun a v => get v.priv = a ∧ φ v) fun _ _ holds => ⟨rfl, holds⟩

theorem quiet_triple {α : Type} {p : Program Shell ShellInput α} (steps : p.Steps parties.Unseen) :
    (parties.contract (some f)).Triple (fun s => φ (s.view f)) p fun _ s => φ (s.view f) :=
  Parties.quiet (D := parties) steps φ

theorem done_triple {α : Type} {a : α} {χ : α → View → Prop} (implies : ∀ v, φ v → χ a v) :
    (parties.contract (some f)).Triple (fun s => φ (s.view f)) (.done a : Program Shell ShellInput α)
      fun a s => χ a (s.view f) :=
  Parties.done (D := parties) (φ := φ) (ψ := χ) fun v _ holds => implies v holds

theorem write_triple {k off : Nat} {val : Word} (small : k < 0x1000) (is : off = qdmaFuncOffset f + k)
    (step : ∀ v, Ok f v → φ v → Ok f { v with block := Function.update v.block k val } ∧
      ψ { v with block := Function.update v.block k val }) :
    (parties.contract (some f)).Triple (fun s => φ (s.view f)) (onicWriteReg off val) fun _ s => ψ (s.view f) := by
  subst is
  apply Parties.own_modify (D := parties) (φ := φ) (ψ := ψ)
  · exact fun s g other => view_write_other small val other
  · intro s ok holds
    have is : parties.view { s with regs := Function.update s.regs (qdmaFuncOffset f + k) val } f = _ := view_write small val
    rw [is]
    exact step _ ok holds

theorem pool_injective (base : Nat) : Function.Injective fun i => base + i * 4 := by
  intro i j same
  dsimp only at same
  omega

/-- The master has the values of a pool in place, or writes them there. -/
theorem writePool_triple {base : Nat} {pool : List Nat} (mine : ∀ i, i < 16 → PoolReg (base + i * 4))
    (right : ∀ csr, Calibrated csr → ∀ i, i < 16 → csr (base + i * 4) = poolVal pool i) (ok : Ok 0 v) :
    (parties.contract (some 0)).Triple (fun s => s.view 0 = v) (writePool 0 base pool)
      fun _ s => s.view 0 = { v with csr := stored (fun i => base + i * 4) (poolVal pool) 16 v.csr } := by
  let written (i : Nat) : View := { v with csr := stored (fun i => base + i * 4) (poolVal pool) i v.csr }
  have fine (i : Nat) (few : i ≤ 16) : Ok 0 (written i) := by
    refine ⟨fun before => ?_, ok.steered, ok.master⟩
    have there : ∀ j, j < i → v.csr (base + j * 4) = poolVal pool j :=
      fun j less => right v.csr (ok.calibrated before) j (Nat.lt_of_lt_of_le less few)
    have same : (written i).csr = v.csr := (stored_same_iff (pool_injective base)).mp there
    rw [same]
    exact ok.calibrated before
  have loop : (parties.contract (some 0)).Triple (fun s => s.view 0 = written 0)
      (.fold (fun i _ => qdmaWriteReg 0 (base + i * 4) (poolVal pool i)) 0 16 ()) fun _ s => s.view 0 = written (0 + 16) := by
    apply Contract.Triple.fold (I := fun i (_ : Unit) (s : Shell) => s.view 0 = written i)
    · exact fun i _ => Parties.stable (D := parties) fun w => w = written i
    · intro i _ _ less
      have few : i < 16 := by omega
      apply Parties.own_modify (D := parties) (φ := fun w => w = written i) (ψ := fun w => w = written (i + 1))
      · exact fun s g other => view_csr_other _ other
      · intro s _ holds
        have before : s.view 0 = written i := holds
        have is : parties.view { s with csr := Function.update s.csr (bar0 0 (base + i * 4)) (poolVal pool i) } 0 = written (i + 1) := by
          refine (view_csr (mine i few) (poolVal pool i)).trans ?_
          rw [before]
          rfl
        exact ⟨is ▸ fine (i + 1) few, is⟩
  exact loop

/-- The registers of the pools once all four are written. -/
def poolsWritten (csr : Nat → Word) : Nat → Word :=
  stored (fun i => qdmaOffsetC2hCntTh + i * 4) (poolVal c2hThresPool) 16
    (stored (fun i => qdmaOffsetC2hTimerCnt + i * 4) (poolVal c2hTimerPool) 16
      (stored (fun i => qdmaOffsetC2hBufSz + i * 4) (poolVal c2hBufszPool) 16
        (stored (fun i => qdmaOffsetGlblRngSz + i * 4) (poolVal rngcntPool) 16 csr)))

theorem calibrated_poolsWritten (csr : Nat → Word) : Calibrated (poolsWritten csr) := by
  unfold poolsWritten qdmaOffsetC2hCntTh qdmaOffsetC2hTimerCnt qdmaOffsetC2hBufSz qdmaOffsetGlblRngSz
  constructor
  · intro i less
    unfold qdmaOffsetGlblRngSz
    rw [stored_outside fun j _ => by omega, stored_outside fun j _ => by omega, stored_outside fun j _ => by omega]
    exact stored_at (pool_injective _) less
  · intro i less
    unfold qdmaOffsetC2hBufSz
    rw [stored_outside fun j _ => by omega, stored_outside fun j _ => by omega]
    exact stored_at (pool_injective _) less
  · intro i less
    unfold qdmaOffsetC2hTimerCnt
    rw [stored_outside fun j _ => by omega]
    exact stored_at (pool_injective _) less
  · exact fun i less => stored_at (pool_injective _) less

theorem onicQdmaInitCsr_triple (ok : Ok 0 v) :
    (parties.contract (some 0)).Triple (fun s => s.view 0 = v) (onicQdmaInitCsr 0)
      fun _ s => s.view 0 = { v with csr := poolsWritten v.csr } := by
  -- Whatever is written, a register of the pools that was right stays right.
  have keeps {w : View} (ok : Ok 0 w) {base : Nat} {pool : List Nat} (mine : ∀ i, i < 16 → PoolReg (base + i * 4))
      (right : ∀ csr, Calibrated csr → ∀ i, i < 16 → csr (base + i * 4) = poolVal pool i) {α : Type}
      {rest : Program Shell ShellInput α} {post : α → Shell → Prop}
      (then_ : Ok 0 { w with csr := stored (fun i => base + i * 4) (poolVal pool) 16 w.csr } →
        (parties.contract (some 0)).Triple
          (fun s => s.view 0 = { w with csr := stored (fun i => base + i * 4) (poolVal pool) 16 w.csr }) rest post) :
      (parties.contract (some 0)).Triple (fun s => s.view 0 = w) (do
        writePool 0 base pool
        rest) post := by
    apply Contract.Triple.bind (writePool_triple mine right ok)
    intro _
    apply Contract.Triple.from_pre fun s =>
      Ok 0 { w with csr := stored (fun i => base + i * 4) (poolVal pool) 16 w.csr } ∧
        s.view 0 = { w with csr := stored (fun i => base + i * 4) (poolVal pool) 16 w.csr }
    · intro s inv is
      exact ⟨is ▸ inv 0, is⟩
    exact Contract.Triple.pure_pre then_
  have quiet {w : View} {off : Nat} (other : ¬ PoolReg off) (val : Word) :
      (parties.contract (some 0)).Triple (fun s => s.view 0 = w) (qdmaWriteReg 0 off val) fun _ s => s.view 0 = w :=
    quiet_triple (φ := fun u => u = w) (ip_write_steps other val)
  have reads {w : View} (off : Nat) :
      (parties.contract (some 0)).Triple (fun s => s.view 0 = w) (qdmaReadReg 0 off) fun _ s => s.view 0 = w :=
    quiet_triple (φ := fun u => u = w) (Program.Steps.read unseen_refl _)
  apply keeps ok (by decide) fun _ => Calibrated.rngcnt
  intro ok
  apply keeps ok (by decide) fun _ => Calibrated.bufsz
  intro ok
  apply Contract.Triple.bind (quiet (by decide) _)
  intro _
  apply keeps ok (by decide) fun _ => Calibrated.timer
  intro ok
  apply keeps ok (by decide) fun _ => Calibrated.thres
  intro ok
  apply Contract.Triple.bind (quiet (by decide) _)
  intro _
  apply Contract.Triple.bind (reads _)
  intro _
  apply Contract.Triple.bind (quiet (by decide) _)
  intro _
  apply Contract.Triple.bind (reads _)
  intro _
  apply Contract.Triple.bind (quiet (by decide) _)
  intro _
  exact quiet (by decide) _

end

/-- The function is not bound, and has no queues as far as the shell knows. -/
def Unbound (v : View) : Prop := v.priv.registered = false ∧ v.block 0 = 0

/-- `onic_clear_hardware` leads from here to `Unbound`. -/
def Closing (v : View) : Prop := v.priv.registered = false ∧ (v.priv.addr = true ∨ v.block 0 = 0)

/-- The registers are mapped and the number of queues is known. -/
structure Sized (n : Nat) (v : View) : Prop where
  free : v.priv.registered = false
  addr : v.priv.addr = true
  queues : v.priv.numQueues = n

/-- Everything is in place for `register_netdev`. -/
structure Ready (f : Fin 4) (n : Nat) (v : View) : Prop extends Sized n v where
  steered : Steered f n v.block
  master : f = 0 → v.calibrated = true

def Live (v : View) : Prop := v.priv.registered = true ∧ v.priv.addr = true

section

variable {f : Fin 4} {n : Nat}

theorem Sized.closing {v : View} (sized : Sized n v) : Closing v := ⟨sized.free, .inl sized.addr⟩

theorem onicClearHardware_triple :
    (parties.contract (some f)).Triple (fun s => Closing (s.view f)) (onicClearHardware f) fun _ s => Unbound (s.view f) := by
  have forget : (parties.contract (some f)).Triple (fun s => Unbound (s.view f))
      (modPriv f fun priv => { priv with addr := false, qdma := false, numCmacs := 0 }) fun _ s => Unbound (s.view f) :=
    modPriv_triple fun v ok unbound => ⟨ok.setPriv unbound.1, unbound.1, unbound.2⟩
  apply Contract.Triple.bind (readPriv_triple ShellPriv.addr)
  intro addr
  cases addr with
  | true =>
    rw [if_pos rfl]
    apply Contract.Triple.bind (M := fun _ s => Unbound (s.view f))
    · apply write_triple (φ := fun v => v.priv.addr = true ∧ Closing v) (ψ := Unbound) (k := 0) (by decide) rfl
      rintro v ok ⟨-, closing⟩
      exact ⟨ok.unregistered closing.1 _, closing.1, Function.update_self 0 0 v.block⟩
    · exact fun _ => forget
  | false =>
    rw [if_neg nofun]
    apply Contract.Triple.from_pre fun s => Unbound (s.view f)
    · rintro s - ⟨unmapped, free, mapped | zero⟩
      · exact absurd (unmapped.symm.trans mapped) nofun
      · exact ⟨free, zero⟩
    exact forget

/-- The entry of the table that `onic_init_hardware` writes. -/
theorem entry_below (positive : 1 ≤ n) (i : Nat) : (BitVec.ofNat 32 (i % n) &&& 0xFFFF : Word).toNat < n := by
  have below : i % n < n := Nat.mod_lt i positive
  have left := Nat.and_le_left (n := (BitVec.ofNat 32 (i % n)).toNat) (m := (0xFFFF : Word).toNat)
  have small : (BitVec.ofNat 32 (i % n)).toNat ≤ i % n := by
    rw [BitVec.toNat_ofNat]
    exact Nat.mod_le _ _
  rw [BitVec.toNat_and]
  omega

/-- The first `count` entries of the table are written. -/
structure Filled (f : Fin 4) (n count : Nat) (v : View) : Prop extends Sized n v where
  qconf : v.block 0 = Shell.qconf f n
  entries : ∀ i, i < count → (v.block (0x400 + i * 4)).toNat < n

theorem fillTable_triple (positive : 1 ≤ n) :
    (parties.contract (some f)).Triple (fun s => Filled f n 0 (s.view f))
      (.fold (fun i _ => onicWriteReg (qdmaFuncOffsetIndirTable f i) (BitVec.ofNat 32 (i % n) &&& 0xFFFF)) 0 128 ())
      fun _ s => Filled f n (0 + 128) (s.view f) := by
  apply Contract.Triple.fold (I := fun i (_ : Unit) (s : Shell) => Filled f n i (s.view f))
  · exact fun i _ => Parties.stable (D := parties) (Filled f n i)
  · intro i _ _ less
    have inside : 0x400 + i * 4 < 0x1000 := by omega
    apply write_triple (φ := Filled f n i) (ψ := Filled f n (i + 1)) inside (by unfold qdmaFuncOffsetIndirTable; omega)
    intro v ok filled
    refine ⟨ok.unregistered filled.free _, ⟨filled.free, filled.addr, filled.queues⟩, ?_, ?_⟩
    · dsimp only
      rw [Function.update_of_ne (by omega)]
      exact filled.qconf
    · intro j less'
      dsimp only
      by_cases same : j = i
      · subst same
        rw [Function.update_self]
        exact entry_below positive j
      · rw [Function.update_of_ne (by omega)]
        exact filled.entries j (by omega)

/-- What the master does for the whole card. -/
theorem calibrate_triple {φ : View → Prop} (kept : ∀ v csr, φ v → φ { v with csr := csr, calibrated := true }) :
    (parties.contract (some 0)).Triple (fun s => φ (s.view 0)) (do
      onicQdmaInitCsr 0
      .modify fun s => { s with calibrated := true }) fun _ s => φ (s.view 0) ∧ (s.view 0).calibrated = true := by
  apply Contract.Triple.from_pre fun s => ∃ v, (Ok 0 v ∧ φ v) ∧ s.view 0 = v
  · exact fun s inv holds => ⟨s.view 0, ⟨inv 0, holds⟩, rfl⟩
  apply Contract.Triple.exists_pre
  intro v
  apply Contract.Triple.pure_pre
  rintro ⟨ok, holds⟩
  apply Contract.Triple.bind (onicQdmaInitCsr_triple ok)
  intro _
  apply Parties.own_modify (D := parties) (φ := fun w => w = { v with csr := poolsWritten v.csr })
    (ψ := fun w => φ w ∧ w.calibrated = true)
  · intro s g other
    simp only [parties, view, other, decide_false, Bool.false_and]
  · intro s _ before
    have is : parties.view { s with calibrated := true } 0 = { v with csr := poolsWritten v.csr, calibrated := true } := by
      have same : s.view 0 = { v with csr := poolsWritten v.csr } := before
      exact congrArg (fun w : View => { w with calibrated := true }) same
    rw [is]
    exact ⟨⟨fun _ => calibrated_poolsWritten v.csr, ok.steered, fun _ _ => rfl⟩, kept v _ holds, rfl⟩

theorem informShell_triple (rsFec : Bool) (positive : 1 ≤ n) (small : n ≤ 64) :
    (parties.contract (some f)).Triple (fun s => Sized n (s.view f)) (informShell f rsFec n)
      fun rv s => rv = 0 ∧ Ready f n (s.view f) := by
  apply Contract.Triple.bind (M := fun _ s => Filled f n 0 (s.view f))
  · apply write_triple (φ := Sized n) (ψ := Filled f n 0) (k := 0) (by decide) rfl
    intro v ok sized
    exact ⟨ok.unregistered sized.free _, ⟨sized.free, sized.addr, sized.queues⟩, Function.update_self 0 (qconf f n) v.block, nofun⟩
  intro _
  apply Contract.Triple.bind (fillTable_triple positive)
  intro _
  apply Contract.Triple.bind (M := fun _ s => Ready f n (s.view f))
  · by_cases master : f = 0
    · subst master
      rw [if_pos rfl]
      apply (calibrate_triple (φ := Filled 0 n 128) ?_).conseq
      · exact fun _ _ filled => filled
      · rintro _ s - ⟨filled, calibrated⟩
        exact ⟨filled.toSized, ⟨positive, small, filled.qconf, filled.entries⟩, fun _ => calibrated⟩
      · exact fun v csr filled => ⟨⟨filled.free, filled.addr, filled.queues⟩, filled.qconf, filled.entries⟩
    · rw [if_neg master]
      apply done_triple (φ := Filled f n 128) (χ := fun _ => Ready f n)
      exact fun v filled => ⟨filled.toSized, ⟨positive, small, filled.qconf, filled.entries⟩, fun is => absurd is master⟩
  intro _
  apply Contract.Triple.bind (quiet_triple (countCmacs_steps rsFec 2 0))
  intro numCmacs
  apply Contract.Triple.bind (M := fun _ s => Ready f n (s.view f))
  · apply modPriv_triple
    intro v ok ready
    exact ⟨ok.setPriv ready.free, ⟨ready.free, ready.addr, ready.queues⟩, ready.steered, ready.master⟩
  intro _
  exact done_triple (φ := Ready f n) (χ := fun rv v => rv = 0 ∧ Ready f n v) fun _ ready => ⟨rfl, ready⟩

theorem onicInitHardware_triple (rsFec : Bool) (positive : 1 ≤ n) (small : n ≤ 64) :
    (parties.contract (some f)).Triple (fun s => Unbound (s.view f) ∧ (s.view f).priv.numQueues = n) (onicInitHardware f rsFec)
      fun rv s => if rv < 0 then Unbound (s.view f) else Ready f n (s.view f) := by
  have undone (rv : Int) (failed : rv < 0) :
      (parties.contract (some f)).Triple (fun s => Sized n (s.view f)) (do
        onicClearHardware f
        .done rv) fun rv s => if rv < 0 then Unbound (s.view f) else Ready f n (s.view f) := by
    apply Contract.Triple.bind (M := fun _ s => Unbound (s.view f))
    · exact onicClearHardware_triple.from_pre _ fun s _ sized => sized.closing
    · intro _
      apply done_triple (φ := Unbound) (χ := fun rv v => if rv < 0 then Unbound v else Ready f n v)
      intro v unbound
      rwa [if_pos failed]
  apply Contract.Triple.bind (quiet_triple (φ := fun v => Unbound v ∧ v.priv.numQueues = n) obtained_steps)
  intro mapped
  cases mapped with
  | false =>
    rw [if_neg nofun]
    apply done_triple (φ := fun v => Unbound v ∧ v.priv.numQueues = n) (χ := fun rv v => if rv < 0 then Unbound v else Ready f n v)
    exact fun _ before => before.1
  | true =>
    rw [if_pos rfl]
    apply Contract.Triple.bind (M := fun _ s => Sized n (s.view f))
    · apply modPriv_triple (φ := fun v => Unbound v ∧ v.priv.numQueues = n)
      rintro v ok ⟨unbound, queues⟩
      exact ⟨ok.setPriv unbound.1, unbound.1, rfl, queues⟩
    intro _
    apply Contract.Triple.bind (quiet_triple obtained_steps)
    intro created
    cases created with
    | false =>
      rw [if_neg nofun]
      exact undone (- ENOMEM) (by decide)
    | true =>
      rw [if_pos rfl]
      apply Contract.Triple.bind (M := fun _ s => Sized n (s.view f))
      · apply modPriv_triple
        intro v ok sized
        exact ⟨ok.setPriv sized.free, sized.free, sized.addr, sized.queues⟩
      intro _
      apply Contract.Triple.bind (readPriv_triple ShellPriv.numQueues)
      intro qmax
      apply Contract.Triple.from_pre fun s => qmax = n ∧ Sized n (s.view f)
      · exact fun s _ ⟨is, sized⟩ => ⟨is.symm.trans sized.queues, sized⟩
      apply Contract.Triple.pure_pre
      intro is
      rw [is]
      apply Contract.Triple.bind (quiet_triple outcome_steps)
      intro cleared
      split
      · exact undone cleared ‹_›
      apply Contract.Triple.bind (quiet_triple outcome_steps)
      intro written
      split
      · exact undone written ‹_›
      apply (informShell_triple rsFec positive small).conseq
      · exact fun _ _ sized => sized
      · rintro rv s - ⟨zero, ready⟩
        rwa [zero, if_neg (by decide)]

theorem onicClearInterrupt_triple :
    (parties.contract (some f)).Triple (fun s => Closing (s.view f)) (onicClearInterrupt f) fun _ s => Closing (s.view f) := by
  apply Contract.Triple.bind (readPriv_triple ShellPriv.errorIntr)
  intro errorIntr
  apply Contract.Triple.from_pre fun s => Closing (s.view f)
  · exact fun _ _ holds => holds.2
  split
  · apply Contract.Triple.bind (quiet_triple (ip_write_steps (by decide) 0))
    intro _
    exact modPriv_triple fun v ok closing => ⟨ok.setPriv closing.1, closing⟩
  · exact done_triple (φ := Closing) (χ := fun _ => Closing) fun _ closing => closing

theorem onicInitInterrupt_triple :
    (parties.contract (some f)).Triple (fun s => Ready f n (s.view f)) (onicInitInterrupt f)
      fun rv s => if rv < 0 then Closing (s.view f) else Ready f n (s.view f) := by
  apply Contract.Triple.bind (quiet_triple outcome_steps)
  intro rv
  split
  · apply Contract.Triple.bind (M := fun _ s => Closing (s.view f))
    · exact onicClearInterrupt_triple.from_pre _ fun s _ ready => ready.toSized.closing
    · intro _
      apply done_triple (φ := Closing) (χ := fun rv v => if rv < 0 then Closing v else Ready f n v)
      intro v closing
      rwa [if_pos ‹_›]
  · have armed : (parties.contract (some f)).Triple (fun s => Ready f n (s.view f)) (.done 0 : Program Shell ShellInput Int)
        fun rv s => if rv < 0 then Closing (s.view f) else Ready f n (s.view f) :=
      done_triple (φ := Ready f n) (χ := fun rv v => if rv < 0 then Closing v else Ready f n v) fun _ ready => ready
    split
    · apply Contract.Triple.bind (readPriv_triple ShellPriv.numQueues)
      intro numQueues
      apply Contract.Triple.from_pre fun s => Ready f n (s.view f)
      · exact fun _ _ holds => holds.2
      apply Contract.Triple.bind (quiet_triple (onicQdmaInitErrorInterrupt_steps (numQueues + 1)))
      intro _
      apply Contract.Triple.bind (M := fun _ s => Ready f n (s.view f))
      · apply modPriv_triple
        intro v ok ready
        exact ⟨ok.setPriv ready.free, ⟨ready.free, ready.addr, ready.queues⟩, ready.steered, ready.master⟩
      · exact fun _ => armed
    · exact armed

/-- Between two calls of its PF. -/
def Rests (v : View) : Prop := Unbound v ∨ Live v

theorem Rests.free {v : View} (rests : Rests v) (free : v.priv.registered = false) : Unbound v := by
  rcases rests with unbound | live
  · exact unbound
  · exact absurd (live.1.symm.trans free) nofun

theorem Rests.bound {v : View} (rests : Rests v) (bound : v.priv.registered = true) : Live v := by
  rcases rests with unbound | live
  · exact absurd (unbound.1.symm.trans bound) nofun
  · exact live

theorem onicProbe_triple (rsFec : Bool) :
    (parties.contract (some f)).Triple (fun s => Unbound (s.view f)) (onicProbe f rsFec) fun _ s => Rests (s.view f) := by
  have gone (rv : Int) : (parties.contract (some f)).Triple (fun s => Unbound (s.view f)) (do
      modPriv f fun priv => { priv with numQueues := 0 }
      .done rv) fun _ s => Rests (s.view f) := by
    apply Contract.Triple.bind (M := fun _ s => Unbound (s.view f))
    · exact modPriv_triple fun v ok unbound => ⟨ok.setPriv unbound.1, unbound⟩
    · exact fun _ => done_triple (φ := Unbound) (χ := fun _ => Rests) fun _ unbound => .inl unbound
  have cleared (rv : Int) : (parties.contract (some f)).Triple (fun s => Closing (s.view f)) (do
      onicClearHardware f
      modPriv f fun priv => { priv with numQueues := 0 }
      .done rv) fun _ s => Rests (s.view f) :=
    Contract.Triple.bind onicClearHardware_triple fun _ => gone rv
  apply Contract.Triple.bind (M := fun _ s => Unbound (s.view f))
  · exact modPriv_triple fun v ok unbound => ⟨ok.setPriv rfl, rfl, unbound.2⟩
  intro _
  apply Contract.Triple.bind (M := fun _ s => Unbound (s.view f))
  · apply quiet_triple
    apply Program.Steps.access
    intro _ s _ s' taken
    cases taken
    exact unseen_refl s
  intro vectors
  cases vectors with
  | none => exact done_triple (φ := Unbound) (χ := fun _ => Rests) fun _ unbound => .inl unbound
  | some vectors =>
    apply Contract.Triple.bind (M := fun _ s => Unbound (s.view f) ∧ (s.view f).priv.numQueues = vectors.val + 1)
    · exact modPriv_triple (ψ := fun v => Unbound v ∧ v.priv.numQueues = vectors.val + 1)
        fun v ok unbound => ⟨ok.setPriv unbound.1, unbound, rfl⟩
    intro _
    apply Contract.Triple.bind (onicInitHardware_triple rsFec (Nat.le_add_left 1 vectors.val) vectors.isLt)
    intro rv
    split
    · exact gone rv
    apply Contract.Triple.bind onicInitInterrupt_triple
    intro rv
    split
    · exact cleared rv
    apply Contract.Triple.bind (quiet_triple (φ := Ready f (vectors.val + 1)) outcome_steps)
    intro rv
    split
    · apply Contract.Triple.bind (M := fun _ s => Closing (s.view f))
      · exact onicClearInterrupt_triple.from_pre _ fun s _ ready => ready.toSized.closing
      · exact fun _ => cleared rv
    · apply Contract.Triple.bind (M := fun _ s => Live (s.view f))
      · apply modPriv_triple
        intro v ok ready
        refine ⟨⟨ok.calibrated, fun _ => ?_, fun _ => ready.master⟩, rfl, ready.addr⟩
        dsimp only
        rw [ready.queues]
        exact ready.steered
      · exact fun _ => done_triple (φ := Live) (χ := fun _ => Rests) fun _ live => .inr live

theorem onicRemove_triple :
    (parties.contract (some f)).Triple (fun s => Live (s.view f)) (onicRemove f) fun _ s => Rests (s.view f) := by
  apply Contract.Triple.bind (M := fun _ s => Closing (s.view f))
  · exact modPriv_triple fun v ok live => ⟨ok.setPriv rfl, rfl, .inl live.2⟩
  intro _
  apply Contract.Triple.bind onicClearInterrupt_triple
  intro _
  apply Contract.Triple.bind onicClearHardware_triple
  intro _
  apply modPriv_triple (φ := Unbound) (ψ := Rests)
  exact fun v ok unbound => ⟨ok.setPriv unbound.1, .inl unbound⟩

end

end Shell

end OpenNic
