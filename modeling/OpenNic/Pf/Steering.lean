import OpenNic.Pf.ShellRuns
import OpenNic.Qdma.Decode

namespace OpenNic

open RegisterFile

namespace Shell

/-- What `onic_set_rxfh` does to the shell: it writes an entry that names one of the `n` queues, or a word of the key. -/
inductive Rehash (f : Fin 4) (n : Nat) (regs : ShellRegs) : ShellRegs → Prop
  | none : Rehash f n regs regs
  | entry {i : Nat} {val : Word} (inside : i < 128) (below : val.toNat < n) :
    Rehash f n regs (Function.update regs (qdmaFuncOffset f + (0x400 + i * 4)) val)
  | key {i : Nat} {val : Word} (inside : i < 10) :
    Rehash f n regs (Function.update regs (qdmaFuncOffset f + (0x600 + i * 4)) val)

section

variable {f : Fin 4} {n : Nat} {order : ByteOrder} {priv : RxfhPriv}

open Program

theorem setRingIndex_steps (same : priv.funcId = f.val) (queues : priv.numRxQueues.toNat = n) (ringIndex : Option (Nat → Word)) :
    (setRingIndex priv ringIndex).Steps (Rehash f n) := by
  cases ringIndex with
  | none => exact Steps.done 0
  | some ringIndex =>
    apply Steps.untilErr_below
    intro i less
    split
    · exact Steps.done _
    · rename_i fits
      apply Steps.bind
      · apply Steps.modify
        intro regs
        have at_ : qdmaFuncOffsetIndirTable priv.funcId i = qdmaFuncOffset f + (0x400 + i * 4) := by
          unfold qdmaFuncOffsetIndirTable
          rw [same, Nat.add_assoc]
        rw [at_]
        unfold onicGetRxfhIndirSize indirectionTableSize at less
        exact .entry (by omega) (by omega)
      · exact fun _ => Steps.done 0

theorem setKey_steps (same : priv.funcId = f.val) (key : Option (Nat → BitVec 8)) :
    (setKey order priv key).Steps (Rehash f n) := by
  cases key with
  | none => exact Steps.done ()
  | some key =>
    apply Steps.fold_below
    intro i _ less
    apply Steps.modify
    intro regs
    have at_ : qdmaFuncOffsetHashKey priv.funcId i = qdmaFuncOffset f + (0x600 + i * 4) := by
      unfold qdmaFuncOffsetHashKey
      rw [same, Nat.add_assoc]
    rw [at_]
    unfold onicEnRssKeySize at less
    exact .key (by omega)

theorem onicSetRxfh_steps (same : priv.funcId = f.val) (queues : priv.numRxQueues.toNat = n) (req : RxfhRequest) :
    (onicSetRxfh order priv req).Steps (Rehash f n) := by
  unfold onicSetRxfh
  split
  · exact Steps.done _
  · apply (setRingIndex_steps same queues req.ringIndex).bind
    intro rv
    split
    · exact Steps.done rv
    · exact (setKey_steps same req.key).bind fun _ => Steps.done 0

/-- A registered function with `n` queues. -/
def Serves (n : Nat) (v : View) : Prop := Live v ∧ v.priv.numQueues = n

theorem Serves.rehash {v : View} {k : Nat} {val : Word} (ok : Ok f v) (serves : Serves n v) (apart : k ≠ 0)
    (below : ∀ i, i < 128 → k = 0x400 + i * 4 → val.toNat < n) : Ok f { v with block := Function.update v.block k val } := by
  refine ⟨ok.calibrated, fun registered => ?_, ok.master⟩
  have before := ok.steered registered
  dsimp only
  rw [serves.2] at before ⊢
  refine ⟨before.positive, before.small, ?_, fun i less => ?_⟩
  · rw [Function.update_of_ne apart.symm]
    exact before.qconf
  · by_cases is : 0x400 + i * 4 = k
    · rw [is, Function.update_self]
      exact below i less is.symm
    · rw [Function.update_of_ne is]
      exact before.entries i less

theorem setRxfh_triple (same : priv.funcId = f.val) (queues : priv.numRxQueues.toNat = n) (req : RxfhRequest) :
    (parties.contract (some f)).Triple (fun s => Serves n (s.view f)) (setRxfh order priv req) fun _ s => Serves n (s.view f) := by
  have write {s : Shell} {k : Nat} {val : Word} (small : k < 0x1000) (apart : k ≠ 0)
      (below : ∀ i, i < 128 → k = 0x400 + i * 4 → val.toNat < n) (inv : parties.Sound s) (serves : Serves n (s.view f)) :
      parties.Sound { s with regs := Function.update s.regs (qdmaFuncOffset f + k) val } ∧
      (parties.contract (some f)).guarantee s { s with regs := Function.update s.regs (qdmaFuncOffset f + k) val } ∧
      Serves n (({ s with regs := Function.update s.regs (qdmaFuncOffset f + k) val } : Shell).view f) := by
    have mine := view_write (s := s) (f := f) small val
    refine ⟨fun g => ?_, fun g other => view_write_other small val fun is => other (is ▸ rfl), ?_⟩
    · by_cases is : g = f
      · subst is
        show Ok g (view _ g)
        rw [mine]
        exact serves.rehash (inv g) apart below
      · show Ok g (view _ g)
        rw [view_write_other small val is]
        exact inv g
    · rw [mine]
      exact serves
  have stable : (parties.contract (some f)).Stable fun s => Serves n (s.view f) := Parties.stable (D := parties) (Serves n)
  apply Contract.Triple.bind (M := fun _ s => Serves n (s.view f))
  · apply Contract.Triple.lift_steps ((onicSetRxfh_steps same queues req).comap _) stable
    intro regs s _ inv serves step _
    cases step with
    | none => exact ⟨inv, (parties.contract (some f)).guarantee_refl s, serves⟩
    | @entry i val inside below => exact write (by omega) (by omega) (fun _ _ _ => below) inv serves
    | @key i val inside => exact write (by omega) (by omega) (fun _ _ _ => by omega) inv serves
  · exact fun _ => done_triple (φ := Serves n) (χ := fun _ => Serves n) fun _ serves => serves

end

/-- The calls of one PF come one after the other; its doorbells are rung at any time. -/
inductive Thread
  | pf (f : Fin 4)
  | ring (f : Fin 4) (qid : BitVec 16)
  deriving DecidableEq

def Thread.owner : Thread → Option (Fin 4)
  | pf f => some f
  | ring _ _ => none

inductive Call (order : ByteOrder) : Thread → Shell → Program Shell ShellInput Unit → Prop
  | probe {f : Fin 4} {s : Shell} (rsFec : Bool) (free : (s.priv f).registered = false) :
    Call order (.pf f) s do
      let _ ← onicProbe f rsFec
      .done ()
  | remove {f : Fin 4} {s : Shell} (bound : (s.priv f).registered = true) : Call order (.pf f) s (onicRemove f)
  | rxfh {f : Fin 4} {s : Shell} {priv : RxfhPriv} (req : RxfhRequest) (bound : (s.priv f).registered = true)
    (same : priv.funcId = f.val) (queues : priv.numRxQueues.toNat = (s.priv f).numQueues) :
    Call order (.pf f) s (setRxfh order priv req)
  | txHead {f : Fin 4} {s : Shell} (qid head : BitVec 16) : Call order (.ring f qid) s (onicSetTxHead f qid head)
  | rxHead {f : Fin 4} {s : Shell} (qid head : BitVec 16) : Call order (.ring f qid) s (onicSetRxHead f qid head)
  | completionTail {f : Fin 4} {s : Shell} (qid tail : BitVec 16) (irqArm : BitVec 8) :
    Call order (.ring f qid) s (onicSetCompletionTail f qid tail irqArm)

/-- The hardware, the indirect commands and the mailboxes change registers besides. -/
inductive Event : Shell → Shell → Prop
  | ip {s : Shell} {off : Nat} (owner : Option (Fin 4)) (val : Word) (other : ¬ PoolReg off) :
    Event s { s with csr := Function.update s.csr (owner, off) val }
  | shell {s : Shell} {off : Nat} (val : Word) (outside : off < 0x1000 ∨ 0x5000 ≤ off) :
    Event s { s with regs := Function.update s.regs off val }

def rules (order : ByteOrder) : Pool.Rules Thread Shell ShellInput := ⟨Call order, Event⟩

/-- No PF is bound, and the registers are as a reset leaves them. -/
structure OutOfReset (s : Shell) : Prop where
  free : ∀ f, (s.priv f).registered = false
  qconf : ∀ f : Fin 4, s.regs (qdmaFuncOffsetQconf f) = 0
  raw : s.calibrated = false

section

variable {order : ByteOrder} {f : Fin 4} {s : Shell}

theorem ring_steps {qid : BitVec 16} {p : Program Shell ShellInput Unit} (called : Call order (.ring f qid) s p) :
    p.Steps parties.Unseen := by
  cases called with
  | txHead qid head => exact doorbell_steps (by decide) qid _
  | rxHead qid head => exact doorbell_steps (by decide) qid _
  | completionTail qid tail irqArm => exact doorbell_steps (by decide) qid _

theorem event_unseen {s s' : Shell} (happens : Event s s') : parties.Unseen s s' := by
  cases happens with
  | ip owner val other => exact unseen_csr other owner val
  | shell val outside => exact unseen_write outside val

def Between (_ : Fin 4) (v : View) : Prop := Rests v

theorem call_keeps {t : Thread} {s : Shell} {p : Program Shell ShellInput Unit} (called : Call order t s p)
    (sound : parties.Sound s) (idle : parties.Idle Thread.owner Between t s) :
    (parties.contract t.owner).wp p (fun _ => parties.Idle Thread.owner Between t) s := by
  have ended {f : Fin 4} {s : Shell} (rests : Rests (s.view f)) : parties.Idle Thread.owner Between (.pf f) s := by
    intro g is
    cases is
    exact rests
  cases t with
  | ring f qid =>
    apply Contract.wp_mono (Parties.quiet_none (ring_steps called) s trivial sound trivial)
    intro _ _ _ _ _ g is
    cases is
  | pf f =>
    have rests : Rests (s.view f) := idle f rfl
    cases called with
    | probe rsFec free =>
      have probed : (parties.contract (some f)).Triple (fun s => Unbound (s.view f)) (do
          let _ ← onicProbe f rsFec
          .done ()) fun _ s => Rests (s.view f) := by
        apply Contract.Triple.bind (onicProbe_triple rsFec)
        exact fun _ => done_triple (φ := Rests) (χ := fun _ => Rests) fun _ rests => rests
      exact Contract.wp_mono (probed s trivial sound (rests.free free)) fun _ _ _ _ rests => ended rests
    | remove bound =>
      exact Contract.wp_mono (onicRemove_triple s trivial sound (rests.bound bound)) fun _ _ _ _ rests => ended rests
    | rxfh req bound same queues =>
      have serves : Serves (s.priv f).numQueues (s.view f) := ⟨rests.bound bound, rfl⟩
      have kept := @setRxfh_triple f _ order _ same queues req s trivial sound serves
      exact Contract.wp_mono kept fun _ _ _ _ serves => ended (.inr serves.1)

theorem shell_fits : Pool.Fits (rules order) (fun _ => True) parties.Sound (fun t => parties.contract t.owner)
    (parties.Idle Thread.owner Between) := by
  apply Parties.fits
  · intro t u apart same
    cases t with
    | pf f =>
      cases u with
      | pf g => exact absurd (congrArg Thread.pf (Option.some.inj same)) apart
      | ring g qid => cases same
    | ring f qid => rfl
  · exact fun _ _ happens => event_unseen happens
  · exact fun _ _ _ called sound idle => call_keeps called sound idle

end

/-- What is calibrated stays so. -/
def Lasting (s s' : Shell) : Prop := s.calibrated = true → s'.calibrated = true

namespace Lasting

open Program

variable {f : Fin 4}

theorem of_unseen {s s' : Shell} (same : parties.Unseen s s') : Lasting s s' := by
  intro before
  have calibrated := congrArg View.calibrated (same 0)
  simpa only [parties, view, decide_true, Bool.true_and, before] using calibrated

theorem modPriv (change : ShellPriv → ShellPriv) : (modPriv f change).Steps Lasting := Steps.modify fun _ before => before

theorem read {α : Type} (get : Shell → α) : (Program.read get : Program Shell ShellInput α).Steps Lasting :=
  Steps.read (fun _ before => before) get

theorem write (off : Nat) (val : Word) : (onicWriteReg off val).Steps Lasting := Steps.modify fun _ before => before

theorem ip_write (off : Nat) (val : Word) : (qdmaWriteReg f off val).Steps Lasting := Steps.modify fun _ before => before

theorem quiet {α : Type} {p : Program Shell ShellInput α} (steps : p.Steps parties.Unseen) : p.Steps Lasting :=
  steps.mono fun _ _ => of_unseen

theorem onicQdmaInitCsr : (onicQdmaInitCsr f).Steps Lasting := by
  have pool (base : Nat) (pool : List Nat) : (writePool f base pool).Steps Lasting := Steps.fold (fun _ _ => ip_write _ _) 0 16 ()
  apply (pool _ _).bind
  intro _
  apply (pool _ _).bind
  intro _
  apply (ip_write _ _).bind
  intro _
  apply (pool _ _).bind
  intro _
  apply (pool _ _).bind
  intro _
  apply (ip_write _ _).bind
  intro _
  apply (read _).bind
  intro _
  apply (ip_write _ _).bind
  intro _
  apply (read _).bind
  intro _
  apply (ip_write _ _).bind
  exact fun _ => ip_write _ _

theorem onicClearHardware : (onicClearHardware f).Steps Lasting := by
  apply (read _).bind
  intro addr
  split
  · exact (write _ _).bind fun _ => modPriv _
  · exact modPriv _

theorem informShell (rsFec : Bool) (qmax : Nat) : (informShell f rsFec qmax).Steps Lasting := by
  have count : (do
      let numCmacs ← countCmacs f rsFec 2 0
      Shell.modPriv f fun priv => { priv with numCmacs := numCmacs }
      .done 0 : Program Shell ShellInput Int).Steps Lasting := by
    apply (quiet (countCmacs_steps rsFec 2 0)).bind
    exact fun _ => (modPriv _).bind fun _ => Steps.done 0
  apply (write _ _).bind
  intro _
  apply (Steps.fold (fun _ _ => write _ _) 0 128 ()).bind
  intro _
  split
  · apply (onicQdmaInitCsr.bind fun _ => Steps.modify fun _ _ => rfl).bind
    exact fun _ => count
  · exact count

theorem onicInitHardware (rsFec : Bool) : (onicInitHardware f rsFec).Steps Lasting := by
  have undone (rv : Int) : (do
      Shell.onicClearHardware f
      .done rv : Program Shell ShellInput Int).Steps Lasting := onicClearHardware.bind fun _ => Steps.done rv
  apply (quiet obtained_steps).bind
  intro mapped
  split
  · apply (modPriv _).bind
    intro _
    apply (quiet obtained_steps).bind
    intro created
    split
    · apply (modPriv _).bind
      intro _
      apply (read _).bind
      intro qmax
      apply (quiet outcome_steps).bind
      intro cleared
      split
      · exact undone cleared
      · apply (quiet outcome_steps).bind
        intro written
        split
        · exact undone written
        · exact informShell rsFec qmax
    · exact undone _
  · exact Steps.done _

theorem onicClearInterrupt : (onicClearInterrupt f).Steps Lasting := by
  apply (read _).bind
  intro errorIntr
  split
  · exact (ip_write _ _).bind fun _ => modPriv _
  · exact Steps.done ()

theorem onicInitInterrupt : (onicInitInterrupt f).Steps Lasting := by
  apply (quiet outcome_steps).bind
  intro rv
  split
  · exact onicClearInterrupt.bind fun _ => Steps.done rv
  · split
    · apply (read _).bind
      intro numQueues
      apply (quiet (onicQdmaInitErrorInterrupt_steps (numQueues + 1))).bind
      exact fun _ => (modPriv _).bind fun _ => Steps.done 0
    · exact Steps.done 0

theorem onicProbe (rsFec : Bool) : (onicProbe f rsFec).Steps Lasting := by
  have gone (rv : Int) : (do
      Shell.modPriv f fun priv => { priv with numQueues := 0 }
      .done rv : Program Shell ShellInput Int).Steps Lasting := (modPriv _).bind fun _ => Steps.done rv
  apply (modPriv _).bind
  intro _
  apply Steps.bind
  · apply Steps.access
    intro _ s _ s' taken
    cases taken
    exact id
  intro vectors
  cases vectors with
  | none => exact Steps.done _
  | some vectors =>
    apply (modPriv _).bind
    intro _
    apply (onicInitHardware rsFec).bind
    intro rv
    split
    · exact gone rv
    apply onicInitInterrupt.bind
    intro rv
    split
    · exact onicClearHardware.bind fun _ => gone rv
    apply (quiet outcome_steps).bind
    intro rv
    split
    · exact onicClearInterrupt.bind fun _ => onicClearHardware.bind fun _ => gone rv
    · exact (modPriv _).bind fun _ => Steps.done 0

theorem call {order : ByteOrder} {t : Thread} {s : Shell} {p : Program Shell ShellInput Unit}
    (called : Call order t s p) : p.Steps Lasting := by
  cases t with
  | ring f qid => exact quiet (ring_steps called)
  | pf f =>
    cases called with
    | probe rsFec free => exact (onicProbe rsFec).bind fun _ => Steps.done ()
    | remove bound =>
      apply (modPriv _).bind
      exact fun _ => onicClearInterrupt.bind fun _ => onicClearHardware.bind fun _ => modPriv _
    | rxfh req bound same queues =>
      apply Steps.bind
      · exact Steps.lift (Steps.trivial _) fun _ _ _ before => before
      · exact fun _ => Steps.done ()

end Lasting

theorem hwField_fields {high low : Nat} (small : high < 32) (ordered : low ≤ high) (fs : List (BitVec 64 × BitVec 64)) :
    hwField high low (fields fs) = bitfieldGet (genmask high low) (orFields fs 0) :=
  bitfieldGet_word small ordered _

def hwQbase (regs : ShellRegs) (f : Nat) : Nat := (hwField 31 16 (regs (qdmaFuncOffsetQconf f))).toNat

def hwNumq (regs : ShellRegs) (f : Nat) : Nat := (hwField 15 0 (regs (qdmaFuncOffsetQconf f))).toNat

/-- The queue of the card that the packets of entry `i` of a function's table go to. -/
def hwQueue (regs : ShellRegs) (f i : Nat) : Nat := hwQbase regs f + (regs (qdmaFuncOffsetIndirTable f i)).toNat

section

variable {order : ByteOrder} {f : Fin 4} {n : Nat} {s : Shell} {P P' : Pool Thread Shell ShellInput}

theorem bitfieldGet_zero (mask : BitVec 64) : bitfieldGet mask 0 = 0 := by
  rw [bitfieldGet, BitVec.ofNat_eq_ofNat, BitVec.zero_and, BitVec.zero_ushiftRight]

theorem qconf_qbase : (hwField 31 16 (qconf f n)).toNat = f * 64 := by
  have few : f.val < 4 := f.isLt
  have fits : (BitVec.ofNat 64 (f * 64)).toNat = f * 64 := Nat.mod_eq_of_lt (by omega)
  rw [qconf, hwField_fields (by decide) (by decide)]
  simp only [orFields, List.foldl_cons, List.foldl_nil, bitfieldGet_or, bitfieldGet_zero]
  rw [bitfieldGet_fieldSet_of_lt (by decide) (by decide) _ (by omega),
    bitfieldGet_fieldSet_disjoint (by decide) (by decide) (by decide) (by decide) (by decide)]
  simpa using fits

theorem qconf_numq (small : n ≤ 64) : (hwField 15 0 (qconf f n)).toNat = n := by
  have fits : (BitVec.ofNat 64 n).toNat = n := Nat.mod_eq_of_lt (by omega)
  rw [qconf, hwField_fields (by decide) (by decide)]
  simp only [orFields, List.foldl_cons, List.foldl_nil, bitfieldGet_or, bitfieldGet_zero]
  rw [bitfieldGet_fieldSet_of_lt (by decide) (by decide) _ (by omega),
    bitfieldGet_fieldSet_disjoint (by decide) (by decide) (by decide) (by decide) (by decide)]
  simpa using fits

theorem OutOfReset.sound (reset : OutOfReset s) : parties.Sound s := by
  intro g
  refine ⟨fun calibrated => ?_, fun bound => absurd ((reset.free g).symm.trans bound) nofun,
    fun bound => absurd ((reset.free g).symm.trans bound) nofun⟩
  simp only [parties, view, reset.raw, Bool.and_false] at calibrated
  cases calibrated

theorem OutOfReset.idle (reset : OutOfReset s) (t : Thread) : parties.Idle Thread.owner Between t s :=
  fun g _ => .inl ⟨reset.free g, reset.qconf g⟩

theorem shell_reach (reset : OutOfReset s) (reach : Pool.Reach (rules order) (fun _ => True) (.start s) P) :
    parties.Sound P.state ∧ ∀ f, P.thread (.pf f) = .done () → Rests (P.state.view f) := by
  obtain ⟨sound, between⟩ := Parties.reach shell_fits reach reset.sound reset.idle
  exact ⟨sound, fun f ended => between (.pf f) f rfl ended⟩

/-- The registers of a function that the shell steers by, for one with `n` queues. -/
theorem steered_hw {regs : ShellRegs} (steered : Steered f n fun k => if k < 0x1000 then regs (qdmaFuncOffset f + k) else 0) :
    hwQbase regs f = f * 64 ∧ hwNumq regs f = n ∧ ∀ i, i < 128 → (regs (qdmaFuncOffsetIndirTable f i)).toNat < n := by
  have word : regs (qdmaFuncOffsetQconf f) = qconf f n := steered.qconf
  unfold hwQbase hwNumq
  rw [word]
  refine ⟨qconf_qbase, qconf_numq steered.small, fun i less => ?_⟩
  have entry := steered.entries i less
  have inside : 0x400 + i * 4 < 0x1000 := by omega
  rw [if_pos inside, ← Nat.add_assoc] at entry
  exact entry

/-- However the PFs are probed, removed and given tables: the packets of a registered PF go to its own queues, so never
    to one of another PF; and the shell knows of no queues of a PF that is not bound. -/
theorem rss_contained (reset : OutOfReset s) (reach : Pool.Reach (rules order) (fun _ => True) (.start s) P) (f : Fin 4) :
    ((P.state.priv f).registered = true →
      hwNumq P.state.regs f = (P.state.priv f).numQueues ∧
      ∀ i, i < indirectionTableSize →
        f * 64 ≤ hwQueue P.state.regs f i ∧
        hwQueue P.state.regs f i < f * 64 + (P.state.priv f).numQueues ∧
        ∀ g j, g ≠ f → (P.state.priv g).registered = true → j < indirectionTableSize →
          hwQueue P.state.regs g j ≠ hwQueue P.state.regs f i) ∧
    (P.thread (.pf f) = .done () → (P.state.priv f).registered = false → hwNumq P.state.regs f = 0) := by
  obtain ⟨sound, between⟩ := shell_reach reset reach
  have range {g : Fin 4} (bound : (P.state.priv g).registered = true) {j : Nat} (less : j < 128) :
      g * 64 ≤ hwQueue P.state.regs g j ∧ hwQueue P.state.regs g j < g * 64 + (P.state.priv g).numQueues ∧
      (P.state.priv g).numQueues ≤ 64 := by
    have steered := (sound g).steered bound
    obtain ⟨base, -, entries⟩ := steered_hw steered
    have entry : _ < (P.state.priv g).numQueues := entries j less
    have small : (P.state.priv g).numQueues ≤ 64 := steered.small
    unfold hwQueue
    omega
  constructor
  · intro bound
    have steered := (sound f).steered bound
    refine ⟨(steered_hw steered).2.1, fun i less => ⟨(range bound less).1, (range bound less).2.1, ?_⟩⟩
    intro g j other bound' less' same
    have mine := range bound less
    have its := range bound' less'
    have different : g.val ≠ f.val := fun is => other (Fin.ext is)
    omega
  · intro ended free
    have word : P.state.regs (qdmaFuncOffsetQconf f) = 0 := ((between f ended).free free).2
    unfold hwNumq
    rw [word]
    rfl

def rawShell : Shell := ⟨fun _ => 0, fun _ => 0, fun _ => ShellPriv.zero, false⟩

theorem rawShell_reset : OutOfReset rawShell := ⟨fun _ => rfl, fun _ => rfl, rfl⟩

/-- Everything succeeds, with four vectors for the queues. -/
def grants : ShellInput := ⟨true, ⟨11, by decide⟩, ⟨3, by decide⟩⟩

def probing (f : Fin 4) : Program Shell ShellInput Unit := do
  let _ ← onicProbe f true
  .done ()

/-- The master PF and then another are probed. -/
theorem two_probed : ∃ P : Pool Thread Shell ShellInput,
    Pool.Reach (rules .little) (fun _ => True) (.start rawShell) P ∧ (∀ t, P.thread t = .done ()) ∧
    (P.state.priv 0).registered = true ∧ (P.state.priv 1).registered = true ∧ (P.state.priv 1).numQueues = 4 := by
  have ran : (((probing 0).eval grants rawShell).bind fun r => if (r.2.priv 1).registered then none else (probing 1).eval grants r.2).map
      (fun r => ((r.2.priv 0).registered, (r.2.priv 1).registered, (r.2.priv 1).numQueues)) = some (true, true, 4) := by
    decide +kernel
  rcases Option.map_eq_some_iff.mp ran with ⟨⟨_, s'⟩, both, found⟩
  rcases Option.bind_eq_some_iff.mp both with ⟨⟨_, s⟩, first, second⟩
  split at second
  · cases second
  rename_i free
  have one : Pool.Reach (rules .little) (fun _ => True) (.start rawShell) ⟨s, fun _ => .done ()⟩ :=
    Pool.reach_of_exec (t := Thread.pf 0) (p := probing 0) rfl (Call.probe true rfl) (.of_eval first)
  have two : Pool.Reach (rules .little) (fun _ => True) ⟨s, fun _ => .done ()⟩ ⟨s', fun _ => .done ()⟩ :=
    Pool.reach_of_exec (t := Thread.pf 1) (p := probing 1) rfl (Call.probe true (Bool.eq_false_iff.mpr free)) (.of_eval second)
  simp only [Prod.mk.injEq] at found
  exact ⟨_, one.trans two, fun _ => rfl, found.1, found.2.1, found.2.2⟩

theorem rss_contained_two : ∃ P : Pool Thread Shell ShellInput,
    Pool.Reach (rules .little) (fun _ => True) (.start rawShell) P ∧ hwNumq P.state.regs 1 = 4 ∧
    ∀ i, i < indirectionTableSize → 64 ≤ hwQueue P.state.regs 1 i ∧ hwQueue P.state.regs 1 i < 68 := by
  rcases two_probed with ⟨P, reach, -, -, second, four⟩
  obtain ⟨numq, contained⟩ := (rss_contained rawShell_reset reach 1).1 second
  rw [four] at numq contained
  exact ⟨P, reach, numq, fun i less => ⟨(contained i less).1, (contained i less).2.1⟩⟩

/-- From the moment that the master PF is registered, whatever happens to it and to the others. -/
theorem calibration_lasts (reset : OutOfReset s) (reach : Pool.Reach (rules order) (fun _ => True) (.start s) P)
    (master : (P.state.priv 0).registered = true) (later : Pool.Reach (rules order) (fun _ => True) P P') :
    (∀ idx : BitVec 8, idx.toNat < 16 →
      (P'.state.csr (none, qdmaOffsetGlblRngSz + idx.toNat * 4)).toNat = onicRingCount idx) ∧
    ∀ i, i < 16 →
      (P'.state.csr (none, qdmaOffsetC2hBufSz + i * 4)).toNat = c2hBufszPool.getD i 0 ∧
      (P'.state.csr (none, qdmaOffsetC2hTimerCnt + i * 4)).toNat = c2hTimerPool.getD i 0 ∧
      (P'.state.csr (none, qdmaOffsetC2hCntTh + i * 4)).toNat = c2hThresPool.getD i 0 := by
  have now : (P.state.view 0).calibrated = true := ((shell_reach reset reach).1 0).master master rfl
  have lasts {Q Q' : Pool Thread Shell ShellInput} (run : Pool.Reach (rules order) (fun _ => True) Q Q')
      (threads : ∀ t, (Q.thread t).Steps Lasting) : Lasting Q.state Q'.state ∧ ∀ t, (Q'.thread t).Steps Lasting :=
    Pool.steps_of_reach run (fun _ before => before) (fun _ _ _ h h' before => h' (h before)) (fun _ _ _ => Lasting.call)
      (fun _ _ happens => Lasting.of_unseen (event_unseen happens)) threads
  have threads := (lasts reach fun _ => Program.Steps.done ()).2
  have calibrated : P'.state.calibrated = true := (lasts later threads).1 now
  have then_ : (P'.state.view 0).calibrated = true := calibrated
  have values := ((shell_reach reset (reach.trans later)).1 0).calibrated then_
  have value {base : Nat} {pool : List Nat} (mine : ∀ i, i < 16 → PoolReg (base + i * 4)) (small : ∀ i, i < 16 → pool.getD i 0 < 2 ^ 32)
      (is : ∀ i, i < 16 → (P'.state.view 0).csr (base + i * 4) = poolVal pool i) (i : Nat) (less : i < 16) :
      (P'.state.csr (none, base + i * 4)).toNat = pool.getD i 0 := by
    have shared : (P'.state.view 0).csr (base + i * 4) = P'.state.csr (none, base + i * 4) := if_pos ⟨rfl, mine i less⟩
    rw [← shared, is i less, poolVal, BitVec.toNat_ofNat, Nat.mod_eq_of_lt (small i less)]
  refine ⟨fun idx less => ?_, fun i less => ⟨?_, ?_, ?_⟩⟩
  · unfold onicRingCount
    rw [if_pos less]
    exact value (by decide) (by decide) values.rngcnt idx.toNat less
  · exact value (by decide) (by decide) values.bufsz i less
  · exact value (by decide) (by decide) values.timer i less
  · exact value (by decide) (by decide) values.thres i less

theorem calibration_lasts_two : ∃ P : Pool Thread Shell ShellInput,
    Pool.Reach (rules .little) (fun _ => True) (.start rawShell) P ∧ (P.state.csr (none, 0x204)).toNat = 4096 := by
  rcases two_probed with ⟨P, reach, -, master, -⟩
  exact ⟨P, reach, (calibration_lasts rawShell_reset reach master .refl).1 0 (by decide)⟩

end

end Shell

end OpenNic
