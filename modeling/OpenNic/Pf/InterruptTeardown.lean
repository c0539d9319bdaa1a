import OpenNic.Pf.Interrupt
import OpenNic.Mailbox.Agreement
import OpenNic.Mailbox.VfInterrupt

namespace OpenNic

namespace PfIntr

/-- The user interrupt of a master PF with `n` queue vectors whose device is mapped. -/
def view (n : Nat) : IrqView PfIntr Bool IrqCookie Word where
  source := source n
  set := setSource n
  own := PfIntr.userIntr
  fixed s := s.masterPf = true ∧ s.mbox.qdevMapped = true ∧ s.numQVectors = n
  source_set x s := by simp [source, setSource]
  own_set _ _ := rfl
  fixed_set _ _ fixed := fixed

def onicUserHandler (n : Nat) : Program PfIntr IntrInput Unit :=
  (view n).handlerProgram do
    if ← .read PfIntr.masterPf then onicPfMboxIrqDisable else .done ()

/-- `onic_pf_mbox_irq_enable` at the end of the thread. -/
def enableInThread (n : Nat) : Program PfIntr IntrInput Unit :=
  .modify fun s => if s.mbox.qdevMapped then s.setSource n ((s.source n).rearm qdmaMboxIntrCtrlEn) else s

def onicUserThreadFn (n rounds : Nat) : Program PfIntr IntrInput Unit :=
  (view n).threadProgram do
    if !(← .read PfIntr.masterPf) then .done ()
    else
      let _ ← onMbox (onicPfMboxProcessPending .user rounds 0)
      enableInThread n

/-- What goes on beside the threads of the user interrupt: the mailbox, the error and the queue interrupts. -/
inductive Env (n : Nat) (s : PfIntr) : PfIntr → Prop
  | mailbox (mbox : PfSys) (mapped : mbox.qdevMapped = s.mbox.qdevMapped) : Env n s { s with mbox := mbox }
  | line (vid : Nat) (l : IrqLine IrqCookie) (other : vid ≠ n) (action : l.action = (s.line vid).action)
      (draining : l.draining = (s.line vid).draining) : Env n s { s with line := Function.update s.line vid l }

/-- Setup and teardown are called in any order. -/
def rules (n : Nat) : Pool.Rules IrqParty PfIntr IntrInput where
  calls u _ p := match u with
    | .handler => p = onicUserHandler n
    | .thread => ∃ rounds, p = onicUserThreadFn n rounds
    | .driver => (p = do let _ ← onicInitInterrupt) ∨ p = onicClearInterrupt
  env := Env n

/-- Between two calls the interrupt is registered if its bit is set. -/
def Settled (action : Option IrqCookie) (draining : Bool) (_ : TeardownPhase) (userIntr : Bool) : Prop :=
  draining = false ∧ action = if userIntr then some .priv else none

/-- An access that has nothing to do with the user interrupt. -/
structure Apart (n : Nat) (s s' : PfIntr) : Prop where
  source : s'.source n = s.source n
  userIntr : s'.userIntr = s.userIntr
  masterPf : s'.masterPf = s.masterPf
  mapped : s'.mbox.qdevMapped = s.mbox.qdevMapped
  numQVectors : s'.numQVectors = s.numQVectors

variable {n : Nat}

theorem Apart.refl (s : PfIntr) : Apart n s s := ⟨rfl, rfl, rfl, rfl, rfl⟩

theorem Apart.of_line {s s' : PfIntr} (line : s'.line n = s.line n) (mboxCtrl : s'.mboxCtrl = s.mboxCtrl)
    (phase : s'.phase = s.phase) (overtaken : s'.overtaken = s.overtaken) (userIntr : s'.userIntr = s.userIntr)
    (masterPf : s'.masterPf = s.masterPf) (mapped : s'.mbox.qdevMapped = s.mbox.qdevMapped)
    (numQVectors : s'.numQVectors = s.numQVectors) : Apart n s s' :=
  ⟨by simp [PfIntr.source, line, mboxCtrl, phase, overtaken], userIntr, masterPf, mapped, numQVectors⟩

/-- What the programs of the driver do between their accesses of the user interrupt. -/
abbrev Idles {α : Type} (n : Nat) (p : Program PfIntr IntrInput α) : Prop :=
  p.Steps fun s s' => s.numQVectors = n → Apart n s s'

theorem alloc_idles (step : IntrStep) (mem : Nat → IntrMem) : Idles n (alloc step mem) := by
  apply Program.Steps.access
  intro input s a s' taken _
  split at taken
  · cases taken
    exact .of_line rfl rfl rfl rfl rfl rfl rfl rfl
  · cases taken
    exact .refl s

theorem requestIrq_idles (step : IntrStep) {vid : Nat} (other : vid ≠ n) (cookie : IrqCookie) :
    Idles n (requestIrq step vid cookie) := by
  apply Program.Steps.access
  intro input s a s' taken vectors
  split at taken
  · cases taken
    exact .refl s
  · split at taken
    · cases taken
      exact .refl s
    · cases taken
      apply Apart.of_line <;> simp [Function.update_of_ne other.symm, vectors, other]

theorem freeIrq_idles {vid : Nat} (other : vid ≠ n) (cookie : IrqCookie) : Idles n (freeIrq vid cookie) := by
  apply Program.Steps.bind
  · apply Program.Steps.modify
    intro s _
    apply Apart.of_line <;> try rfl
    dsimp only
    split
    · exact Function.update_of_ne other.symm _ _
    · rfl
  · intro _
    apply Program.Steps.access
    intro _ s _ s' taken _
    rcases Option.map_eq_some_iff.mp taken with ⟨l, -, same⟩
    cases same
    apply Apart.of_line <;> simp [Function.update_of_ne other.symm]

theorem read_idles {α : Type} (f : PfIntr → α) : Idles n (.read f : Program PfIntr IntrInput α) :=
  .read (fun s _ => .refl s) f

theorem onicInitQVector_idles {vid : Nat} (other : vid ≠ n) : Idles n (onicInitQVector vid) := by
  apply Program.Steps.bind (alloc_idles _ _)
  intro name
  apply Program.Steps.bind (alloc_idles _ _)
  intro vec
  cases vec with
  | none => exact .done _
  | some vec =>
    apply Program.Steps.bind
    · apply Program.Steps.access
      intro _ s _ s' taken _
      split at taken
      · cases taken
        exact .refl s
      · cases taken
    · intro _
      apply Program.Steps.bind (requestIrq_idles _ other _)
      intro rv
      split
      · exact .done _
      · exact (Program.Steps.modify fun s _ => .of_line rfl rfl rfl rfl rfl rfl rfl rfl).bind fun _ => .done _

theorem onicClearQVector_idles {vid : Nat} (other : vid ≠ n) : Idles n (onicClearQVector vid) := by
  apply Program.Steps.bind (read_idles _)
  intro vec
  cases vec with
  | none => exact .done _
  | some vec =>
    apply Program.Steps.bind (freeIrq_idles other _)
    intro _
    apply Program.Steps.bind (.modify fun s _ => .of_line rfl rfl rfl rfl rfl rfl rfl rfl)
    intro _
    exact .modify fun s _ => .of_line rfl rfl rfl rfl rfl rfl rfl rfl

theorem clearQVectors_idles {k : Nat} (le : k ≤ n) : Idles n (clearQVectors k) := by
  induction k with
  | zero => exact .done _
  | succ vid ih => exact (onicClearQVector_idles (by omega)).bind fun _ => ih (by omega)

theorem onicInitQVectors_idles {lo count : Nat} (le : lo + count ≤ n) : Idles n (.untilErr onicInitQVector lo count) := by
  induction count generalizing lo with
  | zero => exact .done _
  | succ count ih =>
    apply Program.Steps.bind (onicInitQVector_idles (by omega))
    intro rv
    split
    · exact .done _
    · exact ih (by omega)

abbrev contract (n : Nat) : IrqParty → Contract PfIntr := (view n).contract qdmaMboxIntrCtrlEn 0

theorem Apart.keeps {s s' : PfIntr} (apart : Apart n s s') (inv : (contract n .driver).inv s) :
    (contract n .driver).inv s' ∧ (contract n .driver).guarantee s s' := by
  rcases inv with ⟨inv, masterPf, mapped, vectors⟩
  refine ⟨⟨?_, apart.masterPf.trans masterPf, apart.mapped.trans mapped, apart.numQVectors.trans vectors⟩, ?_⟩
  · have same : (view n).source s' = (view n).source s := apart.source
    rwa [same]
  · exact fun u _ => (view n).kept_of_same u apart.source apart.userIntr

theorem Apart.knows {s s' : PfIntr} {X : Option IrqCookie → Bool → TeardownPhase → Bool → Prop} (apart : Apart n s s')
    (knows : (view n).Knows X s) : (view n).Knows X s' := by
  have same : (view n).source s' = (view n).source s := apart.source
  have own : (view n).own s' = (view n).own s := apart.userIntr
  rw [IrqView.Knows, same, own]
  exact knows

theorem Idles.triple {α : Type} {p : Program PfIntr IntrInput α} {X : Option IrqCookie → Bool → TeardownPhase → Bool → Prop}
    (idles : Idles n p) : (contract n .driver).Triple ((view n).Knows X) p fun _ => (view n).Knows X := by
  induction p with
  | done a => exact .done ((view n).stable_knows X) fun _ _ h => h
  | step act next ih =>
    apply Contract.Triple.step (M := fun _ => (view n).Knows X) ((view n).stable_knows X)
    · intro s _ inv knows i b s' taken _
      have apart := idles.1 i s b s' taken inv.2.2.2
      have kept := apart.keeps inv
      exact ⟨kept.1, kept.2, apart.knows knows⟩
    · exact fun b => ih b (idles.2 b)

theorem onicUserHandler_triple :
    (contract n .handler).Triple (fun _ => True) (onicUserHandler n) fun _ _ => True := by
  apply (view n).handlerProgram_triple
  apply Contract.Triple.bind (M := fun master s => master = true ∧ (view n).Inside s)
  · exact .read (view n).stable_inside (fun _ => (view n).stable_inside.pure_and) fun s _ inv inside => ⟨inv.2.1, inside⟩
  · intro master
    apply Contract.Triple.pure_pre
    rintro rfl
    have writes : (contract n .handler).Triple (view n).Inside
        (writeIntrCtrl 0) fun _ => (view n).Inside := by
      apply Contract.Triple.modify (view n).stable_inside (view n).stable_inside
      intro s _ inv inside _
      have set := (view n).handler_set inv (inv.1.handler_write inside 0) rfl rfl rfl rfl
      have same : (view n).set (((view n).source s).write 0) s = { s with mboxCtrl := some 0 } := by
        simp [view, source, setSource, IrqSource.write]
      rw [if_pos inv.2.2.1, ← same]
      refine ⟨set.1, set.2, ?_⟩
      rw [IrqView.Inside, (view n).source_set]
      exact inside
    exact writes

/-- Nothing of the mailbox handler unmaps the device. -/
theorem mapped_mboxSteps : MboxSteps fun s s' => s'.qdevMapped = s.qdevMapped where
  refl _ := rfl
  target _ _ := rfl
  acks _ _ := rfl
  out _ _ := rfl
  engine _ _ := rfl
  inside _ _ := rfl
  executed _ _ := rfl
  receive _ := rfl
  send s := by
    rw [PfSys.send]
    split <;> rfl

theorem dropStaleRequests_mapped (left : Nat) (dropped : Int) :
    (onicPfMboxDropStaleRequests left dropped).Steps fun s s' => s'.qdevMapped = s.qdevMapped := by
  induction left generalizing dropped with
  | zero => exact .done _
  | succ left ih =>
    apply Program.Steps.bind (.read mapped_mboxSteps.refl _)
    intro status
    split
    · exact .done _
    · apply Program.Steps.bind (.modify fun s => mapped_mboxSteps.target s _)
      intro _
      apply Program.Steps.bind (.modify mapped_mboxSteps.receive)
      intro _
      exact ih _

theorem onMbox_idles {α : Type} {p : Program PfSys Input α} (steps : p.Steps fun s s' => s'.qdevMapped = s.qdevMapped) :
    Idles n (onMbox p) :=
  (steps.comap _).lift fun _ _ mapped _ => .of_line rfl rfl rfl rfl rfl rfl mapped rfl

theorem onicUserThreadFn_triple (rounds : Nat) :
    (contract n .thread).Triple (fun _ => True) (onicUserThreadFn n rounds) fun _ _ => True := by
  apply (view n).threadProgram_triple
  apply Contract.Triple.bind (M := fun master s => master = true ∧ (view n).AtStage .working s)
  · exact .read ((view n).stable_atStage _) (fun _ => ((view n).stable_atStage _).pure_and) fun s _ inv inside =>
      ⟨inv.2.1, inside⟩
  · intro master
    apply Contract.Triple.pure_pre
    rintro rfl
    apply Contract.Triple.bind (M := fun _ => (view n).AtStage .working)
    · apply Contract.Triple.lift_steps ((mapped_mboxSteps.processPending .user rounds 0).comap _) ((view n).stable_atStage _)
      intro mbox s _ inv inside mapped _
      refine ⟨⟨inv.1, inv.2.1, mapped.trans inv.2.2.1, inv.2.2.2⟩, fun u _ => (view n).kept_of_same u rfl rfl, inside⟩
    · intro _
      apply Contract.Triple.modify ((view n).stable_atStage _) ((view n).stable_atStage _)
      intro s _ inv inside _
      rw [if_pos inv.2.2.1]
      have set := (view n).thread_set inv (inv.1.rearm inside) rfl rfl rfl rfl
      refine ⟨set.1, set.2, ?_⟩
      have rearmed : ((view n).source ((view n).set (((view n).source s).rearm qdmaMboxIntrCtrlEn) s)).line.stage = .rearmed := by
        rw [(view n).source_set]
        rfl
      exact rearmed

/-- An access of the driver to the source. -/
theorem driver_set {s s' : PfIntr} {x : IrqSource IrqCookie Word} (inv : (contract n .driver).inv s)
    (set : s'.source n = x) (fixed : s'.masterPf = s.masterPf ∧ s'.mbox = s.mbox ∧ s'.numQVectors = s.numQVectors)
    (holds : x.Inv qdmaMboxIntrCtrlEn 0) (hard : x.line.hard = (s.line n).hard) (stage : x.line.stage = (s.line n).stage) :
    (contract n .driver).inv s' ∧ (contract n .driver).guarantee s s' := by
  have same : (view n).source s' = x := set
  refine ⟨⟨?_, fixed.1.trans inv.2.1, ?_, fixed.2.2.trans inv.2.2.2⟩, (view n).driver_keeps ?_ ?_⟩
  · rwa [same]
  · rw [fixed.2.1]
    exact inv.2.2.1
  · rwa [same]
  · rwa [same]

theorem knows_set {s' : PfIntr} {x : IrqSource IrqCookie Word} {X : Option IrqCookie → Bool → TeardownPhase → Bool → Prop}
    (set : s'.source n = x) (knows : X x.line.action x.line.draining x.phase s'.userIntr) : (view n).Knows X s' := by
  have same : (view n).source s' = x := set
  rw [IrqView.Knows, same]
  exact knows

theorem requestIrq_triple : (contract n .driver).Triple ((view n).Knows Settled) (requestIrq .userIrq n .priv) fun rv =>
    (view n).Knows fun a d ph own => if rv < 0 then Settled a d ph own else a = some .priv ∧ d = false ∧ ph = .up := by
  apply Contract.Triple.access ((view n).stable_knows _) fun _ => (view n).stable_knows _
  intro s input rv s' _ inv settled taken _
  split at taken
  · cases taken
    refine ⟨inv, fun u _ => (view n).kept_refl u s, ?_⟩
    rw [IrqView.Knows, if_pos (by decide)]
    exact settled
  · split at taken
    · rename_i failed
      cases taken
      refine ⟨inv, fun u _ => (view n).kept_refl u s, ?_⟩
      rw [IrqView.Knows, if_pos (by omega)]
      exact settled
    · cases taken
      have set : PfIntr.source n { s with
          line := Function.update s.line n ((s.line n).request .priv)
          requested := s.requested ++ [(n, .priv)]
          phase := if n = s.numQVectors then .up else s.phase
          overtaken := if n = s.numQVectors then false else s.overtaken } = (s.source n).request .priv := by
        simp [source, IrqSource.request, inv.2.2.2]
      have kept := driver_set inv set ⟨rfl, rfl, rfl⟩ (IrqSource.Inv.request _ _) rfl rfl
      exact ⟨kept.1, kept.2, knows_set set ⟨rfl, settled.1, rfl⟩⟩

/-- While the interrupt is set up the register may hold anything. -/
theorem writeIntrCtrl_triple (val : Word) :
    (contract n .driver).Triple ((view n).Knows fun a d ph own => Settled a d ph own ∧ ph = .up) (writeIntrCtrl val) fun _ =>
      (view n).Knows fun a d ph own => Settled a d ph own ∧ ph = .up := by
  apply Contract.Triple.modify ((view n).stable_knows _) ((view n).stable_knows _)
  intro s _ inv knows _
  rw [if_pos inv.2.2.1]
  have set : PfIntr.source n { s with mboxCtrl := some val } = (s.source n).write val := rfl
  have kept := driver_set inv set ⟨rfl, rfl, rfl⟩ (inv.1.write knows.2 val) rfl rfl
  exact ⟨kept.1, kept.2, knows⟩

theorem onicPfMboxIrqInit_triple (vector : Nat) :
    (contract n .driver).Triple ((view n).Knows fun a d ph own => Settled a d ph own ∧ ph = .up) (onicPfMboxIrqInit vector)
      fun _ => (view n).Knows fun a d ph own => Settled a d ph own ∧ ph = .up := by
  apply Contract.Triple.bind (read_idles _).triple
  intro mapped
  split
  · exact .done ((view n).stable_knows _) fun _ _ h => h
  · apply Contract.Triple.bind (writeIntrCtrl_triple 0)
    intro _
    apply Contract.Triple.bind (onMbox_idles (dropStaleRequests_mapped 256 0)).triple
    intro dropped
    split
    · exact .done ((view n).stable_knows _) fun _ _ h => h
    · have notes : Idles n (.modify fun s : PfIntr => { s with mboxVec := some vector }) :=
        .modify fun s _ => .of_line rfl rfl rfl rfl rfl rfl rfl rfl
      apply Contract.Triple.bind notes.triple
      intro _
      apply Contract.Triple.bind (writeIntrCtrl_triple _)
      intro _
      exact .done ((view n).stable_knows _) fun _ _ h => h

theorem onicInitMasterInterrupt_triple :
    (contract n .driver).Triple ((view n).Knows fun a d ph own => Settled a d ph own ∧ ph = .up) (onicInitMasterInterrupt n)
      fun _ => (view n).Knows fun a d ph own => Settled a d ph own ∧ ph = .up := by
  apply Contract.Triple.bind (onicPfMboxIrqInit_triple n)
  intro rv
  split
  · exact .done ((view n).stable_knows _) fun _ _ h => h
  · apply Contract.Triple.bind (requestIrq_idles .errorIrq (by omega) .priv).triple
    intro rv
    split
    · exact .done ((view n).stable_knows _) fun _ _ h => h
    · have vec : Idles n (.modify fun s : PfIntr => { s with errorVec := some (n + 1) }) :=
        .modify fun s _ => .of_line rfl rfl rfl rfl rfl rfl rfl rfl
      have bit : Idles n (.modify fun s : PfIntr => { s with errorIntr := true }) :=
        .modify fun s _ => .of_line rfl rfl rfl rfl rfl rfl rfl rfl
      apply Contract.Triple.bind vec.triple
      intro _
      apply Contract.Triple.bind bit.triple
      intro _
      exact .done ((view n).stable_knows _) fun _ _ h => h

theorem onicInitVectors_triple :
    (contract n .driver).Triple ((view n).Knows Settled) onicInitVectors fun _ => (view n).Knows Settled := by
  apply Contract.Triple.bind (M := fun vectors s => vectors = n ∧ (view n).Knows Settled s)
  · exact .read ((view n).stable_knows _) (fun _ => ((view n).stable_knows _).pure_and) fun s _ inv settled =>
      ⟨inv.2.2.2, settled⟩
  · intro vectors
    apply Contract.Triple.pure_pre
    rintro rfl
    apply Contract.Triple.bind (onicInitQVectors_idles (by omega)).triple
    intro rv
    split
    · exact .done ((view _).stable_knows _) fun _ _ h => h
    · apply Contract.Triple.bind requestIrq_triple
      intro rv
      by_cases failed : rv < 0
      · simp only [failed, if_true]
        exact .done ((view _).stable_knows _) fun _ _ h => h
      · simp only [failed, if_false]
        apply Contract.Triple.bind (M := fun _ => (view _).Knows fun a d ph own => Settled a d ph own ∧ ph = .up)
        · apply Contract.Triple.modify ((view _).stable_knows _) ((view _).stable_knows _)
          intro s _ inv knows _
          exact ⟨inv, (view _).driver_keeps rfl rfl, ⟨⟨knows.2.1, knows.1⟩, knows.2.2⟩⟩
        · intro _
          apply Contract.Triple.bind (read_idles _).triple
          intro master
          split
          · exact .done ((view _).stable_knows _) fun _ _ h => h.1
          · exact onicInitMasterInterrupt_triple.conseq (fun _ _ h => h) fun _ _ _ h => h.1

/-- `free_irq` of the user interrupt. -/
theorem freeIrq_triple :
    (contract n .driver).Triple ((view n).Knows fun a d ph _ => a = some .priv ∧ d = false ∧ ph = .off) (freeIrq n .priv)
      fun _ => (view n).Knows fun a d ph _ => a = none ∧ d = false ∧ ph = .off := by
  apply Contract.Triple.bind (M := fun _ => (view n).Knows fun a _ ph _ => a = none ∧ ph = .off)
  · apply Contract.Triple.modify ((view n).stable_knows _) ((view n).stable_knows _)
    intro s _ inv knows _
    have registered : (s.line n).action = some .priv := knows.1
    have running : (s.source n).phase ≠ .returned := fun returned => by cases knows.2.2.symm.trans returned
    rw [if_pos registered]
    have set : PfIntr.source n { s with
        freed := s.freed ++ [(n, .priv)]
        line := Function.update s.line n (s.line n).shutDown } = (s.source n).shutDown := by
      simp [source, IrqSource.shutDown]
    have kept := driver_set inv set ⟨rfl, rfl, rfl⟩ (inv.1.shutDown running) rfl rfl
    exact ⟨kept.1, kept.2, knows_set set ⟨rfl, knows.2.2⟩⟩
  · intro _
    apply Contract.Triple.access ((view n).stable_knows _) fun _ => (view n).stable_knows _
    intro s _ u s' _ inv knows taken _
    rcases Option.map_eq_some_iff.mp taken with ⟨l, waited, same⟩
    cases same
    have drained : (s.source n).drain = some { s.source n with line := l } := by
      rw [IrqSource.drain]
      exact Option.map_eq_some_iff.mpr ⟨l, waited, rfl⟩
    rcases inv.1.drain drained with ⟨holds, idle⟩
    simp only [IrqLine.drain] at waited
    split at waited
    · cases waited
      have set : PfIntr.source n { s with line := Function.update s.line n { s.line n with draining := false } } =
          { s.source n with line := { s.line n with draining := false } } := by
        simp [source]
      have kept := driver_set inv set ⟨rfl, rfl, rfl⟩ holds rfl rfl
      exact ⟨kept.1, kept.2, knows_set set ⟨knows.1, rfl, knows.2⟩⟩
    · cases waited

theorem disableForTeardown_triple :
    (contract n .driver).Triple ((view n).Knows Settled) disableForTeardown fun _ =>
      (view n).Knows fun a d ph own => Settled a d ph own ∧ ph = .off := by
  apply Contract.Triple.modify ((view n).stable_knows _) ((view n).stable_knows _)
  intro s _ inv settled _
  rw [if_pos inv.2.2.1, inv.2.2.2]
  have set := (view n).source_set ((s.source n).switchOff 0) s
  have kept := driver_set inv set ⟨rfl, rfl, rfl⟩ inv.1.switchOff rfl rfl
  exact ⟨kept.1, kept.2, knows_set set ⟨settled, rfl⟩⟩

/-- What the teardown does to the error interrupt. -/
theorem freeErrorIrq_idles :
    Idles n (do
      freeIrq (n + 1) .priv
      .modify fun s => { s with errorVec := none }
      .modify fun s => { s with errorIntr := false }) := by
  apply Program.Steps.bind (freeIrq_idles (by omega) _)
  intro _
  apply Program.Steps.bind (.modify fun s _ => .of_line rfl rfl rfl rfl rfl rfl rfl rfl)
  intro _
  exact .modify fun s _ => .of_line rfl rfl rfl rfl rfl rfl rfl rfl

theorem freeUserIrq_triple :
    (contract n .driver).Triple ((view n).Knows fun a d ph own => Settled a d ph own ∧ ph = .off)
      (do
        if ← .read PfIntr.userIntr then do
          freeIrq n .priv
          .modify fun s => { s with userIntr := false }
        else .done ())
      fun _ => (view n).Knows fun a d ph own => a = none ∧ d = false ∧ ph = .off ∧ own = false := by
  apply Contract.Triple.bind (M := fun user => (view n).Knows fun a d ph own => Settled a d ph own ∧ ph = .off ∧ own = user)
  · exact .read ((view n).stable_knows _) (fun _ => (view n).stable_knows _) fun s _ _ knows => ⟨knows.1, knows.2, rfl⟩
  · intro user
    cases user with
    | true =>
      apply Contract.Triple.bind (M := fun _ => (view n).Knows fun a d ph _ => a = none ∧ d = false ∧ ph = .off)
      · apply Contract.Triple.from_pre _ _ freeIrq_triple
        rintro s _ ⟨⟨idle, action⟩, off, set⟩
        rw [set] at action
        exact ⟨action, idle, off⟩
      · intro _
        apply Contract.Triple.modify ((view n).stable_knows _) ((view n).stable_knows _)
        intro s _ inv knows _
        exact ⟨inv, (view n).driver_keeps rfl rfl, ⟨knows.1, knows.2.1, knows.2.2, rfl⟩⟩
    | false =>
      simp only [Bool.false_eq_true, if_false]
      refine Contract.Triple.done ((view n).stable_knows _) ?_
      rintro s _ ⟨⟨idle, action⟩, off, set⟩
      rw [set] at action
      exact ⟨action, idle, off, set⟩

theorem onicClearInterrupt_triple :
    (contract n .driver).Triple ((view n).Knows Settled) onicClearInterrupt fun _ => (view n).Knows Settled := by
  apply Contract.Triple.bind (M := fun master s => master = true ∧ (view n).Knows Settled s)
  · exact .read ((view n).stable_knows _) (fun _ => ((view n).stable_knows _).pure_and) fun s _ inv settled => ⟨inv.2.1, settled⟩
  · intro master
    apply Contract.Triple.pure_pre
    rintro rfl
    apply Contract.Triple.bind (M := fun vectors s => vectors = n ∧ (view n).Knows Settled s)
    · exact .read ((view n).stable_knows _) (fun _ => ((view n).stable_knows _).pure_and) fun s _ inv settled =>
        ⟨inv.2.2.2, settled⟩
    · intro vectors
      apply Contract.Triple.pure_pre
      rintro rfl
      apply Contract.Triple.bind disableForTeardown_triple
      intro _
      apply Contract.Triple.bind
        (M := fun vid s => vid = vectors ∧ (view vectors).Knows (fun a d ph own => Settled a d ph own ∧ ph = .off) s)
      · apply Contract.Triple.bind (read_idles PfIntr.errorIntr).triple
        intro error
        apply Contract.Triple.bind (M := fun _ => (view vectors).Knows fun a d ph own => Settled a d ph own ∧ ph = .off)
        · split
          · exact freeErrorIrq_idles.triple
          · exact .done ((view _).stable_knows _) fun _ _ h => h
        · exact fun _ => .done ((view _).stable_knows _) fun _ _ h => ⟨rfl, h⟩
      · intro vid
        apply Contract.Triple.pure_pre
        rintro rfl
        apply Contract.Triple.bind freeUserIrq_triple
        intro _
        apply Contract.Triple.bind (clearQVectors_idles (Nat.le_refl _)).triple
        intro _
        apply Contract.Triple.modify ((view _).stable_knows _) ((view _).stable_knows _)
        rintro s _ inv ⟨action, idle, off, user⟩ _
        have later : (s.source vid).phase ≠ .up := fun up => by cases off.symm.trans up
        have set : PfIntr.source vid { s with phase := .returned } = (s.source vid).finish := rfl
        have kept := driver_set inv set ⟨rfl, rfl, rfl⟩ (inv.1.finish later action idle) rfl rfl
        refine ⟨kept.1, kept.2, idle, ?_⟩
        have unset : s.userIntr = false := user
        rw [if_neg (by simp [view, unset])]
        exact action

theorem onicInitInterrupt_triple :
    (contract n .driver).Triple ((view n).Knows Settled) onicInitInterrupt fun _ => (view n).Knows Settled := by
  apply Contract.Triple.bind onicInitVectors_triple
  intro rv
  split
  · apply Contract.Triple.bind onicClearInterrupt_triple
    exact fun _ => .done ((view n).stable_knows _) fun _ _ h => h
  · exact .done ((view n).stable_knows _) fun _ _ h => h

def Idle (n : Nat) : IrqParty → PfIntr → Prop
  | .handler, _ => True
  | .thread, _ => True
  | .driver, s => (view n).Knows Settled s

theorem Env.same {s s' : PfIntr} (happens : Env n s s') : s'.source n = s.source n ∧ s'.userIntr = s.userIntr ∧
    s'.masterPf = s.masterPf ∧ s'.mbox.qdevMapped = s.mbox.qdevMapped ∧ s'.numQVectors = s.numQVectors := by
  cases happens with
  | mailbox mbox mapped => exact ⟨rfl, rfl, rfl, mapped, rfl⟩
  | line vid l other action draining =>
    refine ⟨?_, rfl, rfl, rfl, rfl⟩
    simp [source, Function.update_of_ne other.symm]

theorem rules_fit : Pool.Fits (rules n) (fun _ => True)
    (fun s => ((view n).source s).Inv qdmaMboxIntrCtrlEn 0 ∧ (view n).fixed s) (contract n) (Idle n) := by
  apply (view n).fits
  · intro s s' fixed happens
    rcases happens.same with ⟨source, userIntr, masterPf, mapped, vectors⟩
    exact ⟨source, userIntr, masterPf.trans fixed.1, mapped.trans fixed.2.1, vectors.trans fixed.2.2⟩
  · intro u s p allowed inv idle
    cases u with
    | handler =>
      cases allowed
      exact onicUserHandler_triple s True.intro inv True.intro
    | thread =>
      rcases allowed with ⟨rounds, rfl⟩
      exact onicUserThreadFn_triple rounds s True.intro inv True.intro
    | driver =>
      rcases allowed with rfl | rfl
      · have ran : (contract n .driver).Triple ((view n).Knows Settled) (do let _ ← onicInitInterrupt)
            fun _ => (view n).Knows Settled :=
          onicInitInterrupt_triple.bind fun _ => .done ((view n).stable_knows _) fun _ _ h => h
        exact ran s True.intro inv idle
      · exact onicClearInterrupt_triple s True.intro inv idle

/-- A master PF before `onic_init_interrupt`, with its device mapped. -/
structure Unbound (s : PfIntr) : Prop where
  masterPf : s.masterPf = true
  mapped : s.mbox.qdevMapped = true
  userIntr : s.userIntr = false
  line : s.line s.numQVectors = .unused
  phase : s.phase = .up

theorem reach_inv {s : PfIntr} {P : Pool IrqParty PfIntr IntrInput} (unbound : Unbound s)
    (reach : Pool.Reach (rules s.numQVectors) (fun _ => True) (Pool.start s) P) :
    (P.state.source s.numQVectors).Inv qdmaMboxIntrCtrlEn 0 := by
  have inv : (s.source s.numQVectors).Inv qdmaMboxIntrCtrlEn 0 := by
    refine ⟨fun later => absurd unbound.phase later, fun later => absurd unbound.phase later, fun _ _ => ?_, fun returned => ?_⟩
    · simp [source, unbound.line, IrqLine.unused, IrqLine.quiet]
    · cases unbound.phase.symm.trans returned
  have start : (view s.numQVectors).Knows Settled s := by
    simp [IrqView.Knows, view, source, Settled, unbound.line, unbound.userIntr, IrqLine.unused]
  have reached := rules_fit.reach reach True.intro ⟨inv, unbound.masterPf, unbound.mapped, rfl⟩ fun u => by
    cases u with
    | handler => exact fun _ _ _ _ => True.intro
    | thread => exact fun _ _ _ _ => True.intro
    | driver => exact fun s' rely ok inv => (view _).stable_knows Settled s s' start rely ok inv
  exact reached.2.1.1

end PfIntr

/-- In every run of setup, teardown and the two threads of the mailbox interrupt: once the teardown has returned,
    the register is off if and only if no handler and no thread was at work when the teardown switched it off and
    no interrupt was taken after that. -/
theorem mbox_interrupt_off_iff (me : FuncId) (link : Link) (s : PfIntr) :
    (∀ P : Pool IrqParty VfIrq Input,
      Pool.Reach (VfIrq.rules me) (fun _ => True) (Pool.start (VfIrq.unbound link)) P → P.state.source.phase = .returned →
      (P.state.source.ctrl = some 0 ↔ P.state.source.overtaken = false)) ∧
    ∀ P : Pool IrqParty PfIntr IntrInput, s.Unbound →
      Pool.Reach (PfIntr.rules s.numQVectors) (fun _ => True) (Pool.start s) P → P.state.phase = .returned →
      (P.state.mboxCtrl = some 0 ↔ P.state.overtaken = false) :=
  ⟨fun _ reach returned => (VfIrq.reach_inv me reach).torn intrCtrlEn_ne_zero returned,
    fun _ unbound reach returned => (PfIntr.reach_inv unbound reach).torn intrCtrlEn_ne_zero returned⟩

section

variable {σ ι : Type} {rules : Pool.Rules IrqParty σ ι} {init clear handler thread : Program σ ι Unit}

def callMoves (i : ι) (u : IrqParty) (p : Program σ ι Unit) (steps : Nat) : List (Pool.Move IrqParty σ ι) :=
  .call u p :: List.replicate steps (.access u i)

/-- The interrupt is taken before the teardown, and its thread runs after the teardown has switched it off. -/
def lateThreadMoves (i : ι) (init clear handler thread : Program σ ι Unit) (setup hard off late after : Nat) :
    List (Pool.Move IrqParty σ ι) :=
  callMoves i .driver init setup ++ (callMoves i .handler handler hard ++
    (callMoves i .driver clear off ++ (callMoves i .thread thread late ++ List.replicate after (.access .driver i))))

theorem accesses_allowed (i : ι) (u : IrqParty) (steps : Nat) :
    ∀ m ∈ List.replicate steps (Pool.Move.access (σ := σ) u i), m.Allowed rules := by
  intro m mem
  rw [List.eq_of_mem_replicate mem]
  exact True.intro

theorem callMoves_allowed (i : ι) {u : IrqParty} {p : Program σ ι Unit} (steps : Nat) (allowed : ∀ s, rules.calls u s p) :
    ∀ m ∈ callMoves i u p steps, m.Allowed rules :=
  List.forall_mem_cons.mpr ⟨allowed, accesses_allowed i u steps⟩

theorem lateThreadMoves_allowed (i : ι) (setup hard off late after : Nat) (allowed : ∀ s, rules.calls .driver s init)
    (teardown : ∀ s, rules.calls .driver s clear) (interrupt : ∀ s, rules.calls .handler s handler)
    (wakes : ∀ s, rules.calls .thread s thread) :
    ∀ m ∈ lateThreadMoves i init clear handler thread setup hard off late after, m.Allowed rules :=
  List.forall_mem_append.mpr ⟨callMoves_allowed i setup allowed, List.forall_mem_append.mpr
    ⟨callMoves_allowed i hard interrupt, List.forall_mem_append.mpr ⟨callMoves_allowed i off teardown,
      List.forall_mem_append.mpr ⟨callMoves_allowed i late wakes, accesses_allowed i .driver after⟩⟩⟩⟩

end

theorem VfIrq.calls_init (vector : Nat) (s : VfIrq) :
    (VfIrq.rules 4).calls .driver s (do let _ ← VfIrq.onicVfMboxIrqInit vector) := Or.inl ⟨vector, rfl⟩

theorem VfIrq.calls_clear (s : VfIrq) : (VfIrq.rules 4).calls .driver s VfIrq.onicVfMboxIrqClear := Or.inr rfl

theorem PfIntr.calls_init (n : Nat) (s : PfIntr) :
    (PfIntr.rules n).calls .driver s (do let _ ← PfIntr.onicInitInterrupt) := Or.inl rfl

theorem PfIntr.calls_clear (n : Nat) (s : PfIntr) : (PfIntr.rules n).calls .driver s PfIntr.onicClearInterrupt := Or.inr rfl

/-- A master PF with one queue vector. -/
def PfIntr.oneVector : PfIntr where
  mbox := .withRequests oneVf []
  masterPf := true
  numQVectors := 1
  qVector _ := none
  userIntr := false
  errorIntr := false
  line _ := .unused
  mboxCtrl := none
  mboxVec := none
  errorVec := none
  phase := .up
  overtaken := false
  next := 0
  allocated := []
  released := []
  requested := []
  freed := []

def IntrInput.granted : IntrInput := ⟨fun _ => 0, ⟨0, true⟩⟩

theorem PfIntr.oneVector_unbound : PfIntr.oneVector.Unbound := ⟨rfl, rfl, rfl, rfl, rfl⟩

theorem mbox_interrupt_off_undisturbed :
    (∃ P, Pool.Reach (VfIrq.rules 4) (fun _ => True) (Pool.start (VfIrq.unbound firstLink)) P ∧
      P.state.source.phase = .returned ∧ P.state.source.ctrl = some 0) ∧
    ∃ P, Pool.Reach (PfIntr.rules 1) (fun _ => True) (Pool.start PfIntr.oneVector) P ∧ P.state.phase = .returned ∧
      P.state.mboxCtrl = some 0 := by
  constructor
  · have played : ((Pool.start (VfIrq.unbound firstLink)).play (fun _ => true)
        (callMoves (⟨0, true⟩ : Input) .driver (do let _ ← VfIrq.onicVfMboxIrqInit 1) 6 ++
          callMoves ⟨0, true⟩ .driver VfIrq.onicVfMboxIrqClear 7)).map
        (fun P => (P.state.source.phase, P.state.source.overtaken)) = some (.returned, false) := by
      decide
    rcases Option.map_eq_some_iff.mp played with ⟨P, ran, found⟩
    have reach : Pool.Reach (VfIrq.rules 4) (fun _ => True) _ P := Pool.reach_of_play (fun _ _ => True.intro)
      (List.forall_mem_append.mpr
        ⟨callMoves_allowed _ 6 (VfIrq.calls_init 1), callMoves_allowed _ 7 VfIrq.calls_clear⟩) ran
    have returned := (Prod.mk.inj found).1
    exact ⟨P, reach, returned, ((mbox_interrupt_off_iff 4 firstLink PfIntr.oneVector).1 P reach returned).mpr (Prod.mk.inj found).2⟩
  · have played : ((Pool.start PfIntr.oneVector).play (fun _ => true)
        (callMoves IntrInput.granted .driver (do let _ ← PfIntr.onicInitInterrupt) 17 ++
          callMoves IntrInput.granted .driver PfIntr.onicClearInterrupt 18)).map
        (fun P => (P.state.phase, P.state.overtaken)) = some (.returned, false) := by
      decide
    rcases Option.map_eq_some_iff.mp played with ⟨P, ran, found⟩
    have reach : Pool.Reach (PfIntr.rules 1) (fun _ => True) _ P := Pool.reach_of_play (fun _ _ => True.intro)
      (List.forall_mem_append.mpr
        ⟨callMoves_allowed _ 17 (PfIntr.calls_init 1), callMoves_allowed _ 18 (PfIntr.calls_clear 1)⟩) ran
    have returned := (Prod.mk.inj found).1
    exact ⟨P, reach, returned,
      ((mbox_interrupt_off_iff 4 firstLink PfIntr.oneVector).2 P PfIntr.oneVector_unbound reach returned).mpr (Prod.mk.inj found).2⟩

/-- The thread comes to run after the teardown's write, for the VF as for the PF. -/
theorem mbox_interrupt_left_on :
    (∃ P, Pool.Reach (VfIrq.rules 4) (fun _ => True) (Pool.start (VfIrq.unbound firstLink)) P ∧
      P.state.source.phase = .returned ∧ ¬ P.state.source.ctrl = some 0) ∧
    ∃ P, Pool.Reach (PfIntr.rules 1) (fun _ => True) (Pool.start PfIntr.oneVector) P ∧ P.state.phase = .returned ∧
      ¬ P.state.mboxCtrl = some 0 := by
  constructor
  · have played : ((Pool.start (VfIrq.unbound firstLink)).play (fun _ => true)
        (lateThreadMoves (⟨0, true⟩ : Input) (do let _ ← VfIrq.onicVfMboxIrqInit 1) VfIrq.onicVfMboxIrqClear
          VfIrq.onicVfMboxIrqHandler (VfIrq.onicVfMboxIrqThread 4) 6 3 2 4 5)).map
        (fun P => (P.state.source.phase, P.state.source.ctrl)) = some (.returned, some 1) := by
      decide
    rcases Option.map_eq_some_iff.mp played with ⟨P, ran, found⟩
    have reach : Pool.Reach (VfIrq.rules 4) (fun _ => True) _ P := Pool.reach_of_play (fun _ _ => True.intro)
      (lateThreadMoves_allowed _ 6 3 2 4 5 (VfIrq.calls_init 1) VfIrq.calls_clear (fun _ => rfl) fun _ => rfl) ran
    refine ⟨P, reach, (Prod.mk.inj found).1, ?_⟩
    rw [(Prod.mk.inj found).2]
    decide
  · have played : ((Pool.start PfIntr.oneVector).play (fun _ => true)
        (lateThreadMoves IntrInput.granted (do let _ ← PfIntr.onicInitInterrupt) PfIntr.onicClearInterrupt
          (PfIntr.onicUserHandler 1) (PfIntr.onicUserThreadFn 1 1) 17 4 3 10 15)).map
        (fun P => (P.state.phase, P.state.mboxCtrl)) = some (.returned, some 1) := by
      decide
    rcases Option.map_eq_some_iff.mp played with ⟨P, ran, found⟩
    have reach : Pool.Reach (PfIntr.rules 1) (fun _ => True) _ P := Pool.reach_of_play (fun _ _ => True.intro)
      (lateThreadMoves_allowed _ 17 4 3 10 15 (PfIntr.calls_init 1) (PfIntr.calls_clear 1) (fun _ => rfl) fun _ => ⟨1, rfl⟩) ran
    refine ⟨P, reach, (Prod.mk.inj found).1, ?_⟩
    rw [(Prod.mk.inj found).2]
    decide

end OpenNic
