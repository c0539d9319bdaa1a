import OpenNic.Mailbox.VfDriver
import OpenNic.Common.ThreadedIrq

namespace OpenNic

/-- A VF and its mailbox interrupt; the line holds the vector that it was requested for. -/
structure VfIrq where
  link : Link
  source : IrqSource Nat Word
  mboxVector : Nat
  mboxIrqAllocated : Bool
  intrVec : Option Nat

namespace VfIrq

variable (me : FuncId)

def setLink (link : Link) (s : VfIrq) : VfIrq := { s with link := link }

def setSource (x : IrqSource Nat Word) (s : VfIrq) : VfIrq := { s with source := x }

def view : IrqView VfIrq (Nat × Bool) Nat Word where
  source := VfIrq.source
  set := setSource
  own s := (s.mboxVector, s.mboxIrqAllocated)
  fixed _ := True
  source_set _ _ := rfl
  own_set _ _ := rfl
  fixed_set _ _ _ := True.intro

def onicVfMboxIrqHandler : Program VfIrq Input Unit :=
  view.handlerProgram (.modify fun s => s.setSource (s.source.write 0))

def onicVfMboxIrqThread : Program VfIrq Input Unit :=
  view.threadProgram do
    let _ ← (onicVfMboxProcessOne me .irq).lift VfIrq.link setLink
    .modify fun s => s.setSource (s.source.rearm qdmaMboxIntrCtrlEn)

def requestThreadedIrq (vector : Nat) : Program VfIrq Input Int :=
  .access fun input s =>
    if s.source.line.action.isSome then some (- EBUSY, s)
    else if input.flag then some (0, s.setSource (s.source.request vector))
    else some (- (input.word.toNat + 1 : Int), s)

def onicVfMboxIrqInit (vector : Nat) : Program VfIrq Input Int := do
  .access fun (input : Input) s => some ((), s.setLink (s.link.setVf fun vf =>
    { vf with mboxDone := 0, mboxLock := none, mboxSeq := input.word }))
  let err ← requestThreadedIrq vector
  if err ≠ 0 then .done err
  else
    .modify fun s => { s with mboxVector := vector }
    .modify fun s => { s with mboxIrqAllocated := true }
    .modify fun s => { s with intrVec := some vector }
    .modify fun s => s.setSource (s.source.write qdmaMboxIntrCtrlEn)
    .done 0

def freeIrq (vector : Nat) : Program VfIrq Input Unit := do
  .modify fun s => if s.source.line.action = some vector then s.setSource s.source.shutDown else s
  .access fun _ s => s.source.drain.map fun x => ((), s.setSource x)

def onicVfMboxIrqClear : Program VfIrq Input Unit := do
  if !(← .read VfIrq.mboxIrqAllocated) then .done ()
  else
    .modify fun s => s.setSource (s.source.switchOff 0)
    let vector ← .read VfIrq.mboxVector
    freeIrq vector
    .modify fun s => { s with mboxIrqAllocated := false }
    .modify fun s => s.setSource s.source.finish

/-- The interrupt is set up and torn down in any order; what else the VF does to its mailbox is up to the
    environment. -/
def rules : Pool.Rules IrqParty VfIrq Input where
  calls u _ p := match u with
    | .handler => p = onicVfMboxIrqHandler
    | .thread => p = onicVfMboxIrqThread me
    | .driver => (∃ vector, p = do let _ ← onicVfMboxIrqInit vector) ∨ p = onicVfMboxIrqClear
  env s s' := ∃ link, s' = s.setLink link

/-- Nothing is registered yet. -/
def unbound (link : Link) : VfIrq := ⟨link, ⟨.unused, none, .up, false⟩, 0, false, none⟩

/-- Between two calls the line is registered if the driver has noted so. -/
def Settled (action : Option Nat) (draining : Bool) (_ : TeardownPhase) (own : Nat × Bool) : Prop :=
  draining = false ∧ (own.2 = true → action = some own.1)

abbrev contract : IrqParty → Contract VfIrq := view.contract qdmaMboxIntrCtrlEn 0

theorem onicVfMboxIrqHandler_triple :
    (contract .handler).Triple (fun _ => True) onicVfMboxIrqHandler fun _ _ => True :=
  view.handlerProgram_triple (view.mask_triple 0)

theorem onicVfMboxIrqThread_triple :
    (contract .thread).Triple (fun _ => True) (onicVfMboxIrqThread me) fun _ _ => True := by
  apply view.threadProgram_triple
  apply Contract.Triple.bind (M := fun _ => view.AtStage .working)
  · have lifted : (contract .thread).Triple (view.AtStage .working)
        ((onicVfMboxProcessOne me .irq).lift VfIrq.link setLink) fun _ s => True ∧ view.AtStage .working s :=
      .lift (Program.Results.trivial _) (view.stable_atStage .working) fun link s _ inv inside =>
        ⟨inv, fun u _ => view.kept_of_same u rfl rfl, inside⟩
    exact lifted.conseq (fun _ _ inside => inside) fun _ _ _ holds => holds.2
  · exact fun _ => view.rearm_triple

/-- An access that leaves the source as it is, on the driver's side. -/
theorem driver_modify {f : VfIrq → VfIrq} {X Y : Option Nat → Bool → TeardownPhase → Nat × Bool → Prop}
    (same : ∀ s, (f s).source = s.source) (own : ∀ s, view.Knows X s → view.Knows Y (f s)) :
    (contract .driver).Triple (view.Knows X) (.modify f : Program VfIrq Input Unit) fun _ => view.Knows Y := by
  apply Contract.Triple.modify (view.stable_knows X) (view.stable_knows Y)
  intro s _ inv knows _
  refine ⟨⟨?_, True.intro⟩, view.driver_keeps (congrArg (fun x => x.line.hard) (same s))
    (congrArg (fun x => x.line.stage) (same s)), own s knows⟩
  have kept : view.source (f s) = view.source s := same s
  rw [kept]
  exact inv.1

theorem requestThreadedIrq_triple (vector : Nat) :
    (contract .driver).Triple (view.Knows Settled) (requestThreadedIrq vector) fun err => view.Knows fun a d ph own =>
      if err = 0 then a = some vector ∧ d = false ∧ ph = .up else Settled a d ph own := by
  apply Contract.Triple.access (view.stable_knows _) fun _ => view.stable_knows _
  intro s input err s' _ inv settled taken _
  split at taken
  · cases taken
    refine ⟨inv, view.driver_keeps rfl rfl, ?_⟩
    rw [IrqView.Knows, if_neg (by decide)]
    exact settled
  · split at taken
    · cases taken
      refine ⟨⟨IrqSource.Inv.request _ _, True.intro⟩, view.driver_keeps rfl rfl, ?_⟩
      rw [IrqView.Knows, if_pos rfl]
      exact ⟨rfl, settled.1, rfl⟩
    · cases taken
      refine ⟨inv, view.driver_keeps rfl rfl, ?_⟩
      rw [IrqView.Knows, if_neg (by omega)]
      exact settled

theorem onicVfMboxIrqInit_triple (vector : Nat) :
    (contract .driver).Triple (view.Knows Settled) (onicVfMboxIrqInit vector) fun _ => view.Knows Settled := by
  apply Contract.Triple.bind (M := fun _ => view.Knows Settled)
  · apply Contract.Triple.access (view.stable_knows _) fun _ => view.stable_knows _
    intro s input u s' _ inv settled taken _
    cases taken
    exact ⟨inv, view.driver_keeps rfl rfl, settled⟩
  · intro _
    apply Contract.Triple.bind (requestThreadedIrq_triple vector)
    intro err
    by_cases failed : err = 0
    · subst failed
      simp only [ne_eq, not_true_eq_false, if_false, if_true]
      apply Contract.Triple.bind (M := fun _ => view.Knows fun a d ph own =>
        a = some vector ∧ d = false ∧ ph = .up ∧ own.1 = vector)
      · exact driver_modify (fun _ => rfl) fun s knows => ⟨knows.1, knows.2.1, knows.2.2, rfl⟩
      · intro _
        apply Contract.Triple.bind (M := fun _ => view.Knows fun a d ph own => Settled a d ph own ∧ ph = .up)
        · exact driver_modify (fun _ => rfl) fun s ⟨action, idle, up, same⟩ =>
            ⟨⟨idle, fun _ => action.trans (congrArg some same.symm)⟩, up⟩
        · intro _
          apply Contract.Triple.bind (M := fun _ => view.Knows fun a d ph own => Settled a d ph own ∧ ph = .up)
          · exact driver_modify (fun _ => rfl) fun s knows => knows
          · intro _
            apply Contract.Triple.bind (M := fun _ => view.Knows Settled)
            · apply Contract.Triple.modify (view.stable_knows _) (view.stable_knows _)
              intro s _ inv knows _
              exact ⟨⟨inv.1.write knows.2 _, True.intro⟩, view.driver_keeps rfl rfl, knows.1⟩
            · exact fun _ => .done (view.stable_knows _) fun _ _ h => h
    · rw [if_pos failed]
      apply Contract.Triple.from_pre (view.Knows Settled)
      · intro s _ knows
        rwa [IrqView.Knows, if_neg failed] at knows
      · exact .done (view.stable_knows _) fun _ _ h => h

theorem freeIrq_triple (vector : Nat) :
    (contract .driver).Triple (view.Knows fun a d ph _ => a = some vector ∧ d = false ∧ ph = .off) (freeIrq vector) fun _ =>
      view.Knows fun a d ph _ => a = none ∧ d = false ∧ ph = .off := by
  apply Contract.Triple.bind (M := fun _ => view.Knows fun a _ ph _ => a = none ∧ ph = .off)
  · apply Contract.Triple.modify (view.stable_knows _) (view.stable_knows _)
    intro s _ inv knows _
    have registered : s.source.line.action = some vector := knows.1
    rw [if_pos registered]
    have running : s.source.phase ≠ .returned := fun returned => by cases knows.2.2.symm.trans returned
    exact ⟨⟨inv.1.shutDown running, True.intro⟩, view.driver_keeps rfl rfl, ⟨rfl, knows.2.2⟩⟩
  · intro _
    apply Contract.Triple.access (view.stable_knows _) fun _ => view.stable_knows _
    intro s _ u s' _ inv knows taken _
    rcases Option.map_eq_some_iff.mp taken with ⟨x, drained, same⟩
    cases same
    rcases inv.1.drain drained with ⟨holds, idle⟩
    rcases Option.map_eq_some_iff.mp drained with ⟨l, waited, same⟩
    cases same
    simp only [IrqLine.drain] at waited
    split at waited
    · cases waited
      exact ⟨⟨holds, True.intro⟩, view.driver_keeps rfl rfl, ⟨knows.1, rfl, knows.2⟩⟩
    · cases waited

theorem onicVfMboxIrqClear_triple :
    (contract .driver).Triple (view.Knows Settled) onicVfMboxIrqClear fun _ => view.Knows Settled := by
  apply Contract.Triple.bind (M := fun allocated => view.Knows fun a d ph own => Settled a d ph own ∧ own.2 = allocated)
  · exact .read (view.stable_knows _) (fun _ => view.stable_knows _) fun s _ _ settled => ⟨settled, rfl⟩
  · intro allocated
    cases allocated with
    | false => exact .done (view.stable_knows _) fun _ _ knows => knows.1
    | true =>
      apply Contract.Triple.bind (M := fun _ => view.Knows fun a d ph own => a = some own.1 ∧ d = false ∧ ph = .off)
      · apply Contract.Triple.modify (view.stable_knows _) (view.stable_knows _)
        intro s _ inv knows _
        exact ⟨⟨inv.1.switchOff, True.intro⟩, view.driver_keeps rfl rfl, ⟨knows.1.2 knows.2, knows.1.1, rfl⟩⟩
      · intro _
        apply Contract.Triple.bind (M := fun vector => view.Knows fun a d ph _ => a = some vector ∧ d = false ∧ ph = .off)
        · exact .read (view.stable_knows _) (fun _ => view.stable_knows _) fun s _ _ knows => knows
        · intro vector
          apply Contract.Triple.bind (freeIrq_triple vector)
          intro _
          apply Contract.Triple.bind (M := fun _ => view.Knows fun a d ph own =>
            a = none ∧ d = false ∧ ph = .off ∧ own.2 = false)
          · exact driver_modify (fun _ => rfl) fun s knows => ⟨knows.1, knows.2.1, knows.2.2, rfl⟩
          · intro _
            apply Contract.Triple.modify (view.stable_knows _) (view.stable_knows _)
            rintro s _ inv ⟨removed, idle, off, freed⟩ _
            have later : s.source.phase ≠ .up := fun up => by cases off.symm.trans up
            refine ⟨⟨inv.1.finish later removed idle, True.intro⟩, view.driver_keeps rfl rfl, idle, fun kept => ?_⟩
            cases freed.symm.trans kept

def Idle : IrqParty → VfIrq → Prop
  | .handler, _ => True
  | .thread, _ => True
  | .driver, s => view.Knows Settled s

theorem rules_fit : Pool.Fits (rules me) (fun _ => True) (fun s => s.source.Inv qdmaMboxIntrCtrlEn 0 ∧ True) contract
    Idle := by
  apply view.fits
  · rintro s s' - ⟨link, rfl⟩
    exact ⟨rfl, rfl, True.intro⟩
  · intro u s p allowed inv idle
    cases u with
    | handler =>
      cases allowed
      exact onicVfMboxIrqHandler_triple s True.intro inv True.intro
    | thread =>
      cases allowed
      exact onicVfMboxIrqThread_triple me s True.intro inv True.intro
    | driver =>
      rcases allowed with ⟨vector, rfl⟩ | rfl
      · have ran : (contract .driver).Triple (view.Knows Settled) (do let _ ← onicVfMboxIrqInit vector)
            fun _ => view.Knows Settled :=
          (onicVfMboxIrqInit_triple vector).bind fun _ => .done (view.stable_knows _) fun _ _ h => h
        exact ran s True.intro inv idle
      · exact onicVfMboxIrqClear_triple s True.intro inv idle

/-- In every state that runs reach from a VF without its interrupt. -/
theorem reach_inv {link : Link} {P : Pool IrqParty VfIrq Input}
    (reach : Pool.Reach (rules me) (fun _ => True) (Pool.start (unbound link)) P) :
    P.state.source.Inv qdmaMboxIntrCtrlEn 0 := by
  have inv : (unbound link).source.Inv qdmaMboxIntrCtrlEn 0 :=
    ⟨fun later => absurd rfl later, fun later => absurd rfl later, fun _ _ => rfl, fun returned => by cases returned⟩
  have start : view.Knows Settled (unbound link) := ⟨rfl, fun allocated => by cases allocated⟩
  have reached := (rules_fit me).reach reach True.intro ⟨inv, True.intro⟩ fun u => by
    cases u with
    | handler => exact fun _ _ _ _ => True.intro
    | thread => exact fun _ _ _ _ => True.intro
    | driver => exact fun s' rely ok inv => view.stable_knows Settled _ s' start rely ok inv
  exact reached.2.1.1

end VfIrq

end OpenNic
