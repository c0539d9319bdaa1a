import OpenNic.Program.RelyGuarantee

namespace OpenNic

inductive IrqThreadStage
  | idle
  | working
  | rearmed
  deriving DecidableEq

/-- An interrupt line as the kernel runs it: what is registered for it, whether `free_irq` waits for it, whether
    its handler runs and has woken the thread, and how far the thread is. -/
structure IrqLine (K : Type) where
  action : Option K
  draining : Bool
  hard : Bool
  woken : Bool
  stage : IrqThreadStage
  deriving DecidableEq

namespace IrqLine

variable {K : Type}

def unused : IrqLine K := ⟨none, false, false, false, .idle⟩

/-- A handler does not interrupt itself. -/
def enterHandler (l : IrqLine K) : Option (IrqLine K) :=
  if l.action.isSome && !l.hard then some { l with hard := true } else none

/-- `IRQ_WAKE_THREAD` -/
def leaveHandler (l : IrqLine K) : IrqLine K := { l with hard := false, woken := true }

def enterThread (l : IrqLine K) : Option (IrqLine K) :=
  if l.woken && l.stage = .idle then some { l with woken := false, stage := .working } else none

def leaveThread (l : IrqLine K) : IrqLine K := { l with stage := .idle }

def request (l : IrqLine K) (k : K) : IrqLine K := { l with action := some k }

/-- The first part of `free_irq`. -/
def shutDown (l : IrqLine K) : IrqLine K := { l with action := none, draining := true }

/-- A thread that is woken still runs. -/
def quiet (l : IrqLine K) : Bool := !l.hard && !l.woken && l.stage = .idle

@[simp] theorem quiet_shutDown (l : IrqLine K) : l.shutDown.quiet = l.quiet := rfl

@[simp] theorem quiet_drained (l : IrqLine K) (d : Bool) : ({ l with draining := d } : IrqLine K).quiet = l.quiet := rfl

@[simp] theorem quiet_request (l : IrqLine K) (k : K) : (l.request k).quiet = l.quiet := rfl

/-- The rest of `free_irq`. -/
def drain (l : IrqLine K) : Option (IrqLine K) :=
  if !l.draining || l.quiet then some { l with draining := false } else none

/-- There is a handler or a thread that has the source yet to be switched on by the thread. -/
def owes (l : IrqLine K) : Bool := l.hard || l.woken || l.stage = .working

end IrqLine

inductive TeardownPhase
  | up
  | off
  | returned
  deriving DecidableEq

/-- A threaded interrupt and the register that enables its source: the handler switches the source off and the
    thread on again. `ctrl` is the last value written. `phase` and `overtaken` are history of the teardown: how far
    it is, and whether a handler or its thread was at work when it switched the source off, or an interrupt was
    taken afterwards. -/
structure IrqSource (K V : Type) where
  line : IrqLine K
  ctrl : Option V
  phase : TeardownPhase
  overtaken : Bool

namespace IrqSource

variable {K V : Type} {on off : V} {x x' : IrqSource K V}

def enterHandler (x : IrqSource K V) : Option (IrqSource K V) :=
  x.line.enterHandler.map fun l => { x with line := l, overtaken := x.overtaken || x.phase ≠ .up }

def leaveHandler (x : IrqSource K V) : IrqSource K V := { x with line := x.line.leaveHandler }

def enterThread (x : IrqSource K V) : Option (IrqSource K V) := x.line.enterThread.map fun l => { x with line := l }

def leaveThread (x : IrqSource K V) : IrqSource K V := { x with line := x.line.leaveThread }

def write (x : IrqSource K V) (v : V) : IrqSource K V := { x with ctrl := some v }

/-- The thread's last word to the source. -/
def rearm (x : IrqSource K V) (v : V) : IrqSource K V := { x with ctrl := some v, line := { x.line with stage := .rearmed } }

def request (x : IrqSource K V) (k : K) : IrqSource K V :=
  { x with line := x.line.request k, phase := .up, overtaken := false }

/-- The teardown's write. -/
def switchOff (x : IrqSource K V) (v : V) : IrqSource K V :=
  { x with ctrl := some v, phase := .off, overtaken := x.line.owes }

def shutDown (x : IrqSource K V) : IrqSource K V := { x with line := x.line.shutDown }

def drain (x : IrqSource K V) : Option (IrqSource K V) := x.line.drain.map fun l => { x with line := l }

def finish (x : IrqSource K V) : IrqSource K V := { x with phase := .returned }

/-- Once the teardown has switched the source off, either nothing is left that would switch it on, or
    something is, or it is on already. -/
structure Inv (on off : V) (x : IrqSource K V) : Prop where
  late : x.phase ≠ .up → x.overtaken = true → x.line.owes = true ∨ x.ctrl = some on
  clean : x.phase ≠ .up → x.overtaken = false → x.line.owes = false ∧ x.ctrl = some off
  still : x.line.action = none → x.line.draining = false → x.line.quiet = true
  gone : x.phase = .returned → x.line.action = none ∧ x.line.draining = false

theorem quiet_owes {l : IrqLine K} (quiet : l.quiet = true) : l.owes = false := by
  simp only [IrqLine.quiet, Bool.and_eq_true, Bool.not_eq_true', decide_eq_true_eq] at quiet
  simp [IrqLine.owes, quiet]

theorem Inv.torn (inv : x.Inv on off) (differ : on ≠ off) (returned : x.phase = .returned) :
    x.ctrl = some off ↔ x.overtaken = false := by
  have later : x.phase ≠ .up := by simp [returned]
  have settled := quiet_owes (inv.still (inv.gone returned).1 (inv.gone returned).2)
  cases overtaken : x.overtaken with
  | false => simp [(inv.clean later overtaken).2]
  | true =>
    have last : x.ctrl = some on := by simpa [settled] using inv.late later overtaken
    simp [last, differ]

/-- While a handler or its thread still owes the write, nothing but that is asked of the register. -/
theorem Inv.of_owes (inv : x.Inv on off) (owes : x.line.owes = true) (owes' : x'.line.owes = true) (phase : x'.phase = x.phase)
    (overtaken : x'.overtaken = x.overtaken) (action : x'.line.action = x.line.action) (draining : x'.line.draining = x.line.draining) :
    x'.Inv on off where
  late _ _ := .inl owes'
  clean later before := by
    rw [phase] at later
    rw [overtaken] at before
    exact absurd owes (by simp [(inv.clean later before).1])
  still removed idle := by
    rw [action] at removed
    rw [draining] at idle
    exact absurd owes (by simp [quiet_owes (inv.still removed idle)])
  gone returned := by
    rw [phase] at returned
    rw [action, draining]
    exact inv.gone returned

theorem Inv.enterHandler (inv : x.Inv on off) (entered : x.enterHandler = some x') :
    x'.Inv on off ∧ x'.line.hard = true := by
  simp only [IrqSource.enterHandler, IrqLine.enterHandler] at entered
  split at entered
  · rename_i free
    cases entered
    simp only [Bool.and_eq_true, Bool.not_eq_true'] at free
    refine ⟨⟨fun _ _ => .inl (by simp [IrqLine.owes]), fun later before => ?_, fun removed => ?_, inv.gone⟩, rfl⟩
    · simp [show x.phase ≠ .up from later] at before
    · rw [show x.line.action = none from removed] at free
      cases free.1
  · cases entered

theorem Inv.handler_write (inv : x.Inv on off) (inside : x.line.hard = true) (v : V) : (x.write v).Inv on off :=
  inv.of_owes (by simp [IrqLine.owes, inside]) (by simp [write, IrqLine.owes, inside]) rfl rfl rfl rfl

theorem Inv.leaveHandler (inv : x.Inv on off) (inside : x.line.hard = true) : x.leaveHandler.Inv on off :=
  inv.of_owes (by simp [IrqLine.owes, inside]) (by simp [IrqSource.leaveHandler, IrqLine.leaveHandler, IrqLine.owes]) rfl rfl
    rfl rfl

theorem Inv.enterThread (inv : x.Inv on off) (entered : x.enterThread = some x') :
    x'.Inv on off ∧ x'.line.stage = .working := by
  simp only [IrqSource.enterThread, IrqLine.enterThread] at entered
  split at entered
  · rename_i free
    cases entered
    simp only [Bool.and_eq_true, decide_eq_true_eq] at free
    exact ⟨inv.of_owes (by simp [IrqLine.owes, free.1]) (by simp [IrqLine.owes]) rfl rfl rfl rfl, rfl⟩
  · cases entered

theorem Inv.rearm (inv : x.Inv on off) (inside : x.line.stage = .working) : (x.rearm on).Inv on off where
  late _ _ := .inr rfl
  clean later before := by
    have settled := (inv.clean later before).1
    simp [IrqLine.owes, inside] at settled
  still removed idle := by
    have quiet := inv.still removed idle
    simp [IrqLine.quiet, inside] at quiet
  gone := inv.gone

theorem Inv.leaveThread (inv : x.Inv on off) (inside : x.line.stage = .rearmed) : x.leaveThread.Inv on off := by
  have same : x.leaveThread.line.owes = x.line.owes := by
    simp [IrqSource.leaveThread, IrqLine.leaveThread, IrqLine.owes, inside]
  refine ⟨fun later before => same ▸ inv.late later before, fun later before => same ▸ inv.clean later before, ?_, inv.gone⟩
  intro removed idle
  have quiet := inv.still removed idle
  simp [IrqLine.quiet, inside] at quiet

theorem Inv.request (x : IrqSource K V) (k : K) : (x.request k).Inv on off where
  late later := absurd rfl later
  clean later := absurd rfl later
  still removed := by cases removed
  gone returned := by cases returned

theorem Inv.write (inv : x.Inv on off) (up : x.phase = .up) (v : V) : (x.write v).Inv on off where
  late later := absurd up later
  clean later := absurd up later
  still := inv.still
  gone := inv.gone

theorem Inv.switchOff (inv : x.Inv on off) : (x.switchOff off).Inv on off where
  late _ before := .inl before
  clean _ before := ⟨before, rfl⟩
  still := inv.still
  gone returned := by cases returned

theorem Inv.shutDown (inv : x.Inv on off) (phase : x.phase ≠ .returned) : x.shutDown.Inv on off where
  late := inv.late
  clean := inv.clean
  still _ idle := by cases idle
  gone returned := absurd returned phase

theorem Inv.drain (inv : x.Inv on off) (drained : x.drain = some x') : x'.Inv on off ∧ x'.line.draining = false := by
  simp only [IrqSource.drain, IrqLine.drain] at drained
  split at drained
  · rename_i free
    cases drained
    refine ⟨⟨inv.late, inv.clean, fun removed _ => ?_, fun returned => ⟨(inv.gone returned).1, rfl⟩⟩, rfl⟩
    cases waits : x.line.draining with
    | false => exact inv.still removed waits
    | true =>
      have quiet : x.line.quiet = true := by simpa [waits] using free
      exact quiet
  · cases drained

theorem Inv.finish (inv : x.Inv on off) (later : x.phase ≠ .up) (action : x.line.action = none) (idle : x.line.draining = false) :
    x.finish.Inv on off where
  late _ := inv.late later
  clean _ := inv.clean later
  still := inv.still
  gone _ := ⟨action, idle⟩

end IrqSource

inductive IrqParty
  | handler
  | thread
  | driver
  deriving DecidableEq

/-- Where a state has the source, what of it only the driver changes, and what nobody changes. -/
structure IrqView (σ δ K V : Type) where
  source : σ → IrqSource K V
  set : IrqSource K V → σ → σ
  own : σ → δ
  fixed : σ → Prop
  source_set : ∀ x s, source (set x s) = x
  own_set : ∀ x s, own (set x s) = own s
  fixed_set : ∀ x s, fixed s → fixed (set x s)

namespace IrqView

variable {σ δ ι K V α : Type} (view : IrqView σ δ K V)

def handlerProgram (mask : Program σ ι Unit) : Program σ ι Unit := do
  .access fun _ s => (view.source s).enterHandler.map fun x => ((), view.set x s)
  mask
  .modify fun s => view.set (view.source s).leaveHandler s

def threadProgram (body : Program σ ι Unit) : Program σ ι Unit := do
  .access fun _ s => (view.source s).enterThread.map fun x => ((), view.set x s)
  body
  .modify fun s => view.set (view.source s).leaveThread s

/-- What a party finds as it has left it. -/
def Kept : IrqParty → σ → σ → Prop
  | .handler, s, s' => (view.source s').line.hard = (view.source s).line.hard
  | .thread, s, s' => (view.source s').line.stage = (view.source s).line.stage
  | .driver, s, s' => (view.source s').line.action = (view.source s).line.action ∧
      (view.source s').line.draining = (view.source s).line.draining ∧
      (view.source s').phase = (view.source s).phase ∧ view.own s' = view.own s

theorem kept_of_same (u : IrqParty) {s s' : σ} (source : view.source s' = view.source s) (own : view.own s' = view.own s) :
    view.Kept u s s' := by
  cases u with
  | handler => exact congrArg (fun x => x.line.hard) source
  | thread => exact congrArg (fun x => x.line.stage) source
  | driver => exact ⟨by rw [source], by rw [source], by rw [source], own⟩

theorem kept_refl (u : IrqParty) (s : σ) : view.Kept u s s := view.kept_of_same u rfl rfl

theorem kept_trans (u : IrqParty) {a b c : σ} (h : view.Kept u a b) (h' : view.Kept u b c) : view.Kept u a c := by
  cases u with
  | handler => exact h'.trans h
  | thread => exact h'.trans h
  | driver => exact ⟨h'.1.trans h.1, h'.2.1.trans h.2.1, h'.2.2.1.trans h.2.2.1, h'.2.2.2.trans h.2.2.2⟩

def contract (on off : V) (u : IrqParty) : Contract σ where
  ok _ := True
  inv s := (view.source s).Inv on off ∧ view.fixed s
  rely := view.Kept u
  guarantee s s' := ∀ v, v ≠ u → view.Kept v s s'
  rely_refl := view.kept_refl u
  rely_trans := view.kept_trans u
  guarantee_refl s v _ := view.kept_refl v s

variable {on off : V}

theorem fits {rules : Pool.Rules IrqParty σ ι} {idle : IrqParty → σ → Prop}
    (env : ∀ s s', view.fixed s → rules.env s s' →
      view.source s' = view.source s ∧ view.own s' = view.own s ∧ view.fixed s')
    (calls : ∀ u s p, rules.calls u s p → (view.contract on off u).inv s → idle u s →
      (view.contract on off u).wp p (fun _ => idle u) s) :
    Pool.Fits rules (fun _ => True) (fun s => (view.source s).Inv on off ∧ view.fixed s) (view.contract on off) idle where
  same_ok _ := rfl
  same_inv _ := rfl
  threads t u apart s s' _ _ guarantee := guarantee u apart.symm
  env s s' _ _ inv happens := by
    rcases env s s' inv.2 happens with ⟨source, own, fixed⟩
    exact ⟨⟨source ▸ inv.1, fixed⟩, fun u => view.kept_of_same u source own⟩
  calls u s p allowed _ := calls u s p allowed

def Inside (s : σ) : Prop := (view.source s).line.hard = true

def AtStage (g : IrqThreadStage) (s : σ) : Prop := (view.source s).line.stage = g

/-- What the driver knows of its own part of the state. -/
def Knows (X : Option K → Bool → TeardownPhase → δ → Prop) (s : σ) : Prop :=
  X (view.source s).line.action (view.source s).line.draining (view.source s).phase (view.own s)

theorem stable_true (u : IrqParty) : (view.contract on off u).Stable fun _ => True := fun _ _ _ _ _ _ => True.intro

theorem stable_inside : (view.contract on off .handler).Stable view.Inside :=
  fun _ _ inside same _ _ => same.trans inside

theorem stable_atStage (g : IrqThreadStage) : (view.contract on off .thread).Stable (view.AtStage g) :=
  fun _ _ at_ same _ _ => same.trans at_

theorem stable_knows (X : Option K → Bool → TeardownPhase → δ → Prop) :
    (view.contract on off .driver).Stable (view.Knows X) := by
  rintro s s' knows ⟨action, draining, phase, own⟩ _ _
  rw [Knows, action, draining, phase, own]
  exact knows

/-- An access of a party to the source. -/
theorem party_set {u : IrqParty} {s : σ} {x : IrqSource K V} (inv : (view.contract on off u).inv s) (holds : x.Inv on off)
    (kept : ∀ v, v ≠ u → view.Kept v s (view.set x s)) :
    (view.contract on off u).inv (view.set x s) ∧ (view.contract on off u).guarantee s (view.set x s) := by
  refine ⟨⟨?_, view.fixed_set x s inv.2⟩, kept⟩
  rw [view.source_set]
  exact holds

theorem kept_driver_set {s : σ} {x : IrqSource K V} (action : x.line.action = (view.source s).line.action)
    (draining : x.line.draining = (view.source s).line.draining) (phase : x.phase = (view.source s).phase) :
    view.Kept .driver s (view.set x s) := by
  rw [Kept, view.source_set]
  exact ⟨action, draining, phase, view.own_set x s⟩

theorem handler_set {s : σ} {x : IrqSource K V} (inv : (view.contract on off .handler).inv s) (holds : x.Inv on off)
    (stage : x.line.stage = (view.source s).line.stage) (action : x.line.action = (view.source s).line.action)
    (draining : x.line.draining = (view.source s).line.draining) (phase : x.phase = (view.source s).phase) :
    (view.contract on off .handler).inv (view.set x s) ∧ (view.contract on off .handler).guarantee s (view.set x s) := by
  refine view.party_set inv holds fun v other => ?_
  cases v with
  | handler => exact absurd rfl other
  | thread =>
    rw [Kept, view.source_set]
    exact stage
  | driver => exact view.kept_driver_set action draining phase

theorem thread_set {s : σ} {x : IrqSource K V} (inv : (view.contract on off .thread).inv s) (holds : x.Inv on off)
    (hard : x.line.hard = (view.source s).line.hard) (action : x.line.action = (view.source s).line.action)
    (draining : x.line.draining = (view.source s).line.draining) (phase : x.phase = (view.source s).phase) :
    (view.contract on off .thread).inv (view.set x s) ∧ (view.contract on off .thread).guarantee s (view.set x s) := by
  refine view.party_set inv holds fun v other => ?_
  cases v with
  | handler =>
    rw [Kept, view.source_set]
    exact hard
  | thread => exact absurd rfl other
  | driver => exact view.kept_driver_set action draining phase

theorem handlerProgram_triple {mask : Program σ ι Unit}
    (masks : (view.contract on off .handler).Triple view.Inside mask fun _ => view.Inside) :
    (view.contract on off .handler).Triple (fun _ => True) (view.handlerProgram mask) fun _ _ => True := by
  apply Contract.Triple.bind (M := fun _ => view.Inside)
  · apply Contract.Triple.access (view.stable_true _) fun _ => view.stable_inside
    intro s _ u s' _ inv _ taken _
    rcases Option.map_eq_some_iff.mp taken with ⟨x, entered, same⟩
    cases same
    rcases inv.1.enterHandler entered with ⟨holds, inside⟩
    simp only [IrqSource.enterHandler, IrqLine.enterHandler] at entered
    split at entered
    · cases entered
      have set := view.handler_set inv holds rfl rfl rfl rfl
      refine ⟨set.1, set.2, ?_⟩
      rw [Inside, view.source_set]
    · cases entered
  · intro _
    apply Contract.Triple.bind masks
    intro _
    apply Contract.Triple.modify view.stable_inside (view.stable_true _)
    intro s _ inv inside _
    have set := view.handler_set inv (inv.1.leaveHandler inside) rfl rfl rfl rfl
    exact ⟨set.1, set.2, True.intro⟩

theorem threadProgram_triple {body : Program σ ι Unit}
    (rearms : (view.contract on off .thread).Triple (view.AtStage .working) body fun _ => view.AtStage .rearmed) :
    (view.contract on off .thread).Triple (fun _ => True) (view.threadProgram body) fun _ _ => True := by
  apply Contract.Triple.bind (M := fun _ => view.AtStage .working)
  · apply Contract.Triple.access (view.stable_true _) fun _ => view.stable_atStage .working
    intro s _ u s' _ inv _ taken _
    rcases Option.map_eq_some_iff.mp taken with ⟨x, entered, same⟩
    cases same
    rcases inv.1.enterThread entered with ⟨holds, inside⟩
    simp only [IrqSource.enterThread, IrqLine.enterThread] at entered
    split at entered
    · cases entered
      have set := view.thread_set inv holds rfl rfl rfl rfl
      refine ⟨set.1, set.2, ?_⟩
      rw [AtStage, view.source_set]
    · cases entered
  · intro _
    apply Contract.Triple.bind rearms
    intro _
    apply Contract.Triple.modify (view.stable_atStage .rearmed) (view.stable_true _)
    intro s _ inv inside _
    have set := view.thread_set inv (inv.1.leaveThread inside) rfl rfl rfl rfl
    exact ⟨set.1, set.2, True.intro⟩

/-- The handler's own write to the register. -/
theorem mask_triple (v : V) : (view.contract on off .handler).Triple view.Inside
    (.modify fun s => view.set ((view.source s).write v) s : Program σ ι Unit) fun _ => view.Inside := by
  apply Contract.Triple.modify view.stable_inside view.stable_inside
  intro s _ inv inside _
  have set := view.handler_set inv (inv.1.handler_write inside v) rfl rfl rfl rfl
  refine ⟨set.1, set.2, ?_⟩
  rw [Inside, view.source_set]
  exact inside

theorem rearm_triple : (view.contract on off .thread).Triple (view.AtStage .working)
    (.modify fun s => view.set ((view.source s).rearm on) s : Program σ ι Unit) fun _ => view.AtStage .rearmed := by
  apply Contract.Triple.modify (view.stable_atStage .working) (view.stable_atStage .rearmed)
  intro s _ inv inside _
  have set := view.thread_set inv (inv.1.rearm inside) rfl rfl rfl rfl
  refine ⟨set.1, set.2, ?_⟩
  rw [AtStage, view.source_set]
  rfl

/-- An access of the driver that leaves handler and thread to themselves. -/
theorem driver_keeps {s s' : σ} (hard : (view.source s').line.hard = (view.source s).line.hard)
    (stage : (view.source s').line.stage = (view.source s).line.stage) :
    (view.contract on off .driver).guarantee s s' := by
  intro v other
  cases v with
  | handler => exact hard
  | thread => exact stage
  | driver => exact absurd rfl other

end IrqView

end OpenNic
