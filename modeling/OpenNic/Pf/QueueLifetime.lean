import OpenNic.Pf.Live

namespace OpenNic

/-- What the safety of the queues depends on: the objects in the entries, which objects are there and which
    have contexts in the hardware. -/
structure LiveView where
  numTxQueues : Nat
  tx : Nat → Option Nat
  rx : Nat → Option Nat
  queue : Nat → Bool
  context : Nat → Bool
  next : Nat
  qidOf : Nat → Option Nat
  filling : Option Nat
  txUp : Bool

namespace LiveView

/-- No receive queue is being made. -/
def Idle (v : LiveView) : Prop := v.filling = none

def Programmed (v : LiveView) (qid : Nat) : Prop := ∃ obj, v.qidOf obj = some qid ∧ v.context obj = true

/-- Contexts belong to the object in the entry of their queue, or to one that is being filled; while `txUp` holds
    every transmit queue is there. -/
structure Sound (v : LiveView) : Prop where
  programmed : ∀ obj qid, v.qidOf obj = some qid → v.context obj = true →
    v.filling = some qid ∨ v.rx qid = some obj ∧ v.queue obj = true
  txUp : v.txUp = true → ∀ i, i < v.numTxQueues → ∃ obj, v.tx i = some obj ∧ v.queue obj = true
  unpublished : ∀ qid, v.filling = some qid → v.rx qid = none
  rxOwner : ∀ qid obj, v.rx qid = some obj → v.qidOf obj = some qid
  txOwner : ∀ qid obj, v.tx qid = some obj → v.qidOf obj = none ∧ obj < v.next
  txApart : ∀ i j obj, v.tx i = some obj → v.tx j = some obj → i = j
  young : ∀ obj, v.next ≤ obj → v.qidOf obj = none ∧ v.context obj = false

def allocated (v : LiveView) : LiveView := { v with queue := Function.update v.queue v.next true, next := v.next + 1 }

def startFilling (obj qid : Nat) (v : LiveView) : LiveView :=
  { v with qidOf := Function.update v.qidOf obj (some qid), filling := some qid }

def stopFilling (v : LiveView) : LiveView := { v with filling := none }

def withContext (obj : Nat) (there : Bool) (v : LiveView) : LiveView :=
  { v with context := Function.update v.context obj there }

def withoutQueue (obj : Nat) (v : LiveView) : LiveView := { v with queue := Function.update v.queue obj false }

def withTx (qid : Nat) (obj : Option Nat) (v : LiveView) : LiveView := { v with tx := Function.update v.tx qid obj }

def withRx (qid : Nat) (obj : Option Nat) (v : LiveView) : LiveView := { v with rx := Function.update v.rx qid obj }

def withTxUp (up : Bool) (v : LiveView) : LiveView := { v with txUp := up }

/-- An object that is in no entry and belongs to no receive queue. -/
structure Spare (obj : Nat) (v : LiveView) : Prop where
  qidOf : v.qidOf obj = none
  old : obj < v.next
  queue : v.queue obj = true
  tx : ∀ i, v.tx i ≠ some obj

variable {v : LiveView} {obj qid : Nat}

theorem Sound.allocated (sound : v.Sound) :
    v.allocated.Sound ∧ v.allocated.Spare v.next ∧ v.allocated.context v.next = false := by
  have keeps {o : Nat} (there : v.queue o = true) : v.allocated.queue o = true := by
    by_cases new : o = v.next <;> simp [LiveView.allocated, new, there]
  have young := sound.young v.next (Nat.le_refl _)
  refine ⟨⟨?_, ?_, sound.unpublished, sound.rxOwner, ?_, sound.txApart, ?_⟩, ?_⟩
  · intro o q owner there
    rcases sound.programmed o q owner there with filling | ⟨entry, queue⟩
    · exact Or.inl filling
    · exact Or.inr ⟨entry, keeps queue⟩
  · intro up i less
    rcases sound.txUp up i less with ⟨o, entry, queue⟩
    exact ⟨o, entry, keeps queue⟩
  · intro i o entry
    have old := sound.txOwner i o entry
    exact ⟨old.1, Nat.lt_succ_of_lt old.2⟩
  · exact fun o above => sound.young o (Nat.le_of_succ_le above)
  · refine ⟨⟨young.1, Nat.lt_succ_self _, by simp [LiveView.allocated], fun i entry => ?_⟩, young.2⟩
    exact Nat.lt_irrefl _ (sound.txOwner i v.next entry).2

theorem Sound.startFilling (sound : v.Sound) (idle : v.Idle) (empty : v.rx qid = none) (spare : v.Spare obj)
    (context : v.context obj = false) : (v.startFilling obj qid).Sound := by
  have other {o : Nat} {q : Nat} (owner : v.qidOf o = some q) : o ≠ obj := by
    rintro rfl
    rw [spare.qidOf] at owner
    cases owner
  refine ⟨?_, sound.txUp, ?_, ?_, ?_, sound.txApart, ?_⟩
  · intro o q owner there
    by_cases own : o = obj
    · rw [own, show (v.startFilling obj qid).context obj = false from context] at there
      cases there
    · have owner' : v.qidOf o = some q := by simpa [LiveView.startFilling, own] using owner
      rcases sound.programmed o q owner' there with filling | entry
      · rw [idle] at filling
        cases filling
      · exact Or.inr entry
  · rintro q ⟨⟩
    exact empty
  · intro q o entry
    have owner := sound.rxOwner q o entry
    simp [LiveView.startFilling, other owner, owner]
  · intro i o entry
    have ne : o ≠ obj := fun same => spare.tx i (same ▸ entry)
    simpa [LiveView.startFilling, ne] using sound.txOwner i o entry
  · intro o above
    have ne : o ≠ obj := fun same => Nat.lt_irrefl _ (Nat.lt_of_lt_of_le spare.old (same ▸ above))
    simpa [LiveView.startFilling, ne] using sound.young o above

/-- Contexts are made for an object that is being filled, or for one of a transmit queue. -/
theorem Sound.makeContext (sound : v.Sound) (old : obj < v.next)
    (owner : ∀ q, v.qidOf obj = some q → v.filling = some q) : (v.withContext obj true).Sound := by
  refine ⟨?_, sound.txUp, sound.unpublished, sound.rxOwner, sound.txOwner, sound.txApart, ?_⟩
  · intro o q ownerOf there
    by_cases own : o = obj
    · subst own
      exact Or.inl (owner q ownerOf)
    · exact sound.programmed o q ownerOf (by simpa [withContext, own] using there)
  · intro o above
    have ne : o ≠ obj := fun same => Nat.lt_irrefl _ (Nat.lt_of_lt_of_le old (same ▸ above))
    simpa [withContext, ne] using sound.young o above

theorem Sound.clearContext (sound : v.Sound) : (v.withContext obj false).Sound := by
  have less {o : Nat} (there : (v.withContext obj false).context o = true) : v.context o = true := by
    by_cases own : o = obj
    · simp [withContext, own] at there
    · simpa [withContext, own] using there
  refine ⟨fun o q owner there => sound.programmed o q owner (less there), sound.txUp, sound.unpublished, sound.rxOwner,
    sound.txOwner, sound.txApart, ?_⟩
  intro o above
  have young := sound.young o above
  refine ⟨young.1, ?_⟩
  by_contra there
  rw [Bool.not_eq_false] at there
  rw [less there] at young
  exact Bool.noConfusion young.2

/-- An object is freed once its contexts are gone. -/
theorem Sound.freeQueue (sound : v.Sound) (cleared : v.context obj = false ∨ v.qidOf obj = none)
    (tx : v.txUp = false ∨ ∀ i, v.tx i ≠ some obj) : (v.withoutQueue obj).Sound := by
  have keeps {o : Nat} (ne : o ≠ obj) (there : v.queue o = true) : (v.withoutQueue obj).queue o = true := by
    simp [withoutQueue, ne, there]
  refine ⟨?_, ?_, sound.unpublished, sound.rxOwner, sound.txOwner, sound.txApart, sound.young⟩
  · intro o q owner there
    rcases sound.programmed o q owner there with filling | ⟨entry, queue⟩
    · exact Or.inl filling
    · refine Or.inr ⟨entry, keeps ?_ queue⟩
      rintro rfl
      rcases cleared with gone | none
      · rw [show v.context o = true from there] at gone
        cases gone
      · rw [show v.qidOf o = some q from owner] at none
        cases none
  · intro up i less
    rcases tx with down | apart
    · rw [show v.txUp = true from up] at down
      cases down
    · rcases sound.txUp up i less with ⟨o, entry, queue⟩
      exact ⟨o, entry, keeps (fun same => apart i (same ▸ entry)) queue⟩

theorem Sound.publishTx (sound : v.Sound) (down : v.txUp = false) (qidOf : v.qidOf obj = none) (old : obj < v.next)
    (apart : ∀ i, v.tx i ≠ some obj) : (v.withTx qid (some obj)).Sound := by
  refine ⟨sound.programmed, ?_, sound.unpublished, sound.rxOwner, ?_, ?_, sound.young⟩
  · intro up
    rw [show v.txUp = true from up] at down
    cases down
  · intro i o entry
    by_cases own : i = qid
    · have same : obj = o := by simpa [withTx, own] using entry
      exact same ▸ ⟨qidOf, old⟩
    · exact sound.txOwner i o (by simpa [withTx, own] using entry)
  · intro i j o first second
    by_cases own : i = qid <;> by_cases own' : j = qid
    · exact own.trans own'.symm
    · have same : obj = o := by simpa [withTx, own] using first
      exact absurd (by simpa [withTx, own', same] using second) (apart j)
    · have same : obj = o := by simpa [withTx, own'] using second
      exact absurd (by simpa [withTx, own, same] using first) (apart i)
    · exact sound.txApart i j o (by simpa [withTx, own] using first) (by simpa [withTx, own'] using second)

theorem Sound.unsetTx (sound : v.Sound) (down : v.txUp = false) : (v.withTx qid none).Sound := by
  have before {i o : Nat} (entry : (v.withTx qid none).tx i = some o) : v.tx i = some o := by
    by_cases own : i = qid
    · simp [withTx, own] at entry
    · simpa [withTx, own] using entry
  refine ⟨sound.programmed, ?_, sound.unpublished, sound.rxOwner, fun i o entry => sound.txOwner i o (before entry),
    fun i j o first second => sound.txApart i j o (before first) (before second), sound.young⟩
  intro up
  rw [show v.txUp = true from up] at down
  cases down

theorem Sound.publishRx (sound : v.Sound) (filling : v.filling = some qid) (owner : v.qidOf obj = some qid)
    (queue : v.queue obj = true) (only : ∀ o, v.qidOf o = some qid → v.context o = true → o = obj) :
    (v.withRx qid (some obj)).stopFilling.Sound := by
  refine ⟨?_, sound.txUp, nofun, ?_, sound.txOwner, sound.txApart, sound.young⟩
  · intro o q ownerOf there
    right
    by_cases own : q = qid
    · subst own
      have same := only o ownerOf there
      subst same
      exact ⟨by simp [withRx, LiveView.stopFilling], queue⟩
    · rcases sound.programmed o q ownerOf there with other | ⟨entry, queue'⟩
      · rw [filling] at other
        exact absurd (Option.some.inj other).symm own
      · exact ⟨by simpa [withRx, LiveView.stopFilling, own] using entry, queue'⟩
  · intro q o entry
    by_cases own : q = qid
    · have same : obj = o := by simpa [withRx, LiveView.stopFilling, own] using entry
      subst own same
      exact owner
    · exact sound.rxOwner q o (by simpa [withRx, LiveView.stopFilling, own] using entry)

theorem Sound.unsetRx (sound : v.Sound) (off : ¬ v.Programmed qid) : (v.withRx qid none).Sound := by
  have before {q o : Nat} (entry : (v.withRx qid none).rx q = some o) : v.rx q = some o := by
    by_cases own : q = qid
    · simp [withRx, own] at entry
    · simpa [withRx, own] using entry
  refine ⟨?_, sound.txUp, ?_, fun q o entry => sound.rxOwner q o (before entry), sound.txOwner, sound.txApart,
    sound.young⟩
  · intro o q owner there
    have own : q ≠ qid := fun same => off ⟨o, same ▸ owner, there⟩
    rcases sound.programmed o q owner there with filling | ⟨entry, queue⟩
    · exact Or.inl filling
    · exact Or.inr ⟨by simpa [withRx, own] using entry, queue⟩
  · intro q filling
    by_cases own : q = qid
    · simp [withRx, own]
    · simpa [withRx, own] using sound.unpublished q filling

theorem Sound.stopFilling (sound : v.Sound) (off : ∀ q, v.filling = some q → ¬ v.Programmed q) :
    v.stopFilling.Sound := by
  refine ⟨?_, sound.txUp, nofun, sound.rxOwner, sound.txOwner, sound.txApart, sound.young⟩
  intro o q owner there
  rcases sound.programmed o q owner there with filling | entry
  · exact absurd ⟨o, owner, there⟩ (off q filling)
  · exact Or.inr entry

theorem Sound.setTxUp (sound : v.Sound) {up : Bool}
    (all : up = true → ∀ i, i < v.numTxQueues → ∃ obj, v.tx i = some obj ∧ v.queue obj = true) :
    (v.withTxUp up).Sound :=
  ⟨sound.programmed, all, sound.unpublished, sound.rxOwner, sound.txOwner, sound.txApart, sound.young⟩

end LiveView

namespace PfLive

def view (s : PfLive) : LiveView where
  numTxQueues := s.dev.numTxQueues
  tx i := (s.dev.txQueue i).map PfTxQueue.obj
  rx i := (s.dev.rxQueue i).map PfRxQueue.obj
  queue obj := s.dev.hold.held ⟨obj, .queue⟩
  context obj := s.dev.hold.held ⟨obj, .context⟩
  next := s.dev.next
  qidOf := s.qidOf
  filling := s.filling
  txUp := s.txUp

/-- Nothing was misused, and an armed queue has its contexts. -/
structure Inv (s : PfLive) : Prop where
  misuses : s.misuses = []
  armed : ∀ qid, s.dev.armed qid = true → s.view.Programmed qid
  sound : s.view.Sound

/-- The driver runs beside handlers and polls, which arm interrupts and use queues. -/
def contract : Contract PfLive where
  ok _ := True
  inv := Inv
  rely s s' := ∃ armed misuses, s' = { s with dev := { s.dev with armed := armed }, misuses := misuses }
  guarantee _ _ := True
  rely_refl s := ⟨s.dev.armed, s.misuses, rfl⟩
  rely_trans := by
    rintro a b c ⟨armed, misuses, rfl⟩ ⟨armed', misuses', rfl⟩
    exact ⟨armed', misuses', rfl⟩
  guarantee_refl _ := True.intro

/-- An assertion about the view. -/
def At (X : LiveView → Prop) (s : PfLive) : Prop := X s.view

theorem stable_at (X : LiveView → Prop) : contract.Stable (At X) := by
  rintro s s' holds ⟨armed, misuses, rfl⟩ - -
  exact holds

section

variable {α β : Type} {X Y : LiveView → Prop}

theorem done_triple {a : α} {Y : α → LiveView → Prop} (implies : ∀ v, v.Sound → X v → Y a v) :
    contract.Triple (At X) (.done a : Program PfLive PfFails α) fun a => At (Y a) :=
  .done (stable_at X) fun s inv holds => implies s.view inv.sound holds

theorem note_triple {f : PfLive → PfLive} (h : ∀ s : PfLive, s.Inv → X s.view → (f s).Inv ∧ Y (f s).view) :
    contract.Triple (At X) (.modify f : Program PfLive PfFails Unit) fun _ => At Y :=
  .modify (stable_at X) (stable_at Y) fun s _ inv holds _ => ⟨(h s inv holds).1, True.intro, (h s inv holds).2⟩

theorem access_triple {act : PfFails → PfNetdev → Option (α × PfNetdev)} {Y : α → LiveView → Prop}
    (h : ∀ (s : PfLive) errno a d, s.Inv → X s.view → act errno s.dev = some (a, d) →
      (s.setDev d).Inv ∧ Y a (s.setDev d).view) :
    contract.Triple (At X) (onDev (.access act)) fun a => At (Y a) := by
  apply Contract.Triple.access (stable_at X) fun a => stable_at (Y a)
  intro s errno a s' _ inv holds taken _
  rcases Option.map_eq_some_iff.mp taken with ⟨⟨b, d⟩, ran, same⟩
  cases same
  have after := h s errno b d inv holds ran
  exact ⟨after.1, True.intro, after.2⟩

theorem modify_triple {f : PfNetdev → PfNetdev}
    (h : ∀ s : PfLive, s.Inv → X s.view → (s.setDev (f s.dev)).Inv ∧ Y (s.setDev (f s.dev)).view) :
    contract.Triple (At X) (onDev (.modify f)) fun _ => At Y := by
  apply access_triple
  rintro s _ _ _ inv holds ⟨⟩
  exact h s inv holds

theorem read_triple {f : PfNetdev → α} {Y : α → LiveView → Prop}
    (h : ∀ s : PfLive, s.Inv → X s.view → Y (f s.dev) s.view) :
    contract.Triple (At X) (onDev (.read f)) fun a => At (Y a) := by
  apply access_triple
  rintro s _ _ _ inv holds ⟨⟩
  exact ⟨inv, h s inv holds⟩

theorem bind_triple {p : Program PfNetdev PfFails α} {f : α → Program PfNetdev PfFails β} {M : α → LiveView → Prop}
    {post : β → PfLive → Prop} (first : contract.Triple (At X) (onDev p) fun a => At (M a))
    (rest : ∀ a, contract.Triple (At (M a)) (onDev (f a)) post) : contract.Triple (At X) (onDev (p >>= f)) post := by
  rw [onDev, Program.lift_bind]
  exact .bind first rest

/-- A step that the view does not show. -/
structure Quiet (d d' : PfNetdev) : Prop where
  armed : d'.armed = d.armed
  view : ∀ s : PfLive, (s.setDev d').view = (s.setDev d).view

theorem Quiet.inv {s : PfLive} {d : PfNetdev} (quiet : Quiet s.dev d) (inv : s.Inv) : (s.setDev d).Inv := by
  have same : (s.setDev d).view = s.view := quiet.view s
  refine ⟨inv.misuses, fun qid armed => ?_, ?_⟩
  · rw [same]
    exact inv.armed qid (quiet.armed ▸ armed)
  · rw [same]
    exact inv.sound

theorem quiet_triple {p : Program PfNetdev PfFails α} (steps : p.Steps Quiet) :
    contract.Triple (At X) (onDev p) fun _ => At X := by
  apply Contract.Triple.lift_steps steps (stable_at X)
  intro d s _ inv holds quiet _
  have same : (s.setDev d).view = s.view := quiet.view s
  refine ⟨quiet.inv inv, True.intro, ?_⟩
  rw [At, same]
  exact holds

/-- The view does not show this part of a queue. -/
abbrev Hidden (part : PfPart) : Prop := part ≠ .queue ∧ part ≠ .context

theorem page_hidden (slot : Nat) : Hidden (.page slot) := ⟨nofun, nofun⟩

theorem quiet_hold {obj : Nat} {part : PfPart} (hidden : Hidden part) (d : PfNetdev)
    {hold : Holdings PfRes} (others : ∀ res, res ≠ ⟨obj, part⟩ → hold.held res = d.hold.held res) :
    Quiet d { d with hold := hold } := by
  have queue (o : Nat) : hold.held ⟨o, .queue⟩ = d.hold.held ⟨o, .queue⟩ :=
    others _ fun same => hidden.1 (congrArg PfRes.part same).symm
  have context (o : Nat) : hold.held ⟨o, .context⟩ = d.hold.held ⟨o, .context⟩ :=
    others _ fun same => hidden.2 (congrArg PfRes.part same).symm
  refine ⟨rfl, fun s => ?_⟩
  simp only [view, setDev, queue, context]

theorem quiet_acquire {obj : Nat} {part : PfPart} (hidden : Hidden part) (d : PfNetdev) :
    Quiet d (d.acquire ⟨obj, part⟩) :=
  quiet_hold hidden d fun _ ne => Function.update_of_ne ne _ _

theorem free_quiet {obj : Nat} {part : PfPart} (hidden : Hidden part) :
    (PfNetdev.free ⟨obj, part⟩).Steps Quiet :=
  .modify fun d => quiet_hold hidden d fun _ ne => Function.update_of_ne ne _ _

/-- An access that acquires the resource or fails with an error. -/
theorem acquire_triple {obj : Nat} {part : PfPart} {act : PfFails → PfNetdev → Option (Int × PfNetdev)}
    (hidden : Hidden part)
    (acts : ∀ errno d rv d', act errno d = some (rv, d') → rv ≤ 0 ∧ (d' = d.acquire ⟨obj, part⟩ ∨ d' = d)) :
    contract.Triple (At X) (onDev (.access act)) fun rv => At fun v => rv ≤ 0 ∧ X v := by
  apply access_triple
  intro s errno rv d inv holds taken
  rcases acts errno s.dev rv d taken with ⟨small, rfl | rfl⟩
  · have quiet : Quiet s.dev (s.dev.acquire ⟨obj, part⟩) := quiet_acquire hidden s.dev
    have same : (s.setDev (s.dev.acquire ⟨obj, part⟩)).view = s.view := quiet.view s
    refine ⟨quiet.inv inv, small, ?_⟩
    rw [same]
    exact holds
  · exact ⟨inv, small, holds⟩

theorem alloc_triple {obj : Nat} {part : PfPart} (hidden : Hidden part) (step : PfStep) :
    contract.Triple (At X) (onDev (PfNetdev.alloc step ⟨obj, part⟩)) fun rv => At fun v => rv ≤ 0 ∧ X v := by
  apply acquire_triple hidden
  intro errno d rv d' taken
  split at taken <;> cases taken
  · exact ⟨Int.le_refl 0, Or.inl rfl⟩
  · exact ⟨by decide, Or.inr rfl⟩

theorem command_triple {obj : Nat} {part : PfPart} (hidden : Hidden part) (step : PfStep) :
    contract.Triple (At X) (onDev (PfNetdev.command step ⟨obj, part⟩)) fun rv => At fun v => rv ≤ 0 ∧ X v := by
  apply acquire_triple hidden
  intro errno d rv d' taken
  split at taken <;> cases taken
  · exact ⟨Int.le_refl 0, Or.inl rfl⟩
  · exact ⟨by omega, Or.inr rfl⟩

theorem untilErr_triple {body : Nat → Program PfNetdev PfFails Int} (lo count : Nat)
    (each : ∀ i, contract.Triple (At X) (onDev (body i)) fun rv => At fun v => rv ≤ 0 ∧ X v) :
    contract.Triple (At X) (onDev (.untilErr body lo count)) fun rv => At fun v => rv ≤ 0 ∧ X v := by
  induction count generalizing lo with
  | zero => exact done_triple fun v _ holds => ⟨Int.le_refl 0, holds⟩
  | succ count ih =>
    apply bind_triple (each lo)
    intro rv
    by_cases failed : rv = 0
    · rw [if_neg (by simpa using failed)]
      exact .from_pre (At X) (fun _ _ h => h.2) (ih (lo + 1))
    · rw [if_pos failed]
      exact done_triple fun _ _ h => h

theorem fold_triple {body : Nat → Unit → Program PfNetdev PfFails Unit} (lo count : Nat)
    (each : ∀ i, contract.Triple (At X) (onDev (body i ())) fun _ => At X) :
    contract.Triple (At X) (onDev (.fold body lo count ())) fun _ => At X := by
  induction count generalizing lo with
  | zero => exact done_triple fun _ _ h => h
  | succ count ih => exact bind_triple (each lo) fun _ => ih (lo + 1)

/-- All programs but the last settle what they do; `post` is what the last one, or a failure, leaves. -/
theorem inTurn_triple (ps : List (Program PfNetdev PfFails Int)) {last : Program PfNetdev PfFails Int}
    {post : Int → LiveView → Prop}
    (each : ∀ p ∈ ps, contract.Triple (At X) (onDev p) fun rv => At fun v => rv ≤ 0 ∧ X v)
    (final : contract.Triple (At X) (onDev last) fun rv => At (post rv))
    (fails : ∀ rv v, rv < 0 → X v → post rv v) :
    contract.Triple (At X) (onDev (.inTurn (ps ++ [last]))) fun rv => At (post rv) := by
  induction ps with
  | nil =>
    apply bind_triple final
    intro rv
    by_cases failed : rv = 0
    · subst failed
      exact done_triple fun _ _ h => h
    · rw [if_pos failed]
      exact done_triple fun _ _ h => h
  | cons p ps ih =>
    apply bind_triple (each p List.mem_cons_self)
    intro rv
    by_cases failed : rv = 0
    · rw [if_neg (by simpa using failed)]
      exact .from_pre (At X) (fun _ _ h => h.2) (ih fun q mem => each q (List.mem_cons_of_mem p mem))
    · rw [if_pos failed]
      exact done_triple fun v _ h => fails rv v (by omega) h.2

theorem createPagePool_triple (qid obj : Nat) :
    contract.Triple (At X) (onDev (PfNetdev.onicCreatePagePool qid obj)) fun rv => At fun v => rv ≤ 0 ∧ X v := by
  have freed (part : PfPart) (hidden : Hidden part) {Y : LiveView → Prop} :
      contract.Triple (At Y) (onDev (PfNetdev.free ⟨obj, part⟩)) fun _ => At Y :=
    quiet_triple (free_quiet hidden)
  apply bind_triple (command_triple (by decide) _)
  intro rv
  split
  · exact done_triple fun _ _ h => h
  · apply bind_triple (.from_pre (At X) (fun _ _ h => h.2) (command_triple (by decide) _))
    intro rv
    split
    · apply bind_triple (freed .pool (by decide))
      intro _
      exact done_triple fun _ _ h => h
    · apply bind_triple (M := fun _ => X)
      · apply access_triple
        rintro s _ _ _ inv holds ⟨⟩
        exact ⟨inv, holds.2⟩
      · intro errno
        split
        · apply bind_triple (freed .rxqInfo (by decide))
          intro _
          apply bind_triple (freed .pool (by decide))
          intro _
          exact done_triple fun _ _ h => ⟨by omega, h⟩
        · exact done_triple fun _ _ h => ⟨Int.le_refl 0, h⟩

end

section

variable {obj qid : Nat}

theorem view_context (s : PfLive) (obj : Nat) {hold : Holdings PfRes} {there : Bool}
    (held : hold.held = Function.update s.dev.hold.held ⟨obj, .context⟩ there) :
    (s.setDev { s.dev with hold := hold }).view = s.view.withContext obj there := by
  have context : (fun o => hold.held ⟨o, .context⟩) =
      Function.update (fun o => s.dev.hold.held ⟨o, .context⟩) obj there := by
    funext o
    rw [held]
    by_cases own : o = obj <;> simp [own]
  have queue : (fun o => hold.held ⟨o, .queue⟩) = fun o => s.dev.hold.held ⟨o, .queue⟩ := by
    funext o
    simp [held]
  simp only [view, setDev, LiveView.withContext, context, queue]

theorem view_free_queue (s : PfLive) (obj : Nat) :
    (s.setDev (s.dev.release ⟨obj, .queue⟩)).view = s.view.withoutQueue obj := by
  have queue : (fun o => (s.dev.hold.release ⟨obj, .queue⟩).held ⟨o, .queue⟩) =
      Function.update (fun o => s.dev.hold.held ⟨o, .queue⟩) obj false := by
    funext o
    by_cases own : o = obj <;> simp [Holdings.release, own]
  have context : (fun o => (s.dev.hold.release ⟨obj, .queue⟩).held ⟨o, .context⟩) =
      fun o => s.dev.hold.held ⟨o, .context⟩ := by
    funext o
    simp [Holdings.release]
  simp only [view, setDev, LiveView.withoutQueue, PfNetdev.release, context, queue]

theorem view_setTx (s : PfLive) (qid : Nat) (q : Option PfTxQueue) :
    (s.setDev (s.dev.setTx qid q)).view = s.view.withTx qid (q.map PfTxQueue.obj) := by
  have tx : (fun i => (Function.update s.dev.txQueue qid q i).map PfTxQueue.obj) =
      Function.update (fun i => (s.dev.txQueue i).map PfTxQueue.obj) qid (q.map PfTxQueue.obj) := by
    funext i
    by_cases own : i = qid
    · subst own
      simp
    · simp [own]
  simp only [view, setDev, LiveView.withTx, PfNetdev.setTx, tx]

theorem view_setRx (s : PfLive) (qid : Nat) (q : Option PfRxQueue) :
    (s.setDev (s.dev.setRx qid q)).view = s.view.withRx qid (q.map PfRxQueue.obj) := by
  have rx : (fun i => (Function.update s.dev.rxQueue qid q i).map PfRxQueue.obj) =
      Function.update (fun i => (s.dev.rxQueue i).map PfRxQueue.obj) qid (q.map PfRxQueue.obj) := by
    funext i
    by_cases own : i = qid
    · subst own
      simp
    · simp [own]
  simp only [view, setDev, LiveView.withRx, PfNetdev.setRx, rx]

theorem view_kzalloc (s : PfLive) :
    (s.setDev { s.dev.acquire ⟨s.dev.next, .queue⟩ with next := s.dev.next + 1 }).view = s.view.allocated := by
  have queue : (fun o => (s.dev.hold.acquire ⟨s.dev.next, .queue⟩).held ⟨o, .queue⟩) =
      Function.update (fun o => s.dev.hold.held ⟨o, .queue⟩) s.dev.next true := by
    funext o
    by_cases own : o = s.dev.next <;> simp [Holdings.acquire, own]
  have context : (fun o => (s.dev.hold.acquire ⟨s.dev.next, .queue⟩).held ⟨o, .context⟩) =
      fun o => s.dev.hold.held ⟨o, .context⟩ := by
    funext o
    simp [Holdings.acquire]
  simp only [view, setDev, LiveView.allocated, PfNetdev.acquire, context, queue]

/-- A step of the driver that neither arms an interrupt nor takes contexts away. -/
theorem Inv.moved {s s' : PfLive} {v : LiveView} (inv : s.Inv) (same : s'.view = v) (misuses : s'.misuses = s.misuses)
    (armed : s'.dev.armed = s.dev.armed) (keeps : ∀ q, s.view.Programmed q → v.Programmed q) (sound : v.Sound) :
    s'.Inv := by
  subst same
  exact ⟨misuses.trans inv.misuses, fun q on => keeps q (inv.armed q (armed ▸ on)), sound⟩

theorem kzalloc_triple {X : LiveView → Prop} (step : PfStep) (mono : ∀ v, X v → X v.allocated) :
    contract.Triple (At X) (onDev (PfNetdev.kzalloc step)) fun found =>
      At fun v => X v ∧ ∀ obj, found = some obj → v.Spare obj ∧ v.context obj = false := by
  apply access_triple
  intro s errno found d inv holds taken
  split at taken
  · cases taken
    have alloc := inv.sound.allocated
    have same := view_kzalloc s
    refine ⟨inv.moved same rfl rfl (fun _ on => on) alloc.1, same ▸ mono _ holds, ?_⟩
    rintro obj ⟨⟩
    rw [same]
    exact alloc.2
  · cases taken
    exact ⟨inv, holds, nofun⟩

theorem freeQueue_triple {X : LiveView → Prop}
    (free : ∀ v, v.Sound → X v → (v.withoutQueue obj).Sound ∧ X (v.withoutQueue obj)) :
    contract.Triple (At X) (onDev (PfNetdev.free ⟨obj, .queue⟩)) fun _ => At X := by
  apply modify_triple
  intro s inv holds
  have same := view_free_queue s obj
  have freed := free s.view inv.sound holds
  exact ⟨inv.moved same rfl rfl (fun _ on => on) freed.1, same ▸ freed.2⟩

/-- A part that the view does not show is freed where it is there. -/
theorem freed_then {β : Type} {X : LiveView → Prop} {k : Unit → Program PfNetdev PfFails β} {post : β → PfLive → Prop}
    {there : Bool} {part : PfPart} (rest : contract.Triple (At X) (onDev (k ())) post) (hidden : Hidden part) :
    contract.Triple (At X) (onDev (if there then PfNetdev.free ⟨obj, part⟩ >>= k else .done () >>= k)) post := by
  cases there with
  | true => exact bind_triple (quiet_triple (free_quiet hidden)) fun _ => rest
  | false => exact rest

theorem setTx_triple {X Y : LiveView → Prop} {q : Option PfTxQueue}
    (h : ∀ v, v.Sound → X v → (v.withTx qid (q.map PfTxQueue.obj)).Sound ∧ Y (v.withTx qid (q.map PfTxQueue.obj))) :
    contract.Triple (At X) (onDev (.modify (PfNetdev.setTx qid q))) fun _ => At Y := by
  apply modify_triple
  intro s inv holds
  have same := view_setTx s qid q
  have after := h s.view inv.sound holds
  exact ⟨inv.moved same rfl rfl (fun _ on => on) after.1, same ▸ after.2⟩

/-- The contexts of a transmit queue are cleared. -/
theorem freeContext_triple {X Y : LiveView → Prop} (tx : ∀ v, v.Sound → X v → v.qidOf obj = none)
    (h : ∀ v, X v → Y (v.withContext obj false)) :
    contract.Triple (At X) (onDev (PfNetdev.free ⟨obj, .context⟩)) fun _ => At Y := by
  apply modify_triple
  intro s inv holds
  have same : (s.setDev (s.dev.release ⟨obj, .context⟩)).view = s.view.withContext obj false := view_context s obj rfl
  refine ⟨inv.moved same rfl rfl ?_ inv.sound.clearContext, same ▸ h _ holds⟩
  rintro q ⟨o, owner, there⟩
  have ne : o ≠ obj := by
    rintro rfl
    rw [tx s.view inv.sound holds] at owner
    cases owner
  exact ⟨o, owner, by simpa [LiveView.withContext, ne] using there⟩

end

end PfLive

/-- The transmit queues below `k` are there, in the phases in which the others may not be. -/
structure LiveView.TxPhase (n k : Nat) (v : LiveView) : Prop where
  size : v.numTxQueues = n
  down : v.txUp = false
  idle : v.Idle
  made : ∀ i, i < k → ∃ obj, v.tx i = some obj ∧ v.queue obj = true

theorem LiveView.TxPhase.mono {n k k' : Nat} {v : LiveView} (phase : v.TxPhase n k) (le : k' ≤ k) : v.TxPhase n k' :=
  ⟨phase.size, phase.down, phase.idle, fun i less => phase.made i (by omega)⟩

theorem LiveView.TxPhase.allocated {n k : Nat} {v : LiveView} (phase : v.TxPhase n k) : v.allocated.TxPhase n k := by
  refine ⟨phase.size, phase.down, phase.idle, fun i less => ?_⟩
  rcases phase.made i less with ⟨o, there, queue⟩
  refine ⟨o, there, ?_⟩
  by_cases new : o = v.next <;> simp [LiveView.allocated, new, queue]

namespace PfLive

open LiveView

theorem clearTx_triple {n k qid : Nat} (le : k ≤ qid) :
    contract.Triple (At (TxPhase n k)) (onDev (PfNetdev.onicClearTxQueue qid)) fun _ =>
      At fun v => v.TxPhase n k ∧ v.tx qid = none := by
  apply bind_triple (M := fun entry v => v.TxPhase n k ∧ v.tx qid = entry.map PfTxQueue.obj)
  · exact read_triple fun s _ phase => ⟨phase, rfl⟩
  · intro entry
    cases entry with
    | none => exact done_triple fun _ _ h => h
    | some q =>
      apply bind_triple (M := fun _ v => v.TxPhase n k ∧ v.tx qid = some q.obj)
      · apply freeContext_triple fun v sound h => (sound.txOwner qid q.obj h.2).1
        exact fun v h => ⟨⟨h.1.size, h.1.down, h.1.idle, h.1.made⟩, h.2⟩
      · intro _
        dsimp only
        refine freed_then (freed_then ?_ (by decide)) (by decide)
        apply bind_triple
        · apply freeQueue_triple
          rintro v sound ⟨phase, entry⟩
          have owner := sound.txOwner qid q.obj entry
          refine ⟨sound.freeQueue (Or.inr owner.1) (Or.inl phase.down),
            ⟨phase.size, phase.down, phase.idle, fun i less => ?_⟩, entry⟩
          rcases phase.made i less with ⟨o, there, queue⟩
          have ne : o ≠ q.obj := fun same => by
            have own := sound.txApart i qid q.obj (same ▸ there) entry
            omega
          exact ⟨o, there, by simp [withoutQueue, ne, queue]⟩
        · intro _
          apply setTx_triple
          rintro v sound ⟨phase, entry⟩
          refine ⟨sound.unsetTx phase.down, ⟨phase.size, phase.down, phase.idle, fun i less => ?_⟩, by simp [withTx]⟩
          have ne : i ≠ qid := by omega
          simpa [withTx, ne] using phase.made i less

/-- The contexts of a queue object are made. -/
theorem makeContext_triple {obj : Nat} {X : LiveView → Prop} {Y : Int → LiveView → Prop} (step : PfStep)
    (own : ∀ v, X v → obj < v.next ∧ ∀ q, v.qidOf obj = some q → v.filling = some q)
    (made : ∀ v, X v → Y 0 (v.withContext obj true)) (failed : ∀ rv v, rv < 0 → X v → Y rv v) :
    contract.Triple (At X) (onDev (PfNetdev.command step ⟨obj, .context⟩)) fun rv => At (Y rv) := by
  apply access_triple
  intro s errno rv d inv holds taken
  split at taken
  · cases taken
    have same : (s.setDev (s.dev.acquire ⟨obj, .context⟩)).view = s.view.withContext obj true := view_context s obj rfl
    have sound := inv.sound.makeContext (own _ holds).1 (own _ holds).2
    refine ⟨inv.moved same rfl rfl ?_ sound, same ▸ made _ holds⟩
    rintro q ⟨o, owner, there⟩
    refine ⟨o, owner, ?_⟩
    by_cases new : o = obj <;> simp [LiveView.withContext, new, there]
  · cases taken
    exact ⟨inv, failed _ _ (by omega) holds⟩

theorem fillTx_triple (n qid obj : Nat) :
    contract.Triple (At fun v => v.TxPhase n qid ∧ v.Spare obj) (onDev (PfNetdev.onicFillTxQueue qid obj)) fun rv =>
      At fun v => rv ≤ 0 ∧ v.TxPhase n qid ∧ v.Spare obj := by
  refine inTurn_triple [_, _] ?_ ?_ ?_
  · intro p mem
    rcases List.mem_cons.mp mem with rfl | mem
    · exact alloc_triple (by decide) _
    · rcases List.mem_singleton.mp mem with rfl
      exact alloc_triple (by decide) _
  · apply makeContext_triple
    · rintro v ⟨-, spare⟩
      refine ⟨spare.old, fun q owner => ?_⟩
      rw [spare.qidOf] at owner
      cases owner
    · rintro v ⟨phase, spare⟩
      exact ⟨Int.le_refl 0, ⟨phase.size, phase.down, phase.idle, phase.made⟩,
        ⟨spare.qidOf, spare.old, spare.queue, spare.tx⟩⟩
    · exact fun rv v negative h => ⟨by omega, h⟩
  · exact fun rv v negative h => ⟨by omega, h⟩

/-- A transmit queue that is there is cleared first. -/
theorem clearedTx_then {n qid : Nat} {p : Program PfNetdev PfFails Int} {there : Bool} {post : Int → PfLive → Prop}
    (rest : contract.Triple (At (TxPhase n qid)) (onDev p) post) :
    contract.Triple (At (TxPhase n qid)) (onDev (if there then PfNetdev.onicClearTxQueue qid >>= fun _ => p
      else .done () >>= fun _ => p)) post := by
  cases there with
  | true =>
    apply bind_triple (.conseq (clearTx_triple (Nat.le_refl qid)) (fun _ _ h => h) fun _ _ _ h => h.1)
    exact fun _ => rest
  | false => exact rest

theorem initTx_triple (n qid : Nat) :
    contract.Triple (At (TxPhase n qid)) (onDev (PfNetdev.onicInitTxQueue qid)) fun rv =>
      At fun v => rv ≤ 0 ∧ v.TxPhase n 0 ∧ (rv = 0 → v.TxPhase n (qid + 1)) := by
  apply bind_triple (M := fun _ => TxPhase n qid) (read_triple fun _ _ phase => phase)
  intro there
  apply clearedTx_then
  apply bind_triple (kzalloc_triple _ fun _ phase => phase.allocated)
  intro found
  cases found with
  | none => exact done_triple fun v _ h => ⟨by decide, h.1.mono (Nat.zero_le _), fun zero => absurd zero (by decide)⟩
  | some obj =>
    apply bind_triple (.from_pre (At fun v => v.TxPhase n qid ∧ v.Spare obj) (fun s _ h => ⟨h.1, (h.2 obj rfl).1⟩)
      (fillTx_triple n qid obj))
    intro rv
    refine .from_pre (fun s => rv ≤ 0 ∧ At (fun v => v.TxPhase n qid ∧ v.Spare obj) s) (fun _ _ h => h)
      (.pure_pre fun small => ?_)
    by_cases failed : rv = 0
    · rw [if_neg (by simpa using failed)]
      apply bind_triple (M := fun _ v => v.TxPhase n (qid + 1))
      · apply setTx_triple
        rintro v sound ⟨phase, spare⟩
        refine ⟨sound.publishTx phase.down spare.qidOf spare.old spare.tx, phase.size, phase.down, phase.idle,
          fun i less => ?_⟩
        by_cases own : i = qid
        · exact ⟨obj, by simp [withTx, own], spare.queue⟩
        · simpa [withTx, own] using phase.made i (by omega)
      · exact fun _ => done_triple fun v _ phase => ⟨Int.le_refl 0, phase.mono (Nat.zero_le _), fun _ => phase⟩
    · rw [if_pos failed]
      apply bind_triple (.from_pre (At (TxPhase n qid)) (fun s _ h => h.1) (clearTx_triple (Nat.le_refl qid)))
      exact fun _ => done_triple fun v _ h => ⟨small, h.1.mono (Nat.zero_le _), fun zero => absurd zero failed⟩

theorem clearDownTx_triple (n qid : Nat) :
    contract.Triple (At (TxPhase n 0)) (onDev (PfNetdev.clearDown PfNetdev.onicClearTxQueue qid)) fun _ =>
      At (TxPhase n 0) := by
  induction qid with
  | zero => exact done_triple fun _ _ h => h
  | succ qid ih =>
    apply bind_triple (.conseq (clearTx_triple (Nat.zero_le qid)) (fun _ _ h => h) fun _ _ _ h => h.1)
    exact fun _ => ih

theorem initTxQueues_triple (n qid left : Nat) :
    contract.Triple (At (TxPhase n qid))
      (onDev (PfNetdev.initResource PfNetdev.onicInitTxQueue PfNetdev.onicClearTxQueue qid left)) fun rv =>
        At fun v => rv ≤ 0 ∧ v.TxPhase n 0 ∧ (rv = 0 → v.TxPhase n (qid + left)) := by
  induction left generalizing qid with
  | zero => exact done_triple fun v _ phase => ⟨Int.le_refl 0, phase.mono (Nat.zero_le _), fun _ => phase⟩
  | succ left ih =>
    apply bind_triple (initTx_triple n qid)
    intro rv
    refine .from_pre (fun s => rv ≤ 0 ∧ At (fun v => v.TxPhase n 0 ∧ (rv = 0 → v.TxPhase n (qid + 1))) s)
      (fun _ _ h => h) (.pure_pre fun small => ?_)
    by_cases fine : rv = 0
    · rw [if_pos fine]
      have rest := ih (qid + 1)
      rw [Nat.add_right_comm, Nat.add_assoc] at rest
      exact .from_pre (At (TxPhase n (qid + 1))) (fun _ _ h => h.2 fine) rest
    · rw [if_neg fine]
      apply bind_triple (.from_pre (At (TxPhase n 0)) (fun _ _ h => h.1) (clearDownTx_triple n qid))
      exact fun _ => done_triple fun v _ phase => ⟨small, phase, fun zero => absurd zero fine⟩

theorem initTxResource_triple :
    contract.Triple (At fun v => v.txUp = false ∧ v.Idle) (onDev PfNetdev.onicInitTxResource) fun rv =>
      At fun v => rv ≤ 0 ∧ ∃ n, v.TxPhase n 0 ∧ (rv = 0 → v.TxPhase n n) := by
  apply bind_triple (M := fun n v => v.TxPhase n 0)
  · exact read_triple fun s _ h => ⟨rfl, h.1, h.2, fun i less => absurd less (Nat.not_lt_zero i)⟩
  · intro n
    have loop := initTxQueues_triple n 0 n
    rw [Nat.zero_add] at loop
    exact loop.conseq (fun _ _ h => h) fun _ _ _ h => ⟨h.1, n, h.2⟩

end PfLive

/-- The entry of the receive queue is set and its contexts are gone. -/
structure LiveView.Clearing (qid obj : Nat) (v : LiveView) : Prop where
  idle : v.Idle
  entry : v.rx qid = some obj
  off : ¬ v.Programmed qid

/-- `obj` is made into receive queue `qid`; no other object has contexts of that queue. -/
structure LiveView.Filling (qid obj : Nat) (v : LiveView) : Prop where
  filling : v.filling = some qid
  empty : v.rx qid = none
  owner : v.qidOf obj = some qid
  old : obj < v.next
  queue : v.queue obj = true
  only : ∀ o, v.qidOf o = some qid → v.context o = true → o = obj

namespace PfLive

open LiveView

theorem disarm_triple (qid obj : Nat) :
    contract.Triple (At fun v => v.Idle ∧ v.rx qid = some obj)
      (onDev (.modify fun s => (s.release ⟨obj, .context⟩).arm qid false)) fun _ => At (Clearing qid obj) := by
  apply modify_triple
  rintro s inv ⟨idle, entry⟩
  have same : (s.setDev ((s.dev.release ⟨obj, .context⟩).arm qid false)).view = s.view.withContext obj false :=
    view_context s obj rfl
  have owner := inv.sound.rxOwner qid obj entry
  have before {o : Nat} (there : (s.view.withContext obj false).context o = true) :
      s.view.context o = true ∧ o ≠ obj := by
    by_cases own : o = obj
    · simp [withContext, own] at there
    · exact ⟨by simpa [withContext, own] using there, own⟩
  refine ⟨⟨inv.misuses, fun q armed => ?_, same ▸ inv.sound.clearContext⟩, ?_⟩
  · rw [same]
    by_cases own : q = qid
    · have off : (s.setDev ((s.dev.release ⟨obj, .context⟩).arm qid false)).dev.armed q = false := by
        simp [setDev, PfNetdev.arm, own]
      rw [off] at armed
      cases armed
    · have on : s.dev.armed q = true := by simpa [setDev, PfNetdev.arm, PfNetdev.release, own] using armed
      rcases inv.armed q on with ⟨o, ownerOf, there⟩
      have ne : o ≠ obj := by
        rintro rfl
        rw [owner] at ownerOf
        exact own (Option.some.inj ownerOf).symm
      exact ⟨o, ownerOf, by simpa [withContext, ne] using there⟩
  · rw [same]
    refine ⟨idle, entry, ?_⟩
    rintro ⟨o, ownerOf, there⟩
    rcases inv.sound.programmed o qid ownerOf (before there).1 with filling | ⟨entry', -⟩
    · rw [idle] at filling
      cases filling
    · rw [entry] at entry'
      exact (before there).2 (Option.some.inj entry').symm

theorem setRx_triple {qid : Nat} {X Y : LiveView → Prop} {q : Option PfRxQueue}
    (h : ∀ v, v.Sound → X v → (v.withRx qid (q.map PfRxQueue.obj)).Sound ∧ Y (v.withRx qid (q.map PfRxQueue.obj))) :
    contract.Triple (At X) (onDev (.modify (PfNetdev.setRx qid q))) fun _ => At Y := by
  apply modify_triple
  intro s inv holds
  have same := view_setRx s qid q
  have after := h s.view inv.sound holds
  exact ⟨inv.moved same rfl rfl (fun _ on => on) after.1, same ▸ after.2⟩

theorem clearRx_triple (qid : Nat) :
    contract.Triple (At Idle) (onDev (PfNetdev.onicClearRxQueue qid)) fun _ =>
      At fun v => v.Idle ∧ v.rx qid = none := by
  apply bind_triple (M := fun entry v => v.Idle ∧ v.rx qid = entry.map PfRxQueue.obj)
  · exact read_triple fun s _ idle => ⟨idle, rfl⟩
  · intro entry
    cases entry with
    | none => exact done_triple fun _ _ h => h
    | some q =>
      apply bind_triple (disarm_triple qid q.obj)
      intro _
      apply bind_triple (quiet_triple (free_quiet (by decide)))
      intro _
      dsimp only
      refine freed_then (freed_then ?_ (by decide)) (by decide)
      apply bind_triple (quiet_triple (.fold (fun i _ => free_quiet (page_hidden i)) 0 PfNetdev.rxSlots ()))
      intro _
      refine freed_then (freed_then ?_ (by decide)) (by decide)
      apply bind_triple (quiet_triple (free_quiet (by decide)))
      intro _
      apply bind_triple
      · apply freeQueue_triple
        intro v sound clearing
        have owner := sound.rxOwner qid q.obj clearing.entry
        have cleared : v.context q.obj = false := by
          by_contra there
          rw [Bool.not_eq_false] at there
          exact clearing.off ⟨q.obj, owner, there⟩
        refine ⟨sound.freeQueue (Or.inl cleared) (Or.inr fun i entry => ?_), clearing.idle, clearing.entry,
          clearing.off⟩
        rw [(sound.txOwner i q.obj entry).1] at owner
        cases owner
      · intro _
        apply setRx_triple
        intro v sound clearing
        exact ⟨sound.unsetRx clearing.off, clearing.idle, by simp [withRx]⟩

theorem clearRx_absent {qid : Nat} {X : LiveView → Prop} (absent : ∀ v, X v → v.rx qid = none) :
    contract.Triple (At X) (onDev (PfNetdev.onicClearRxQueue qid)) fun _ => At X := by
  apply bind_triple (M := fun entry v => X v ∧ entry.map PfRxQueue.obj = none)
  · exact read_triple fun s _ holds => ⟨holds, absent s.view holds⟩
  · intro entry
    cases entry with
    | none => exact done_triple fun _ _ h => h.1
    | some q => exact fun s _ _ h => nomatch h.2

theorem fillRx_triple (qid obj : Nat) :
    contract.Triple (At fun v => v.Filling qid obj ∧ v.context obj = false)
      (onDev (PfNetdev.onicFillRxQueue qid obj)) fun rv => At fun v => rv ≤ 0 ∧ v.Filling qid obj ∧ (v.context obj = true ↔ rv = 0) := by
  have failed (rv : Int) (v : LiveView) (negative : rv < 0) (h : v.Filling qid obj ∧ v.context obj = false) :
      rv ≤ 0 ∧ v.Filling qid obj ∧ (v.context obj = true ↔ rv = 0) := by
    refine ⟨by omega, h.1, ?_⟩
    rw [h.2]
    exact ⟨nofun, fun zero => by omega⟩
  refine inTurn_triple [_, _, _, _, _] ?_ ?_ failed
  · intro p mem
    simp only [List.mem_cons, List.not_mem_nil, or_false] at mem
    rcases mem with rfl | rfl | rfl | rfl | rfl
    · exact alloc_triple (by decide) _
    · exact alloc_triple (by decide) _
    · exact createPagePool_triple qid obj
    · exact untilErr_triple 0 PfNetdev.rxSlots fun i => alloc_triple (page_hidden i) _
    · exact alloc_triple (by decide) _
  · apply bind_triple (quiet_triple (.modify fun d => quiet_acquire (by decide) d))
    intro _
    apply makeContext_triple
    · rintro v ⟨filling, -⟩
      refine ⟨filling.old, fun q owner => ?_⟩
      rw [filling.owner] at owner
      exact owner ▸ filling.filling
    · rintro v ⟨filling, -⟩
      refine ⟨Int.le_refl 0, ⟨filling.filling, filling.empty, filling.owner, filling.old, filling.queue, ?_⟩, ?_⟩
      · intro o owner there
        by_contra ne
        exact ne (filling.only o owner (by simpa [withContext, ne] using there))
      · simp [withContext]
    · exact failed

/-- The new object is noted as the one of receive queue `qid`. -/
theorem startFilling_triple (qid obj : Nat) :
    contract.Triple (At fun v => (v.Idle ∧ v.rx qid = none) ∧ v.Spare obj ∧ v.context obj = false)
      (.modify (startFilling obj qid) : Program PfLive PfFails Unit) fun _ =>
        At fun v => v.Filling qid obj ∧ v.context obj = false := by
  apply note_triple
  rintro s inv ⟨⟨idle, empty⟩, spare, context⟩
  have same : (s.startFilling obj qid).view = s.view.startFilling obj qid := rfl
  have ne {o q : Nat} (owner : s.view.qidOf o = some q) : o ≠ obj := by
    rintro rfl
    rw [spare.qidOf] at owner
    cases owner
  have sound := inv.sound.startFilling idle empty spare context
  refine ⟨inv.moved same rfl rfl ?_ sound, ⟨rfl, empty, ?_, spare.old, spare.queue, ?_⟩, context⟩
  · rintro q ⟨o, owner, there⟩
    refine ⟨o, ?_, there⟩
    simp [LiveView.startFilling, ne owner, owner]
  · rw [same]
    simp [LiveView.startFilling]
  · intro o owner there
    by_contra other
    have ownerOf : s.view.qidOf o = some qid := by
      rw [same] at owner
      simpa [LiveView.startFilling, other] using owner
    rcases inv.sound.programmed o qid ownerOf there with filling | ⟨entry, -⟩
    · rw [idle] at filling
      cases filling
    · rw [empty] at entry
      cases entry

theorem stopFilling_triple (qid obj : Nat) :
    contract.Triple (At fun v => v.Filling qid obj ∧ v.context obj = false)
      (.modify stopFilling : Program PfLive PfFails Unit) fun _ => At Idle := by
  apply note_triple
  rintro s inv ⟨filling, context⟩
  refine ⟨inv.moved rfl rfl rfl (fun _ on => on) (inv.sound.stopFilling fun q is => ?_), rfl⟩
  rw [filling.filling] at is
  cases is
  rintro ⟨o, owner, there⟩
  rw [filling.only o owner there, context] at there
  cases there

theorem arm_triple (qid obj : Nat) :
    contract.Triple (At fun v => v.Filling qid obj ∧ v.context obj = true)
      (onDev (.modify (PfNetdev.arm qid true))) fun _ => At (Filling qid obj) := by
  apply modify_triple
  rintro s inv ⟨filling, context⟩
  refine ⟨⟨inv.misuses, fun q armed => ?_, inv.sound⟩, filling⟩
  by_cases own : q = qid
  · subst own
    exact ⟨obj, filling.owner, context⟩
  · exact inv.armed q (by simpa [setDev, PfNetdev.arm, own] using armed)

theorem publish_triple (qid obj : Nat) (q : PfRxQueue) (is : q.obj = obj) :
    contract.Triple (At (Filling qid obj))
      (.modify fun s => (s.setDev (s.dev.setRx qid (some q))).stopFilling : Program PfLive PfFails Unit) fun _ =>
        At Idle := by
  apply note_triple
  intro s inv filling
  have same : ((s.setDev (s.dev.setRx qid (some q))).stopFilling).view =
      (s.view.withRx qid (some obj)).stopFilling := by
    have set := view_setRx s qid (some q)
    rw [Option.map_some, is] at set
    rw [← set]
    rfl
  have sound := inv.sound.publishRx filling.filling filling.owner filling.queue filling.only
  exact ⟨inv.moved same rfl rfl (fun _ on => on) sound, rfl⟩

/-- A receive queue that is there is cleared first. -/
theorem clearedRx_then {qid : Nat} {p : Program PfLive PfFails Int} {there : Bool} {post : Int → PfLive → Prop}
    (rest : contract.Triple (At fun v => v.Idle ∧ v.rx qid = none) p post) :
    contract.Triple (At fun v => v.Idle ∧ (there = false → v.rx qid = none))
      (if there then onDev (PfNetdev.onicClearRxQueue qid) >>= fun _ => p
        else onDev (.done ()) >>= fun _ => p) post := by
  cases there with
  | true => exact .bind (.from_pre _ (fun _ _ h => h.1) (clearRx_triple qid)) fun _ => rest
  | false => exact .from_pre _ (fun _ _ h => ⟨h.1, h.2 rfl⟩) rest

theorem initRx_triple (qid : Nat) :
    contract.Triple (At Idle) (onicInitRxQueue qid) fun rv => At fun v => rv ≤ 0 ∧ v.Idle := by
  apply Contract.Triple.bind (M := fun there => At fun v => v.Idle ∧ (there.isSome = false → v.rx qid = none))
  · apply read_triple
    intro s _ idle
    refine ⟨idle, fun absent => ?_⟩
    simpa [view] using absent
  intro there
  apply clearedRx_then
  apply Contract.Triple.bind (kzalloc_triple _ fun _ h => h)
  intro found
  cases found with
  | none => exact done_triple fun v _ h => ⟨by decide, h.1.1⟩
  | some obj =>
    apply Contract.Triple.bind (.from_pre _ (fun _ _ h => ⟨h.1, h.2 obj rfl⟩) (startFilling_triple qid obj))
    intro _
    apply Contract.Triple.bind (M := fun _ => At fun v => v.Filling qid obj ∧ v.context obj = false)
      (read_triple fun _ _ h => h)
    intro xdpProg
    apply Contract.Triple.bind (fillRx_triple qid obj)
    intro rv
    refine .from_pre (fun s => rv ≤ 0 ∧ At (fun v => v.Filling qid obj ∧ (v.context obj = true ↔ rv = 0)) s)
      (fun _ _ h => h) (.pure_pre fun small => ?_)
    by_cases failed : rv = 0
    · rw [if_neg (by simpa using failed)]
      apply Contract.Triple.bind (.from_pre _ (fun _ _ h => ⟨h.1, h.2.mpr failed⟩) (arm_triple qid obj))
      intro _
      apply Contract.Triple.bind (publish_triple qid obj _ rfl)
      exact fun _ => done_triple fun v _ idle => ⟨Int.le_refl 0, idle⟩
    · rw [if_pos failed]
      have nothing : contract.Triple (At fun v => v.Filling qid obj ∧ v.context obj = false)
          (onDev (PfNetdev.onicClearRxQueue qid)) _ := clearRx_absent fun v h => h.1.empty
      apply Contract.Triple.bind (.from_pre _ (fun s _ h => ⟨h.1, ?_⟩) nothing)
      · intro _
        apply Contract.Triple.bind (stopFilling_triple qid obj)
        exact fun _ => done_triple fun v _ idle => ⟨small, idle⟩
      · by_contra there
        rw [Bool.not_eq_false] at there
        exact failed (h.2.mp there)

theorem clearDownRx_triple (qid : Nat) :
    contract.Triple (At Idle) (onDev (PfNetdev.clearDown PfNetdev.onicClearRxQueue qid)) fun _ =>
      At Idle := by
  induction qid with
  | zero => exact done_triple fun _ _ h => h
  | succ qid ih => exact bind_triple (clearRx_triple qid) fun _ => .from_pre _ (fun _ _ h => h.1) ih

theorem initRxQueues_triple (qid left : Nat) :
    contract.Triple (At Idle) (initRxQueues qid left) fun rv => At fun v => rv ≤ 0 ∧ v.Idle := by
  induction left generalizing qid with
  | zero => exact done_triple fun v _ idle => ⟨Int.le_refl 0, idle⟩
  | succ left ih =>
    apply Contract.Triple.bind (initRx_triple qid)
    intro rv
    refine .from_pre (fun s => rv ≤ 0 ∧ At Idle s) (fun _ _ h => h) (.pure_pre fun small => ?_)
    split
    · exact ih (qid + 1)
    · exact .bind (clearDownRx_triple qid) fun _ => done_triple fun v _ idle => ⟨small, idle⟩

theorem down_triple :
    contract.Triple (At Idle) (.modify (setTxUp false) : Program PfLive PfFails Unit) fun _ =>
      At fun v => v.txUp = false ∧ v.Idle := by
  apply note_triple
  intro s inv idle
  exact ⟨inv.moved rfl rfl rfl (fun _ on => on) (inv.sound.setTxUp nofun), rfl, idle⟩

theorem stop_triple :
    contract.Triple (At Idle) onicStopNetdev fun _ => At Idle := by
  apply Contract.Triple.bind down_triple
  intro _
  apply bind_triple (M := fun n v => v.TxPhase n 0)
  · exact read_triple fun s _ h => ⟨rfl, h.1, h.2, fun i less => absurd less (Nat.not_lt_zero i)⟩
  · intro n
    apply bind_triple (M := fun _ => TxPhase n 0)
    · exact fold_triple 0 n fun i => .conseq (clearTx_triple (Nat.zero_le i)) (fun _ _ h => h) fun _ _ _ h => h.1
    · intro _
      apply bind_triple (M := fun _ => Idle) (read_triple fun _ _ phase => phase.idle)
      intro m
      exact fold_triple 0 m fun i => .conseq (clearRx_triple i) (fun _ _ h => h) fun _ _ _ h => h.1

theorem up_triple (n : Nat) :
    contract.Triple (At (TxPhase n n)) (.modify (setTxUp true) : Program PfLive PfFails Unit) fun _ =>
      At Idle := by
  apply note_triple
  intro s inv phase
  have size : s.view.numTxQueues = n := phase.size
  refine ⟨inv.moved rfl rfl rfl (fun _ on => on) (inv.sound.setTxUp fun _ i less => ?_), phase.idle⟩
  rw [size] at less
  exact phase.made i less

theorem initRxResource_triple :
    contract.Triple (At Idle) onicInitRxResource fun _ => At Idle := by
  apply Contract.Triple.bind (M := fun _ => At Idle) (read_triple fun _ _ idle => idle)
  intro n
  exact .conseq (initRxQueues_triple 0 n) (fun _ _ h => h) fun _ _ _ h => h.2

theorem open_triple :
    contract.Triple (At Idle) onicOpenNetdev fun _ => At Idle := by
  have stopped (rv : Int) : contract.Triple (At Idle) (do
      onicStopNetdev
      .done rv) fun _ => At Idle :=
    .bind stop_triple fun _ => done_triple fun _ _ idle => idle
  apply Contract.Triple.bind down_triple
  intro _
  apply Contract.Triple.bind initTxResource_triple
  intro rv
  split
  · exact .from_pre _ (fun _ _ ⟨_, _, phase, _⟩ => phase.idle) (stopped rv)
  · rename_i fine
    have up : contract.Triple (At fun v => ∃ n, v.TxPhase n n)
        (.modify (setTxUp true) : Program PfLive PfFails Unit) fun _ => At Idle :=
      .exists_pre fun n => up_triple n
    apply Contract.Triple.bind (.from_pre _ (fun _ _ ⟨small, n, _, made⟩ => ⟨n, made (by omega)⟩) up)
    intro _
    apply Contract.Triple.bind initRxResource_triple
    intro rv
    split
    · exact stopped rv
    · exact done_triple fun _ _ idle => idle

theorem exchangeProg_triple (qid : Nat) :
    contract.Triple (At Idle) (onDev (PfNetdev.exchangeProg qid)) fun _ => At Idle := by
  apply quiet_triple
  apply Program.Steps.modify
  intro d
  cases entry : d.rxQueue qid with
  | none => exact ⟨rfl, fun _ => rfl⟩
  | some q =>
    refine ⟨rfl, fun s => ?_⟩
    have rx : (fun i => (Function.update d.rxQueue qid (some { q with xdpProg := d.xdpProg }) i).map PfRxQueue.obj) =
        fun i => (d.rxQueue i).map PfRxQueue.obj := by
      funext i
      by_cases own : i = qid
      · subst own
        simp [entry]
      · simp [own]
    simp only [view, setDev, PfNetdev.setRx, rx]

theorem setup_triple (prog : Option Nat) :
    contract.Triple (At Idle) (onicSetupXdpProg prog) fun _ => At Idle := by
  apply Contract.Triple.bind (M := fun _ => At Idle) (read_triple fun _ _ idle => idle)
  intro running
  apply Contract.Triple.bind (M := fun _ => At Idle)
  · apply access_triple
    rintro s _ _ _ inv idle ⟨⟩
    exact ⟨inv.moved rfl rfl rfl (fun _ on => on) inv.sound, idle⟩
  · intro old
    apply Contract.Triple.bind (M := fun _ => At Idle)
    · split
      · exact stop_triple
      · apply bind_triple (M := fun _ => Idle) (read_triple fun _ _ idle => idle)
        exact fun n => fold_triple 0 n exchangeProg_triple
    · intro _
      apply Contract.Triple.bind (M := fun _ => At Idle)
      · exact quiet_triple (.modify fun d => ⟨rfl, fun _ => rfl⟩)
      · intro _
        split
        · exact done_triple fun _ _ idle => idle
        · split
          · exact .bind open_triple fun _ => done_triple fun _ _ idle => idle
          · exact done_triple fun _ _ idle => idle

theorem use_there {s : PfLive} {obj : Nat} (there : s.view.queue obj = true) : s.use (some obj) = s := if_pos there

/-- An interrupt of a published queue finds its entry and the object. -/
theorem qHandler_inv {s : PfLive} (inv : s.Inv) {qid : Nat} (spared : s.filling ≠ some qid) :
    s.onicQHandler qid = s := by
  rw [onicQHandler]
  split
  · rename_i armed
    rcases inv.armed qid armed with ⟨obj, owner, there⟩
    rcases inv.sound.programmed obj qid owner there with filling | ⟨entry, queue⟩
    · exact absurd filling spared
    · rw [show (s.dev.rxQueue qid).map PfRxQueue.obj = some obj from entry]
      exact use_there queue
  · rfl

theorem cleanTxQueues_inv {s : PfLive} (inv : s.Inv) (up : s.txUp = true) : s.cleanTxQueues = s := by
  have uses (l : List Nat) (below : ∀ i ∈ l, i < s.dev.numTxQueues) :
      l.foldl (fun s i => s.use ((s.dev.txQueue i).map PfTxQueue.obj)) s = s := by
    induction l with
    | nil => rfl
    | cons i l ih =>
      rcases inv.sound.txUp up i (below i List.mem_cons_self) with ⟨obj, entry, queue⟩
      rw [List.foldl_cons, show (s.dev.txQueue i).map PfTxQueue.obj = some obj from entry, use_there queue]
      exact ih fun j mem => below j (List.mem_cons_of_mem i mem)
  exact uses _ fun i mem => List.mem_range.mp mem

/-- A spared event misuses nothing, and arms an interrupt at most. -/
theorem event_keeps {s : PfLive} (inv : s.Inv) {e : PfEvent} (spared : e.Spared s) :
    (e.happen s).Inv ∧ contract.rely s (e.happen s) := by
  cases e with
  | qHandler qid =>
    rw [PfEvent.happen, qHandler_inv inv spared]
    exact ⟨inv, contract.rely_refl s⟩
  | rxPoll obj rearms =>
    rw [PfEvent.happen, onicRxPoll]
    split
    · exact ⟨inv, contract.rely_refl s⟩
    · rename_i qid owner
      split
      · rw [cleanTxQueues_inv inv spared]
        dsimp only
        split
        · rename_i takes
          have programmed : s.programmed qid = true := (Bool.and_eq_true_iff.mp takes).2
          rcases List.any_eq_true.mp programmed with ⟨o, -, found⟩
          have there : s.qidOf o = some qid ∧ s.dev.hold.held ⟨o, .context⟩ = true := by simpa using found
          refine ⟨⟨inv.misuses, fun q armed => ?_, inv.sound⟩, ⟨_, _, rfl⟩⟩
          by_cases own : q = qid
          · subst own
            exact ⟨o, there⟩
          · exact inv.armed q (by simpa [setDev, PfNetdev.arm, own] using armed)
        · exact ⟨inv, contract.rely_refl s⟩
      · exact ⟨inv, contract.rely_refl s⟩

theorem rules_fit : Pool.Fits (rules PfEvent.Spared) (fun _ => True) Inv (fun _ => contract) fun _ => At Idle where
  same_ok _ := rfl
  same_inv _ := rfl
  threads t u apart := absurd rfl apart
  env s s' _ _ inv event := by
    rcases event with ⟨e, spared, rfl⟩
    have keeps := event_keeps inv spared
    exact ⟨keeps.1, fun _ => keeps.2⟩
  calls t s p call _ inv idle := by
    rcases call with rfl | rfl | ⟨prog, rfl⟩ | ⟨running, rfl⟩
    · exact (Contract.Triple.bind open_triple fun _ => done_triple fun _ _ idle => idle) s True.intro inv idle
    · exact stop_triple s True.intro inv idle
    · exact (Contract.Triple.bind (setup_triple prog) fun _ => done_triple fun _ _ idle => idle) s True.intro inv idle
    · have quiet : contract.Triple (At Idle)
          (onDev (.modify fun d => { d with running := running })) fun _ => At Idle :=
        quiet_triple (.modify fun d => ⟨rfl, fun _ => rfl⟩)
      exact quiet s True.intro inv idle

end PfLive

end OpenNic
