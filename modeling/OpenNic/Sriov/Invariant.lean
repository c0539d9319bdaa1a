import OpenNic.Sriov.PfDriver
import OpenNic.Program.RelyGuarantee

namespace OpenNic

/-- What belongs to one PF: its private data, its function map and those of its VFs. -/
structure PfView where
  priv : PfPriv
  own : Option FmapCtxt
  vf : Fin onicMaxVfs → Option FmapCtxt

def vfFuncId (i : Fin onicMaxVfs) : BitVec 16 := BitVec.ofNat 16 (4 + i)

def pfFuncId (f : Fin 4) : BitVec 16 := BitVec.ofNat 16 f

def Card.view (s : Card) (f : Fin 4) : PfView where
  priv := s.priv f
  own := s.fmap (pfFuncId f)
  vf i := if f = 0 then s.fmap (vfFuncId i) else none

/-- The entry of a VF behind a PF with `n` queues. -/
structure VfEntry (v : PfView) (n : Nat) (i : Fin onicMaxVfs) : Prop where
  positive : 1 ≤ n
  small : n ≤ onicMaxQueues
  device : v.priv.qdev = some ⟨0, 0, BitVec.ofNat 16 n⟩
  own : ∀ ctxt ∈ v.own, ctxt = ⟨0, BitVec.ofNat 12 n⟩
  funcId : (v.priv.vfs.vfRes i).funcId = vfFuncId i
  qbase : (v.priv.vfs.vfRes i).qbase = BitVec.ofNat 16 (n + queuesPerVf * i)
  qmax : (v.priv.vfs.vfRes i).qmax = BitVec.ofNat 16 queuesPerVf
  fmap : ∀ ctxt ∈ v.vf i, ctxt = ⟨BitVec.ofNat 11 (n + queuesPerVf * i), BitVec.ofNat 12 queuesPerVf⟩

/-- What holds of a PF at every single access. -/
structure PfOk (f : Fin 4) (v : PfView) : Prop where
  device : ∀ d ∈ v.priv.qdev, d.funcId = pfFuncId f
  own : ∀ ctxt ∈ v.own, ∃ n, 1 ≤ n ∧ n ≤ onicMaxQueues ∧ ctxt = ⟨BitVec.ofNat 11 (f * onicMaxQueues), BitVec.ofNat 12 n⟩
  entries : ∀ i, (v.priv.vfs.vfRes i).enabled = true → f = 0 ∧ ∃ n, VfEntry v n i

/-- No VF has an entry. -/
def NoEntry (v : PfView) : Prop := ∀ i, (v.priv.vfs.vfRes i).enabled = false

theorem NoEntry.ok {f : Fin 4} {v : PfView} (none : NoEntry v) (device : ∀ d ∈ v.priv.qdev, d.funcId = pfFuncId f)
    (own : ∀ ctxt ∈ v.own, ∃ n, 1 ≤ n ∧ n ≤ onicMaxQueues ∧
      ctxt = ⟨BitVec.ofNat 11 (f * onicMaxQueues), BitVec.ofNat 12 n⟩) : PfOk f v :=
  ⟨device, own, fun i enabled => by rw [none i] at enabled; cases enabled⟩

theorem pfFuncId_inj {f g : Fin 4} : pfFuncId f = pfFuncId g ↔ f = g := by
  revert f g
  decide

theorem vfFuncId_inj {i j : Fin onicMaxVfs} : vfFuncId i = vfFuncId j ↔ i = j := by
  revert i j
  decide

theorem pfFuncId_ne_vf (f : Fin 4) (i : Fin onicMaxVfs) : pfFuncId f ≠ vfFuncId i := by
  revert f i
  decide

section

variable {s : Card} {f g : Fin 4}

theorem view_setPriv (change : PfPriv → PfPriv) :
    (s.setPriv f change).view f = { s.view f with priv := change (s.priv f) } := by
  simp [Card.view, Card.setPriv]

theorem view_setPriv_other (change : PfPriv → PfPriv) (other : g ≠ f) : (s.setPriv f change).view g = s.view g := by
  simp [Card.view, Card.setPriv, Function.update_of_ne other]

/-- The function maps of a PF: its own, and those of its VFs. -/
def FuncIdOf (f : Fin 4) (id : BitVec 16) : Prop := id = pfFuncId f ∨ f = 0 ∧ ∃ i, id = vfFuncId i

theorem view_fmap_other {id : BitVec 16} (mine : FuncIdOf f id) (other : g ≠ f) (ctxt : Option FmapCtxt) :
    (s.setFmap id ctxt).view g = s.view g := by
  have own : pfFuncId g ≠ id := by
    rcases mine with rfl | ⟨-, i, rfl⟩
    · exact fun same => other (pfFuncId_inj.mp same)
    · exact pfFuncId_ne_vf g i
  have vf (i : Fin onicMaxVfs) (master : g = 0) : vfFuncId i ≠ id := by
    rcases mine with rfl | ⟨zero, j, rfl⟩
    · exact (pfFuncId_ne_vf f i).symm
    · exact absurd (master.trans zero.symm) other
  have maps : (fun i => if g = 0 then Function.update s.fmap id ctxt (vfFuncId i) else none) =
      fun i => if g = 0 then s.fmap (vfFuncId i) else none := by
    funext i
    by_cases master : g = 0
    · rw [if_pos master, if_pos master, Function.update_of_ne (vf i master)]
    · rw [if_neg master, if_neg master]
  simp only [Card.view, Card.setFmap, Function.update_of_ne own, maps]

theorem view_fmap_own (ctxt : Option FmapCtxt) :
    (s.setFmap (pfFuncId f) ctxt).view f = { s.view f with own := ctxt } := by
  have maps (i : Fin onicMaxVfs) : Function.update s.fmap (pfFuncId f) ctxt (vfFuncId i) = s.fmap (vfFuncId i) :=
    Function.update_of_ne (pfFuncId_ne_vf f i).symm _ _
  simp only [Card.view, Card.setFmap, Function.update_self, maps]

theorem view_fmap_vf (i : Fin onicMaxVfs) (ctxt : Option FmapCtxt) :
    (s.setFmap (vfFuncId i) ctxt).view 0 =
      { s.view 0 with vf := Function.update (s.view 0).vf i ctxt } := by
  have maps : (fun j => Function.update s.fmap (vfFuncId i) ctxt (vfFuncId j)) =
      Function.update (fun j => s.fmap (vfFuncId j)) i ctxt := by
    funext j
    by_cases same : j = i
    · subst same
      rw [Function.update_self, Function.update_self]
    · have apart : vfFuncId j ≠ vfFuncId i := fun eq => same (vfFuncId_inj.mp eq)
      rw [Function.update_of_ne apart, Function.update_of_ne same]
  simp only [Card.view, Card.setFmap, Function.update_of_ne (pfFuncId_ne_vf 0 i), if_true, maps]

end

def CardOk (s : Card) : Prop := ∀ f, PfOk f (s.view f)

/-- A thread leaves alone what belongs to the PFs of others. -/
def cardContract (u : SriovThread) : Contract Card where
  ok _ := True
  inv := CardOk
  rely s s' := ∀ f, u = .pf f → s'.view f = s.view f
  guarantee s s' := ∀ f, u ≠ .pf f → s'.view f = s.view f
  rely_refl _ _ _ := rfl
  rely_trans h h' f is := (h' f is).trans (h f is)
  guarantee_refl _ _ _ := rfl

section

variable {f : Fin 4}

theorem stable_view (φ : PfView → Prop) : (cardContract (.pf f)).Stable fun s => φ (s.view f) := by
  intro s s' holds rely _ _
  have same : s'.view f = s.view f := rely f rfl
  rw [same]
  exact holds

/-- A change of what belongs to `f` alone. -/
theorem own_change {s s' : Card} {v : PfView} (inv : CardOk s) (is : s'.view f = v) (ok : PfOk f v)
    (others : ∀ g, g ≠ f → s'.view g = s.view g) :
    CardOk s' ∧ (cardContract (.pf f)).guarantee s s' := by
  refine ⟨fun g => ?_, fun g other => others g fun same => other (same ▸ rfl)⟩
  by_cases same : g = f
  · subst same
    rw [is]
    exact ok
  · rw [others g same]
    exact inv g

theorem modPriv_triple {φ ψ : PfView → Prop} {change : PfPriv → PfPriv}
    (step : ∀ v, PfOk f v → φ v →
      PfOk f { v with priv := change v.priv } ∧ ψ { v with priv := change v.priv }) :
    (cardContract (.pf f)).Triple (fun s => φ (s.view f)) (modPriv f change) fun _ s => ψ (s.view f) := by
  apply Contract.Triple.modify (stable_view φ) (stable_view ψ)
  intro s _ inv holds _
  obtain ⟨ok, after⟩ := step (s.view f) (inv f) holds
  have is : (s.setPriv f change).view f = { s.view f with priv := change (s.view f).priv } := view_setPriv change
  obtain ⟨inv', guarantee⟩ := own_change inv is ok fun g other => view_setPriv_other change other
  exact ⟨inv', guarantee, is ▸ after⟩

theorem readPriv_triple {α : Type} (φ : PfView → Prop) (get : PfPriv → α) :
    (cardContract (.pf f)).Triple (fun s => φ (s.view f)) (readPriv f get)
      fun a s => φ (s.view f) ∧ get (s.view f).priv = a := by
  apply Contract.Triple.read (stable_view φ) fun a => stable_view fun v => φ v ∧ get v.priv = a
  intro s _ _ holds
  exact ⟨holds, rfl⟩

theorem input_triple {α : Type} (φ : PfView → Prop) (get : CardInput → α) :
    (cardContract (.pf f)).Triple (fun s => φ (s.view f)) (.access fun input s => some (get input, s))
      fun a s => (∃ input, get input = a) ∧ φ (s.view f) := by
  apply Contract.Triple.access (stable_view φ) fun a => (stable_view φ).pure_and
  intro s input a s' _ inv holds taken _
  cases taken
  exact ⟨inv, Contract.guarantee_refl _ s, ⟨input, rfl⟩, holds⟩

/-- The context commands change nothing that belongs to a PF. -/
theorem onCard_triple {via : Input → Input} {α : Type} {p : Program CtxtEngine Input α} {P : α → Prop}
    (results : p.Results P) (φ : PfView → Prop) :
    (cardContract (.pf f)).Triple (fun s => φ (s.view f)) (onCard via p)
      fun a s => P a ∧ φ (s.view f) := by
  apply Contract.Triple.lift (results.comap _) (stable_view φ)
  intro e s _ inv holds
  refine ⟨fun g => ?_, fun g _ => rfl, holds⟩
  exact inv g

theorem markFmap_triple {φ ψ : PfView → Prop} {id : BitVec 16} {ctxt : Option FmapCtxt} (mine : FuncIdOf f id)
    (after : PfView → PfView) (is : ∀ s : Card, (s.setFmap id ctxt).view f = after (s.view f))
    (step : ∀ v, PfOk f v → φ v → PfOk f (after v) ∧ ψ (after v)) :
    (cardContract (.pf f)).Triple (fun s => φ (s.view f)) (markFmap id ctxt) fun _ s => ψ (s.view f) := by
  apply Contract.Triple.modify (stable_view φ) (stable_view ψ)
  intro s _ inv holds _
  obtain ⟨ok, done⟩ := step (s.view f) (inv f) holds
  obtain ⟨inv', guarantee⟩ := own_change inv (is s) ok fun g other => view_fmap_other mine other ctxt
  exact ⟨inv', guarantee, (is s).symm ▸ done⟩

theorem qdmaProgramCtxt_results (cmd : CtxtCmd) (data : List Word) :
    (qdmaProgramCtxt cmd data).Results fun r => r.1 = 0 ∨ r.1 = -EBUSY := by
  apply (Program.Results.trivial _).bind
  intro _ _
  apply (Program.Results.trivial _).bind
  intro _ _
  apply (Program.Results.trivial _).bind
  intro _ _
  apply (Program.Results.trivial _).bind
  intro answered _
  cases answered with
  | true =>
    apply (Program.Results.trivial _).bind
    intro _ _
    exact fun _ => .inl rfl
  | false => exact fun _ => .inr rfl

theorem writeCtxt_results (cmd : CtxtCmd) (data : List Word) :
    (writeCtxt cmd data).Results fun rv => rv = 0 ∨ rv = -EBUSY := by
  rw [writeCtxt, ← bind_pure_comp]
  exact (qdmaProgramCtxt_results cmd data).bind fun r is => is

/-- What `qdma_write_fmap_ctxt` returns, and the device as it leaves it. -/
structure FmapWritten (qdev : QdmaDev) (ctxt : FmapCtxt) (r : Int × QdmaDev) : Prop where
  failed : r.1 < 0 → r = (-EBUSY, ⟨qdev.funcId, 0, 0⟩)
  done : ¬ r.1 < 0 → r = (0, ⟨qdev.funcId, ctxt.qbase.setWidth 16, ctxt.qmax.setWidth 16⟩)

theorem qdmaWriteFmapCtxt_results (qdev : QdmaDev) (ctxt : FmapCtxt) :
    (qdmaWriteFmapCtxt qdev ctxt).Results (FmapWritten qdev ctxt) := by
  apply (writeCtxt_results _ _).bind
  rintro rv (rfl | rfl)
  · exact ⟨nofun, fun _ => rfl⟩
  · exact ⟨fun _ => rfl, fun done => absurd (show (-EBUSY : Int) < 0 by decide) done⟩

/-- What `qdma_clear_fmap_ctxt` returns, and the device as it leaves it. -/
def FmapCleared (qdev : QdmaDev) (r : Int × QdmaDev) : Prop := (r.1 = 0 ∨ r.1 = -EBUSY) ∧ r.2 = ⟨qdev.funcId, 0, 0⟩

theorem qdmaClearFmapCtxt_results (qdev : QdmaDev) : (qdmaClearFmapCtxt qdev).Results (FmapCleared qdev) := by
  apply (writeCtxt_results _ _).bind
  intro rv is
  exact ⟨is, rfl⟩

theorem clearFmap_triple {via : Input → Input} {φ ψ : PfView → Prop} {qdev : QdmaDev} (mine : FuncIdOf f qdev.funcId)
    (after : PfView → PfView) (is : ∀ s : Card, (s.setFmap qdev.funcId none).view f = after (s.view f))
    (step : ∀ v, PfOk f v → φ v → PfOk f (after v) ∧ ψ (after v)) :
    (cardContract (.pf f)).Triple (fun s => φ (s.view f)) (clearFmap via qdev)
      fun r s => FmapCleared qdev r ∧ ψ (s.view f) := by
  apply Contract.Triple.bind (markFmap_triple mine after is step)
  intro _
  exact onCard_triple (qdmaClearFmapCtxt_results qdev) ψ

theorem writeFmap_triple {via : Input → Input} {φ ψ χ : PfView → Prop} {qdev : QdmaDev} {ctxt : FmapCtxt}
    (mine : FuncIdOf f qdev.funcId) (after : Option FmapCtxt → PfView → PfView)
    (is : ∀ written, ∀ s : Card, (s.setFmap qdev.funcId written).view f = after written (s.view f))
    (step : ∀ v, PfOk f v → φ v → PfOk f (after none v) ∧ PfOk f (after (some ctxt) v))
    (failed : ∀ v, φ v → ψ (after none v)) (written : ∀ v, φ v → χ (after (some ctxt) v)) :
    (cardContract (.pf f)).Triple (fun s => φ (s.view f)) (writeFmap via qdev ctxt)
      fun r s => FmapWritten qdev ctxt r ∧ (r.1 < 0 → ψ (s.view f)) ∧ (¬ r.1 < 0 → χ (s.view f)) := by
  apply Contract.Triple.bind (onCard_triple (qdmaWriteFmapCtxt_results qdev ctxt) φ)
  intro r
  apply Contract.Triple.pure_pre
  intro results
  by_cases negative : r.1 < 0
  · rw [if_pos negative]
    apply Contract.Triple.bind (markFmap_triple mine (after none) (is none) fun v ok holds => ⟨(step v ok holds).1, failed v holds⟩)
    intro _
    exact Contract.Triple.done (stable_view ψ) fun s _ holds => ⟨results, fun _ => holds, fun other => absurd negative other⟩
  · rw [if_neg negative]
    apply Contract.Triple.bind
      (markFmap_triple mine (after (some ctxt)) (is (some ctxt)) fun v ok holds => ⟨(step v ok holds).2, written v holds⟩)
    intro _
    exact Contract.Triple.done (stable_view χ) fun s _ holds => ⟨results, fun other => absurd other negative, fun _ => holds⟩

end

end OpenNic
