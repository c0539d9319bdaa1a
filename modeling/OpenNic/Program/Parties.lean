import OpenNic.Program.RelyGuarantee

namespace OpenNic

/-- A state in which every party sees, and owns, a part; `ok` holds of what it sees at every access. -/
structure Parties (σ F V : Type) where
  view : σ → F → V
  ok : F → V → Prop

namespace Parties

variable {σ ι F V α : Type} (D : Parties σ F V)

def Sound (s : σ) : Prop := ∀ f, D.ok f (D.view s f)

/-- No party sees the difference. -/
def Unseen (s s' : σ) : Prop := ∀ f, D.view s' f = D.view s f

/-- A thread of the party `owner` leaves the parts of the others alone; a thread of none leaves them all alone. -/
def contract (owner : Option F) : Contract σ where
  ok _ := True
  inv := D.Sound
  rely s s' := ∀ f, owner = some f → D.view s' f = D.view s f
  guarantee s s' := ∀ f, owner ≠ some f → D.view s' f = D.view s f
  rely_refl _ _ _ := rfl
  rely_trans h h' f is := (h' f is).trans (h f is)
  guarantee_refl _ _ _ := rfl

variable {D}

theorem Sound.unseen {s s' : σ} (sound : D.Sound s) (same : D.Unseen s s') : D.Sound s' := by
  intro f
  rw [same f]
  exact sound f

section

variable {f : F}

theorem stable (φ : V → Prop) : (D.contract (some f)).Stable fun s => φ (D.view s f) := by
  intro s s' holds rely _ _
  rw [rely f rfl]
  exact holds

theorem done {φ : V → Prop} {ψ : α → V → Prop} {a : α} (implies : ∀ v, D.ok f v → φ v → ψ a v) :
    (D.contract (some f)).Triple (fun s => φ (D.view s f)) (.done a : Program σ ι α) fun a s => ψ a (D.view s f) :=
  Contract.Triple.done (stable φ) fun _ inv holds => implies _ (inv f) holds

/-- An access to what belongs to `f` alone. -/
theorem own_access {act : ι → σ → Option (α × σ)} {φ : V → Prop} {ψ : α → V → Prop}
    (others : ∀ i s a s', act i s = some (a, s') → ∀ g, g ≠ f → D.view s' g = D.view s g)
    (step : ∀ i s a s', act i s = some (a, s') → D.ok f (D.view s f) → φ (D.view s f) →
      D.ok f (D.view s' f) ∧ ψ a (D.view s' f)) :
    (D.contract (some f)).Triple (fun s => φ (D.view s f)) (.access act) fun a s => ψ a (D.view s f) := by
  apply Contract.Triple.access (stable φ) fun a => stable (ψ a)
  intro s i a s' _ inv holds taken _
  obtain ⟨ok, after⟩ := step i s a s' taken (inv f) holds
  refine ⟨?_, fun g other => others i s a s' taken g fun same => other (same ▸ rfl), after⟩
  intro g
  by_cases same : g = f
  · rw [same]
    exact ok
  · rw [others i s a s' taken g same]
    exact inv g

theorem own_modify {change : σ → σ} {φ ψ : V → Prop} (others : ∀ s g, g ≠ f → D.view (change s) g = D.view s g)
    (step : ∀ s, D.ok f (D.view s f) → φ (D.view s f) →
      D.ok f (D.view (change s) f) ∧ ψ (D.view (change s) f)) :
    (D.contract (some f)).Triple (fun s => φ (D.view s f)) (.modify change : Program σ ι Unit)
      fun _ s => ψ (D.view s f) := by
  apply own_access
  · intro _ s _ s' taken
    cases taken
    exact others s
  · intro _ s _ s' taken
    cases taken
    exact step s

theorem read {get : σ → α} {φ : V → Prop} {ψ : α → V → Prop}
    (implies : ∀ s, D.ok f (D.view s f) → φ (D.view s f) → ψ (get s) (D.view s f)) :
    (D.contract (some f)).Triple (fun s => φ (D.view s f)) (.read get : Program σ ι α) fun a s => ψ a (D.view s f) := by
  apply own_access
  · intro _ s _ s' taken _ _
    cases taken
    rfl
  · intro _ s _ s' taken ok holds
    cases taken
    exact ⟨ok, implies s ok holds⟩

/-- What no party sees keeps every assertion about what `f` sees. -/
theorem quiet {p : Program σ ι α} (steps : p.Steps D.Unseen) (φ : V → Prop) :
    (D.contract (some f)).Triple (fun s => φ (D.view s f)) p fun _ s => φ (D.view s f) := by
  induction p with
  | done a => exact done fun _ _ holds => holds
  | step act next ih =>
    apply Contract.Triple.step (M := fun _ s => φ (D.view s f)) (stable φ)
    · intro s _ inv holds i b s' taken _
      have same := steps.1 i s b s' taken
      refine ⟨Sound.unseen inv same, fun g _ => same g, ?_⟩
      rw [same f]
      exact holds
    · exact fun b => ih b (steps.2 b)

end

theorem quiet_none {p : Program σ ι α} (steps : p.Steps D.Unseen) :
    (D.contract none).Triple (fun _ => True) p fun _ _ => True := by
  apply Contract.Triple.of_steps steps
  intro s s' inv same
  exact ⟨Sound.unseen inv same, fun g _ => same g⟩

section

variable {T : Type} {rules : Pool.Rules T σ ι} {owner : T → Option F} {idle : F → V → Prop}

/-- The party is between two calls. -/
def Idle (D : Parties σ F V) (owner : T → Option F) (idle : F → V → Prop) (t : T) (s : σ) : Prop :=
  ∀ f, owner t = some f → idle f (D.view s f)

theorem fits (alone : ∀ t u, t ≠ u → owner t = owner u → owner t = none)
    (env : ∀ s s', rules.env s s' → D.Unseen s s')
    (calls : ∀ t s p, rules.calls t s p → D.Sound s → D.Idle owner idle t s →
      (D.contract (owner t)).wp p (fun _ => D.Idle owner idle t) s) :
    Pool.Fits rules (fun _ => True) D.Sound (fun t => D.contract (owner t)) (D.Idle owner idle) where
  same_ok _ := rfl
  same_inv _ := rfl
  threads t u other s s' _ _ guarantee f is := by
    apply guarantee f
    intro same
    have none := alone t u other (same.trans is.symm)
    rw [none] at same
    cases same
  env s s' _ _ sound happens := ⟨sound.unseen (env s s' happens), fun _ f _ => env s s' happens f⟩
  calls t s p called _ sound idle := calls t s p called sound idle

/-- At every access each party's part is `ok`, and between two calls of the party it is `idle`. -/
theorem reach [DecidableEq T] (fits : Pool.Fits rules (fun _ => True) D.Sound (fun t => D.contract (owner t)) (D.Idle owner idle)) {s : σ}
    {P : Pool T σ ι} (reach : Pool.Reach rules (fun _ => True) (Pool.start s) P) (sound : D.Sound s)
    (start : ∀ t, D.Idle owner idle t s) :
    D.Sound P.state ∧ ∀ t f, owner t = some f → P.thread t = .done () → idle f (D.view P.state f) := by
  obtain ⟨-, here, threads⟩ := fits.reach reach trivial sound fun t s' rely _ _ f is => by
    rw [rely f is]
    exact start t f is
  refine ⟨here, fun t f is ended => ?_⟩
  have last := threads t
  rw [ended] at last
  exact last P.state (fun _ _ => rfl) trivial here f is

end

end Parties

end OpenNic
