import OpenNic.Program.RelyGuarantee

namespace OpenNic

namespace Program

variable {σ ι α β γ : Type} {J : σ → Prop} {R : σ → σ → Prop}

/-- Every access that is made where `J` holds relates the states around it. What the program
    would do with a value that no such state has does not count. -/
def Confined (J : σ → Prop) (R : σ → σ → Prop) : Program σ ι α → Prop
  | .done _ => True
  | .step act next => ∀ i s b s', J s → act i s = some (b, s') → R s s' ∧ Confined J R (next b)

namespace Confined

theorem done (a : α) : (.done a : Program σ ι α).Confined J R := True.intro

theorem of_steps {p : Program σ ι α} (steps : p.Steps R) : p.Confined J R := by
  induction p with
  | done a => exact True.intro
  | step act next ih => exact fun i s b s' _ taken => ⟨steps.1 i s b s' taken, ih b (steps.2 b)⟩

theorem bind {p : Program σ ι α} {f : α → Program σ ι β} (first : p.Confined J R) (rest : ∀ a, (f a).Confined J R) :
    (p >>= f).Confined J R := by
  induction p with
  | done a => exact rest a
  | step act next ih =>
    intro i s b s' holds taken
    obtain ⟨related, next⟩ := first i s b s' holds taken
    exact ⟨related, ih b next⟩

theorem access_bind {act : ι → σ → Option (α × σ)} {f : α → Program σ ι β}
    (h : ∀ i s a s', J s → act i s = some (a, s') → R s s' ∧ (f a).Confined J R) : (Program.access act >>= f).Confined J R := h

/-- What comes of the first part is one of its results. -/
theorem bind_results {p : Program σ ι α} {P : α → Prop} {f : α → Program σ ι β} (first : p.Confined J R) (results : p.Results P)
    (rest : ∀ a, P a → (f a).Confined J R) : (p >>= f).Confined J R := by
  induction p with
  | done a => exact rest a results
  | step act next ih =>
    intro i s b s' holds taken
    obtain ⟨related, next⟩ := first i s b s' holds taken
    exact ⟨related, ih b next (results b)⟩

/-- What is read where `J` holds. -/
theorem read_bind {get : σ → α} {f : α → Program σ ι β} (refl : ∀ s, R s s) (h : ∀ s, J s → (f (get s)).Confined J R) :
    (Program.read get >>= f).Confined J R := by
  apply access_bind
  intro _ s a s' holds taken
  cases taken
  exact ⟨refl s, h s holds⟩

theorem modify {f : σ → σ} (h : ∀ s, J s → R s (f s)) : (Program.modify f : Program σ ι Unit).Confined J R := by
  intro _ s _ s' holds taken
  cases taken
  exact ⟨h s holds, True.intro⟩

theorem fold_below {body : Nat → β → Program σ ι β} {lo count : Nat} {acc : β}
    (each : ∀ i b, i < lo + count → (body i b).Confined J R) : (Program.fold body lo count acc).Confined J R := by
  induction count generalizing lo acc with
  | zero => exact True.intro
  | succ count ih =>
    apply (each lo acc (by omega)).bind
    exact fun b => ih fun i b less => each i b (by omega)

end Confined

end Program

namespace Pool

variable {T σ ι : Type} [DecidableEq T] {rules : Rules T σ ι} {ok : σ → Prop} {P P' : Pool T σ ι}

theorem reach_ok (reach : Reach rules ok P P') (start : ok P.state) : ok P'.state := by
  induction reach with
  | refl => exact start
  | tail _ last _ => exact last.2

/-- A run of fewer threads, calls and events, through states of which more is asked, is a run. -/
theorem reach_mono {rules' : Rules T σ ι} {ok' : σ → Prop} (reach : Reach rules ok P P')
    (calls : ∀ t s p, rules.calls t s p → rules'.calls t s p) (env : ∀ s s', rules.env s s' → rules'.env s s')
    (weaker : ∀ s, ok s → ok' s) : Reach rules' ok' P P' := by
  apply Relation.ReflTransGen.mono _ P P' reach
  rintro Q Q' ⟨step, fine⟩
  refine ⟨?_, weaker _ fine⟩
  cases step with
  | access at_ taken => exact .access at_ taken
  | call idle allowed => exact .call idle (calls _ _ _ allowed)
  | env happens => exact .env (env _ _ happens)

/-- Where `J` holds all along, and `H` to begin with, what relates the states around every access relates those at the ends of
    a run, if it keeps `H`. -/
theorem confined_reach {J H : σ → Prop} {R : σ → σ → Prop} (reach : Reach rules ok P P')
    (all : ∀ Q, Reach rules ok P Q → J Q.state) (start : H P.state) (keeps : ∀ s s', R s s' → H s → H s')
    (refl : ∀ s, R s s) (trans : ∀ a b c, R a b → R b c → R a c)
    (calls : ∀ s t p, J s → H s → rules.calls t s p → p.Confined (fun s => J s ∧ H s) R)
    (env : ∀ s s', J s → H s → rules.env s s' → R s s') (threads : ∀ t, (P.thread t).Confined (fun s => J s ∧ H s) R) :
    R P.state P'.state := by
  have held : R P.state P'.state ∧ ∀ t, (P'.thread t).Confined (fun s => J s ∧ H s) R := by
    induction reach with
    | refl => exact ⟨refl P.state, threads⟩
    | @tail Q Q' before last ih =>
      obtain ⟨related, confined⟩ := ih
      have within : J Q.state := all Q before
      have here : H Q.state := keeps _ _ related start
      cases last.1 with
      | @access t β act next i b s' at_ taken =>
        have own := confined t
        rw [at_] at own
        obtain ⟨step, rest⟩ := own i Q.state b s' ⟨within, here⟩ taken
        refine ⟨trans _ _ _ related step, fun u => ?_⟩
        by_cases same : u = t
        · subst same
          simpa using rest
        · simpa [same] using confined u
      | @call t p idle allowed =>
        refine ⟨related, fun u => ?_⟩
        by_cases same : u = t
        · subst same
          simpa using calls Q.state u p within here allowed
        · simpa [same] using confined u
      | env happens => exact ⟨trans _ _ _ related (env _ _ within here happens), confined⟩
  exact held.1

end Pool

end OpenNic
