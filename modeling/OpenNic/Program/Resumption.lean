import Mathlib.Logic.Relation
import Mathlib.Logic.Function.Basic

namespace OpenNic

/-- The code of one thread over a shared state `σ`: a tree of atomic accesses. An
    access reads one input of the environment (a register value, an allocation
    result) and is blocked where it yields `none`. -/
inductive Program (σ ι α : Type) : Type 1
  | done (value : α)
  | step {β : Type} (act : ι → σ → Option (β × σ)) (next : β → Program σ ι α)

namespace Program

variable {σ ι α β γ : Type}

def bind : Program σ ι α → (α → Program σ ι β) → Program σ ι β
  | .done a, f => f a
  | .step act next, f => .step act fun b => (next b).bind f

instance : Monad (Program σ ι) where
  pure := .done
  bind := bind

@[simp] theorem pure_eq (a : α) : (pure a : Program σ ι α) = .done a := rfl

@[simp] theorem bind_done (a : α) (f : α → Program σ ι β) : (.done a : Program σ ι α) >>= f = f a := rfl

@[simp] theorem bind_step {δ : Type} (act : ι → σ → Option (δ × σ)) (next : δ → Program σ ι α)
    (f : α → Program σ ι β) : (.step act next) >>= f = .step act fun b => next b >>= f := rfl

theorem bind_assoc (p : Program σ ι α) (f : α → Program σ ι β) (g : β → Program σ ι γ) :
    p >>= f >>= g = p >>= fun a => f a >>= g := by
  induction p with
  | done a => rfl
  | step act next ih => simp only [bind_step, ih]

theorem bind_pure (p : Program σ ι α) : p >>= .done = p := by
  induction p with
  | done a => rfl
  | step act next ih => simp only [bind_step, ih]

instance : LawfulMonad (Program σ ι) := LawfulMonad.mk' _ bind_pure (fun _ _ => rfl) bind_assoc

/-- One atomic access of the shared state. -/
def access (act : ι → σ → Option (α × σ)) : Program σ ι α := .step act .done

def read (f : σ → α) : Program σ ι α := access fun _ s => some (f s, s)

def modify (f : σ → σ) : Program σ ι Unit := access fun _ s => some ((), f s)

/-- `for (i = lo; i < lo + count; i++) acc = body(i, acc)` -/
def fold (body : Nat → β → Program σ ι β) : Nat → Nat → β → Program σ ι β
  | _, 0, acc => .done acc
  | lo, count + 1, acc => do
    let acc ← body lo acc
    fold body (lo + 1) count acc

/-- `for (i = lo; i < lo + count; i++) { err = body(i); if (err) return err; } return 0;` -/
def untilErr (body : Nat → Program σ ι Int) : Nat → Nat → Program σ ι Int
  | _, 0 => .done 0
  | lo, count + 1 => do
    let err ← body lo
    if err ≠ 0 then .done err
    else untilErr body (lo + 1) count

/-- `err = first(); if (err) return err; err = second(); ..; return 0;` -/
def inTurn : List (Program σ ι Int) → Program σ ι Int
  | [] => .done 0
  | p :: rest => do
    let err ← p
    if err ≠ 0 then .done err
    else inTurn rest

/-- The body for every index; the first error is returned. -/
def firstErr (body : Nat → Program σ ι Int) (lo count : Nat) : Program σ ι Int :=
  fold (fun i first => do
    let err ← body i
    if err ≠ 0 ∧ first = 0 then .done err else .done first) lo count 0

/-- The program run on a component of a larger state. -/
def lift {τ : Type} (get : τ → σ) (set : σ → τ → τ) : Program σ ι α → Program τ ι α
  | .done a => .done a
  | .step act next =>
    .step (fun i t => (act i (get t)).map fun r => (r.1, set r.2 t)) fun b => (next b).lift get set

/-- `Exec p s a s'`: alone on the state `s`, the program can finish with `a` in `s'`. -/
inductive Exec : Program σ ι α → σ → α → σ → Prop
  | done (a : α) (s : σ) : Exec (.done a) s a s
  | step {δ : Type} {act : ι → σ → Option (δ × σ)} {next : δ → Program σ ι α} {i : ι} {s s' s'' : σ}
      {b : δ} {a : α} (first : act i s = some (b, s')) (rest : Exec (next b) s' a s'') :
      Exec (.step act next) s a s''

theorem Exec.bind {p : Program σ ι α} {f : α → Program σ ι β} {s s' s'' : σ} {a : α} {b : β}
    (first : Exec p s a s') (rest : Exec (f a) s' b s'') : Exec (p >>= f) s b s'' := by
  induction first with
  | done => exact rest
  | step head _ ih => exact .step head (ih rest)

/-- Alone on the state, the program can come to its end. -/
def Finishes (p : Program σ ι α) (s : σ) : Prop := ∃ a s', Exec p s a s'

theorem Finishes.done (a : α) (s : σ) : (.done a : Program σ ι α).Finishes s := ⟨a, s, .done a s⟩

theorem Finishes.bind {p : Program σ ι α} {f : α → Program σ ι β} {s mid : σ} {a : α} (first : Exec p s a mid)
    (rest : (f a).Finishes mid) : (p >>= f).Finishes s := by
  obtain ⟨b, s', ran⟩ := rest
  exact ⟨b, s', first.bind ran⟩

@[simp] theorem exec_done {a b : α} {s s' : σ} :
    Exec (.done a : Program σ ι α) s b s' ↔ b = a ∧ s' = s := by
  constructor
  · rintro ⟨⟩
    exact ⟨rfl, rfl⟩
  · rintro ⟨rfl, rfl⟩
    exact .done _ _

theorem exec_step {act : ι → σ → Option (β × σ)} {next : β → Program σ ι α} {a : α} {s s' : σ} :
    Exec (.step act next) s a s' ↔ ∃ i b mid, act i s = some (b, mid) ∧ Exec (next b) mid a s' := by
  constructor
  · rintro ⟨⟩
    exact ⟨_, _, _, ‹_›, ‹_›⟩
  · rintro ⟨i, b, mid, first, rest⟩
    exact .step first rest

theorem exec_bind {p : Program σ ι α} {f : α → Program σ ι β} {b : β} {s s' : σ} :
    Exec (p >>= f) s b s' ↔ ∃ a mid, Exec p s a mid ∧ Exec (f a) mid b s' := by
  constructor
  · intro ran
    induction p generalizing s with
    | done a => exact ⟨a, s, .done a s, ran⟩
    | step act next ih =>
      obtain ⟨i, c, mid, first, rest⟩ := exec_step.mp ran
      obtain ⟨a, last, head, tail⟩ := ih c rest
      exact ⟨a, last, .step first head, tail⟩
  · rintro ⟨a, mid, first, rest⟩
    exact first.bind rest

theorem exec_map {p : Program σ ι α} {f : α → β} {b : β} {s s' : σ} :
    Exec (f <$> p) s b s' ↔ ∃ a, Exec p s a s' ∧ b = f a := by
  rw [← bind_pure_comp, exec_bind]
  constructor
  · rintro ⟨a, mid, ran, last⟩
    obtain ⟨rfl, rfl⟩ := exec_done.mp last
    exact ⟨a, ran, rfl⟩
  · rintro ⟨a, ran, rfl⟩
    exact ⟨a, s', ran, .done _ _⟩

theorem exec_access {act : ι → σ → Option (α × σ)} {a : α} {s s' : σ} :
    Exec (access act) s a s' ↔ ∃ i, act i s = some (a, s') := by
  simp only [access, exec_step, exec_done]
  constructor
  · rintro ⟨i, b, mid, first, rfl, rfl⟩
    exact ⟨i, first⟩
  · rintro ⟨i, first⟩
    exact ⟨i, a, s', first, rfl, rfl⟩

theorem exec_modify [Nonempty ι] {f : σ → σ} {u : Unit} {s s' : σ} :
    Exec (modify f : Program σ ι Unit) s u s' ↔ s' = f s := by
  simp [modify, exec_access, eq_comm]

theorem exec_read [Nonempty ι] {f : σ → α} {a : α} {s s' : σ} :
    Exec (read f : Program σ ι α) s a s' ↔ a = f s ∧ s' = s := by
  simp [read, exec_access, eq_comm]

/-- The induction is on the number of rounds; `I i` holds before round `i`. -/
theorem Exec.fold {body : Nat → β → Program σ ι β} {I : Nat → β → σ → Prop} {lo count : Nat}
    {acc result : β} {s s' : σ} (ran : Exec (fold body lo count acc) s result s')
    (round : ∀ i b s b' s', lo ≤ i → i < lo + count → I i b s → Exec (body i b) s b' s' →
      I (i + 1) b' s')
    (start : I lo acc s) : I (lo + count) result s' := by
  induction count generalizing lo acc s with
  | zero =>
    obtain ⟨rfl, rfl⟩ := exec_done.mp ran
    exact start
  | succ count ih =>
    obtain ⟨b, mid, first, rest⟩ := exec_bind.mp ran
    have after := ih rest (fun i b s b' s' low high => round i b s b' s' (by omega) (by omega))
      (round lo acc s b mid (Nat.le_refl lo) (by omega) start first)
    rwa [Nat.add_right_comm, Nat.add_assoc] at after

/-- A loop that no error has ended; `I i` holds before round `i`. -/
theorem Exec.untilErr {body : Nat → Program σ ι Int} {I : Nat → σ → Prop} {lo count : Nat} {s s' : σ}
    (ran : Exec (untilErr body lo count) s 0 s')
    (round : ∀ i s s', lo ≤ i → i < lo + count → I i s → Exec (body i) s 0 s' → I (i + 1) s')
    (start : I lo s) : I (lo + count) s' := by
  induction count generalizing lo s with
  | zero =>
    obtain ⟨-, rfl⟩ := exec_done.mp ran
    exact start
  | succ count ih =>
    obtain ⟨err, mid, first, rest⟩ := exec_bind.mp ran
    by_cases failed : err ≠ 0
    · rw [if_pos failed] at rest
      exact absurd (exec_done.mp rest).1.symm failed
    · rw [if_neg failed] at rest
      rw [not_ne_iff.mp failed] at first
      have after := ih rest (fun i s s' low high => round i s s' (by omega) (by omega))
        (round lo s mid (Nat.le_refl lo) (by omega) start first)
      rwa [Nat.add_right_comm, Nat.add_assoc] at after

theorem Exec.untilErr_ok {body : Nat → Program σ ι Int} (each : ∀ i s, ∃ s', Exec (body i) s 0 s') (lo count : Nat)
    (s : σ) : ∃ s', Exec (Program.untilErr body lo count) s 0 s' := by
  induction count generalizing lo s with
  | zero => exact ⟨s, .done 0 s⟩
  | succ count ih =>
    obtain ⟨mid, first⟩ := each lo s
    obtain ⟨s', rest⟩ := ih (lo + 1) mid
    exact ⟨s', first.bind rest⟩

/-- A relation between the states around any part of a run. -/
def Keeps (R : σ → σ → Prop) (p : Program σ ι α) : Prop := ∀ s a s', Exec p s a s' → R s s'

namespace Keeps

variable {R : σ → σ → Prop}

theorem done (refl : ∀ s, R s s) (a : α) : Keeps R (.done a : Program σ ι α) := by
  intro s _ _ ran
  obtain ⟨-, rfl⟩ := exec_done.mp ran
  exact refl _

theorem bind (trans : ∀ a b c, R a b → R b c → R a c) {p : Program σ ι α} {f : α → Program σ ι β}
    (first : Keeps R p) (rest : ∀ a, Keeps R (f a)) : Keeps R (p >>= f) := by
  intro s b s' ran
  obtain ⟨a, mid, head, tail⟩ := exec_bind.mp ran
  exact trans _ _ _ (first _ _ _ head) (rest _ _ _ _ tail)

theorem map {p : Program σ ι α} (h : Keeps R p) (f : α → β) : Keeps R (f <$> p) := by
  intro s b s' ran
  obtain ⟨a, ran, -⟩ := exec_map.mp ran
  exact h _ _ _ ran

end Keeps

/-- Whatever the state holds, the program finishes with a value in `P` only. -/
def Results (P : α → Prop) : Program σ ι α → Prop
  | .done a => P a
  | .step _ next => ∀ b, Results P (next b)

theorem Results.bind {p : Program σ ι α} {f : α → Program σ ι β} {P : α → Prop} {Q : β → Prop}
    (first : p.Results P) (rest : ∀ a, P a → (f a).Results Q) : (p >>= f).Results Q := by
  induction p with
  | done a => exact rest a first
  | step act next ih => exact fun b => ih b (first b)

theorem Results.trivial (p : Program σ ι α) : p.Results fun _ => True := by
  induction p with
  | done a => exact True.intro
  | step act next ih => exact ih

theorem Results.map {p : Program σ ι α} {f : α → β} {Q : β → Prop} (holds : ∀ a, Q (f a)) :
    (f <$> p).Results Q := by
  rw [← bind_pure_comp]
  exact (Results.trivial p).bind fun a _ => holds a

theorem Results.lift {τ : Type} {p : Program σ ι α} {P : α → Prop} (results : p.Results P) (get : τ → σ)
    (set : σ → τ → τ) : (p.lift get set).Results P := by
  induction p with
  | done a => exact results
  | step act next ih => exact fun b => ih b (results b)

theorem Results.exec {p : Program σ ι α} {P : α → Prop} (results : p.Results P) {s s' : σ} {a : α}
    (ran : Exec p s a s') : P a := by
  induction ran with
  | done => exact results
  | step _ _ ih => exact ih (results _)

/-- Every access of the program relates the states around it. -/
def Steps (R : σ → σ → Prop) : Program σ ι α → Prop
  | .done _ => True
  | .step act next => (∀ i s b s', act i s = some (b, s') → R s s') ∧ ∀ b, Steps R (next b)

namespace Steps

variable {R : σ → σ → Prop}

theorem bind {p : Program σ ι α} {f : α → Program σ ι β} (first : p.Steps R) (rest : ∀ a, (f a).Steps R) :
    (p >>= f).Steps R := by
  induction p with
  | done a => exact rest a
  | step act next ih => exact ⟨first.1, fun b => ih b (first.2 b)⟩

theorem done (a : α) : (.done a : Program σ ι α).Steps R := True.intro

theorem mono {R' : σ → σ → Prop} {p : Program σ ι α} (steps : p.Steps R) (h : ∀ s s', R s s' → R' s s') :
    p.Steps R' := by
  induction p with
  | done a => exact True.intro
  | step act next ih => exact ⟨fun i s b s' taken => h s s' (steps.1 i s b s' taken), fun b => ih b (steps.2 b)⟩

theorem access {act : ι → σ → Option (α × σ)} (h : ∀ i s a s', act i s = some (a, s') → R s s') :
    (Program.access act).Steps R := ⟨h, fun _ => True.intro⟩

theorem read (refl : ∀ s, R s s) (f : σ → α) : (Program.read f : Program σ ι α).Steps R := by
  apply access
  intro _ s a s' taken
  obtain ⟨-, rfl⟩ : f s = a ∧ s = s' := by simpa using taken
  exact refl s

theorem modify {f : σ → σ} (h : ∀ s, R s (f s)) : (Program.modify f : Program σ ι Unit).Steps R := by
  apply access
  intro _ s _ s' taken
  obtain rfl : f s = s' := by simpa using taken
  exact h s

theorem fold {body : Nat → β → Program σ ι β} (each : ∀ i b, (body i b).Steps R) (lo count : Nat) (acc : β) :
    (Program.fold body lo count acc).Steps R := by
  induction count generalizing lo acc with
  | zero => exact True.intro
  | succ count ih => exact (each lo acc).bind fun b => ih (lo + 1) b

/-- The rounds of a loop within its bounds. -/
theorem fold_below {body : Nat → β → Program σ ι β} {lo count : Nat} {acc : β}
    (each : ∀ i b, i < lo + count → (body i b).Steps R) : (Program.fold body lo count acc).Steps R := by
  induction count generalizing lo acc with
  | zero => exact done acc
  | succ count ih =>
    apply (each lo acc (by omega)).bind
    exact fun b => ih fun i b less => each i b (by omega)

theorem trivial (p : Program σ ι α) : p.Steps fun _ _ => True := by
  induction p with
  | done a => exact True.intro
  | step act next ih => exact ⟨fun _ _ _ _ _ => True.intro, ih⟩

theorem lift {τ : Type} {get : τ → σ} {set : σ → τ → τ} {R' : τ → τ → Prop} {p : Program σ ι α}
    (steps : p.Steps R) (h : ∀ t s, R (get t) s → R' t (set s t)) : (p.lift get set).Steps R' := by
  induction p with
  | done a => exact True.intro
  | step act next ih =>
    refine ⟨fun i t b t' taken => ?_, fun b => ih b (steps.2 b)⟩
    obtain ⟨r, first, same⟩ := Option.map_eq_some_iff.mp taken
    cases same
    exact h t r.2 (steps.1 i _ _ _ first)

theorem untilErr {body : Nat → Program σ ι Int} (each : ∀ i, (body i).Steps R) (lo count : Nat) :
    (Program.untilErr body lo count).Steps R := by
  induction count generalizing lo with
  | zero => exact True.intro
  | succ count ih =>
    apply (each lo).bind
    intro err
    split
    · exact True.intro
    · exact ih (lo + 1)

theorem untilErr_below {body : Nat → Program σ ι Int} {lo count : Nat} (each : ∀ i, i < lo + count → (body i).Steps R) :
    (Program.untilErr body lo count).Steps R := by
  induction count generalizing lo with
  | zero => exact done 0
  | succ count ih =>
    apply (each lo (by omega)).bind
    intro err
    split
    · exact done err
    · exact ih fun i less => each i (by omega)

theorem firstErr {body : Nat → Program σ ι Int} (each : ∀ i, (body i).Steps R) (lo count : Nat) :
    (Program.firstErr body lo count).Steps R := by
  apply fold
  intro i first
  apply (each i).bind
  intro err
  split <;> exact True.intro

/-- What is left of the program once its first part has run. -/
theorem rest {p : Program σ ι α} {f : α → Program σ ι β} {s mid : σ} {a : α} (steps : (p >>= f).Steps R)
    (ran : Exec p s a mid) : (f a).Steps R := by
  induction ran with
  | done => exact steps
  | step _ _ ih => exact ih (steps.2 _)

theorem exec (refl : ∀ s, R s s) (trans : ∀ a b c, R a b → R b c → R a c) {p : Program σ ι α} (steps : p.Steps R)
    {s s' : σ} {a : α} (ran : Exec p s a s') : R s s' := by
  induction ran with
  | done => exact refl _
  | step first _ ih => exact trans _ _ _ (steps.1 _ _ _ _ first) (ih (steps.2 _))

end Steps

def isDone : Program σ ι Unit → Bool
  | .done _ => true
  | .step _ _ => false

theorem eq_done {p : Program σ ι Unit} (h : p.isDone = true) : p = .done () := by
  cases p with
  | done => rfl
  | step act next => cases h

/-- No access of the program ever waits. -/
def Enabled : Program σ ι α → Prop
  | .done _ => True
  | .step act next => (∀ i s, (act i s).isSome) ∧ ∀ b, Enabled (next b)

namespace Enabled

theorem bind {p : Program σ ι α} {f : α → Program σ ι β} (first : p.Enabled) (rest : ∀ a, (f a).Enabled) :
    (p >>= f).Enabled := by
  induction p with
  | done a => exact rest a
  | step act next ih => exact ⟨first.1, fun b => ih b (first.2 b)⟩

theorem access {act : ι → σ → Option (α × σ)} (h : ∀ i s, (act i s).isSome) : (Program.access act).Enabled :=
  ⟨h, fun _ => True.intro⟩

theorem read (f : σ → α) : (Program.read f : Program σ ι α).Enabled := access fun _ _ => rfl

theorem modify (f : σ → σ) : (Program.modify f : Program σ ι Unit).Enabled := access fun _ _ => rfl

theorem lift {τ : Type} {get : τ → σ} {set : σ → τ → τ} {p : Program σ ι α} (enabled : p.Enabled) :
    (p.lift get set).Enabled := by
  induction p with
  | done a => exact True.intro
  | step act next ih =>
    refine ⟨fun i t => ?_, fun b => ih b (enabled.2 b)⟩
    rw [Option.isSome_map]
    exact enabled.1 i (get t)

theorem fold {body : Nat → β → Program σ ι β} (each : ∀ i b, (body i b).Enabled) (lo count : Nat) (acc : β) :
    (Program.fold body lo count acc).Enabled := by
  induction count generalizing lo acc with
  | zero => exact True.intro
  | succ count ih => exact (each lo acc).bind fun b => ih (lo + 1) b

end Enabled

/-- Run alone on a list of inputs, as long as they last. -/
def run : Program σ ι α → List ι → σ → Option (α × σ)
  | .done a, _, s => some (a, s)
  | .step _ _, [], _ => none
  | .step act next, i :: inputs, s =>
    match act i s with
    | none => none
    | some (b, s') => (next b).run inputs s'

@[simp] theorem run_done (a : α) (inputs : List ι) (s : σ) : (done a : Program σ ι α).run inputs s = some (a, s) := rfl

theorem run_access_cons (act : ι → σ → Option (β × σ)) (f : β → Program σ ι α) (i : ι) (inputs : List ι) (s : σ) :
    (access act >>= f).run (i :: inputs) s = (act i s).bind fun r => (f r.1).run inputs r.2 := by
  simp only [access, bind_step, bind_done, run]
  cases act i s <;> rfl

/-- The first part of a program takes the first inputs. -/
theorem run_bind {p : Program σ ι α} {f : α → Program σ ι β} {inputs : List ι} {s s' : σ} {b : β}
    (ran : (p >>= f).run inputs s = some (b, s')) :
    ∃ used rest a mid, inputs = used ++ rest ∧ p.run used s = some (a, mid) ∧ (f a).run rest mid = some (b, s') := by
  induction p generalizing inputs s with
  | done a => exact ⟨[], inputs, a, s, rfl, rfl, ran⟩
  | step act next ih =>
    cases inputs with
    | nil => cases ran
    | cons i inputs =>
      simp only [bind_step, run] at ran
      split at ran
      · cases ran
      · rename_i c mid first
        rcases ih c ran with ⟨used, rest, a, last, rfl, head, tail⟩
        refine ⟨i :: used, rest, a, last, rfl, ?_, tail⟩
        simp only [run, first]
        exact head

theorem Exec.of_run {p : Program σ ι α} {inputs : List ι} {s s' : σ} {a : α}
    (ran : p.run inputs s = some (a, s')) : Exec p s a s' := by
  induction p generalizing inputs s with
  | done v =>
    obtain ⟨rfl, rfl⟩ : v = a ∧ s = s' := by simpa [run] using ran
    exact .done v s
  | step act next ih =>
    cases inputs with
    | nil => simp [run] at ran
    | cons i inputs =>
      simp only [run] at ran
      split at ran
      · cases ran
      · rename_i b mid first
        exact .step first (ih b ran)

/-- Run alone, with the same input at every access. -/
def eval (i : ι) : Program σ ι α → σ → Option (α × σ)
  | .done a, s => some (a, s)
  | .step act next, s =>
    match act i s with
    | none => none
    | some (b, s') => (next b).eval i s'

@[simp] theorem eval_done (i : ι) (a : α) (s : σ) : (done a : Program σ ι α).eval i s = some (a, s) := rfl

@[simp] theorem eval_access (i : ι) (act : ι → σ → Option (α × σ)) (s : σ) : (access act).eval i s = act i s := by
  simp only [access, eval]
  cases act i s <;> rfl

@[simp] theorem eval_read (i : ι) (f : σ → α) (s : σ) : (read f : Program σ ι α).eval i s = some (f s, s) := rfl

@[simp] theorem eval_modify (i : ι) (f : σ → σ) (s : σ) :
    (modify f : Program σ ι Unit).eval i s = some ((), f s) := rfl

theorem eval_bind (i : ι) (p : Program σ ι α) (f : α → Program σ ι β) (s : σ) :
    (p >>= f).eval i s = (p.eval i s).bind fun r => (f r.1).eval i r.2 := by
  induction p generalizing s with
  | done a => rfl
  | step act next ih =>
    simp only [bind_step, eval]
    cases act i s with
    | none => rfl
    | some r => exact ih r.1 r.2

theorem Exec.of_eval {i : ι} {p : Program σ ι α} {s s' : σ} {a : α} (ran : p.eval i s = some (a, s')) :
    Exec p s a s' := by
  induction p generalizing s with
  | done v =>
    obtain ⟨rfl, rfl⟩ : v = a ∧ s = s' := by simpa [eval] using ran
    exact .done v s
  | step act next ih =>
    simp only [eval] at ran
    split at ran
    · cases ran
    · rename_i b mid first
      exact .step first (ih b ran)

theorem Enabled.eval {p : Program σ ι α} (enabled : p.Enabled) (i : ι) (s : σ) : ∃ r, p.eval i s = some r := by
  induction p generalizing s with
  | done a => exact ⟨(a, s), rfl⟩
  | step act next ih =>
    obtain ⟨⟨b, mid⟩, taken⟩ := Option.isSome_iff_exists.mp (enabled.1 i s)
    simp only [Program.eval, taken]
    exact ih b (enabled.2 b) mid

theorem Enabled.finishes [Nonempty ι] {p : Program σ ι α} (enabled : p.Enabled) (s : σ) : p.Finishes s := by
  obtain ⟨i⟩ := ‹Nonempty ι›
  obtain ⟨⟨a, s'⟩, ran⟩ := enabled.eval i s
  exact ⟨a, s', .of_eval ran⟩

/-- With this input the program comes to its end wherever `Q` holds, and `Q` holds there again. -/
def Ends (Q : σ → Prop) (i : ι) (p : Program σ ι α) : Prop := ∀ s, Q s → ∃ a s', p.eval i s = some (a, s') ∧ Q s'

namespace Ends

variable {Q : σ → Prop} {i : ι}

theorem done (a : α) : Ends Q i (.done a : Program σ ι α) := fun s holds => ⟨a, s, rfl, holds⟩

theorem bind {p : Program σ ι α} {f : α → Program σ ι β} (first : Ends Q i p) (rest : ∀ a, Ends Q i (f a)) :
    Ends Q i (p >>= f) := by
  intro s holds
  rcases first s holds with ⟨a, mid, ran, holds'⟩
  rcases rest a mid holds' with ⟨b, s', ran', holds''⟩
  refine ⟨b, s', ?_, holds''⟩
  rw [eval_bind, ran]
  exact ran'

theorem access {act : ι → σ → Option (α × σ)} (h : ∀ s, Q s → ∃ a s', act i s = some (a, s') ∧ Q s') :
    Ends Q i (Program.access act) := by
  intro s holds
  rw [eval_access]
  exact h s holds

theorem read (f : σ → α) : Ends Q i (Program.read f) := fun s holds => ⟨f s, s, rfl, holds⟩

theorem modify {f : σ → σ} (h : ∀ s, Q s → Q (f s)) : Ends Q i (Program.modify f) := fun s holds => ⟨(), f s, rfl, h s holds⟩

end Ends

section Lift

variable {τ : Type} {get : τ → σ} {set : σ → τ → τ}

/-- What a lens has to satisfy for `lift`. -/
structure Lens (get : τ → σ) (set : σ → τ → τ) : Prop where
  get_set : ∀ s t, get (set s t) = s
  set_get : ∀ t, set (get t) t = t
  set_set : ∀ s s' t, set s (set s' t) = set s t

theorem exec_lift (lens : Lens get set) {p : Program σ ι α} {a : α} {t t' : τ} :
    Exec (p.lift get set) t a t' ↔ Exec p (get t) a (get t') ∧ t' = set (get t') t := by
  induction p generalizing t with
  | done b =>
    simp only [lift, exec_done]
    constructor
    · rintro ⟨rfl, rfl⟩
      exact ⟨⟨rfl, rfl⟩, (lens.set_get _).symm⟩
    · rintro ⟨⟨rfl, same⟩, rest⟩
      exact ⟨rfl, by rw [rest, same, lens.set_get]⟩
  | step act next ih =>
    simp only [lift, exec_step, Option.map_eq_some_iff, Prod.mk.injEq]
    constructor
    · rintro ⟨i, b, mid, ⟨⟨b', s⟩, first, rfl, rfl⟩, rest⟩
      obtain ⟨ran, frame⟩ := (ih b').mp rest
      rw [lens.get_set] at ran
      exact ⟨⟨i, b', s, first, ran⟩, by rw [frame, lens.get_set, lens.set_set]⟩
    · rintro ⟨⟨i, b, s, first, ran⟩, frame⟩
      refine ⟨i, b, set s t, ⟨(b, s), first, rfl, rfl⟩, (ih b).mpr ⟨?_, ?_⟩⟩
      · rwa [lens.get_set]
      · rw [lens.set_set]
        exact frame

theorem eval_lift (lens : Lens get set) (i : ι) (p : Program σ ι α) (t : τ) :
    (p.lift get set).eval i t = (p.eval i (get t)).map fun r => (r.1, set r.2 t) := by
  induction p generalizing t with
  | done a => rw [lift, eval, eval, Option.map_some, lens.set_get]
  | step act next ih =>
    simp only [lift, eval]
    cases act i (get t) with
    | none => rfl
    | some r =>
      rw [Option.map_some]
      simp only
      rw [ih, lens.get_set]
      cases (next r.1).eval i r.2 with
      | none => rfl
      | some r' => simp only [Option.map_some, lens.set_set]

end Lift

theorem lift_bind {τ : Type} (get : τ → σ) (set : σ → τ → τ) (p : Program σ ι α) (f : α → Program σ ι β) :
    (p >>= f).lift get set = p.lift get set >>= fun a => (f a).lift get set := by
  induction p with
  | done a => rfl
  | step act next ih => simp only [bind_step, lift, ih]

/-- The program where each access finds only a part of what there is to find. -/
def comap {κ : Type} (f : κ → ι) : Program σ ι α → Program σ κ α
  | .done a => .done a
  | .step act next => .step (fun k => act (f k)) fun b => (next b).comap f

theorem comap_bind {κ : Type} (f : κ → ι) (p : Program σ ι α) (g : α → Program σ ι β) :
    (p >>= g).comap f = p.comap f >>= fun a => (g a).comap f := by
  induction p with
  | done a => rfl
  | step act next ih => simp only [bind_step, comap, ih]

theorem Steps.comap {κ : Type} {p : Program σ ι α} {R : σ → σ → Prop} (steps : p.Steps R) (f : κ → ι) :
    (p.comap f).Steps R := by
  induction p with
  | done a => exact True.intro
  | step act next ih => exact ⟨fun k s b s' taken => steps.1 (f k) s b s' taken, fun b => ih b (steps.2 b)⟩

theorem Results.comap {κ : Type} {p : Program σ ι α} {P : α → Prop} (results : p.Results P) (f : κ → ι) :
    (p.comap f).Results P := by
  induction p with
  | done a => exact results
  | step act next ih => exact fun b => ih b (results b)

theorem comap_comap {κ μ : Type} (f : κ → ι) (g : μ → κ) (p : Program σ ι α) :
    (p.comap f).comap g = p.comap (f ∘ g) := by
  induction p with
  | done a => rfl
  | step act next ih => simp only [comap, ih, Function.comp_def]

theorem comap_id (p : Program σ ι α) : p.comap id = p := by
  induction p with
  | done a => rfl
  | step act next ih => simp only [comap, ih, id_eq]

theorem comap_lift {κ τ : Type} (f : κ → ι) (get : τ → σ) (set : σ → τ → τ) (p : Program σ ι α) :
    (p.lift get set).comap f = (p.comap f).lift get set := by
  induction p with
  | done a => rfl
  | step act next ih => simp only [lift, comap, ih]

theorem exec_comap_access {κ : Type} {f : κ → ι} {act : ι → σ → Option (α × σ)} {a : α} {s s' : σ} :
    Exec ((access act).comap f) s a s' ↔ ∃ k, act (f k) s = some (a, s') :=
  exec_access

theorem exec_comap_read {κ : Type} [Nonempty κ] {f : κ → ι} {g : σ → α} {a : α} {s s' : σ} :
    Exec ((read g : Program σ ι α).comap f) s a s' ↔ a = g s ∧ s' = s :=
  exec_read

theorem exec_comap_modify {κ : Type} [Nonempty κ] {f : κ → ι} {g : σ → σ} {u : Unit} {s s' : σ} :
    Exec ((modify g : Program σ ι Unit).comap f) s u s' ↔ s' = g s :=
  exec_modify

theorem Enabled.comap {κ : Type} {p : Program σ ι α} (enabled : p.Enabled) (f : κ → ι) : (p.comap f).Enabled := by
  induction p with
  | done a => exact True.intro
  | step act next ih => exact ⟨fun k s => enabled.1 (f k) s, fun b => ih b (enabled.2 b)⟩

theorem eval_comap {κ : Type} (f : κ → ι) (k : κ) (p : Program σ ι α) (s : σ) :
    (p.comap f).eval k s = p.eval (f k) s := by
  induction p generalizing s with
  | done a => rfl
  | step act next ih =>
    simp only [comap, eval]
    cases act (f k) s with
    | none => rfl
    | some r => exact ih r.1 r.2

end Program

end OpenNic
