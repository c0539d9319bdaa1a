import OpenNic.Program.RelyGuarantee

namespace OpenNic

namespace Program

variable {σ ι α β : Type} (locked : σ → Bool)

/-- With the lock held, no access but the last gives it back. -/
def Closing : Program σ ι α → Prop
  | .done _ => False
  | .step act next => ∀ i s b s', locked s = true → act i s = some (b, s') →
    (locked s' = true ∧ Closing (next b)) ∨ (locked s' = false ∧ ∃ a, next b = .done a)

/-- The first access waits for the lock and takes it, the last one gives it back. -/
def Guarded : Program σ ι α → Prop
  | .done _ => False
  | .step act next => ∀ i s b s', act i s = some (b, s') →
    locked s = false ∧ locked s' = true ∧ (next b).Closing locked

variable {locked}

theorem Closing.bind {p : Program σ ι α} {f : α → Program σ ι β}
    (keeps : p.Steps fun s s' => locked s = true → locked s' = true) (rest : ∀ a, (f a).Closing locked) :
    (p >>= f).Closing locked := by
  induction p with
  | done a => exact rest a
  | step act next ih =>
    intro i s b s' held taken
    exact .inl ⟨keeps.1 i s b s' taken held, ih b (keeps.2 b)⟩

theorem Closing.last {f : σ → σ} (a : α) (gives : ∀ s, locked (f s) = false) :
    Closing locked ((modify f : Program σ ι Unit) >>= fun _ => .done a) := by
  intro _ s _ s' _ taken
  obtain rfl : f s = s' := by simpa using taken
  exact .inr ⟨gives s, a, rfl⟩

theorem Guarded.bind {act : ι → σ → Option (α × σ)} {f : α → Program σ ι β}
    (takes : ∀ i s a s', act i s = some (a, s') → locked s = false ∧ locked s' = true)
    (rest : ∀ a, (f a).Closing locked) : Guarded locked (access act >>= f) := by
  intro i s a s' taken
  obtain ⟨free, held⟩ := takes i s a s' taken
  exact ⟨free, held, rest a⟩

theorem Closing.comap {κ : Type} {p : Program σ ι α} (closing : p.Closing locked) (f : κ → ι) :
    (p.comap f).Closing locked := by
  induction p with
  | done a => exact closing
  | step act next ih =>
    intro k s b s' held taken
    rcases closing (f k) s b s' held taken with ⟨held', rest⟩ | ⟨free, a, last⟩
    · exact .inl ⟨held', ih b rest⟩
    · refine .inr ⟨free, a, ?_⟩
      show (next b).comap f = .done a
      rw [last, Program.comap]

theorem Guarded.comap {κ : Type} {p : Program σ ι α} (guarded : p.Guarded locked) (f : κ → ι) :
    (p.comap f).Guarded locked := by
  cases p with
  | done a => exact guarded
  | step act next =>
    intro k s b s' taken
    obtain ⟨free, held, rest⟩ := guarded (f k) s b s' taken
    exact ⟨free, held, rest.comap f⟩

theorem Exec.of_comap {κ : Type} {f : κ → ι} {p : Program σ ι α} {a : α} {s s' : σ} (ran : Exec (p.comap f) s a s') :
    Exec p s a s' := by
  induction p generalizing s with
  | done b => exact exec_done.mpr (exec_done.mp ran)
  | step act next ih =>
    obtain ⟨k, b, mid, first, rest⟩ := exec_step.mp ran
    exact .step first (ih b rest)

/-- What is left of a program that has come some way on its own. -/
inductive Progress (p : Program σ ι α) (s : σ) : Program σ ι α → σ → Prop
  | start : Progress p s p s
  | step {δ : Type} {act : ι → σ → Option (δ × σ)} {next : δ → Program σ ι α} {i : ι} {mid s' : σ} {b : δ}
      (before : Progress p s (.step act next) mid) (taken : act i mid = some (b, s')) : Progress p s (next b) s'

/-- A program made of the given ones. -/
inductive Composed {Op ρ : Type} (impl : Op → Program σ ι ρ) : {α : Type} → Program σ ι α → Prop
  | done {α : Type} (a : α) : Composed impl (.done a)
  | part {α : Type} {op : Op} {next : ρ → Program σ ι α} (rest : ∀ r, Composed impl (next r)) :
    Composed impl (impl op >>= next)

namespace Composed

variable {Op ρ : Type} {impl : Op → Program σ ι ρ}

theorem bind {p : Program σ ι α} {f : α → Program σ ι β} (first : Composed impl p) (rest : ∀ a, Composed impl (f a)) :
    Composed impl (p >>= f) := by
  induction first with
  | done a => exact rest a
  | part _ ih =>
    rw [bind_assoc]
    exact .part fun r => ih r

theorem map {p : Program σ ι α} (composed : Composed impl p) (f : α → β) : Composed impl (f <$> p) := by
  rw [← bind_pure_comp]
  exact composed.bind fun a => .done (f a)

theorem one (op : Op) : Composed impl (impl op) := by
  rw [← Program.bind_pure (impl op)]
  exact .part fun r => .done r

theorem comap {κ : Type} {p : Program σ ι α} (composed : Composed impl p) (f : κ → ι) :
    Composed (fun op => (impl op).comap f) (p.comap f) := by
  induction composed with
  | done a => exact .done a
  | @part op _ _ ih =>
    rw [comap_bind]
    exact @Composed.part σ κ Op ρ (fun op => (impl op).comap f) _ op _ ih

end Composed

theorem Progress.exec {p q : Program σ ι α} {s mid s' : σ} {a : α} (before : Progress p s q mid)
    (rest : Exec q mid a s') : Exec p s a s' := by
  induction before with
  | start => exact rest
  | step _ taken ih => exact ih (.step taken rest)

end Program

/-- A component of the state that is reached in critical sections only: the sections, the
    lock that each of them holds from its first access to its last, and the component. -/
structure Sections (σ τ ι Op ρ : Type) where
  impl : Op → Program σ ι ρ
  locked : σ → Bool
  get : τ → σ
  set : σ → τ → τ
  lens : Program.Lens get set
  guarded : ∀ op, (impl op).Guarded locked

namespace Sections

variable {σ τ ι Op ρ T : Type} (S : Sections σ τ ι Op ρ)

/-- The section as a thread runs it, and what the thread does with its result. -/
def call {α : Type} (op : Op) (next : ρ → Program τ ι α) : Program τ ι α := (S.impl op).lift S.get S.set >>= next

/-- An access that neither sees the component nor changes it. -/
def Outside {β : Type} (act : ι → τ → Option (β × τ)) : Prop :=
  ∀ i t c, act i (S.set c t) = (act i t).map fun r => (r.1, S.set c r.2)

/-- A program that reaches the component in sections only. -/
inductive Code {α : Type} : Program τ ι α → Prop
  | done (a : α) : Code (.done a)
  | outside {β : Type} {act : ι → τ → Option (β × τ)} {next : β → Program τ ι α} (own : S.Outside act)
      (rest : ∀ b, Code (next b)) : Code (.step act next)
  | critical {op : Op} {next : ρ → Program τ ι α} (rest : ∀ r, Code (next r)) : Code (S.call op next)

/-- Neither who may be called nor what happens outside depends on the component. -/
structure Apart [DecidableEq T] (rules : Pool.Rules T τ ι) : Prop where
  code : ∀ t s p, rules.calls t s p → S.Code p
  calls : ∀ t s c p, rules.calls t s p → rules.calls t (S.set c s) p
  env : ∀ s s' c, rules.env s s' → rules.env (S.set c s) (S.set c s')
  keeps : ∀ s s', rules.env s s' → S.get s' = S.get s

/-- A run in which every section is one step; the log has the sections in their order. -/
inductive AtomicRun [DecidableEq T] (rules : Pool.Rules T τ ι) (P₀ : Pool T τ ι) : Pool T τ ι → List (T × Op) → Prop
  | start : AtomicRun rules P₀ P₀ []
  | access {P : Pool T τ ι} {log : List (T × Op)} {t : T} {β : Type} {act : ι → τ → Option (β × τ)}
      {next : β → Program τ ι Unit} {i : ι} {b : β} {s' : τ} (before : AtomicRun rules P₀ P log)
      (at_ : P.thread t = .step act next) (own : S.Outside act) (taken : act i P.state = some (b, s')) :
      AtomicRun rules P₀ ⟨s', Function.update P.thread t (next b)⟩ log
  | critical {P : Pool T τ ι} {log : List (T × Op)} {t : T} {op : Op} {next : ρ → Program τ ι Unit} {r : ρ} {c : σ}
      (before : AtomicRun rules P₀ P log) (at_ : P.thread t = S.call op next)
      (ran : Program.Exec (S.impl op) (S.get P.state) r c) :
      AtomicRun rules P₀ ⟨S.set c P.state, Function.update P.thread t (next r)⟩ (log ++ [(t, op)])
  | call {P : Pool T τ ι} {log : List (T × Op)} {t : T} {p : Program τ ι Unit} (before : AtomicRun rules P₀ P log)
      (idle : P.thread t = .done ()) (allowed : rules.calls t P.state p) :
      AtomicRun rules P₀ ⟨P.state, Function.update P.thread t p⟩ log
  | env {P : Pool T τ ι} {log : List (T × Op)} {s' : τ} (before : AtomicRun rules P₀ P log)
      (happens : rules.env P.state s') : AtomicRun rules P₀ ⟨s', P.thread⟩ log

/-- The section that a thread is inside of, seen from the state it began in. -/
structure Inside [DecidableEq T] (Q : Pool T τ ι) (t : T) (op : Op) (P : Pool T τ ι) : Prop where
  free : S.locked (S.get Q.state) = false
  held : S.locked (S.get P.state) = true
  state : P.state = S.set (S.get P.state) Q.state
  left : ∃ (next : ρ → Program τ ι Unit) (p : Program σ ι ρ), (∀ r, S.Code (next r)) ∧ Q.thread t = S.call op next ∧
    P.thread = Function.update Q.thread t (p.lift S.get S.set >>= next) ∧
    Program.Progress (S.impl op) (S.get Q.state) p (S.get P.state) ∧ p.Closing S.locked

/-- With the lock free the pool is one of the run of whole sections, with the lock held one
    thread is ahead of it by a part of its section. -/
def Refines [DecidableEq T] (Q P : Pool T τ ι) : Prop :=
  (S.locked (S.get P.state) = false ∧ P = Q) ∨ ∃ t op, S.Inside Q t op P

variable {S}

theorem Outside.get {β : Type} {act : ι → τ → Option (β × τ)} (own : S.Outside act) {i : ι} {t t' : τ} {b : β}
    (taken : act i t = some (b, t')) : S.get t' = S.get t := by
  have same := own i t (S.get t)
  rw [S.lens.set_get, taken, Option.map_some, Option.some.injEq, Prod.mk.injEq] at same
  rw [same.2, S.lens.get_set]

theorem Outside.under {β : Type} {act : ι → τ → Option (β × τ)} (own : S.Outside act) {i : ι} {t t' : τ} {c : σ} {b : β}
    (taken : act i (S.set c t) = some (b, t')) : ∃ s, act i t = some (b, s) ∧ t' = S.set c s := by
  rw [own i t c, Option.map_eq_some_iff] at taken
  obtain ⟨⟨b', s⟩, under, same⟩ := taken
  cases same
  exact ⟨s, under, rfl⟩

namespace Code

variable {α β : Type}

theorem bind {p : Program τ ι α} {f : α → Program τ ι β} (first : S.Code p) (rest : ∀ a, S.Code (f a)) :
    S.Code (p >>= f) := by
  induction first with
  | done a => exact rest a
  | outside own _ ih => exact .outside own ih
  | critical _ ih =>
    rw [call, Program.bind_assoc]
    exact .critical ih

theorem access {act : ι → τ → Option (α × τ)} (own : S.Outside act) : S.Code (.access act) := .outside own .done

theorem read {f : τ → α} (own : ∀ t c, f (S.set c t) = f t) : S.Code (.read f) := by
  apply access
  intro i t c
  simp only [Option.map_some, own]

theorem modify {f : τ → τ} (own : ∀ t c, f (S.set c t) = S.set c (f t)) : S.Code (.modify f) := by
  apply access
  intro i t c
  simp only [Option.map_some, own]

theorem fold {body : Nat → β → Program τ ι β} (each : ∀ i b, S.Code (body i b)) (lo count : Nat) (acc : β) :
    S.Code (.fold body lo count acc) := by
  induction count generalizing lo acc with
  | zero => exact .done acc
  | succ count ih => exact (each lo acc).bind fun b => ih (lo + 1) b

theorem lift {p : Program σ ι α} (composed : Program.Composed S.impl p) : S.Code (p.lift S.get S.set) := by
  induction composed with
  | done a => exact .done a
  | part _ ih =>
    rw [Program.lift_bind]
    exact .critical ih

end Code

theorem Code.of_step {β : Type} {act : ι → τ → Option (β × τ)} {next : β → Program τ ι Unit}
    (code : S.Code (.step act next)) :
    (S.Outside act ∧ ∀ b, S.Code (next b)) ∨
      ∃ op rest, (∀ r, S.Code (rest r)) ∧ .step act next = S.call op rest := by
  generalize is : (.step act next : Program τ ι Unit) = p at code
  cases code with
  | done => cases is
  | outside own rest =>
    cases is
    exact .inl ⟨own, rest⟩
  | @critical op rest code => exact .inr ⟨op, rest, code, rfl⟩

/-- The first access of a section: it finds the lock free and leaves it taken. -/
theorem call_first {op : Op} {rest : ρ → Program τ ι Unit} {β : Type} {act : ι → τ → Option (β × τ)}
    {next : β → Program τ ι Unit} (is : S.call op rest = .step act next) {i : ι} {t t' : τ} {b : β}
    (taken : act i t = some (b, t')) :
    S.locked (S.get t) = false ∧ ∃ p c, t' = S.set c t ∧ S.locked c = true ∧ next b = p.lift S.get S.set >>= rest ∧
      Program.Progress (S.impl op) (S.get t) p c ∧ p.Closing S.locked := by
  have guarded := S.guarded op
  cases body : S.impl op with
  | done r =>
    rw [body] at guarded
    exact guarded.elim
  | step act' next' =>
    rw [body] at guarded
    rw [call, body] at is
    cases is
    obtain ⟨⟨b', c⟩, first, same⟩ := Option.map_eq_some_iff.mp taken
    cases same
    obtain ⟨free, held, closing⟩ := guarded i _ _ _ first
    exact ⟨free, next' b', c, rfl, held, rfl, .step .start first, closing⟩

section

variable [DecidableEq T] {rules : Pool.Rules T τ ι} {Q P : Pool T τ ι}

/-- Another thread cannot enter while the section goes on: what it does is outside. -/
theorem Inside.other {t u : T} {op : Op} (inside : S.Inside Q t op P) (other : u ≠ t) {β : Type}
    {act : ι → τ → Option (β × τ)} {next : β → Program τ ι Unit} {i : ι} {b : β} {s' : τ}
    (code : ∀ u, S.Code (Q.thread u)) (at_ : P.thread u = .step act next) (taken : act i P.state = some (b, s')) :
    S.Outside act ∧ (∀ b, S.Code (next b)) ∧ Q.thread u = .step act next ∧ ∃ s, act i Q.state = some (b, s) ∧
      S.Inside ⟨s, Function.update Q.thread u (next b)⟩ t op ⟨s', Function.update P.thread u (next b)⟩ := by
  obtain ⟨rest, p, rest_code, at_q, threads, progress, closing⟩ := inside.left
  have same : P.thread u = Q.thread u := by rw [threads, Function.update_of_ne other]
  have here := code u
  rw [← same, at_] at here
  rcases here.of_step with ⟨own, next_code⟩ | ⟨op', rest', -, is⟩
  · have kept := own.get taken
    rw [inside.state] at taken
    obtain ⟨s, under, after⟩ := own.under taken
    have kept' := own.get under
    refine ⟨own, next_code, same.symm.trans at_, s, under, ?_, ?_, ?_, rest, p, rest_code, ?_, ?_, ?_, closing⟩
    · rw [kept']
      exact inside.free
    · rw [kept]
      exact inside.held
    · rw [kept]
      exact after
    · rw [← at_q]
      exact Function.update_of_ne other.symm _ _
    · simp only [threads]
      exact Function.update_comm other.symm _ _ _
    · rw [kept, kept']
      exact progress
  · exact absurd (call_first is.symm taken).1 (by simp [inside.held])

/-- The thread goes on with its section or comes to its end, where the whole of it is one step. -/
theorem Inside.own {t : T} {op : Op} (inside : S.Inside Q t op P) {β : Type} {act : ι → τ → Option (β × τ)}
    {next : β → Program τ ι Unit} {i : ι} {b : β} {s' : τ} (at_ : P.thread t = .step act next)
    (taken : act i P.state = some (b, s')) :
    S.Inside Q t op ⟨s', Function.update P.thread t (next b)⟩ ∨
      ∃ rest r c, (∀ r, S.Code (rest r)) ∧ Q.thread t = S.call op rest ∧ Program.Exec (S.impl op) (S.get Q.state) r c ∧
        S.locked c = false ∧ (⟨s', Function.update P.thread t (next b)⟩ : Pool T τ ι) =
          ⟨S.set c Q.state, Function.update Q.thread t (rest r)⟩ := by
  obtain ⟨rest, p, rest_code, at_q, threads, progress, closing⟩ := inside.left
  rw [threads, Function.update_self] at at_
  cases p with
  | done r => exact closing.elim
  | step act' next' =>
    cases at_
    obtain ⟨⟨b', c⟩, first, same⟩ := Option.map_eq_some_iff.mp taken
    cases same
    have state : S.set c P.state = S.set c Q.state := by
      rw [inside.state]
      exact S.lens.set_set _ _ _
    have on_q (p : Program τ ι Unit) : Function.update P.thread t p = Function.update Q.thread t p := by
      rw [threads]
      exact Function.update_idem _ _ _
    rcases closing i _ _ _ inside.held first with ⟨held, closing'⟩ | ⟨free, r, last⟩
    · refine .inl ⟨inside.free, ?_, ?_, rest, next' b', rest_code, at_q, on_q _, ?_, closing'⟩
      · rw [S.lens.get_set]
        exact held
      · rw [S.lens.get_set]
        exact state
      · rw [S.lens.get_set]
        exact .step progress first
    · have after : (next' b').lift S.get S.set >>= rest = rest r := by rw [last, Program.lift, Program.bind_done]
      refine .inr ⟨rest, r, c, rest_code, at_q, progress.exec (.step first ?_), free, ?_⟩
      · rw [last]
        exact .done r c
      · rw [on_q, ← after, ← state]
        rfl

theorem Inside.call {t u : T} {op : Op} (inside : S.Inside Q t op P) {p : Program τ ι Unit}
    (idle : P.thread u = .done ()) : u ≠ t ∧ Q.thread u = .done () ∧
      S.Inside ⟨Q.state, Function.update Q.thread u p⟩ t op ⟨P.state, Function.update P.thread u p⟩ := by
  obtain ⟨rest, q, rest_code, at_q, threads, progress, closing⟩ := inside.left
  have other : u ≠ t := by
    rintro rfl
    rw [threads, Function.update_self] at idle
    cases q with
    | done r => exact closing.elim
    | step act next => cases idle
  rw [threads, Function.update_of_ne other] at idle
  refine ⟨other, idle, inside.free, inside.held, inside.state, rest, q, rest_code, ?_, ?_, progress, closing⟩
  · rw [← at_q]
    exact Function.update_of_ne other.symm _ _
  · simp only [threads]
    exact Function.update_comm other.symm _ _ _

theorem Inside.env {t : T} {op : Op} (inside : S.Inside Q t op P) (apart : S.Apart rules) {s' : τ}
    (happens : rules.env P.state s') : rules.env Q.state (S.set (S.get Q.state) s') ∧
      S.Inside ⟨S.set (S.get Q.state) s', Q.thread⟩ t op ⟨s', P.thread⟩ := by
  have kept := apart.keeps _ _ happens
  have under := apart.env _ _ (S.get Q.state) happens
  have back : S.set (S.get Q.state) P.state = Q.state := by rw [inside.state, S.lens.set_set, S.lens.set_get]
  rw [back] at under
  obtain ⟨rest, q, rest_code, at_q, threads, progress, closing⟩ := inside.left
  refine ⟨under, ?_, ?_, ?_, rest, q, rest_code, at_q, threads, ?_, closing⟩
  · rw [S.lens.get_set]
    exact inside.free
  · rw [kept]
    exact inside.held
  · rw [S.lens.set_set, S.lens.set_get]
  · rw [S.lens.get_set, kept]
    exact progress

theorem code_update {u : T} {p : Program τ ι Unit} (code : ∀ t, S.Code (Q.thread t)) (here : S.Code p) (t : T) :
    S.Code (Function.update Q.thread u p t) := by
  by_cases same : t = u
  · rw [same, Function.update_self]
    exact here
  · rw [Function.update_of_ne same]
    exact code t

/-- Every interleaving of the accesses comes to where a run of whole sections comes to. -/
theorem Apart.refines {ok : τ → Prop} {P₀ : Pool T τ ι} (apart : S.Apart rules)
    (reach : Pool.Reach rules ok P₀ P) (code : ∀ t, S.Code (P₀.thread t)) (free : S.locked (S.get P₀.state) = false) :
    ∃ Q log, S.AtomicRun rules P₀ Q log ∧ (∀ t, S.Code (Q.thread t)) ∧ S.Refines Q P := by
  induction reach with
  | refl => exact ⟨P₀, [], .start, code, .inl ⟨free, rfl⟩⟩
  | tail _ last ih =>
    obtain ⟨Q, log, run, code, ⟨free, rfl⟩ | ⟨t, op, inside⟩⟩ := ih
    · cases last.1 with
      | @access t β act next i b s' at_ taken =>
        have here := code t
        rw [at_] at here
        rcases here.of_step with ⟨own, rest⟩ | ⟨op, rest, rest_code, is⟩
        · refine ⟨_, log, run.access at_ own taken, code_update code (rest b), .inl ⟨?_, rfl⟩⟩
          rw [own.get taken]
          exact free
        · obtain ⟨-, p, c, rfl, held, left, progress, closing⟩ := call_first is.symm taken
          refine ⟨_, log, run, code, .inr ⟨t, op, free, ?_, ?_, rest, p, rest_code, at_.trans is, ?_, ?_, closing⟩⟩
          · rw [S.lens.get_set]
            exact held
          · rw [S.lens.get_set]
          · rw [left]
          · rw [S.lens.get_set]
            exact progress
      | @call t p idle allowed =>
        exact ⟨_, log, run.call idle allowed, code_update code (apart.code _ _ _ allowed), .inl ⟨free, rfl⟩⟩
      | env happens =>
        refine ⟨_, log, run.env happens, code, .inl ⟨?_, rfl⟩⟩
        rw [apart.keeps _ _ happens]
        exact free
    · cases last.1 with
      | @access u β act next i b s' at_ taken =>
        by_cases same : u = t
        · subst same
          rcases inside.own at_ taken with goes_on | ⟨rest, r, c, rest_code, at_q, ran, free, is⟩
          · exact ⟨Q, log, run, code, .inr ⟨u, op, goes_on⟩⟩
          · refine ⟨_, _, run.critical at_q ran, code_update code (rest_code r), .inl ⟨?_, is⟩⟩
            rw [is, S.lens.get_set]
            exact free
        · obtain ⟨own, next_code, at_q, s, under, inside'⟩ := inside.other same code at_ taken
          exact ⟨_, log, run.access at_q own under, code_update code (next_code b), .inr ⟨t, op, inside'⟩⟩
      | @call u p idle allowed =>
        obtain ⟨other, idle_q, inside'⟩ := inside.call idle
        have allowed_q : rules.calls u Q.state p := by
          have under := apart.calls u _ (S.get Q.state) p allowed
          rwa [inside.state, S.lens.set_set, S.lens.set_get] at under
        exact ⟨_, log, run.call idle_q allowed_q, code_update code (apart.code _ _ _ allowed), .inr ⟨t, op, inside'⟩⟩
      | env happens =>
        obtain ⟨under, inside'⟩ := inside.env apart happens
        exact ⟨_, log, run.env under, code, .inr ⟨t, op, inside'⟩⟩

/-- What every whole section keeps holds of the component all along. -/
theorem AtomicRun.component {P₀ : Pool T τ ι} {log : List (T × Op)} {J : List (T × Op) → σ → Prop} (apart : S.Apart rules)
    (run : S.AtomicRun rules P₀ P log) (start : J [] (S.get P₀.state))
    (each : ∀ log t op c r c', J log c → Program.Exec (S.impl op) c r c' → J (log ++ [(t, op)]) c') :
    J log (S.get P.state) := by
  induction run with
  | start => exact start
  | access _ _ own taken ih => rwa [own.get taken]
  | critical _ _ ran ih =>
    rw [S.lens.get_set]
    exact each _ _ _ _ _ _ ih ran
  | call _ _ _ ih => exact ih
  | env _ happens ih => rwa [apart.keeps _ _ happens]

end

end Sections

end OpenNic
