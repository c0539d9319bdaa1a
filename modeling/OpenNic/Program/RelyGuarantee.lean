import OpenNic.Program.Resumption
import Mathlib.Order.Basic

namespace OpenNic

/-- What a thread owes and is owed. Only runs whose states are all `ok` are
    considered; `inv` holds in each of them, a step of the thread is a `guarantee`
    and whatever happens between two of its steps is a `rely`. -/
structure Contract (σ : Type) where
  ok : σ → Prop
  inv : σ → Prop
  rely : σ → σ → Prop
  guarantee : σ → σ → Prop
  rely_refl : ∀ s, rely s s
  rely_trans : ∀ {a b c}, rely a b → rely b c → rely a c
  guarantee_refl : ∀ s, guarantee s s

namespace Contract

variable {σ ι α β : Type} (C : Contract σ)

/-- The thread keeps its side of the contract from `s` on and finishes in `post`. -/
def wp : Program σ ι α → (α → σ → Prop) → σ → Prop
  | .done a, post, s => ∀ s', C.rely s s' → C.ok s' → C.inv s' → post a s'
  | .step act next, post, s => ∀ s', C.rely s s' → C.ok s' → C.inv s' → ∀ i b s'',
      act i s' = some (b, s'') → C.ok s'' →
      C.inv s'' ∧ C.guarantee s' s'' ∧ wp (next b) post s''

def Triple (pre : σ → Prop) (p : Program σ ι α) (post : α → σ → Prop) : Prop :=
  ∀ s, C.ok s → C.inv s → pre s → C.wp p post s

def Stable (assertion : σ → Prop) : Prop :=
  ∀ s s', assertion s → C.rely s s' → C.ok s' → C.inv s' → assertion s'

variable {C}

theorem Stable.pure_and {P : Prop} {X : σ → Prop} (stable : C.Stable X) : C.Stable fun s => P ∧ X s :=
  fun s s' ⟨holds, rest⟩ rely ok inv => ⟨holds, stable s s' rest rely ok inv⟩

theorem wp_rely {p : Program σ ι α} {post : α → σ → Prop} {s s' : σ} (h : C.wp p post s)
    (between : C.rely s s') : C.wp p post s' := by
  cases p with
  | done a => exact fun s'' rely => h s'' (C.rely_trans between rely)
  | step act next => exact fun s'' rely => h s'' (C.rely_trans between rely)

theorem wp_mono {p : Program σ ι α} {post post' : α → σ → Prop} {s : σ} (h : C.wp p post s)
    (weaken : ∀ a s, C.ok s → C.inv s → post a s → post' a s) : C.wp p post' s := by
  induction p generalizing s with
  | done a => exact fun s' rely ok inv => weaken a s' ok inv (h s' rely ok inv)
  | step act next ih =>
    intro s' rely ok inv i b s'' taken ok'
    obtain ⟨inv', guarantee, rest⟩ := h s' rely ok inv i b s'' taken ok'
    exact ⟨inv', guarantee, ih b rest⟩

theorem wp_bind {p : Program σ ι α} {f : α → Program σ ι β} {mid : α → σ → Prop}
    {post : β → σ → Prop} {s : σ} (h : C.wp p mid s) (ok : C.ok s) (inv : C.inv s)
    (next : ∀ a, C.Triple (mid a) (f a) post) : C.wp (p >>= f) post s := by
  induction p generalizing s with
  | done a => exact next a s ok inv (h s (C.rely_refl s) ok inv)
  | step act rest ih =>
    intro s' rely ok' inv' i b s'' taken ok''
    obtain ⟨inv'', guarantee, after⟩ := h s' rely ok' inv' i b s'' taken ok''
    exact ⟨inv'', guarantee, ih b after ok'' inv''⟩

/-- A contract over a component carries over to a larger state: whatever the steps of the
    program do to the component has to be good for the whole, and `F` says what of the whole
    they leave as it is. -/
theorem wp_lift_frame {τ : Type} {D : Contract τ} {get : τ → σ} {set : σ → τ → τ} {R : σ → σ → Prop}
    {F : τ → Prop} {p : Program σ ι α} {post : α → σ → Prop} {t : τ} (get_set : ∀ s t, get (set s t) = s)
    (ok : ∀ t, D.ok t → C.ok (get t)) (inv : ∀ t, D.inv t → F t → C.inv (get t))
    (rely : ∀ t t', D.rely t t' → C.rely (get t) (get t')) (steps : p.Steps R) (stable : D.Stable F)
    (back : ∀ t s, D.ok t → D.inv t → F t → D.ok (set s t) → C.inv s → C.guarantee (get t) s →
      R (get t) s → D.inv (set s t) ∧ D.guarantee t (set s t) ∧ F (set s t))
    (frame : F t) (h : C.wp p post (get t)) : D.wp (p.lift get set) (fun a t => post a (get t) ∧ F t) t := by
  induction p generalizing t with
  | done a =>
    intro t' between ok' inv'
    have frame' := stable t t' frame between ok' inv'
    exact ⟨h _ (rely _ _ between) (ok _ ok') (inv _ inv' frame'), frame'⟩
  | step act next ih =>
    intro t' between ok' inv' i b t'' taken ok''
    obtain ⟨r, first, same⟩ := Option.map_eq_some_iff.mp taken
    cases same
    have frame' := stable t t' frame between ok' inv'
    have ok_after : C.ok r.2 := get_set r.2 t' ▸ ok _ ok''
    obtain ⟨inv_after, guarantee, rest⟩ :=
      h _ (rely _ _ between) (ok _ ok') (inv _ inv' frame') i r.1 r.2 first ok_after
    obtain ⟨inv'', guarantee'', frame''⟩ :=
      back t' r.2 ok' inv' frame' ok'' inv_after guarantee (steps.1 i _ _ _ first)
    refine ⟨inv'', guarantee'', ih r.1 (steps.2 r.1) frame'' ?_⟩
    rwa [get_set]

theorem wp_lift {τ : Type} {D : Contract τ} {get : τ → σ} {set : σ → τ → τ} {R : σ → σ → Prop}
    {p : Program σ ι α} {post : α → σ → Prop} {t : τ} (get_set : ∀ s t, get (set s t) = s)
    (ok : ∀ t, D.ok t → C.ok (get t)) (inv : ∀ t, D.inv t → C.inv (get t))
    (rely : ∀ t t', D.rely t t' → C.rely (get t) (get t')) (steps : p.Steps R)
    (back : ∀ t s, D.ok t → D.inv t → D.ok (set s t) → C.inv s → C.guarantee (get t) s →
      R (get t) s → D.inv (set s t) ∧ D.guarantee t (set s t))
    (h : C.wp p post (get t)) : D.wp (p.lift get set) (fun a t => post a (get t)) t := by
  have framed := wp_lift_frame (F := fun _ => True) get_set ok (fun t here _ => inv t here) rely steps
    (fun _ _ _ _ _ _ => trivial) (fun t s ok' inv' _ ok'' inv'' guarantee step =>
      have after := back t s ok' inv' ok'' inv'' guarantee step
      ⟨after.1, after.2, trivial⟩) trivial h
  exact wp_mono framed fun a t _ _ holds => holds.1

theorem wp_comap {κ : Type} {p : Program σ ι α} {post : α → σ → Prop} {s : σ} (h : C.wp p post s) (f : κ → ι) :
    C.wp (p.comap f) post s := by
  induction p generalizing s with
  | done a => exact h
  | step act next ih =>
    intro s' rely ok inv k b s'' taken ok'
    obtain ⟨inv', guarantee, rest⟩ := h s' rely ok inv (f k) b s'' taken ok'
    exact ⟨inv', guarantee, ih b rest⟩

theorem wp_results {P : α → Prop} {p : Program σ ι α} {post : α → σ → Prop} {s : σ} (results : p.Results P)
    (h : C.wp p post s) : C.wp p (fun a s => P a ∧ post a s) s := by
  induction p generalizing s with
  | done a => exact fun s' rely ok inv => ⟨results, h s' rely ok inv⟩
  | step act next ih =>
    intro s' rely ok inv i b s'' taken ok'
    obtain ⟨inv', guarantee, rest⟩ := h s' rely ok inv i b s'' taken ok'
    exact ⟨inv', guarantee, ih b (results b) rest⟩

/-- What neither the thread's steps nor the others' end still holds afterwards. -/
theorem wp_frame {X : σ → Prop} {p : Program σ ι α} {post : α → σ → Prop} {s : σ}
    (rely : ∀ s s', X s → C.rely s s' → X s') (own : ∀ s s', X s → C.guarantee s s' → X s') (holds : X s)
    (h : C.wp p post s) : C.wp p (fun a s => post a s ∧ X s) s := by
  induction p generalizing s with
  | done a => exact fun s' between ok inv => ⟨h s' between ok inv, rely s s' holds between⟩
  | step act next ih =>
    intro s' between ok inv i b s'' taken ok'
    obtain ⟨inv', guarantee, rest⟩ := h s' between ok inv i b s'' taken ok'
    exact ⟨inv', guarantee, ih b (own s' s'' (rely s s' holds between) guarantee) rest⟩

/-- What the contract promises of a run that nothing interferes with. -/
theorem wp_exec {p : Program σ ι α} {post : α → σ → Prop} {s s' : σ} {a : α} (ran : Program.Exec p s a s')
    (all : ∀ s, C.ok s) (inv : C.inv s) (h : C.wp p post s) : C.inv s' ∧ post a s' := by
  induction ran with
  | done => exact ⟨inv, h _ (C.rely_refl _) (all _) inv⟩
  | step first _ ih =>
    obtain ⟨inv', -, rest⟩ := h _ (C.rely_refl _) (all _) inv _ _ _ first (all _)
    exact ih inv' rest

namespace Triple

theorem done {pre : σ → Prop} {a : α} {post : α → σ → Prop} (stable : C.Stable pre)
    (implies : ∀ s, C.inv s → pre s → post a s) : C.Triple pre (.done a : Program σ ι α) post :=
  fun s _ _ h s' rely ok inv => implies s' inv (stable s s' h rely ok inv)

theorem step {pre : σ → Prop} {act : ι → σ → Option (β × σ)} {next : β → Program σ ι α}
    {M : β → σ → Prop} {post : α → σ → Prop} (stable : C.Stable pre)
    (first : ∀ s, C.ok s → C.inv s → pre s → ∀ i b s', act i s = some (b, s') → C.ok s' →
      C.inv s' ∧ C.guarantee s s' ∧ M b s')
    (rest : ∀ b, C.Triple (M b) (next b) post) : C.Triple pre (.step act next) post := by
  intro s _ _ h s' rely ok inv i b s'' taken ok'
  obtain ⟨inv', guarantee, reached⟩ :=
    first s' ok inv (stable s s' h rely ok inv) i b s'' taken ok'
  exact ⟨inv', guarantee, rest b s'' ok' inv' reached⟩

theorem bind {pre : σ → Prop} {p : Program σ ι α} {f : α → Program σ ι β} {M : α → σ → Prop}
    {post : β → σ → Prop} (first : C.Triple pre p M) (rest : ∀ a, C.Triple (M a) (f a) post) :
    C.Triple pre (p >>= f) post :=
  fun s ok inv h => wp_bind (first s ok inv h) ok inv rest

theorem conseq {pre pre' : σ → Prop} {p : Program σ ι α} {post post' : α → σ → Prop}
    (h : C.Triple pre p post) (strengthen : ∀ s, C.inv s → pre' s → pre s)
    (weaken : ∀ a s, C.inv s → post a s → post' a s) : C.Triple pre' p post' :=
  fun s ok inv holds => wp_mono (h s ok inv (strengthen s inv holds)) fun a s _ => weaken a s

theorem access {pre : σ → Prop} {act : ι → σ → Option (α × σ)} {post : α → σ → Prop}
    (stable : C.Stable pre) (stable' : ∀ a, C.Stable (post a))
    (h : ∀ s i a s', C.ok s → C.inv s → pre s → act i s = some (a, s') → C.ok s' →
      C.inv s' ∧ C.guarantee s s' ∧ post a s') : C.Triple pre (.access act) post :=
  step (M := post) stable (fun s ok inv holds i a s' taken ok' => h s i a s' ok inv holds taken ok')
    fun a => done (stable' a) fun _ _ h => h

theorem read {pre : σ → Prop} {f : σ → α} {post : α → σ → Prop} (stable : C.Stable pre)
    (stable' : ∀ a, C.Stable (post a)) (h : ∀ s, C.ok s → C.inv s → pre s → post (f s) s) :
    C.Triple pre (.read f : Program σ ι α) post := by
  apply access stable stable'
  intro s _ a s' ok inv holds taken _
  obtain ⟨rfl, rfl⟩ : f s = a ∧ s = s' := by simpa using taken
  exact ⟨inv, C.guarantee_refl s, h s ok inv holds⟩

theorem modify {pre : σ → Prop} {f : σ → σ} {post : σ → Prop} (stable : C.Stable pre)
    (stable' : C.Stable post)
    (h : ∀ s, C.ok s → C.inv s → pre s → C.ok (f s) →
      C.inv (f s) ∧ C.guarantee s (f s) ∧ post (f s)) :
    C.Triple pre (.modify f : Program σ ι Unit) fun _ => post := by
  apply access stable fun _ => stable'
  intro s _ _ s' ok inv holds taken ok'
  obtain rfl : f s = s' := by simpa using taken
  exact h s ok inv holds ok'

theorem blocked {pre : σ → Prop} {next : β → Program σ ι α} {post : α → σ → Prop} :
    C.Triple pre (.step (fun _ _ => none) next) post := by
  intro s _ _ _ s' _ _ _ i b s'' taken
  cases taken

theorem from_pre {pre' : σ → Prop} {p : Program σ ι α} {post : α → σ → Prop} (pre : σ → Prop)
    (implies : ∀ s, C.inv s → pre' s → pre s) (h : C.Triple pre p post) : C.Triple pre' p post :=
  h.conseq implies fun _ _ _ holds => holds

theorem of_true {pre : σ → Prop} {p : Program σ ι α} {post : α → σ → Prop}
    (h : C.Triple (fun s => pre s ∧ True) p fun a s => post a s ∧ True) : C.Triple pre p post :=
  h.conseq (fun _ _ holds => ⟨holds, True.intro⟩) fun _ _ _ holds => holds.1

theorem frame {X pre : σ → Prop} {p : Program σ ι α} {post : α → σ → Prop}
    (rely : ∀ s s', X s → C.rely s s' → X s') (own : ∀ s s', X s → C.guarantee s s' → X s') (h : C.Triple pre p post) :
    C.Triple (fun s => pre s ∧ X s) p fun a s => post a s ∧ X s :=
  fun s ok inv ⟨before, holds⟩ => wp_frame rely own holds (h s ok inv before)

theorem comap {κ : Type} {pre : σ → Prop} {p : Program σ ι α} {post : α → σ → Prop} (h : C.Triple pre p post) (f : κ → ι) :
    C.Triple pre (p.comap f) post :=
  fun s ok inv before => wp_comap (h s ok inv before) f

theorem exists_pre {γ : Type} {pre : γ → σ → Prop} {p : Program σ ι α} {post : α → σ → Prop}
    (h : ∀ x, C.Triple (pre x) p post) : C.Triple (fun s => ∃ x, pre x s) p post :=
  fun s ok inv ⟨x, holds⟩ => h x s ok inv holds

theorem pure_pre {P : Prop} {pre : σ → Prop} {p : Program σ ι α} {post : α → σ → Prop}
    (h : P → C.Triple pre p post) : C.Triple (fun s => P ∧ pre s) p post :=
  fun s ok inv ⟨holds, rest⟩ => h holds s ok inv rest

/-- A program on a component keeps every assertion that what its accesses do to the component keeps. -/
theorem lift_steps {τ : Type} {get : σ → τ} {set : τ → σ → σ} {R : τ → τ → Prop} {p : Program τ ι α} {pre : σ → Prop}
    (steps : p.Steps R) (stable : C.Stable pre)
    (frame : ∀ c s, C.ok s → C.inv s → pre s → R (get s) c → C.ok (set c s) →
      C.inv (set c s) ∧ C.guarantee s (set c s) ∧ pre (set c s)) :
    C.Triple pre (p.lift get set) fun _ => pre := by
  induction p with
  | done a => exact done stable fun _ _ h => h
  | step act next ih =>
    apply step (M := fun _ => pre) stable
    · intro s ok inv h i b s' taken ok'
      obtain ⟨r, first, same⟩ := Option.map_eq_some_iff.mp taken
      cases same
      exact frame r.2 s ok inv h (steps.1 i _ _ _ first) ok'
    · exact fun b => ih b (steps.2 b)

/-- A program on a component that nothing of the contract looks at keeps every
    assertion that does not look at it either. -/
theorem lift {τ : Type} {get : σ → τ} {set : τ → σ → σ} {p : Program τ ι α} {pre : σ → Prop}
    {P : α → Prop} (results : p.Results P) (stable : C.Stable pre)
    (frame : ∀ c s, C.ok s → C.inv s → pre s →
      C.inv (set c s) ∧ C.guarantee s (set c s) ∧ pre (set c s)) :
    C.Triple pre (p.lift get set) fun a s => P a ∧ pre s := by
  intro s ok inv h
  have kept : C.Triple pre (p.lift get set) fun _ => pre :=
    lift_steps (Program.Steps.trivial p) stable fun c s ok inv h _ _ => frame c s ok inv h
  exact wp_results (results.lift get set) (kept s ok inv h)

/-- A program that keeps its side of the contract whatever it finds. -/
theorem of_steps {R : σ → σ → Prop} {p : Program σ ι α} (steps : p.Steps R)
    (keeps : ∀ s s', C.inv s → R s s' → C.inv s' ∧ C.guarantee s s') :
    C.Triple (fun _ => True) p fun _ _ => True := by
  induction p with
  | done a => exact done (fun _ _ h _ _ _ => h) fun _ _ h => h
  | step act next ih =>
    apply step (M := fun _ _ => True) (fun _ _ h _ _ _ => h)
    · intro s _ inv _ i b s' taken _
      obtain ⟨inv', guarantee⟩ := keeps s s' inv (steps.1 i s b s' taken)
      exact ⟨inv', guarantee, True.intro⟩
    · exact fun b => ih b (steps.2 b)

/-- The induction is on the number of rounds left; the invariant of a round is its
    index's. -/
theorem fold {body : Nat → β → Program σ ι β} {I : Nat → β → σ → Prop} {lo count : Nat} {acc : β}
    (stable : ∀ i b, C.Stable (I i b))
    (round : ∀ i b, lo ≤ i → i < lo + count → C.Triple (I i b) (body i b) (I (i + 1))) :
    C.Triple (I lo acc) (Program.fold body lo count acc) (I (lo + count)) := by
  induction count generalizing lo acc with
  | zero => exact done (stable lo acc) fun _ _ h => h
  | succ count ih =>
    apply bind (round lo acc (Nat.le_refl lo) (by omega))
    intro b
    have tail : C.Triple (I (lo + 1) b) (Program.fold body (lo + 1) count b)
        (I (lo + 1 + count)) := ih fun i b low high => round i b (by omega) (by omega)
    rwa [Nat.add_right_comm, Nat.add_assoc] at tail

/-- `I i` holds before round `i`; `F` is what a round leaves that returns an error. -/
theorem untilErr (body : Nat → Program σ ι Int) (lo count : Nat) {I : Nat → σ → Prop} {F : Int → σ → Prop}
    (stable : ∀ i, C.Stable (I i)) (stable' : ∀ err, C.Stable (F err))
    (round : ∀ i, lo ≤ i → i < lo + count →
      C.Triple (I i) (body i) fun err s => if err = 0 then I (i + 1) s else F err s) :
    C.Triple (I lo) (Program.untilErr body lo count) fun err s => if err = 0 then I (lo + count) s else F err s := by
  induction count generalizing lo with
  | zero => exact done (stable lo) fun _ _ h => by rwa [if_pos rfl]
  | succ count ih =>
    apply bind (round lo (Nat.le_refl lo) (by omega))
    intro err
    by_cases failed : err = 0
    · subst failed
      have tail : C.Triple (I (lo + 1)) (Program.untilErr body (lo + 1) count)
          fun err s => if err = 0 then I (lo + 1 + count) s else F err s :=
        ih (lo + 1) fun i low high => round i (by omega) (by omega)
      rw [Nat.add_right_comm, Nat.add_assoc] at tail
      exact from_pre _ (fun s _ h => by rwa [if_pos rfl] at h) tail
    · rw [if_pos failed]
      apply from_pre (F err) (fun s _ h => by rwa [if_neg failed] at h)
      exact done (stable' err) fun _ _ h => by rwa [if_neg failed]

/-- `I i first` holds before round `i`. -/
theorem firstErr (body : Nat → Program σ ι Int) (lo count : Nat) {I : Nat → Int → σ → Prop}
    (stable : ∀ i first, C.Stable (I i first))
    (round : ∀ i first, lo ≤ i → i < lo + count →
      C.Triple (I i first) (body i) fun err => I (i + 1) (if err ≠ 0 ∧ first = 0 then err else first)) :
    C.Triple (I lo 0) (Program.firstErr body lo count) (I (lo + count)) := by
  apply fold stable
  intro i first low high
  apply bind (round i first low high)
  intro err
  split
  · exact done (stable _ _) fun _ _ h => h
  · exact done (stable _ _) fun _ _ h => h

end Triple

/-- The contract of a program that runs alone. -/
def alone (σ : Type) : Contract σ where
  ok _ := True
  inv _ := True
  rely := Eq
  guarantee _ _ := True
  rely_refl _ := rfl
  rely_trans h h' := h.trans h'
  guarantee_refl _ := True.intro

theorem stable_alone (X : σ → Prop) : (alone σ).Stable X := by
  rintro s _ holds rfl _ _
  exact holds

theorem Triple.alone_exec {pre : σ → Prop} {p : Program σ ι α} {post : α → σ → Prop} (h : (alone σ).Triple pre p post)
    {s s' : σ} {a : α} (ran : Program.Exec p s a s') (holds : pre s) : post a s' :=
  (wp_exec ran (fun _ => True.intro) True.intro (h s True.intro True.intro holds)).2

/-- What its runs show of a program that runs alone. -/
theorem Triple.alone_of_exec {pre : σ → Prop} {p : Program σ ι α} {post : α → σ → Prop}
    (h : ∀ s a s', pre s → Program.Exec p s a s' → post a s') : (alone σ).Triple pre p post := by
  have holds {p : Program σ ι α} {s : σ} (ends : ∀ a s', Program.Exec p s a s' → post a s') : (alone σ).wp p post s := by
    induction p generalizing s with
    | done a =>
      rintro _ rfl _ _
      exact ends a s (.done a s)
    | step act next ih =>
      rintro _ rfl _ _ i b s'' taken _
      exact ⟨True.intro, True.intro, ih b fun a t ran => ends a t (.step taken ran)⟩
  exact fun s _ _ before => holds fun a s' => h s a s' before

/-- Two things that are shown of one program. -/
theorem Triple.alone_and {pre pre' : σ → Prop} {p : Program σ ι α} {post post' : α → σ → Prop}
    (first : (alone σ).Triple pre p post) (second : (alone σ).Triple pre' p post') :
    (alone σ).Triple (fun s => pre s ∧ pre' s) p fun a s => post a s ∧ post' a s :=
  alone_of_exec fun _ _ _ holds ran => ⟨first.alone_exec ran holds.1, second.alone_exec ran holds.2⟩

theorem Triple.alone_done {pre : σ → Prop} {a : α} {post : α → σ → Prop} (implies : ∀ s, pre s → post a s) :
    (alone σ).Triple pre (.done a : Program σ ι α) post := done (stable_alone pre) fun s _ => implies s

theorem Triple.alone_access {pre : σ → Prop} {act : ι → σ → Option (α × σ)} {post : α → σ → Prop}
    (h : ∀ s i a s', pre s → act i s = some (a, s') → post a s') : (alone σ).Triple pre (.access act) post :=
  access (stable_alone pre) (fun _ => stable_alone _) fun s i a s' _ _ holds taken _ =>
    ⟨True.intro, True.intro, h s i a s' holds taken⟩

theorem Triple.alone_read {pre : σ → Prop} {f : σ → α} {post : α → σ → Prop} (h : ∀ s, pre s → post (f s) s) :
    (alone σ).Triple pre (.read f : Program σ ι α) post :=
  read (stable_alone pre) (fun _ => stable_alone _) fun s _ _ => h s

theorem Triple.alone_modify {pre : σ → Prop} {f : σ → σ} {post : σ → Prop} (h : ∀ s, pre s → post (f s)) :
    (alone σ).Triple pre (.modify f : Program σ ι Unit) fun _ => post :=
  modify (stable_alone pre) (stable_alone post) fun s _ _ holds _ => ⟨True.intro, True.intro, h s holds⟩

end Contract

/-- Threads over one state. A thread whose program is done may be called again. -/
structure Pool (T σ ι : Type) where
  state : σ
  thread : T → Program σ ι Unit

namespace Pool

variable {T σ ι : Type} [DecidableEq T]

/-- The programs a thread may be called with in a state, and what happens in it
    besides the threads. -/
structure Rules (T σ ι : Type) where
  calls : T → σ → Program σ ι Unit → Prop
  env : σ → σ → Prop

inductive Step (rules : Rules T σ ι) : Pool T σ ι → Pool T σ ι → Prop
  | access {P : Pool T σ ι} {t : T} {β : Type} {act : ι → σ → Option (β × σ)}
      {next : β → Program σ ι Unit} {i : ι} {b : β} {s' : σ} (at_ : P.thread t = .step act next)
      (taken : act i P.state = some (b, s')) :
      Step rules P ⟨s', Function.update P.thread t (next b)⟩
  | call {P : Pool T σ ι} {t : T} {p : Program σ ι Unit} (idle : P.thread t = .done ())
      (allowed : rules.calls t P.state p) :
      Step rules P ⟨P.state, Function.update P.thread t p⟩
  | env {P : Pool T σ ι} {s' : σ} (happens : rules.env P.state s') : Step rules P ⟨s', P.thread⟩

/-- Reached by steps whose states are all `ok`. -/
def Reach (rules : Rules T σ ι) (ok : σ → Prop) : Pool T σ ι → Pool T σ ι → Prop :=
  Relation.ReflTransGen fun P P' => Step rules P P' ∧ ok P'.state

def start (s : σ) : Pool T σ ι := ⟨s, fun _ => .done ()⟩

/-- Contracts for the threads that fit together: they consider the same runs, share
    one invariant, and a step of one thread or of the environment is what every
    other thread relies on. -/
structure Fits (rules : Rules T σ ι) (ok inv : σ → Prop) (C : T → Contract σ)
    (idle : T → σ → Prop) : Prop where
  same_ok : ∀ t, (C t).ok = ok
  same_inv : ∀ t, (C t).inv = inv
  threads : ∀ t u, t ≠ u → ∀ s s', inv s → inv s' → (C t).guarantee s s' → (C u).rely s s'
  env : ∀ s s', ok s → ok s' → inv s → rules.env s s' → inv s' ∧ ∀ t, (C t).rely s s'
  calls : ∀ t s p, rules.calls t s p → ok s → inv s → idle t s → (C t).wp p (fun _ => idle t) s

/-- What is shown of the threads one by one holds of every run of all of them. -/
theorem Fits.reach {rules : Rules T σ ι} {ok inv : σ → Prop} {C : T → Contract σ}
    {idle : T → σ → Prop} (fits : Fits rules ok inv C idle) {P P' : Pool T σ ι}
    (reach : Reach rules ok P P') (ok_start : ok P.state) (inv_start : inv P.state)
    (threads : ∀ t, (C t).wp (P.thread t) (fun _ => idle t) P.state) :
    ok P'.state ∧ inv P'.state ∧ ∀ t, (C t).wp (P'.thread t) (fun _ => idle t) P'.state := by
  induction reach with
  | refl => exact ⟨ok_start, inv_start, threads⟩
  | tail _ last ih =>
    obtain ⟨ok_here, inv_here, held⟩ := ih
    obtain ⟨step, ok_next⟩ := last
    cases step with
    | @access t β act next i b s' at_ taken =>
      have own := held t
      rw [at_] at own
      obtain ⟨inv_next, guarantee, rest⟩ := own _ ((C t).rely_refl _)
        (by rw [fits.same_ok]; exact ok_here) (by rw [fits.same_inv]; exact inv_here)
        i b s' taken (by rw [fits.same_ok]; exact ok_next)
      rw [fits.same_inv] at inv_next
      refine ⟨ok_next, inv_next, fun u => ?_⟩
      by_cases same : u = t
      · subst same
        simpa using rest
      · simp only [Function.update_of_ne same]
        exact Contract.wp_rely (held u)
          (fits.threads t u (Ne.symm same) _ _ inv_here inv_next guarantee)
    | @call t p idle_now allowed =>
      refine ⟨ok_here, inv_here, fun u => ?_⟩
      by_cases same : u = t
      · subst same
        have rest := held u
        rw [idle_now] at rest
        have idle_here := rest _ ((C u).rely_refl _) (by rw [fits.same_ok]; exact ok_here)
          (by rw [fits.same_inv]; exact inv_here)
        simpa using fits.calls u _ p allowed ok_here inv_here idle_here
      · simp only [Function.update_of_ne same]
        exact held u
    | @env s' happens =>
      obtain ⟨inv_next, rely⟩ := fits.env _ _ ok_here ok_next inv_here happens
      exact ⟨ok_next, inv_next, fun t => Contract.wp_rely (held t) (rely t)⟩

/-- What every access keeps in states where `J` holds, and the environment too, holds all along
    if `J` does. -/
theorem inv_of_steps_within {rules : Rules T σ ι} {ok J I : σ → Prop} {s : σ} {P : Pool T σ ι}
    (reach : Reach rules ok (start s) P) (all : ∀ P, Reach rules ok (start s) P → J P.state)
    (calls : ∀ t s p, rules.calls t s p → p.Steps fun s s' => J s → J s' → I s → I s')
    (env : ∀ s s', rules.env s s' → J s → J s' → I s → I s') (holds : I s) : I P.state := by
  have threads : I P.state ∧ ∀ t, (P.thread t).Steps fun s s' => J s → J s' → I s → I s' := by
    induction reach with
    | refl => exact ⟨holds, fun _ => .done ()⟩
    | @tail P' P'' before last ih =>
      rcases ih with ⟨here, steps⟩
      have within := all P' before
      have within' := all P'' (before.tail last)
      cases last.1 with
      | @access t β act next i b s' at_ taken =>
        have own := steps t
        rw [at_] at own
        refine ⟨own.1 i _ b s' taken within within' here, fun u => ?_⟩
        by_cases same : u = t
        · subst same
          simpa using own.2 b
        · simpa [same] using steps u
      | @call t p idle allowed =>
        refine ⟨here, fun u => ?_⟩
        by_cases same : u = t
        · subst same
          simpa using calls u _ p allowed
        · simpa [same] using steps u
      | env happens => exact ⟨env _ _ happens within within' here, steps⟩
  exact threads.1

/-- What every access of the threads keeps, and the environment too, holds all along. -/
theorem inv_of_steps {rules : Rules T σ ι} {ok I : σ → Prop} {s : σ} {P : Pool T σ ι} (reach : Reach rules ok (start s) P)
    (calls : ∀ t s p, rules.calls t s p → p.Steps fun s s' => I s → I s')
    (env : ∀ s s', rules.env s s' → I s → I s') (holds : I s) : I P.state := by
  apply inv_of_steps_within (J := fun _ => True) reach (fun _ _ => trivial) _ _ holds
  · exact fun t s p called => (calls t s p called).mono fun _ _ keeps _ _ => keeps
  · exact fun s s' happens _ _ => env s s' happens

/-- What relates the states around every access, and around what the environment does, relates those at the ends of a run. -/
theorem steps_of_reach {rules : Rules T σ ι} {ok : σ → Prop} {R : σ → σ → Prop} {P P' : Pool T σ ι} (reach : Reach rules ok P P')
    (refl : ∀ s, R s s) (trans : ∀ a b c, R a b → R b c → R a c) (calls : ∀ t s p, rules.calls t s p → p.Steps R)
    (env : ∀ s s', rules.env s s' → R s s') (threads : ∀ t, (P.thread t).Steps R) :
    R P.state P'.state ∧ ∀ t, (P'.thread t).Steps R := by
  induction reach with
  | refl => exact ⟨refl P.state, threads⟩
  | @tail P' P'' before last ih =>
    rcases ih with ⟨here, steps⟩
    cases last.1 with
    | @access t β act next i b s' at_ taken =>
      have own := steps t
      rw [at_] at own
      refine ⟨trans _ _ _ here (own.1 i _ b s' taken), fun u => ?_⟩
      by_cases same : u = t
      · subst same
        simpa using own.2 b
      · simpa [same] using steps u
    | @call t p idle allowed =>
      refine ⟨here, fun u => ?_⟩
      by_cases same : u = t
      · subst same
        simpa using calls u _ p allowed
      · simpa [same] using steps u
    | env happens => exact ⟨trans _ _ _ here (env _ _ happens), steps⟩

/-- The rest of a call that runs without interruption. -/
theorem reach_of_rest {rules : Rules T σ ι} {f : T → Program σ ι Unit} {t : T} {p : Program σ ι Unit} {a : Unit} {s s' : σ}
    (ran : Program.Exec p s a s') : Reach rules (fun _ => True) ⟨s, Function.update f t p⟩ ⟨s', Function.update f t (.done a)⟩ := by
  induction ran with
  | done => exact .refl
  | @step β act next i s s' _ b _ first _ ih =>
    have at_ : (Function.update f t (.step act next)) t = .step act next :=
      Function.update_self ..
    have step : Step rules ⟨s, Function.update f t (.step act next)⟩ _ :=
      .access at_ first
    rw [Function.update_idem] at step
    exact .head ⟨step, trivial⟩ ih

/-- A call that runs without interruption. -/
theorem reach_of_exec {rules : Rules T σ ι} {P : Pool T σ ι} {t : T} {p : Program σ ι Unit}
    {s : σ} (idle : P.thread t = .done ()) (allowed : rules.calls t P.state p)
    (ran : Program.Exec p P.state () s) : Reach rules (fun _ => True) P ⟨s, P.thread⟩ := by
  have back : Function.update P.thread t (.done ()) = P.thread := by
    rw [← idle]
    exact Function.update_eq_self t P.thread
  have rest : Reach rules (fun _ => True) ⟨P.state, Function.update P.thread t p⟩ ⟨s, Function.update P.thread t (.done ())⟩ :=
    reach_of_rest ran
  rw [back] at rest
  exact .head ⟨.call idle allowed, trivial⟩ rest

/-- One step of a schedule: which thread goes on and what it finds, a call, or what the
    environment does. -/
inductive Move (T σ ι : Type) : Type 1
  | access (t : T) (i : ι)
  | call (t : T) (p : Program σ ι Unit)
  | env (f : σ → σ)

def move (P : Pool T σ ι) : Move T σ ι → Option (Pool T σ ι)
  | .access t i =>
    match P.thread t with
    | .done _ => none
    | .step act next =>
      match act i P.state with
      | none => none
      | some (b, s) => some ⟨s, Function.update P.thread t (next b)⟩
  | .call t p =>
    match P.thread t with
    | .done _ => some ⟨P.state, Function.update P.thread t p⟩
    | .step _ _ => none
  | .env f => some ⟨f P.state, P.thread⟩

/-- Play a schedule through states that pass the check. -/
def play (check : σ → Bool) (P : Pool T σ ι) : List (Move T σ ι) → Option (Pool T σ ι)
  | [] => some P
  | m :: moves =>
    match P.move m with
    | none => none
    | some P' => if check P'.state then play check P' moves else none

def Move.Allowed (rules : Rules T σ ι) : Move T σ ι → Prop
  | .access _ _ => True
  | .call t p => ∀ s, rules.calls t s p
  | .env f => ∀ s, rules.env s (f s)

theorem move_step {rules : Rules T σ ι} {P P' : Pool T σ ι} {m : Move T σ ι} (allowed : m.Allowed rules)
    (moved : P.move m = some P') : Step rules P P' := by
  cases m with
  | access t i =>
    simp only [move] at moved
    split at moved
    · cases moved
    · rename_i act next at_
      split at moved
      · cases moved
      · rename_i b s taken
        cases moved
        exact .access at_ taken
  | call t p =>
    simp only [move] at moved
    split at moved
    · rename_i u at_
      cases moved
      exact .call at_ (allowed _)
    · cases moved
  | env f =>
    cases moved
    exact .env (allowed _)

/-- A schedule that plays to its end is a run. -/
theorem reach_of_play {rules : Rules T σ ι} {ok : σ → Prop} {check : σ → Bool} {P P' : Pool T σ ι}
    {moves : List (Move T σ ι)} (sound : ∀ s, check s = true → ok s)
    (allowed : ∀ m ∈ moves, m.Allowed rules) (played : P.play check moves = some P') :
    Reach rules ok P P' := by
  induction moves generalizing P with
  | nil =>
    cases played
    exact .refl
  | cons m moves ih =>
    simp only [play] at played
    split at played
    · cases played
    · rename_i mid moved
      split at played
      · rename_i checked
        have first : Step rules P mid := move_step (allowed m List.mem_cons_self) moved
        have rest := ih (fun m mem => allowed m (List.mem_cons_of_mem _ mem)) played
        exact .head ⟨first, sound _ checked⟩ rest
      · cases played

def Move.Of (t : T) : Move T σ ι → Prop
  | .access u _ => u = t
  | .call u _ => u = t
  | .env _ => False

theorem thread_of_move {P P' : Pool T σ ι} {m : Move T σ ι} {t : T} (other : ¬ m.Of t)
    (moved : P.move m = some P') : P'.thread t = P.thread t := by
  cases m with
  | access u i =>
    have apart : t ≠ u := fun same => other same.symm
    simp only [move] at moved
    split at moved
    · cases moved
    · split at moved
      · cases moved
      · cases moved
        exact Function.update_of_ne apart _ _
  | call u p =>
    have apart : t ≠ u := fun same => other same.symm
    simp only [move] at moved
    split at moved
    · cases moved
      exact Function.update_of_ne apart _ _
    · cases moved
  | env f =>
    cases moved
    rfl

/-- A thread that a schedule does not mention stays where it is. -/
theorem thread_of_play {check : σ → Bool} {P P' : Pool T σ ι} {moves : List (Move T σ ι)} {t : T}
    (others : ∀ m ∈ moves, ¬ m.Of t) (played : P.play check moves = some P') :
    P'.thread t = P.thread t := by
  induction moves generalizing P with
  | nil =>
    cases played
    rfl
  | cons m moves ih =>
    simp only [play] at played
    split at played
    · cases played
    · rename_i mid moved
      split at played
      · have rest := ih (fun m mem => others m (List.mem_cons_of_mem _ mem)) played
        exact rest.trans (thread_of_move (others m List.mem_cons_self) moved)
      · cases played

end Pool

end OpenNic
