import OpenNic.Program.Resumption

namespace OpenNic

namespace Program

variable {σ ι κ α β : Type}

/-- The program finds what there is to find under one label. -/
def named (label : κ) (p : Program σ ι α) : Program σ (κ → ι) α := p.comap fun found => found label

/-- The program without its labels. -/
def anonymous (p : Program σ (κ → ι) α) : Program σ ι α := p.comap fun i _ => i

/-- Every access of the program looks under one label. -/
def Labelled : Program σ (κ → ι) α → Prop
  | .done _ => True
  | @step _ _ _ δ act next =>
    (∃ (label : κ) (look : ι → σ → Option (δ × σ)), act = fun found => look (found label)) ∧ ∀ b, Labelled (next b)

@[simp] theorem anonymous_done (a : α) : (.done a : Program σ (κ → ι) α).anonymous = .done a := rfl

@[simp] theorem anonymous_named (label : κ) (p : Program σ ι α) : (p.named label).anonymous = p := by
  rw [anonymous, named, comap_comap]
  exact comap_id p

theorem anonymous_bind (p : Program σ (κ → ι) α) (f : α → Program σ (κ → ι) β) :
    (p >>= f).anonymous = p.anonymous >>= fun a => (f a).anonymous := comap_bind ..

theorem anonymous_untilErr {body : Nat → Program σ (κ → ι) Int} (lo count : Nat) :
    (untilErr body lo count).anonymous = untilErr (fun i => (body i).anonymous) lo count := by
  induction count generalizing lo with
  | zero => rfl
  | succ count ih =>
    rw [untilErr, untilErr, anonymous_bind]
    congr 1
    funext err
    split
    · rfl
    · exact ih (lo + 1)

theorem eval_named (label : κ) (found : κ → ι) (p : Program σ ι α) (s : σ) :
    (p.named label).eval found s = p.eval (found label) s := eval_comap ..

namespace Labelled

theorem named (label : κ) (p : Program σ ι α) : (p.named label).Labelled := by
  induction p with
  | done a => exact True.intro
  | step act next ih => exact ⟨⟨label, act, rfl⟩, ih⟩

theorem done (a : α) : (.done a : Program σ (κ → ι) α).Labelled := True.intro

theorem bind {p : Program σ (κ → ι) α} {f : α → Program σ (κ → ι) β} (first : p.Labelled) (rest : ∀ a, (f a).Labelled) :
    (p >>= f).Labelled := by
  induction p with
  | done a => exact rest a
  | step act next ih => exact ⟨first.1, fun b => ih b (first.2 b)⟩

theorem untilErr {body : Nat → Program σ (κ → ι) Int} (each : ∀ i, (body i).Labelled) (lo count : Nat) :
    (Program.untilErr body lo count).Labelled := by
  induction count generalizing lo with
  | zero => exact True.intro
  | succ count ih =>
    apply (each lo).bind
    intro err
    split
    · exact True.intro
    · exact ih (lo + 1)

/-- Whatever is found under the labels, the program does what it may do without them. -/
theorem exec {p : Program σ (κ → ι) α} (labelled : p.Labelled) {s s' : σ} {a : α} (ran : Exec p s a s') :
    Exec p.anonymous s a s' := by
  induction ran with
  | done a s => exact .done a s
  | @step _ _ _ found _ _ _ _ _ first _ ih =>
    rcases labelled.1 with ⟨label, look, same⟩
    subst same
    exact .step (i := found label) first (ih (labelled.2 _))

end Labelled

end Program

end OpenNic
