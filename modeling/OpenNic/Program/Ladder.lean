import OpenNic.Program.Resumption

namespace OpenNic

namespace Program

variable {σ ι α β : Type}

/-- Alone from a state with `pre`, the program can only end with `post`. -/
def Hoare (pre : σ → Prop) (p : Program σ ι α) (post : α → σ → Prop) : Prop := ∀ s a s', pre s → Exec p s a s' → post a s'

namespace Hoare

variable {pre pre' : σ → Prop} {post post' : α → σ → Prop}

theorem conseq {p : Program σ ι α} (triple : Hoare pre p post) (before : ∀ s, pre' s → pre s)
    (after : ∀ a s, post a s → post' a s) : Hoare pre' p post' :=
  fun s a s' holds ran => after a s' (triple s a s' (before s holds) ran)

theorem done {a : α} (implies : ∀ s, pre s → post a s) : Hoare pre (.done a : Program σ ι α) post := by
  intro s a' s' holds ran
  obtain ⟨rfl, rfl⟩ := exec_done.mp ran
  exact implies _ holds

theorem bind {p : Program σ ι α} {f : α → Program σ ι β} {M : α → σ → Prop} {last : β → σ → Prop} (first : Hoare pre p M)
    (rest : ∀ a, Hoare (M a) (f a) last) : Hoare pre (p >>= f) last := by
  intro s b s' holds ran
  obtain ⟨a, mid, ran, then_⟩ := exec_bind.mp ran
  exact rest a mid b s' (first s a mid holds ran) then_

theorem access {act : ι → σ → Option (α × σ)} (each : ∀ i s a s', pre s → act i s = some (a, s') → post a s') :
    Hoare pre (Program.access act) post := by
  intro s a s' holds ran
  obtain ⟨i, taken⟩ := exec_access.mp ran
  exact each i s a s' holds taken

theorem read {f : σ → α} (implies : ∀ s, pre s → post (f s) s) : Hoare pre (Program.read f : Program σ ι α) post := by
  apply access
  intro _ s a s' holds taken
  cases taken
  exact implies s holds

theorem modify {f : σ → σ} {post : Unit → σ → Prop} (implies : ∀ s, pre s → post () (f s)) :
    Hoare pre (Program.modify f : Program σ ι Unit) post := by
  apply access
  intro _ s a s' holds taken
  cases taken
  exact implies s holds

theorem exists_pre {X : Type} {pre : X → σ → Prop} {p : Program σ ι α} (each : ∀ x, Hoare (pre x) p post) :
    Hoare (fun s => ∃ x, pre x s) p post :=
  fun s a s' ⟨x, holds⟩ => each x s a s' holds

theorem pure_pre {φ : Prop} {p : Program σ ι α} (given : φ → Hoare pre p post) : Hoare (fun s => φ ∧ pre s) p post :=
  fun s a s' ⟨fact, holds⟩ => given fact s a s' holds

theorem fold {body : Nat → β → Program σ ι β} {I : Nat → β → σ → Prop} {lo count : Nat}
    (each : ∀ i acc, lo ≤ i → i < lo + count → Hoare (I i acc) (body i acc) (I (i + 1))) (acc : β) :
    Hoare (I lo acc) (Program.fold body lo count acc) (I (lo + count)) :=
  fun _ _ _ start ran => ran.fold (fun i acc s acc' s' low high holds ran => each i acc low high s acc' s' holds ran) start

end Hoare

/-- The program gets from `A` to `T` and returns 0, or it returns an error and has ended in `Z`. -/
def Climb (A Z T : σ → Prop) (p : Program σ ι Int) : Prop := Hoare A p fun rv s => rv = 0 ∧ T s ∨ rv < 0 ∧ Z s

/-- From the label down the program gets from `A` to `Z` and returns the error it was given. -/
def Fall (A Z : σ → Prop) (label : Int → Program σ ι Int) : Prop := ∀ rv, Hoare A (label rv) fun r s => r = rv ∧ Z s

variable {A B Z T : σ → Prop}

theorem Fall.ground : Fall A A (.done : Int → Program σ ι Int) := fun _ => .done fun _ holds => ⟨rfl, holds⟩

/-- One label more. -/
theorem Fall.above {undo : Program σ ι Unit} {label : Int → Program σ ι Int} (back : Hoare B undo fun _ => A) (below : Fall A Z label) :
    Fall B Z fun rv => undo >>= fun _ => label rv :=
  fun rv => back.bind fun _ => below rv

theorem Climb.top {p : Program σ ι Int} (reaches : Hoare A p fun rv s => rv = 0 ∧ T s) : Climb A Z T p :=
  reaches.conseq (fun _ holds => holds) fun _ _ => .inl

theorem Climb.failed {rv : Int} (negative : rv < 0) {p : Program σ ι Int} (falls : Hoare A p fun r s => r = rv ∧ Z s) :
    Climb A Z T p := by
  refine Hoare.conseq falls (fun _ holds => holds) ?_
  rintro r s ⟨rfl, holds⟩
  exact .inr ⟨negative, holds⟩

/-- One stage more, whose failure goes to a label. -/
theorem Climb.stage {p rest : Program σ ι Int} {label : Int → Program σ ι Int} (first : Climb A A B p) (down : Fall A Z label)
    (up : Climb B Z T rest) : Climb A Z T (do
      let rv ← p
      if rv ≠ 0 then label rv
      else rest) := by
  refine Hoare.bind first ?_
  intro rv
  split
  · rename_i failed
    intro s r s' ends ran
    rcases ends with ⟨fine, -⟩ | ⟨negative, holds⟩
    · exact absurd fine failed
    · obtain ⟨rfl, left⟩ := down rv s r s' holds ran
      exact .inr ⟨negative, left⟩
  · rename_i fine
    intro s r s' ends ran
    rcases ends with ⟨-, holds⟩ | ⟨negative, -⟩
    · exact up s r s' holds ran
    · omega

/-- One stage more, which comes back with whether it has succeeded. -/
theorem Climb.obtained {p : Program σ ι Bool} {fail rest : Program σ ι Int}
    (first : Hoare A p fun b s => b = true ∧ B s ∨ b = false ∧ A s) (down : Climb A Z T fail) (up : Climb B Z T rest) :
    Climb A Z T (do
      if !(← p) then fail
      else rest) := by
  refine Hoare.bind first ?_
  intro b s r s' ends ran
  cases b with
  | true =>
    rcases ends with ⟨-, holds⟩ | ⟨absent, -⟩
    · exact up s r s' holds ran
    · cases absent
  | false =>
    rcases ends with ⟨obtained, -⟩ | ⟨-, holds⟩
    · cases obtained
    · exact down s r s' holds ran

theorem Fall.weaken {label : Int → Program σ ι Int} (below : Fall A Z label) (implies : ∀ s, B s → A s) : Fall B Z label :=
  fun rv => (below rv).conseq implies fun _ _ ends => ends

theorem Climb.exists_pre {X : Type} {A : X → σ → Prop} {p : Program σ ι Int} (each : ∀ x, Climb (A x) Z T p) :
    Climb (fun s => ∃ x, A x s) Z T p :=
  Hoare.exists_pre each

end Program

end OpenNic
