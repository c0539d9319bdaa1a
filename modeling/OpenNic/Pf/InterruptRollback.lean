import OpenNic.Pf.InterruptTeardown

namespace OpenNic

namespace PfIntr

/-- What is registered for a vector by what the driver has noted. -/
def noted (n : Nat) (qVector : Nat → Option Nat) (user error : Bool) (vid : Nat) : Option IrqCookie :=
  if vid < n then (qVector vid).map .vec
  else if vid = n then if user then some .priv else none
  else if vid = n + 1 then if error then some .priv else none
  else none

section

variable {n vid : Nat} {qVector : Nat → Option Nat} {user error : Bool}

theorem noted_vector (low : vid < n) (vec : Option Nat) :
    noted n (Function.update qVector vid vec) user error =
      Function.update (noted n qVector user error) vid (vec.map .vec) := by
  funext v
  by_cases same : v = vid
  · subst same
    simp [noted, low]
  · simp [noted, same]

theorem noted_user (set : Bool) :
    noted n qVector set error = Function.update (noted n qVector user error) n (if set then some .priv else none) := by
  funext v
  by_cases same : v = n
  · subst same
    simp [noted]
  · simp [noted, same]

theorem noted_error (set : Bool) :
    noted n qVector user set = Function.update (noted n qVector user error) (n + 1) (if set then some .priv else none) := by
  funext v
  by_cases same : v = n + 1
  · subst same
    simp [noted]
  · simp [noted, same]

end

/-- `f` is what is registered, and every interrupt requested so far has been freed once or is registered. -/
structure Registered (f : Nat → Option IrqCookie) (s : PfIntr) : Prop where
  action : ∀ vid, (s.line vid).action = f vid
  balance : ∀ vid c, s.requested.count (vid, c) = s.freed.count (vid, c) + if f vid = some c then 1 else 0

/-- The driver's side: the number of queue vectors, the table, the two bits and the flag of the master PF. -/
structure Noted (n : Nat) (master : Bool) (qVector : Nat → Option Nat) (user error : Bool) (s : PfIntr) : Prop where
  numQVectors : s.numQVectors = n
  masterPf : s.masterPf = master
  qVector : s.qVector = qVector
  userIntr : s.userIntr = user
  errorIntr : s.errorIntr = error

/-- Every interrupt that was requested has been freed, with its own vector and cookie, and nothing is noted. -/
structure IrqsReturned (s : PfIntr) : Prop where
  freed : s.freed.Perm s.requested
  qVector : ∀ vid, s.qVector vid = none
  userIntr : s.userIntr = false
  errorIntr : s.errorIntr = false

/-- Nothing is left of a setup: no interrupt and no memory. -/
structure RolledBack (s : PfIntr) : Prop extends IrqsReturned s where
  memory : s.released.Perm s.allocated

variable {n : Nat} {master : Bool} {qVector : Nat → Option Nat} {user error : Bool} {f : Nat → Option IrqCookie}

/-- What an access does that leaves interrupts and notes alone. -/
structure Aside (s s' : PfIntr) : Prop where
  line : ∀ vid, (s'.line vid).action = (s.line vid).action
  requested : s'.requested = s.requested
  freed : s'.freed = s.freed
  qVector : s'.qVector = s.qVector
  userIntr : s'.userIntr = s.userIntr
  errorIntr : s'.errorIntr = s.errorIntr
  masterPf : s'.masterPf = s.masterPf
  numQVectors : s'.numQVectors = s.numQVectors

theorem Registered.same {s s' : PfIntr} (h : Registered f s) (line : ∀ vid, (s'.line vid).action = (s.line vid).action)
    (requested : s'.requested = s.requested) (freed : s'.freed = s.freed) : Registered f s' where
  action vid := (line vid).trans (h.action vid)
  balance vid c := by
    rw [requested, freed]
    exact h.balance vid c

theorem Registered.aside {s s' : PfIntr} (h : Registered f s) (aside : Aside s s') : Registered f s' :=
  h.same aside.line aside.requested aside.freed

theorem Registered.request {s s' : PfIntr} {vid : Nat} {c : IrqCookie} (h : Registered f s) (free : f vid = none)
    (line : s'.line = Function.update s.line vid ((s.line vid).request c)) (requested : s'.requested = s.requested ++ [(vid, c)])
    (freed : s'.freed = s.freed) : Registered (Function.update f vid (some c)) s' where
  action v := by
    rw [line]
    by_cases same : v = vid
    · subst same
      simp [IrqLine.request]
    · simp [same, h.action v]
  balance v k := by
    have before := h.balance v k
    rw [requested, freed, List.count_append, before]
    by_cases same : v = vid
    · subst same
      by_cases cookie : k = c
      · subst cookie
        simp [free]
      · simp [free, Ne.symm cookie]
    · simp [same, Ne.symm same]

theorem Registered.free {s s' : PfIntr} {vid : Nat} {c : IrqCookie} (h : Registered f s) (set : f vid = some c)
    (line : s'.line = Function.update s.line vid (s.line vid).shutDown) (requested : s'.requested = s.requested)
    (freed : s'.freed = s.freed ++ [(vid, c)]) : Registered (Function.update f vid none) s' where
  action v := by
    rw [line]
    by_cases same : v = vid
    · subst same
      simp [IrqLine.shutDown]
    · simp [same, h.action v]
  balance v k := by
    have before := h.balance v k
    rw [requested, freed, List.count_append, before]
    by_cases same : v = vid
    · subst same
      by_cases cookie : k = c
      · subst cookie
        simp [set]
      · simp [set, Ne.symm cookie]
    · simp [same, Ne.symm same]

abbrev alone : Contract PfIntr := .alone PfIntr

/-- The state between two interrupts being requested or freed. -/
def Between (f : Nat → Option IrqCookie) (N : PfIntr → Prop) (s : PfIntr) : Prop := Registered f s ∧ N s

/-- Assertions on the driver's notes only. -/
def OnNotes (N : PfIntr → Prop) : Prop := ∀ s s', N s → s'.qVector = s.qVector → s'.userIntr = s.userIntr →
  s'.errorIntr = s.errorIntr → s'.masterPf = s.masterPf → s'.numQVectors = s.numQVectors → N s'

theorem onNotes_noted : OnNotes (Noted n master qVector user error) :=
  fun _ _ h table user error master vectors => ⟨vectors.trans h.numQVectors, master.trans h.masterPf, table.trans h.qVector,
    user.trans h.userIntr, error.trans h.errorIntr⟩

variable {N : PfIntr → Prop}

theorem requestIrq_alone (notes : OnNotes N) (step : IntrStep) (vid : Nat) (c : IrqCookie) :
    alone.Triple (Between f N) (requestIrq step vid c) fun rv s =>
      if rv < 0 then Between f N s else f vid = none ∧ Between (Function.update f vid (some c)) N s := by
  apply Contract.Triple.alone_access
  intro s input rv s' before taken
  split at taken
  · cases taken
    rw [if_pos (by decide)]
    exact before
  · rename_i free
    split at taken
    · cases taken
      rw [if_pos (by omega)]
      exact before
    · cases taken
      have unset : f vid = none := by
        rw [← before.1.action vid]
        simpa using free
      rw [if_neg (by decide)]
      exact ⟨unset, before.1.request unset rfl rfl rfl, notes s _ before.2 rfl rfl rfl rfl rfl⟩

theorem freeIrq_alone (notes : OnNotes N) {vid : Nat} {c : IrqCookie} (set : f vid = some c) :
    alone.Triple (Between f N) (freeIrq vid c) fun _ => Between (Function.update f vid none) N := by
  apply Contract.Triple.bind (M := fun _ => Between (Function.update f vid none) N)
  · apply Contract.Triple.alone_modify
    intro s before
    have registered : (s.line vid).action = some c := (before.1.action vid).trans set
    rw [if_pos registered]
    exact ⟨before.1.free set rfl rfl rfl, notes s _ before.2 rfl rfl rfl rfl rfl⟩
  · intro _
    apply Contract.Triple.alone_access
    intro s _ _ s' before taken
    rcases Option.map_eq_some_iff.mp taken with ⟨l, drained, same⟩
    cases same
    have action : l.action = (s.line vid).action := by
      simp only [IrqLine.drain] at drained
      split at drained
      · cases drained
        rfl
      · cases drained
    refine ⟨before.1.aside ⟨fun v => ?_, rfl, rfl, rfl, rfl, rfl, rfl, rfl⟩, notes s _ before.2 rfl rfl rfl rfl rfl⟩
    by_cases same : v = vid
    · subst same
      simpa using action
    · simp [same]

theorem aside_alone {α : Type} {p : Program PfIntr IntrInput α} (notes : OnNotes N) (steps : p.Steps Aside) :
    alone.Triple (Between f N) p fun _ => Between f N := by
  induction p with
  | done a => exact .alone_done fun _ h => h
  | step act next ih =>
    apply Contract.Triple.step (M := fun _ => Between f N) (Contract.stable_alone _)
    · intro s _ _ before i b s' taken _
      have aside := steps.1 i s b s' taken
      exact ⟨True.intro, True.intro, before.1.aside aside,
        notes s s' before.2 aside.qVector aside.userIntr aside.errorIntr aside.masterPf aside.numQVectors⟩
    · exact fun b => ih b (steps.2 b)

/-- Notes and registered interrupts agree, with no entry of the table from `k` on. -/
def UpTo (n : Nat) (master user error : Bool) (k : Nat) (s : PfIntr) : Prop :=
  ∃ qVector, (∀ vid, k ≤ vid → qVector vid = none) ∧
    Between (noted n qVector user error) (Noted n master qVector user error) s

theorem Aside.refl (s : PfIntr) : Aside s s := ⟨fun _ => rfl, rfl, rfl, rfl, rfl, rfl, rfl, rfl⟩

theorem alloc_aside (step : IntrStep) (mem : Nat → IntrMem) : (alloc step mem).Steps Aside := by
  apply Program.Steps.access
  intro input s a s' taken
  split at taken
  · cases taken
    exact ⟨fun _ => rfl, rfl, rfl, rfl, rfl, rfl, rfl, rfl⟩
  · cases taken
    exact .refl s

theorem kfree_aside (mem : IntrMem) : (kfree mem).Steps Aside :=
  .modify fun _ => ⟨fun _ => rfl, rfl, rfl, rfl, rfl, rfl, rfl, rfl⟩

theorem onicInitQVector_alone {vid : Nat} (low : vid < n) :
    alone.Triple (UpTo n master user error n) (onicInitQVector vid) fun _ => UpTo n master user error n := by
  apply Contract.Triple.exists_pre
  intro qVector
  apply Contract.Triple.pure_pre
  intro outside
  have kept {s : PfIntr} (before : Between (noted n qVector user error) (Noted n master qVector user error) s) :
      UpTo n master user error n s := ⟨qVector, outside, before⟩
  apply Contract.Triple.bind (aside_alone onNotes_noted (alloc_aside _ _))
  intro name
  apply Contract.Triple.bind (aside_alone onNotes_noted (alloc_aside _ _))
  intro vec
  cases vec with
  | none => exact .alone_done fun _ => kept
  | some vec =>
    apply Contract.Triple.bind (M := fun _ => Between (noted n qVector user error) (Noted n master qVector user error))
    · apply Contract.Triple.alone_access
      intro s _ _ s' before taken
      split at taken
      · cases taken
        exact before
      · cases taken
    · intro _
      apply Contract.Triple.bind (requestIrq_alone onNotes_noted _ _ _)
      intro rv
      by_cases failed : rv < 0
      · simp only [failed, if_true]
        exact .alone_done fun _ => kept
      · simp only [failed, if_false]
        apply Contract.Triple.bind (M := fun _ => UpTo n master user error n)
        · apply Contract.Triple.alone_modify
          rintro s ⟨-, registered, notes⟩
          refine ⟨Function.update qVector vid (some vec), fun v high => ?_, ?_, ?_⟩
          · rw [Function.update_of_ne (by omega)]
            exact outside v high
          · rw [noted_vector low]
            exact registered.same (fun _ => rfl) rfl rfl
          · exact ⟨notes.numQVectors, notes.masterPf, by rw [← notes.qVector], notes.userIntr, notes.errorIntr⟩
        · exact fun _ => .alone_done fun _ h => h

theorem onicInitQVectors_alone {lo count : Nat} (high : lo + count ≤ n) :
    alone.Triple (UpTo n master user error n) (.untilErr onicInitQVector lo count) fun _ => UpTo n master user error n := by
  induction count generalizing lo with
  | zero => exact .alone_done fun _ h => h
  | succ count ih =>
    apply Contract.Triple.bind (onicInitQVector_alone (by omega))
    intro rv
    split
    · exact .alone_done fun _ h => h
    · exact ih (by omega)

theorem onicClearQVector_alone {vid : Nat} (low : vid < n) :
    alone.Triple (UpTo n master user error (vid + 1)) (onicClearQVector vid) fun _ => UpTo n master user error vid := by
  apply Contract.Triple.exists_pre
  intro qVector
  apply Contract.Triple.pure_pre
  intro outside
  apply Contract.Triple.bind (M := fun vec s => vec = qVector vid ∧
    Between (noted n qVector user error) (Noted n master qVector user error) s)
  · apply Contract.Triple.alone_read
    exact fun s before => ⟨congrFun before.2.qVector vid, before⟩
  · intro vec
    apply Contract.Triple.pure_pre
    intro found
    cases vec with
    | none =>
      apply Contract.Triple.alone_done
      intro s before
      refine ⟨qVector, fun v high => ?_, before⟩
      by_cases same : v = vid
      · rw [same, ← found]
      · exact outside v (by omega)
    | some vec =>
      have set : noted n qVector user error vid = some (.vec vec) := by simp [noted, low, ← found]
      apply Contract.Triple.bind (freeIrq_alone onNotes_noted set)
      intro _
      apply Contract.Triple.bind (aside_alone onNotes_noted (kfree_aside _))
      intro _
      apply Contract.Triple.alone_modify
      rintro s ⟨registered, notes⟩
      refine ⟨Function.update qVector vid none, fun v high => ?_, ?_, ?_⟩
      · by_cases same : v = vid
        · rw [same, Function.update_self]
        · rw [Function.update_of_ne same]
          exact outside v (by omega)
      · rw [noted_vector low]
        exact registered.same (fun _ => rfl) rfl rfl
      · exact ⟨notes.numQVectors, notes.masterPf, by rw [← notes.qVector], notes.userIntr, notes.errorIntr⟩

theorem clearQVectors_alone {k : Nat} (le : k ≤ n) :
    alone.Triple (UpTo n master user error k) (clearQVectors k) fun _ => UpTo n master user error 0 := by
  induction k with
  | zero => exact .alone_done fun _ h => h
  | succ vid ih =>
    apply Contract.Triple.bind (onicClearQVector_alone (by omega))
    exact fun _ => ih (by omega)

theorem upTo_aside {α : Type} {k : Nat} {p : Program PfIntr IntrInput α} (steps : p.Steps Aside) :
    alone.Triple (UpTo n master user error k) p fun _ => UpTo n master user error k := by
  apply Contract.Triple.exists_pre
  intro qVector
  apply Contract.Triple.pure_pre
  intro outside
  exact (aside_alone onNotes_noted steps).conseq (fun _ _ h => h) fun _ _ _ h => ⟨qVector, outside, h⟩

theorem disableForTeardown_aside : disableForTeardown.Steps Aside := by
  apply Program.Steps.modify
  intro s
  split
  · refine ⟨fun v => ?_, rfl, rfl, rfl, rfl, rfl, rfl, rfl⟩
    by_cases same : v = s.numQVectors
    · subst same
      simp [setSource, source, IrqSource.switchOff]
    · simp [setSource, same]
  · exact .refl s

/-- The error interrupt of a master PF, if it is set up. -/
theorem freeErrorIrq_alone (onMaster : error = true → master = true) :
    alone.Triple (UpTo n master user error n)
      (if master then do
        (if ← .read PfIntr.errorIntr then do
          freeIrq (n + 1) .priv
          .modify fun s => { s with errorVec := none }
          .modify fun s => { s with errorIntr := false }
        else .done ())
        .done n
      else .done n)
      fun vid s => vid = n ∧ UpTo n master user false n s := by
  cases master with
  | false =>
    have unset : error = false := by simpa using onMaster
    subst unset
    exact .alone_done fun _ h => ⟨rfl, h⟩
  | true =>
    apply Contract.Triple.bind (M := fun set s => set = error ∧ UpTo n true user error n s)
    · apply Contract.Triple.alone_read
      rintro s ⟨qVector, outside, before⟩
      exact ⟨before.2.errorIntr, qVector, outside, before⟩
    · intro set
      apply Contract.Triple.pure_pre
      rintro rfl
      apply Contract.Triple.bind (M := fun _ => UpTo n true user false n)
      · cases set with
        | false => exact .alone_done fun _ h => h
        | true =>
          apply Contract.Triple.exists_pre
          intro qVector
          apply Contract.Triple.pure_pre
          intro outside
          have registered : noted n qVector user true (n + 1) = some .priv := by simp [noted]
          apply Contract.Triple.bind (freeIrq_alone onNotes_noted registered)
          intro _
          apply Contract.Triple.bind (M := fun _ => Between (Function.update (noted n qVector user true) (n + 1) none)
            (Noted n true qVector user true))
          · exact aside_alone onNotes_noted (.modify fun _ => ⟨fun _ => rfl, rfl, rfl, rfl, rfl, rfl, rfl, rfl⟩)
          · intro _
            apply Contract.Triple.alone_modify
            rintro s ⟨freed, notes⟩
            refine ⟨qVector, outside, ?_, notes.numQVectors, notes.masterPf, notes.qVector, notes.userIntr, rfl⟩
            have cleared : noted n qVector user false = Function.update (noted n qVector user true) (n + 1) none :=
              noted_error false
            rw [cleared]
            exact freed.same (fun _ => rfl) rfl rfl
      · exact fun _ => .alone_done fun _ h => ⟨rfl, h⟩

theorem freeUserIrq_alone :
    alone.Triple (UpTo n master user false n)
      (do
        if ← .read PfIntr.userIntr then do
          freeIrq n .priv
          .modify fun s => { s with userIntr := false }
        else .done ())
      fun _ => UpTo n master false false n := by
  apply Contract.Triple.bind (M := fun set s => set = user ∧ UpTo n master user false n s)
  · apply Contract.Triple.alone_read
    rintro s ⟨qVector, outside, before⟩
    exact ⟨before.2.userIntr, qVector, outside, before⟩
  · intro set
    apply Contract.Triple.pure_pre
    rintro rfl
    cases set with
    | false => exact .alone_done fun _ h => h
    | true =>
      apply Contract.Triple.exists_pre
      intro qVector
      apply Contract.Triple.pure_pre
      intro outside
      have registered : noted n qVector true false n = some .priv := by simp [noted]
      apply Contract.Triple.bind (freeIrq_alone onNotes_noted registered)
      intro _
      apply Contract.Triple.alone_modify
      rintro s ⟨freed, notes⟩
      refine ⟨qVector, outside, ?_, notes.numQVectors, notes.masterPf, notes.qVector, rfl, notes.errorIntr⟩
      have cleared : noted n qVector false false = Function.update (noted n qVector true false) n none := noted_user false
      rw [cleared]
      exact freed.same (fun _ => rfl) rfl rfl

/-- Nothing is noted, so everything requested has been freed. -/
theorem UpTo.returned {s : PfIntr} (h : UpTo n master false false 0 s) : IrqsReturned s := by
  rcases h with ⟨qVector, outside, registered, notes⟩
  refine ⟨?_, fun vid => ?_, notes.userIntr, notes.errorIntr⟩
  · rw [List.perm_iff_count]
    rintro ⟨vid, c⟩
    have nothing : noted n qVector false false vid = none := by simp [noted, outside vid]
    have balance := registered.balance vid c
    rw [nothing] at balance
    simpa using balance.symm
  · rw [notes.qVector]
    exact outside vid (Nat.zero_le vid)

/-- Whatever is set up, `onic_clear_interrupt` frees each interrupt at its own vector. -/
theorem onicClearInterrupt_alone (onMaster : error = true → master = true) :
    alone.Triple (UpTo n master user error n) onicClearInterrupt fun _ => UpTo n master false false 0 := by
  apply Contract.Triple.bind (M := fun flag s => flag = master ∧ UpTo n master user error n s)
  · apply Contract.Triple.alone_read
    rintro s ⟨qVector, outside, before⟩
    exact ⟨before.2.masterPf, qVector, outside, before⟩
  · intro flag
    apply Contract.Triple.pure_pre
    rintro rfl
    apply Contract.Triple.bind (M := fun vectors s => vectors = n ∧ UpTo n flag user error n s)
    · apply Contract.Triple.alone_read
      rintro s ⟨qVector, outside, before⟩
      exact ⟨before.2.numQVectors, qVector, outside, before⟩
    · intro vectors
      apply Contract.Triple.pure_pre
      rintro rfl
      apply Contract.Triple.bind (M := fun _ => UpTo vectors flag user error vectors)
      · split
        · exact upTo_aside disableForTeardown_aside
        · exact .alone_done fun _ h => h
      · intro _
        apply Contract.Triple.bind (M := fun vid s => vid = vectors ∧ UpTo vectors flag user false vectors s)
        · cases flag with
          | false => exact freeErrorIrq_alone onMaster
          | true => exact freeErrorIrq_alone onMaster
        · intro vid
          apply Contract.Triple.pure_pre
          rintro rfl
          apply Contract.Triple.bind freeUserIrq_alone
          intro _
          apply Contract.Triple.bind (clearQVectors_alone (Nat.le_refl _))
          intro _
          exact upTo_aside (.modify fun _ => ⟨fun _ => rfl, rfl, rfl, rfl, rfl, rfl, rfl, rfl⟩)

/-- Some of the interrupts are set up, those of the table and those that the bits stand for. -/
def Underway (n : Nat) (master : Bool) (s : PfIntr) : Prop :=
  ∃ user error, (error = true → master = true) ∧ UpTo n master user error n s

theorem UpTo.underway {s : PfIntr} (onMaster : error = true → master = true) (h : UpTo n master user error n s) :
    Underway n master s := ⟨user, error, onMaster, h⟩

theorem dropStaleRequests_aside : (onMbox (onicPfMboxDropStaleRequests 256 0)).Steps Aside :=
  ((Program.Steps.trivial _).comap _).lift fun _ _ _ => ⟨fun _ => rfl, rfl, rfl, rfl, rfl, rfl, rfl, rfl⟩

theorem writeIntrCtrl_aside (val : Word) : (writeIntrCtrl val).Steps Aside := by
  apply Program.Steps.modify
  intro s
  split
  · exact ⟨fun _ => rfl, rfl, rfl, rfl, rfl, rfl, rfl, rfl⟩
  · exact .refl s

theorem onicPfMboxIrqInit_aside (vector : Nat) : (onicPfMboxIrqInit vector).Steps Aside := by
  apply Program.Steps.bind (.read .refl _)
  intro mapped
  split
  · exact .done _
  · apply Program.Steps.bind (writeIntrCtrl_aside 0)
    intro _
    apply Program.Steps.bind dropStaleRequests_aside
    intro dropped
    split
    · exact .done _
    · apply Program.Steps.bind (.modify fun _ => ⟨fun _ => rfl, rfl, rfl, rfl, rfl, rfl, rfl, rfl⟩)
      intro _
      exact (writeIntrCtrl_aside _).bind fun _ => .done _

theorem onicInitMasterInterrupt_alone :
    alone.Triple (UpTo n true true false n) (onicInitMasterInterrupt n) fun _ => Underway n true := by
  apply Contract.Triple.bind (upTo_aside (onicPfMboxIrqInit_aside n))
  intro rv
  split
  · exact .alone_done fun _ h => h.underway fun _ => rfl
  · apply Contract.Triple.exists_pre
    intro qVector
    apply Contract.Triple.pure_pre
    intro outside
    apply Contract.Triple.bind (requestIrq_alone onNotes_noted _ _ _)
    intro rv
    by_cases failed : rv < 0
    · simp only [failed, if_true]
      exact .alone_done fun _ h => UpTo.underway (fun _ => rfl) ⟨qVector, outside, h⟩
    · simp only [failed, if_false]
      apply Contract.Triple.bind (M := fun _ => Between (Function.update (noted n qVector true false) (n + 1) (some .priv))
        (Noted n true qVector true false))
      · apply Contract.Triple.from_pre _ (fun _ _ h => h.2)
        exact aside_alone onNotes_noted (.modify fun _ => ⟨fun _ => rfl, rfl, rfl, rfl, rfl, rfl, rfl, rfl⟩)
      · intro _
        apply Contract.Triple.bind (M := fun _ => Underway n true)
        · apply Contract.Triple.alone_modify
          rintro s ⟨registered, notes⟩
          refine ⟨true, true, fun _ => rfl, qVector, outside, ?_, notes.numQVectors, notes.masterPf, notes.qVector,
            notes.userIntr, rfl⟩
          have set : noted n qVector true true = Function.update (noted n qVector true false) (n + 1) (some .priv) :=
            noted_error true
          rw [set]
          exact registered.same (fun _ => rfl) rfl rfl
        · exact fun _ => .alone_done fun _ h => h

theorem onicInitVectors_alone :
    alone.Triple (UpTo n master false false n) onicInitVectors fun _ => Underway n master := by
  have none_yet : false = true → master = true := fun absurd => by cases absurd
  apply Contract.Triple.bind (M := fun vectors s => vectors = n ∧ UpTo n master false false n s)
  · apply Contract.Triple.alone_read
    rintro s ⟨qVector, outside, before⟩
    exact ⟨before.2.numQVectors, qVector, outside, before⟩
  · intro vectors
    apply Contract.Triple.pure_pre
    rintro rfl
    apply Contract.Triple.bind (onicInitQVectors_alone (by omega))
    intro rv
    split
    · exact .alone_done fun _ h => h.underway none_yet
    · apply Contract.Triple.exists_pre
      intro qVector
      apply Contract.Triple.pure_pre
      intro outside
      apply Contract.Triple.bind (requestIrq_alone onNotes_noted _ _ _)
      intro rv
      by_cases failed : rv < 0
      · simp only [failed, if_true]
        exact .alone_done fun _ h => UpTo.underway none_yet ⟨qVector, outside, h⟩
      · simp only [failed, if_false]
        apply Contract.Triple.bind (M := fun _ => UpTo vectors master true false vectors)
        · apply Contract.Triple.alone_modify
          rintro s ⟨-, registered, notes⟩
          refine ⟨qVector, outside, ?_, notes.numQVectors, notes.masterPf, notes.qVector, rfl, notes.errorIntr⟩
          have set : noted vectors qVector true false = Function.update (noted vectors qVector false false) vectors
              (some .priv) := noted_user true
          rw [set]
          exact registered.same (fun _ => rfl) rfl rfl
        · intro _
          apply Contract.Triple.bind (M := fun flag s => flag = master ∧ UpTo vectors master true false vectors s)
          · apply Contract.Triple.alone_read
            rintro s ⟨qVector, outside, before⟩
            exact ⟨before.2.masterPf, qVector, outside, before⟩
          · intro flag
            apply Contract.Triple.pure_pre
            rintro rfl
            cases flag with
            | false => exact .alone_done fun _ h => h.underway none_yet
            | true => exact onicInitMasterInterrupt_alone

/-- Before the setup: nothing registered or noted, and no line at work. -/
structure Fresh (s : PfIntr) : Prop extends RolledBack s where
  line : ∀ vid, s.line vid = .unused

theorem Fresh.upTo {s : PfIntr} (fresh : Fresh s) : UpTo s.numQVectors s.masterPf false false s.numQVectors s := by
  refine ⟨s.qVector, fun vid _ => fresh.qVector vid, ⟨fun vid => ?_, fun vid c => ?_⟩, rfl, rfl, rfl, fresh.userIntr, fresh.errorIntr⟩
  · simp [noted, fresh.qVector, fresh.line, IrqLine.unused]
  · have count := fresh.freed.count_eq (vid, c)
    simp [noted, fresh.qVector, count]

/-- However the setup ends, the interrupts of a failed one and, after `onic_clear_interrupt`, of a successful one are
    freed as they were requested. -/
theorem interrupts_returned {s s' : PfIntr} {input : IntrInput} {rv : Int} (fresh : Fresh s)
    (ran : onicInitInterrupt.eval input s = some (rv, s')) :
    (rv < 0 → IrqsReturned s') ∧ (¬ rv < 0 → ∀ s'', onicClearInterrupt.eval input s' = some ((), s'') → IrqsReturned s'') := by
  rw [onicInitInterrupt, Program.eval_bind, Option.bind_eq_some_iff] at ran
  rcases ran with ⟨⟨rv', mid⟩, vectors, rest⟩
  rcases onicInitVectors_alone.alone_exec (.of_eval vectors) fresh.upTo with ⟨user, error, onMaster, underway⟩
  have clears {t t' : PfIntr} (ran : onicClearInterrupt.eval input t = some ((), t'))
      (underway : UpTo s.numQVectors s.masterPf user error s.numQVectors t) : IrqsReturned t' :=
    ((onicClearInterrupt_alone onMaster).alone_exec (.of_eval ran) underway).returned
  by_cases failed : rv' < 0
  · rw [if_pos failed, Program.eval_bind, Option.bind_eq_some_iff] at rest
    rcases rest with ⟨⟨_, last⟩, clear, done⟩
    cases done
    exact ⟨fun _ => clears clear underway, fun fine => absurd failed fine⟩
  · rw [if_neg failed] at rest
    cases rest
    exact ⟨fun negative => absurd negative failed, fun _ _ clear => clears clear underway⟩

/-- No access frees a name, and names that were allocated stay so. -/
structure NamesKept (s s' : PfIntr) : Prop where
  allocated : s.allocated.countP IntrMem.isName ≤ s'.allocated.countP IntrMem.isName
  released : s'.released.countP IntrMem.isName = s.released.countP IntrMem.isName

theorem NamesKept.of_same {s s' : PfIntr} (allocated : s'.allocated = s.allocated) (released : s'.released = s.released) :
    NamesKept s s' := ⟨by rw [allocated], by rw [released]⟩

theorem NamesKept.refl (s : PfIntr) : NamesKept s s := .of_same rfl rfl

theorem NamesKept.trans {a b c : PfIntr} (h : NamesKept a b) (h' : NamesKept b c) : NamesKept a c :=
  ⟨h.allocated.trans h'.allocated, h'.released.trans h.released⟩

theorem alloc_names (step : IntrStep) (mem : Nat → IntrMem) : (alloc step mem).Steps NamesKept := by
  apply Program.Steps.access
  intro input s a s' taken
  split at taken
  · cases taken
    refine ⟨?_, rfl⟩
    rw [List.countP_append]
    exact Nat.le_add_right _ _
  · cases taken
    exact .refl s

theorem kfree_names (vec : Nat) : (kfree (.qVector vec)).Steps NamesKept := by
  apply Program.Steps.modify
  intro s
  refine ⟨Nat.le_refl _, ?_⟩
  rw [List.countP_append]
  rfl

theorem requestIrq_names (step : IntrStep) (vid : Nat) (c : IrqCookie) : (requestIrq step vid c).Steps NamesKept := by
  apply Program.Steps.access
  intro input s rv s' taken
  split at taken
  · cases taken
    exact .refl s
  · split at taken
    · cases taken
      exact .refl s
    · cases taken
      exact .of_same rfl rfl

theorem freeIrq_names (vid : Nat) (c : IrqCookie) : (freeIrq vid c).Steps NamesKept := by
  apply Program.Steps.bind (.modify fun _ => .of_same rfl rfl)
  intro _
  apply Program.Steps.access
  intro _ s _ s' taken
  rcases Option.map_eq_some_iff.mp taken with ⟨l, -, same⟩
  cases same
  exact .of_same rfl rfl

/-- What `onic_init_q_vector` does with the name. -/
def nameQVector (vid : Nat) (name : Option Nat) : Program PfIntr IntrInput Int := do
  match ← alloc (.qVector vid) .qVector with
  | none => .done (- ENOMEM)
  | some vec =>
    .access fun (_ : IntrInput) s => if name.isSome then some ((), s) else none
    let rv ← requestIrq (.queueIrq vid) vid (.vec vec)
    if rv < 0 then .done rv
    else
      .modify fun s => { s with qVector := Function.update s.qVector vid (some vec) }
      .done 0

theorem onicInitQVector_eq (vid : Nat) : onicInitQVector vid = alloc (.irqName vid) .name >>= nameQVector vid := rfl

theorem nameQVector_names (vid : Nat) (name : Option Nat) : (nameQVector vid name).Steps NamesKept := by
  apply Program.Steps.bind (alloc_names _ _)
  intro vec
  cases vec with
  | none => exact .done _
  | some vec =>
    apply Program.Steps.bind
    · apply Program.Steps.access
      intro _ s _ s' taken
      split at taken
      · cases taken
        exact .refl s
      · cases taken
    · intro _
      apply Program.Steps.bind (requestIrq_names _ _ _)
      intro rv
      split
      · exact .done _
      · exact (Program.Steps.modify fun _ => .of_same rfl rfl).bind fun _ => .done _

theorem onicInitQVector_names (vid : Nat) : (onicInitQVector vid).Steps NamesKept :=
  (alloc_names _ _).bind (nameQVector_names vid)

theorem onicClearQVector_names (vid : Nat) : (onicClearQVector vid).Steps NamesKept := by
  apply Program.Steps.bind (.read .refl _)
  intro vec
  cases vec with
  | none => exact .done _
  | some vec =>
    apply Program.Steps.bind (freeIrq_names _ _)
    intro _
    apply Program.Steps.bind (kfree_names vec)
    intro _
    exact .modify fun _ => .of_same rfl rfl

theorem clearQVectors_names (k : Nat) : (clearQVectors k).Steps NamesKept := by
  induction k with
  | zero => exact .done _
  | succ vid ih => exact (onicClearQVector_names vid).bind fun _ => ih

theorem disableForTeardown_names : disableForTeardown.Steps NamesKept := by
  apply Program.Steps.modify
  intro s
  split <;> exact .of_same rfl rfl

theorem onicClearInterrupt_names : onicClearInterrupt.Steps NamesKept := by
  apply Program.Steps.bind (.read .refl _)
  intro masterPf
  apply Program.Steps.bind (.read .refl _)
  intro numQVectors
  apply Program.Steps.bind
  · split
    · exact disableForTeardown_names
    · exact .done _
  · intro _
    apply Program.Steps.bind
    · split
      · apply Program.Steps.bind (.read .refl _)
        intro errorIntr
        apply Program.Steps.bind
        · split
          · apply Program.Steps.bind (freeIrq_names _ _)
            intro _
            apply Program.Steps.bind (.modify fun _ => .of_same rfl rfl)
            intro _
            exact .modify fun _ => .of_same rfl rfl
          · exact .done _
        · exact fun _ => .done _
      · exact .done _
    · intro vid
      apply Program.Steps.bind (.read .refl _)
      intro userIntr
      apply Program.Steps.bind
      · split
        · apply Program.Steps.bind (freeIrq_names _ _)
          intro _
          exact .modify fun _ => .of_same rfl rfl
        · exact .done _
      · intro _
        apply Program.Steps.bind (clearQVectors_names _)
        intro _
        exact .modify fun _ => .of_same rfl rfl

theorem writeIntrCtrl_names (val : Word) : (writeIntrCtrl val).Steps NamesKept := by
  apply Program.Steps.modify
  intro s
  split <;> exact .of_same rfl rfl

theorem onicPfMboxIrqInit_names (vector : Nat) : (onicPfMboxIrqInit vector).Steps NamesKept := by
  apply Program.Steps.bind (.read .refl _)
  intro mapped
  split
  · exact .done _
  · apply Program.Steps.bind (writeIntrCtrl_names 0)
    intro _
    apply Program.Steps.bind
    · exact ((Program.Steps.trivial _).comap _).lift fun _ _ _ => .of_same rfl rfl
    · intro dropped
      split
      · exact .done _
      · apply Program.Steps.bind (.modify fun _ => .of_same rfl rfl)
        intro _
        exact (writeIntrCtrl_names _).bind fun _ => .done _

theorem onicInitMasterInterrupt_names (vid : Nat) : (onicInitMasterInterrupt vid).Steps NamesKept := by
  apply Program.Steps.bind (onicPfMboxIrqInit_names vid)
  intro rv
  split
  · exact .done _
  · apply Program.Steps.bind (requestIrq_names _ _ _)
    intro rv
    split
    · exact .done _
    · apply Program.Steps.bind (.modify fun _ => .of_same rfl rfl)
      intro _
      exact (Program.Steps.modify fun _ => .of_same rfl rfl).bind fun _ => .done _

/-- `onic_init_interrupt` from the user interrupt on. -/
def initOthers (numQVectors : Nat) : Program PfIntr IntrInput Int := do
  let rv ← requestIrq .userIrq numQVectors .priv
  if rv < 0 then .done rv
  else
    .modify fun s => { s with userIntr := true }
    if !(← .read PfIntr.masterPf) then .done 0 else onicInitMasterInterrupt numQVectors

theorem onicInitVectors_eq : onicInitVectors = Program.read PfIntr.numQVectors >>= fun numQVectors =>
    Program.untilErr onicInitQVector 0 numQVectors >>= fun rv => if rv < 0 then .done rv else initOthers numQVectors := rfl

theorem initOthers_names (numQVectors : Nat) : (initOthers numQVectors).Steps NamesKept := by
  apply Program.Steps.bind (requestIrq_names _ _ _)
  intro rv
  split
  · exact .done _
  · apply Program.Steps.bind (.modify fun _ => .of_same rfl rfl)
    intro _
    apply Program.Steps.bind (.read .refl _)
    intro master
    split
    · exact .done _
    · exact onicInitMasterInterrupt_names _

theorem NamesKept.exec {α : Type} {p : Program PfIntr IntrInput α} (steps : p.Steps NamesKept) {input : IntrInput} {s s' : PfIntr}
    {a : α} (ran : p.eval input s = some (a, s')) : NamesKept s s' := steps.exec .refl (fun _ _ _ => .trans) (.of_eval ran)

variable {s s' : PfIntr} {input : IntrInput} {rv : Int}

/-- The first queue vector's name stays allocated. -/
theorem onicInitVectors_leaks (some_vector : 0 < s.numQVectors) (named : input.fails (.irqName 0) = 0)
    (ran : onicInitVectors.eval input s = some (rv, s')) :
    s.allocated.countP IntrMem.isName < s'.allocated.countP IntrMem.isName ∧
      s'.released.countP IntrMem.isName = s.released.countP IntrMem.isName := by
  obtain ⟨k, vectors⟩ : ∃ k, s.numQVectors = k + 1 := ⟨s.numQVectors - 1, by omega⟩
  rw [onicInitVectors_eq, Program.eval_bind, Program.eval_read, Option.bind_some, vectors, Program.untilErr, onicInitQVector_eq,
    Program.bind_assoc, Program.bind_assoc, Program.eval_bind, alloc, Program.eval_access, if_pos named, Option.bind_some] at ran
  have rest : ∀ name, (nameQVector 0 name >>= fun err => (if err ≠ 0 then Program.done err
      else Program.untilErr onicInitQVector (0 + 1) k) >>= fun rv => if rv < 0 then .done rv else initOthers (k + 1)).Steps
        NamesKept := by
    intro name
    apply Program.Steps.bind (nameQVector_names 0 name)
    intro err
    apply Program.Steps.bind
    · split
      · exact .done _
      · exact .untilErr onicInitQVector_names _ _
    · intro rv
      split
      · exact .done _
      · exact initOthers_names _
  have kept := NamesKept.exec (rest _) ran
  refine ⟨?_, kept.released⟩
  have more := kept.allocated
  rw [List.countP_append] at more
  exact more

/-- Without a name `snprintf` does not return. -/
theorem onicInitVectors_stuck (some_vector : 0 < s.numQVectors) (unnamed : input.fails (.irqName 0) ≠ 0)
    (vec : input.fails (.qVector 0) = 0) : onicInitVectors.eval input s = none := by
  obtain ⟨k, vectors⟩ : ∃ k, s.numQVectors = k + 1 := ⟨s.numQVectors - 1, by omega⟩
  rw [onicInitVectors_eq, Program.eval_bind, Program.eval_read, Option.bind_some, vectors, Program.untilErr, onicInitQVector_eq]
  simp [Program.eval_bind, alloc, unnamed, nameQVector, vec]

theorem onicInitVectors_refused (some_vector : 0 < s.numQVectors) (unnamed : input.fails (.irqName 0) ≠ 0)
    (vec : input.fails (.qVector 0) ≠ 0) : onicInitVectors.eval input s = some (- ENOMEM, s) := by
  obtain ⟨k, vectors⟩ : ∃ k, s.numQVectors = k + 1 := ⟨s.numQVectors - 1, by omega⟩
  rw [onicInitVectors_eq, Program.eval_bind, Program.eval_read, Option.bind_some, vectors, Program.untilErr, onicInitQVector_eq]
  simp [Program.eval_bind, alloc, unnamed, nameQVector, vec, ENOMEM]

/-- Every line is at rest, so that no `free_irq` waits. -/
def AtRest (s : PfIntr) : Prop := ∀ vid, (s.line vid).quiet = true

theorem freeIrq_ends (vid : Nat) (c : IrqCookie) : (freeIrq vid c).Ends AtRest input := by
  apply Program.Ends.bind
  · apply Program.Ends.modify
    intro s rest v
    dsimp only
    split
    · by_cases same : v = vid
      · subst same
        simpa using rest v
      · simpa [same] using rest v
    · exact rest v
  · intro _
    apply Program.Ends.access
    intro s rest
    have quiet := rest vid
    refine ⟨(), { s with line := Function.update s.line vid { s.line vid with draining := false } }, ?_, fun v => ?_⟩
    · simp [IrqLine.drain, quiet]
    · by_cases same : v = vid
      · subst same
        simpa using rest v
      · simpa [same] using rest v

theorem kfree_ends (mem : IntrMem) : (kfree mem).Ends AtRest input := .modify fun _ rest => rest

theorem onicClearQVector_ends (vid : Nat) : (onicClearQVector vid).Ends AtRest input := by
  apply Program.Ends.bind (.read _)
  intro vec
  cases vec with
  | none => exact .done _
  | some vec =>
    apply Program.Ends.bind (freeIrq_ends _ _)
    intro _
    exact Program.Ends.bind (kfree_ends _) fun _ => .modify fun _ rest => rest

theorem clearQVectors_ends (k : Nat) : (clearQVectors k).Ends AtRest input := by
  induction k with
  | zero => exact .done _
  | succ vid ih => exact (onicClearQVector_ends vid).bind fun _ => ih

theorem disableForTeardown_ends : disableForTeardown.Ends AtRest input := by
  apply Program.Ends.modify
  intro s rest v
  split
  · by_cases same : v = s.numQVectors
    · subst same
      simpa [setSource, source, IrqSource.switchOff] using rest s.numQVectors
    · simpa [setSource, same] using rest v
  · exact rest v

theorem onicClearInterrupt_ends : onicClearInterrupt.Ends AtRest input := by
  apply Program.Ends.bind (.read _)
  intro masterPf
  apply Program.Ends.bind (.read _)
  intro numQVectors
  apply Program.Ends.bind
  · split
    · exact disableForTeardown_ends
    · exact .done _
  · intro _
    apply Program.Ends.bind
    · split
      · apply Program.Ends.bind (.read _)
        intro errorIntr
        apply Program.Ends.bind
        · split
          · apply Program.Ends.bind (freeIrq_ends _ _)
            intro _
            apply Program.Ends.bind
            · exact .modify fun _ rest => rest
            · exact fun _ => .modify fun _ rest => rest
          · exact .done _
        · exact fun _ => .done _
      · exact .done _
    · intro vid
      apply Program.Ends.bind (.read _)
      intro userIntr
      apply Program.Ends.bind
      · split
        · apply Program.Ends.bind (freeIrq_ends _ _)
          intro _
          exact .modify fun _ rest => rest
        · exact .done _
      · intro _
        apply Program.Ends.bind (clearQVectors_ends _)
        intro _
        exact .modify fun _ rest => rest

/-- Every iteration drops the request that the status register shows. -/
theorem dropStaleRequests_eval (hw : Input) (left : Nat) (dropped : Int) (m : PfSys) :
    ∃ m', (onicPfMboxDropStaleRequests left dropped).eval hw m =
      some (if m.requests.length < left then dropped + m.requests.length else - EIO, m') := by
  induction left generalizing dropped m with
  | zero => exact ⟨m, rfl⟩
  | succ left ih =>
    simp only [onicPfMboxDropStaleRequests, PfMbox.readSts, Program.eval_bind, Program.eval_read, Option.bind_some,
      PfSys.mboxSts_iMsg, PfSys.curSrcFn_mboxSts]
    cases requests : m.requests with
    | nil => exact ⟨m, by simp⟩
    | cons r rest =>
      simp only [List.isEmpty_cons, Bool.not_false, Bool.not_true, Bool.false_eq_true, if_false, PfMbox.writeTargetFn,
        PfMbox.writeCmdRcv, Program.eval_bind, Program.eval_modify, Option.bind_some]
      have src : m.curSrc = r.1 := by simp [PfSys.curSrc, requests]
      have erased : ({ m with targetFn := m.curSrc } : PfSys).receive.requests = rest := by
        simp [PfSys.receive, requests, src]
      rcases ih (dropped + 1) ({ m with targetFn := m.curSrc } : PfSys).receive with ⟨m', ran⟩
      rw [erased] at ran
      refine ⟨m', ran.trans ?_⟩
      have count : dropped + 1 + (rest.length : Int) = dropped + ((rest.length + 1 : Nat) : Int) := by
        push_cast
        omega
      rw [List.length_cons, count]
      simp

/-- What keeps lines, table and memory. -/
structure Inert (s s' : PfIntr) : Prop where
  line : s'.line = s.line
  qVector : s'.qVector = s.qVector
  allocated : s'.allocated = s.allocated
  released : s'.released = s.released

theorem onicPfMboxIrqInit_eval (input : IntrInput) (vector : Nat) (s : PfIntr) : ∃ rv s', (onicPfMboxIrqInit vector).eval input s = some (rv, s') ∧
    rv ≤ 0 ∧ (rv = 0 ↔ s.mbox.qdevMapped = true ∧ s.mbox.requests.length < 256) ∧ Inert s s' := by
  cases mapped : s.mbox.qdevMapped with
  | false =>
    refine ⟨- ENODEV, s, ?_, by decide, by simp [ENODEV], rfl, rfl, rfl, rfl⟩
    simp [onicPfMboxIrqInit, Program.eval_bind, mapped]
  | true =>
    rcases dropStaleRequests_eval input.hw 256 0 s.mbox with ⟨mbox, dropped⟩
    have lens : Program.Lens PfIntr.mbox fun mbox (s : PfIntr) => { s with mbox := mbox } :=
      ⟨fun _ _ => rfl, fun _ => rfl, fun _ _ _ => rfl⟩
    have drops (t : PfIntr) (same : t.mbox = s.mbox) : (onMbox (onicPfMboxDropStaleRequests 256 0)).eval input t =
        some (if s.mbox.requests.length < 256 then 0 + (s.mbox.requests.length : Int) else - EIO, { t with mbox := mbox }) := by
      rw [onMbox, Program.eval_lift lens, Program.eval_comap, same, dropped]
      rfl
    by_cases few : s.mbox.requests.length < 256
    · simp only [few, if_true] at drops
      have nonneg : ¬ (0 + (s.mbox.requests.length : Int)) < 0 := by omega
      simp only [onicPfMboxIrqInit, onicPfMboxIrqDisable, onicPfMboxIrqEnable, writeIntrCtrl, Program.eval_bind,
        Program.eval_read, Program.eval_modify, Option.bind_some, mapped, Bool.not_true, Bool.false_eq_true, if_false, if_true]
      rw [drops { s with mboxCtrl := some 0 } rfl, Option.bind_some, if_neg nonneg]
      refine ⟨0, _, rfl, Int.le_refl 0, by simp [few], ?_⟩
      dsimp only
      split <;> exact ⟨rfl, rfl, rfl, rfl⟩
    · simp only [few, if_false] at drops
      have negative : (- EIO) < 0 := by decide
      simp only [onicPfMboxIrqInit, onicPfMboxIrqDisable, writeIntrCtrl, Program.eval_bind,
        Program.eval_read, Program.eval_modify, Option.bind_some, mapped, Bool.not_true, Bool.false_eq_true, if_false, if_true]
      rw [drops { s with mboxCtrl := some 0 } rfl, Option.bind_some, if_pos negative]
      exact ⟨- EIO, _, rfl, by decide, by simp [few, EIO], rfl, rfl, rfl, rfl⟩

/-- Every step of the setup passes. -/
structure SetupPasses (input : IntrInput) (s : PfIntr) : Prop where
  vectors : ∀ vid < s.numQVectors, input.fails (.irqName vid) = 0 ∧ input.fails (.qVector vid) = 0 ∧
    input.fails (.queueIrq vid) = 0
  user : input.fails .userIrq = 0
  master : s.masterPf = true → (s.mbox.qdevMapped = true ∧ s.mbox.requests.length < 256) ∧ input.fails .errorIrq = 0

/-- A line that is not registered may be requested. -/
theorem requestIrq_eval (input : IntrInput) (step : IntrStep) {vid : Nat} (c : IrqCookie) (free : (s.line vid).action = none) :
    ∃ rv s', (requestIrq step vid c).eval input s = some (rv, s') ∧ rv ≤ 0 ∧ (rv = 0 ↔ input.fails step = 0) ∧
      (∀ v, v ≠ vid → s'.line v = s.line v) ∧ (AtRest s → AtRest s') ∧ s'.masterPf = s.masterPf ∧ s'.mbox = s.mbox ∧
      s'.qVector = s.qVector ∧ s'.allocated = s.allocated ∧ s'.released = s.released := by
  simp only [requestIrq, Program.eval_access, free, Option.isSome_none, Bool.false_eq_true, if_false]
  by_cases fails : input.fails step = 0
  · rw [if_neg (not_not.mpr fails)]
    refine ⟨0, _, rfl, Int.le_refl 0, by simp [fails], fun v other => Function.update_of_ne other _ _, fun rest v => ?_, rfl, rfl,
      rfl, rfl, rfl⟩
    by_cases same : v = vid
    · subst same
      simpa using rest v
    · simpa [same] using rest v
  · rw [if_pos fails]
    exact ⟨- (input.fails step : Int), s, rfl, by omega, by omega, fun _ _ => rfl, fun rest => rest, rfl, rfl, rfl, rfl, rfl⟩

/-- What is left of the setup once it has come past the queue vectors. -/
theorem initOthers_eval (input : IntrInput) (fresh : ∀ vid, s.numQVectors ≤ vid → s.line vid = .unused) (rest : AtRest s) :
    ∃ rv s', (initOthers s.numQVectors).eval input s = some (rv, s') ∧ rv ≤ 0 ∧
      (rv = 0 ↔ input.fails .userIrq = 0 ∧ (s.masterPf = true →
        (s.mbox.qdevMapped = true ∧ s.mbox.requests.length < 256) ∧ input.fails .errorIrq = 0)) ∧
      AtRest s' ∧ s'.qVector = s.qVector ∧ s'.allocated = s.allocated ∧ s'.released = s.released := by
  have free : (s.line s.numQVectors).action = none := by rw [fresh _ (Nat.le_refl _), IrqLine.unused]
  rcases requestIrq_eval input .userIrq .priv free with
    ⟨rv, t, user, le, zero, others, atRest, masterPf, mbox, table, allocated, released⟩
  rw [initOthers, Program.eval_bind, user, Option.bind_some]
  by_cases failed : input.fails .userIrq = 0
  · have ok : rv = 0 := zero.mpr failed
    subst ok
    rw [if_neg (Int.lt_irrefl 0), Program.eval_bind, Program.eval_modify, Option.bind_some, Program.eval_bind, Program.eval_read,
      Option.bind_some]
    cases master : s.masterPf with
    | false =>
      rw [if_pos (by simp [masterPf, master])]
      exact ⟨0, _, rfl, Int.le_refl 0, by simp [failed], atRest rest, table, allocated, released⟩
    | true =>
      rw [if_neg (by simp [masterPf, master]), onicInitMasterInterrupt, Program.eval_bind]
      rcases onicPfMboxIrqInit_eval input s.numQVectors { t with userIntr := true } with
        ⟨rv', m, inited, le', zero', inert⟩
      have mailbox : rv' = 0 ↔ s.mbox.qdevMapped = true ∧ s.mbox.requests.length < 256 := by
        rw [zero', mbox]
      have atRest' : AtRest m := fun vid => by
        rw [inert.line]
        exact atRest rest vid
      rw [inited, Option.bind_some]
      by_cases refused : rv' < 0
      · rw [if_pos refused]
        refine ⟨rv', m, rfl, le', ?_, atRest', inert.qVector.trans table, inert.allocated.trans allocated,
          inert.released.trans released⟩
        constructor
        · omega
        · exact fun passes => absurd (mailbox.mpr (passes.2 rfl).1) (by omega)
      · rw [if_neg refused, Program.eval_bind]
        have passed := mailbox.mp (by omega)
        have free' : (m.line (s.numQVectors + 1)).action = none := by
          rw [inert.line, others _ (by omega), fresh _ (by omega), IrqLine.unused]
        rcases requestIrq_eval input .errorIrq .priv free' with
          ⟨rv'', e, error, le'', zero'', -, atRest'', -, -, table', allocated', released'⟩
        rw [error, Option.bind_some]
        have result : rv'' = 0 ↔ input.fails .userIrq = 0 ∧ (true = true →
            (s.mbox.qdevMapped = true ∧ s.mbox.requests.length < 256) ∧ input.fails .errorIrq = 0) := by
          rw [zero'']
          exact ⟨fun fine => ⟨failed, fun _ => ⟨passed, fine⟩⟩, fun passes => (passes.2 rfl).2⟩
        by_cases refused' : rv'' < 0
        · rw [if_pos refused']
          exact ⟨rv'', e, rfl, le'', result, atRest'' atRest', (table'.trans inert.qVector).trans table,
            (allocated'.trans inert.allocated).trans allocated, (released'.trans inert.released).trans released⟩
        · rw [if_neg refused']
          have ok : rv'' = 0 := by omega
          exact ⟨0, _, rfl, Int.le_refl 0, ok ▸ result, atRest'' atRest', (table'.trans inert.qVector).trans table,
            (allocated'.trans inert.allocated).trans allocated, (released'.trans inert.released).trans released⟩
  · have negative : rv < 0 := by
      have nonzero : rv ≠ 0 := fun same => failed (zero.mp same)
      omega
    rw [if_pos negative]
    refine ⟨rv, t, rfl, le, ?_, atRest rest, table, allocated, released⟩
    constructor
    · omega
    · exact fun passes => absurd passes.1 failed

/-- With no entry in the table the clear touches no memory. -/
def NoVectors (allocated released : List IntrMem) (s : PfIntr) : Prop :=
  (∀ vid, s.qVector vid = none) ∧ s.allocated = allocated ∧ s.released = released

variable {allocated released : List IntrMem}

theorem freeIrq_noVectors (vid : Nat) (c : IrqCookie) :
    alone.Triple (NoVectors allocated released) (freeIrq vid c) fun _ => NoVectors allocated released := by
  apply Contract.Triple.bind (M := fun _ => NoVectors allocated released)
  · exact .alone_modify fun _ h => h
  · intro _
    apply Contract.Triple.alone_access
    intro s _ _ s' before taken
    rcases Option.map_eq_some_iff.mp taken with ⟨l, -, same⟩
    cases same
    exact before

theorem clearQVectors_noVectors (k : Nat) :
    alone.Triple (NoVectors allocated released) (clearQVectors k) fun _ => NoVectors allocated released := by
  induction k with
  | zero => exact .alone_done fun _ h => h
  | succ vid ih =>
    apply Contract.Triple.bind (M := fun _ => NoVectors allocated released)
    · apply Contract.Triple.bind (M := fun vec s => vec = none ∧ NoVectors allocated released s)
      · exact .alone_read fun s h => ⟨h.1 vid, h⟩
      · intro vec
        apply Contract.Triple.pure_pre
        rintro rfl
        exact .alone_done fun _ h => h
    · exact fun _ => ih

theorem onicClearInterrupt_noVectors :
    alone.Triple (NoVectors allocated released) onicClearInterrupt fun _ => NoVectors allocated released := by
  apply Contract.Triple.bind (M := fun _ => NoVectors allocated released) (.alone_read fun _ h => h)
  intro masterPf
  apply Contract.Triple.bind (M := fun _ => NoVectors allocated released) (.alone_read fun _ h => h)
  intro numQVectors
  apply Contract.Triple.bind (M := fun _ => NoVectors allocated released)
  · split
    · apply Contract.Triple.alone_modify
      intro s h
      split <;> exact h
    · exact .alone_done fun _ h => h
  · intro _
    apply Contract.Triple.bind (M := fun _ => NoVectors allocated released)
    · split
      · apply Contract.Triple.bind (M := fun _ => NoVectors allocated released) (.alone_read fun _ h => h)
        intro errorIntr
        apply Contract.Triple.bind (M := fun _ => NoVectors allocated released)
        · split
          · apply Contract.Triple.bind (freeIrq_noVectors _ _)
            intro _
            apply Contract.Triple.bind (M := fun _ => NoVectors allocated released)
            · exact .alone_modify fun _ h => h
            · exact fun _ => .alone_modify fun _ h => h
          · exact .alone_done fun _ h => h
        · exact fun _ => .alone_done fun _ h => h
      · exact .alone_done fun _ h => h
    · intro vid
      apply Contract.Triple.bind (M := fun _ => NoVectors allocated released) (.alone_read fun _ h => h)
      intro userIntr
      apply Contract.Triple.bind (M := fun _ => NoVectors allocated released)
      · split
        · apply Contract.Triple.bind (freeIrq_noVectors _ _)
          exact fun _ => .alone_modify fun _ h => h
        · exact .alone_done fun _ h => h
      · intro _
        apply Contract.Triple.bind (clearQVectors_noVectors _)
        exact fun _ => .alone_modify fun _ h => h

/-- The setup ends; if a step fails it returns an error with everything undone, and otherwise it succeeds and
    `onic_clear_interrupt` undoes everything. -/
def SetupUndone (input : IntrInput) (s : PfIntr) : Prop :=
  ∃ rv s', onicInitInterrupt.eval input s = some (rv, s') ∧
    (¬ SetupPasses input s → rv < 0 ∧ RolledBack s') ∧
    (SetupPasses input s → rv = 0 ∧ ∃ s'', onicClearInterrupt.eval input s' = some ((), s'') ∧ RolledBack s'')

theorem Fresh.atRest (fresh : Fresh s) : AtRest s := fun vid => by
  rw [fresh.line]
  rfl

/-- Where no memory has been allocated, undoing the interrupts is undoing everything. -/
theorem setupUndone_of_vectors {t : PfIntr} (fresh : Fresh s) (ran : onicInitVectors.eval input s = some (rv, t)) (le : rv ≤ 0)
    (zero : rv = 0 ↔ SetupPasses input s) (rest : AtRest t) (table : t.qVector = s.qVector)
    (allocated : t.allocated = s.allocated) (released : t.released = s.released) : SetupUndone input s := by
  rcases onicClearInterrupt_ends t rest with ⟨⟨⟩, u, clear, -⟩
  have none_set : NoVectors s.allocated s.released t := ⟨fun vid => by rw [table, fresh.qVector], allocated, released⟩
  have left := onicClearInterrupt_noVectors.alone_exec (.of_eval clear) none_set
  have memory : u.released.Perm u.allocated := by
    rw [left.2.1, left.2.2]
    exact fresh.memory
  by_cases failed : rv < 0
  · have whole : onicInitInterrupt.eval input s = some (rv, u) := by
      rw [onicInitInterrupt, Program.eval_bind, ran, Option.bind_some, if_pos failed, Program.eval_bind, clear]
      rfl
    refine ⟨rv, u, whole, fun _ => ⟨failed, (interrupts_returned fresh whole).1 failed, memory⟩, fun passes => ?_⟩
    exact absurd (zero.mpr passes) (by omega)
  · have ok : rv = 0 := by omega
    have whole : onicInitInterrupt.eval input s = some (rv, t) := by
      rw [onicInitInterrupt, Program.eval_bind, ran, Option.bind_some, if_neg failed]
      rfl
    refine ⟨rv, t, whole, fun fails => absurd (zero.mp ok) fails, fun _ => ⟨ok, u, clear, ?_, memory⟩⟩
    exact (interrupts_returned fresh whole).2 failed u clear

/-- Everything is undone exactly where no name has been allocated: without queue vectors, and where the first of
    them gets neither its name nor its structure. The interrupts are returned in any case. -/
theorem interrupt_setup_rollback_iff (input : IntrInput) {s : PfIntr} (fresh : Fresh s) :
    (SetupUndone input s ↔ s.numQVectors = 0 ∨ (input.fails (.irqName 0) ≠ 0 ∧ input.fails (.qVector 0) ≠ 0)) ∧
    ∀ rv s', onicInitInterrupt.eval input s = some (rv, s') → (rv < 0 → IrqsReturned s') ∧
      (¬ rv < 0 → ∀ s'', onicClearInterrupt.eval input s' = some ((), s'') → IrqsReturned s'') := by
  refine ⟨⟨?_, ?_⟩, fun rv s' ran => interrupts_returned fresh ran⟩
  · rintro ⟨rv, s', ran, failing, passing⟩
    by_contra leaks
    have some_vector : 0 < s.numQVectors := by omega
    by_cases named : input.fails (.irqName 0) = 0
    · rw [onicInitInterrupt, Program.eval_bind, Option.bind_eq_some_iff] at ran
      rcases ran with ⟨⟨rv', mid⟩, vectors, rest⟩
      have leaked := onicInitVectors_leaks some_vector named vectors
      have balanced := fresh.memory.countP_eq IntrMem.isName
      have unbalanced {u : PfIntr} (kept : NamesKept mid u) : ¬ RolledBack u := by
        intro back
        have count := back.memory.countP_eq IntrMem.isName
        have more := kept.allocated
        have same := kept.released
        omega
      by_cases failed : rv' < 0
      · rw [if_pos failed, Program.eval_bind, Option.bind_eq_some_iff] at rest
        rcases rest with ⟨⟨_, last⟩, clear, done⟩
        cases done
        have kept := NamesKept.exec onicClearInterrupt_names clear
        by_cases passes : SetupPasses input s
        · exact absurd (passing passes).1 (by omega)
        · exact unbalanced kept (failing passes).2
      · rw [if_neg failed] at rest
        cases rest
        by_cases passes : SetupPasses input s
        · rcases passing passes with ⟨-, s'', clear, back⟩
          exact unbalanced (NamesKept.exec onicClearInterrupt_names clear) back
        · exact absurd (failing passes).1 failed
    · have vec : input.fails (.qVector 0) = 0 := by
        by_contra refused
        exact leaks (.inr ⟨named, refused⟩)
      rw [onicInitInterrupt, Program.eval_bind, onicInitVectors_stuck some_vector named vec] at ran
      cases ran
  · intro spared
    by_cases empty : s.numQVectors = 0
    · rcases initOthers_eval (s := s) input (fun vid _ => fresh.line vid) fresh.atRest with
        ⟨rv, t, ran, le, zero, rest, table, allocated, released⟩
      have vectors : onicInitVectors.eval input s = some (rv, t) := by
        rw [onicInitVectors_eq, Program.eval_bind, Program.eval_read, Option.bind_some, empty] at *
        exact ran
      refine setupUndone_of_vectors fresh vectors le ?_ rest table allocated released
      rw [zero]
      exact ⟨fun passes => ⟨fun vid low => absurd low (by omega), passes.1, passes.2⟩, fun passes => ⟨passes.user, passes.master⟩⟩
    · have refused : input.fails (.irqName 0) ≠ 0 ∧ input.fails (.qVector 0) ≠ 0 := spared.resolve_left empty
      have vectors := onicInitVectors_refused (s := s) (by omega) refused.1 refused.2
      refine setupUndone_of_vectors fresh vectors (by decide) ?_ fresh.atRest rfl rfl rfl
      constructor
      · exact fun zero => absurd zero (by decide)
      · exact fun passes => absurd (passes.vectors 0 (by omega)).1 refused.1

theorem oneVector_fresh : Fresh oneVector where
  freed := .refl _
  qVector _ := rfl
  userIntr := rfl
  errorIntr := rfl
  memory := .refl _
  line _ := rfl

theorem interrupt_setup_rollback_no_vector :
    Fresh { oneVector with numQVectors := 0 } ∧ SetupUndone IntrInput.granted { oneVector with numQVectors := 0 } := by
  have fresh : Fresh { oneVector with numQVectors := 0 } :=
    ⟨⟨⟨.refl _, fun _ => rfl, rfl, rfl⟩, .refl _⟩, fun _ => rfl⟩
  exact ⟨fresh, (interrupt_setup_rollback_iff IntrInput.granted fresh).1.mpr (.inl rfl)⟩

/-- Everything is granted: the name of the one queue vector is left behind. -/
theorem interrupt_setup_rollback_one_vector : Fresh oneVector ∧ ¬ SetupUndone IntrInput.granted oneVector := by
  refine ⟨oneVector_fresh, ?_⟩
  rintro ⟨rv, s', ran, -, passing⟩
  have passes : SetupPasses IntrInput.granted oneVector := ⟨fun _ _ => ⟨rfl, rfl, rfl⟩, rfl, fun _ => ⟨⟨rfl, by decide⟩, rfl⟩⟩
  rcases (passing passes).2 with ⟨s'', clear, back⟩
  have left : ((onicInitInterrupt.eval IntrInput.granted oneVector).bind fun r => onicClearInterrupt.eval IntrInput.granted r.2).map
      (fun r => (r.2.released, r.2.allocated)) = some ([.qVector 1], [.name 0, .qVector 1]) := by decide
  rw [ran, Option.bind_some, clear] at left
  have lists := Option.some.inj left
  have perm := back.memory
  rw [(Prod.mk.inj lists).1, (Prod.mk.inj lists).2] at perm
  exact absurd perm.length_eq (by decide)

end PfIntr

end OpenNic
