import OpenNic.Vf.Frames
import OpenNic.Vf.Runs

namespace OpenNic

/-- A call of the stack and what its steps find, one after the other. -/
inductive VfCall
  | ndoOpen (inputs : List VfInput)
  | ndoStop (inputs : List VfInput)

namespace VfNetdev

def call (priv : VfQueues) (c : VfCall) (s : VfNetdev) : Option VfNetdev :=
  match c with
  | .ndoOpen inputs => if s.running then none else ((devOpen priv).run inputs s).map Prod.snd
  | .ndoStop inputs => if s.running then ((devClose priv).run inputs s).map Prod.snd else none

def calls (priv : VfQueues) : List VfCall → VfNetdev → Option VfNetdev
  | [], s => some s
  | c :: rest, s => (s.call priv c).bind (calls priv rest)

/-- No entry points to a queue, or one of the first three allocations of the open fails; its first
    step only notes that it has begun. -/
def Spared (inputs : List VfInput) (s : VfNetdev) : Prop :=
  (∀ slot, s.queue slot = none) ∨ ∃ input ∈ (inputs.drop 1).take 3, input.alloc = false

/-- Every open is spared. -/
def AllSpared (priv : VfQueues) : List VfCall → VfNetdev → Prop
  | [], _ => True
  | c :: rest, s =>
    (∀ inputs, c = .ndoOpen inputs → s.Spared inputs) ∧ ∀ s', s.call priv c = some s' → AllSpared priv rest s'

/-- The first allocations of an open; an error ends it. -/
theorem devOpen_first {priv : VfQueues} {n : Nat} (vectors : priv.numQVectors ≠ 0) (more : priv.numTxQueues = n + 1) :
    ∃ rest : Program VfNetdev VfInput Unit, devOpen priv = (do
      .modify fun s => { s with running := true, caller := .opening }
      let err ← onicVfAllocTxRing priv 0
      if err ≠ 0 then do
        checkRetained
        onicVfRingsClear
        .modify fun s => { s with running := false }
      else rest) := by
  refine ⟨?_, ?_⟩
  rotate_left
  · simp only [devOpen, onicVfOpenNetdev, onicVfRingsInit, if_neg vectors, more, Program.untilErr, Program.bind_assoc]
    congr 1
    funext _
    congr 1
    funext err
    by_cases ok : err = 0
    · subst ok
      simp only [ne_eq, not_true, if_false]
      rfl
    · simp only [ne_eq, ok, not_false_iff, if_true, Program.bind_done, Program.bind_assoc]

/-- What the first allocations come to. -/
theorem onicVfAllocTxRing_run {priv : VfQueues} {qid : Nat} {inputs : List VfInput} {s s' : VfNetdev} {err : Int}
    (ran : (onicVfAllocTxRing priv qid).run inputs s = some (err, s')) :
    (err ≠ 0 ∧ ∃ input ∈ inputs.take 3, input.alloc = false) ∨
    (err = 0 ∧ s.mem (.tx qid) ⊆ s'.leaked ∧
      ∃ i j k rest, inputs = i :: j :: k :: rest ∧ i.alloc = true ∧ j.alloc = true ∧ k.alloc = true) := by
  have unwound {ids : List Nat} {t : VfNetdev} {inputs : List VfInput}
      (ran : (do freeAll ids; .done (- ENOMEM) : Program VfNetdev VfInput Int).run inputs t = some (err, s')) : err ≠ 0 := by
    rcases Program.run_bind ran with ⟨_, _, _, _, -, -, last⟩
    cases last
    decide
  rw [onicVfAllocTxRing, kalloc, dmaAllocCoherent] at ran
  rcases inputs with _ | ⟨i, inputs⟩
  · cases ran
  rw [Program.run_access_cons] at ran
  by_cases first : i.alloc = true
  · rw [if_pos first] at ran
    rcases inputs with _ | ⟨j, inputs⟩
    · cases ran
    simp only [Option.bind_some] at ran
    rw [Program.run_access_cons] at ran
    by_cases second : j.alloc = true
    · rw [if_pos second] at ran
      rcases inputs with _ | ⟨k, inputs⟩
      · cases ran
      simp only [Option.bind_some] at ran
      rw [Program.run_access_cons] at ran
      by_cases third : k.alloc = true
      · rw [if_pos third] at ran
        simp only [Option.bind_some] at ran
        rcases Program.run_bind ran with ⟨_, _, _, mid, -, published, last⟩
        have now := Program.exec_modify.mp (Program.Exec.of_run published)
        cases last
        refine .inr ⟨rfl, ?_, i, j, k, inputs, rfl, first, second, third⟩
        rw [now]
        exact List.subset_append_right ..
      · rw [if_neg third] at ran
        exact .inl ⟨unwound ran, k, by simp, by simpa using third⟩
    · rw [if_neg second] at ran
      exact .inl ⟨unwound ran, j, by simp, by simpa using second⟩
  · rw [if_neg first] at ran
    cases ran
    exact .inl ⟨by decide, i, by simp, by simpa using first⟩

end VfNetdev

/-- What holds between two calls. -/
structure VfBetween (priv : VfQueues) (s : VfNetdev) : Prop where
  safe : VfSafe s
  idle : VfIdle priv s
  entries : (∀ slot, s.queue slot = none) ∨ s.queue (.tx 0) ≠ none

namespace VfBetween

variable {priv : VfQueues} {s s' : VfNetdev}

/-- What a call finds: nothing may be freed yet, and nothing more has been lost. -/
theorem known (between : VfBetween priv s) (facts : (VfSlot → Option VfQueue) → Prop) (now : facts s.at_) :
    ∃ k : VfKnown, VfAt (vfSlots priv) k.rest s ∧ k.facts = facts ∧ k.tight = True ∧ k.lost = s.leaked ∧
      k.running = s.running ∧ (k.running = false → k.on = .off) := by
  rcases between.idle with ⟨k, at_, off⟩
  refine ⟨{ k with facts := facts, tight := True, lost := s.leaked }, ?_, rfl, rfl, rfl, at_.running.symm, off⟩
  exact { at_ with
    tight := fun _ => rfl
    facts := now }

theorem allNull_iff : allNull s.at_ ↔ ∀ slot, s.queue slot = none := by
  simp [allNull, VfCtl.at_]

end VfBetween

namespace VfNetdev

variable {priv : VfQueues} {s s' : VfNetdev}

/-- What a run of a call that nothing interferes with comes to. -/
theorem exec_wp {α : Type} {p : Program VfNetdev VfInput α} {post : α → VfNetdev → Prop} {v : VfView} {a : α}
    (triple : vfContract.Triple (VfAt (vfSlots priv) v) p post) (safe : VfSafe s) (at_ : VfAt (vfSlots priv) v s)
    (ran : Program.Exec p s a s') : VfSafe s' ∧ post a s' :=
  Contract.wp_exec ran (fun _ => True.intro) safe (triple s True.intro safe at_)

theorem open_between (few : VfFew (vfSlots priv)) (vectors : priv.numQVectors ≠ 0) (more : 0 < priv.numTxQueues)
    (between : VfBetween priv s) (down : s.running = false) (ran : Program.Exec (devOpen priv) s () s') :
    VfBetween priv s' := by
  rcases between.idle with ⟨k, at_, off⟩
  have still := off (at_.running.symm.trans down)
  rcases exec_wp (devOpen_triple few vectors still) between.safe at_ ran with ⟨safe, up | down⟩
  · refine ⟨safe, ⟨_, up, nofun⟩, .inr fun none => ?_⟩
    rcases up.facts.2.tx 0 more with ⟨q, here, -⟩
    simp [VfCtl.at_, none] at here
  · exact ⟨safe, ⟨_, down, fun _ => still⟩, .inl (VfBetween.allNull_iff.mp down.facts)⟩

/-- An open that finds no queue loses none. -/
theorem open_empty (few : VfFew (vfSlots priv)) (vectors : priv.numQVectors ≠ 0) (between : VfBetween priv s)
    (down : s.running = false) (empty : ∀ slot, s.queue slot = none) (ran : Program.Exec (devOpen priv) s () s') :
    s'.leaked = s.leaked := by
  rcases between.known allNull (VfBetween.allNull_iff.mpr empty) with ⟨k, at_, facts, tight, lost, running, off⟩
  have still := off (running.trans down)
  have kept : k.tight ∧ k.Empty := by
    refine ⟨by rw [tight]; trivial, fun e known => ?_⟩
    rw [facts] at known
    exact known
  rcases exec_wp (devOpen_triple few vectors still) between.safe at_ ran with ⟨-, up | down⟩
  · exact (up.tight kept).trans lost
  · exact (down.tight kept).trans lost

/-- What an open does once its first allocations have failed. -/
theorem open_refused {k : VfKnown} (few : VfFew (vfSlots priv)) (off : k.on = .off) (tight : k.tight)
    (safe : VfSafe s) (at_ : VfAt (vfSlots priv) k.rest s) (ran : Program.Exec (do
      checkRetained
      onicVfRingsClear
      .modify fun s => { s with running := false } : Program VfNetdev VfInput Unit) s () s') : s'.leaked = k.lost := by
  rcases Program.exec_bind.mp ran with ⟨_, a, checked, ran⟩
  rcases Program.exec_bind.mp ran with ⟨_, b, cleared, ran⟩
  have one := exec_wp (checkRetained_triple few) safe at_ checked
  have two := exec_wp (onicVfRingsClear_triple (k := k.freeable) few off fun _ _ => True.intro) one.1 one.2 cleared
  rw [Program.exec_modify.mp ran]
  exact two.2.tight tight

/-- The first three allocations of an open: where one fails, nothing is lost, else what the first entry
    pointed to is. -/
theorem open_first {inputs : List VfInput} (few : VfFew (vfSlots priv)) (vectors : priv.numQVectors ≠ 0)
    (more : 0 < priv.numTxQueues) (between : VfBetween priv s) (down : s.running = false)
    (ran : (devOpen priv).run inputs s = some ((), s')) :
    ((∃ input ∈ (inputs.drop 1).take 3, input.alloc = false) ∧ s'.leaked = s.leaked) ∨
    ((∀ input ∈ (inputs.drop 1).take 3, input.alloc = true) ∧ s.mem (.tx 0) ⊆ s'.leaked) := by
  obtain ⟨n, count⟩ := Nat.exists_eq_succ_of_ne_zero more.ne'
  obtain ⟨rest, whole⟩ := devOpen_first vectors count
  have steps := devOpen_loses priv
  rw [whole] at ran steps
  cases inputs with
  | nil => cases ran
  | cons i inputs =>
    rw [Program.modify, Program.run_access_cons] at ran
    simp only [Option.bind_some] at ran
    rcases Program.run_bind ran with ⟨used, left, err, mid, rfl, first, last⟩
    let now : VfNetdev := { s with running := true, caller := .opening }
    have noted : Program.Exec (.modify fun s => { s with running := true, caller := .opening } : Program VfNetdev VfInput Unit)
        s () now := .step (i := i) rfl (.done () _)
    have alloc := Program.Exec.of_run first
    rcases onicVfAllocTxRing_run first with ⟨failed, input, here, refused⟩ | ⟨ok, lost, j, k, l, used', rfl, all⟩
    · refine .inl ⟨⟨input, ?_, refused⟩, ?_⟩
      · show input ∈ (used ++ left).take 3
        rw [List.take_append]
        exact List.mem_append_left _ here
      · rcases between.known (fun _ => True) True.intro with ⟨k, at_, -, tight, lost, running, off⟩
        have still := off (running.trans down)
        have noting : vfContract.Triple (VfAt (vfSlots priv) k.rest)
            (.modify fun s => { s with running := true, caller := .opening } : Program VfNetdev VfInput Unit)
            fun _ => VfAt (vfSlots priv) (k.calling true .opening).rest :=
          call_triple true .opening k.on (fun s => s.up) (fun _ _ _ => rfl) rfl fun _ may => may
        have one := exec_wp noting between.safe at_ noted
        have here : VfSlot.tx 0 ∈ vfSlots priv := by simpa using more
        have two := exec_wp (onicVfAllocTxRing_triple (k := k.calling true .opening) few.nodup here still) one.1 one.2 alloc
        rw [VfKnown.after_err failed] at two
        rw [if_pos failed] at last
        exact (open_refused (k := k.calling true .opening) few still (tight ▸ True.intro) two.1 two.2 (Program.Exec.of_run last)).trans lost
    · refine .inr ⟨?_, ?_⟩
      · simpa using all
      · have grown := ((steps.rest noted).rest alloc).exec Loses.refl Loses.trans (Program.Exec.of_run last)
        exact fun m mem => grown (lost mem)

theorem open_leaked {inputs : List VfInput} (few : VfFew (vfSlots priv)) (vectors : priv.numQVectors ≠ 0)
    (more : 0 < priv.numTxQueues) (between : VfBetween priv s) (down : s.running = false)
    (ran : (devOpen priv).run inputs s = some ((), s')) : s'.leaked = [] ↔ s.leaked = [] ∧ s.Spared inputs := by
  rcases between.entries with empty | first
  · have same := open_empty few vectors between down empty (.of_run ran)
    have spared : s.Spared inputs := .inl empty
    simp [same, spared]
  · rcases open_first few vectors more between down ran with ⟨refused, same⟩ | ⟨all, lost⟩
    · have spared : s.Spared inputs := .inr refused
      simp [same, spared]
    · obtain ⟨id, here⟩ := Option.ne_none_iff_exists'.mp first
      have mem : s.mem (.tx 0) = (s.obj id).mem := mem_of_queue here
      have some_lost : (s.obj id).id ∈ s'.leaked := lost (mem ▸ VfQueue.id_mem _)
      constructor
      · intro none
        rw [none] at some_lost
        cases some_lost
      · rintro ⟨-, empty | ⟨input, taken, refused⟩⟩
        · rw [empty] at here
          cases here
        · rw [all input taken] at refused
          cases refused

theorem stop_between (few : VfFew (vfSlots priv)) (between : VfBetween priv s) (ran : Program.Exec (devClose priv) s () s') :
    VfBetween priv s' ∧ s'.leaked = s.leaked := by
  rcases between.known (fun _ => True) True.intro with ⟨k, at_, -, tight, lost, -⟩
  have after := exec_wp (devClose_triple few) between.safe at_ ran
  refine ⟨⟨after.1, ⟨_, after.2, fun _ => rfl⟩, ?_⟩, (after.2.tight (tight ▸ True.intro)).trans lost⟩
  rcases Program.exec_bind.mp ran with ⟨_, a, noted, ran⟩
  rcases Program.exec_bind.mp ran with ⟨err, b, stopped, ran⟩
  rw [(Program.exec_done.mp ran).2]
  have noting : vfContract.Triple (VfAt (vfSlots priv) k.rest)
      (.modify fun s => { s with up := false, running := false, caller := .stopping } : Program VfNetdev VfInput Unit)
      fun _ => VfAt (vfSlots priv) { k.calling false .stopping with on := { k.on with up := false } }.rest :=
    call_triple false .stopping { k.on with up := false } (fun _ => false) (fun _ _ _ => rfl) rfl fun _ _ none => none
  have one := exec_wp noting between.safe at_ noted
  by_cases failed : err = 0
  · have two := exec_wp (onicVfStopNetdev_triple few (by rfl)) one.1 one.2 stopped
    rw [failed, VfKnown.after_zero] at two
    exact .inl (VfBetween.allNull_iff.mp two.2.facts)
  · rw [onicVfStopNetdev_retains stopped failed, Program.exec_modify.mp noted]
    exact between.entries

/-- The calls one after the other. -/
theorem calls_between (few : VfFew (vfSlots priv)) (vectors : priv.numQVectors ≠ 0) (more : 0 < priv.numTxQueues)
    (cs : List VfCall) (between : VfBetween priv s) (ran : calls priv cs s = some s') :
    VfBetween priv s' ∧ (s'.leaked = [] ↔ s.leaked = [] ∧ AllSpared priv cs s) := by
  induction cs generalizing s with
  | nil =>
    cases ran
    exact ⟨between, by simp [AllSpared]⟩
  | cons c cs ih =>
    rcases Option.bind_eq_some_iff.mp ran with ⟨mid, first, rest⟩
    have spared : AllSpared priv (c :: cs) s ↔
        (∀ inputs, c = .ndoOpen inputs → s.Spared inputs) ∧ AllSpared priv cs mid := by
      simp [AllSpared, first]
    rw [spared]
    cases c with
    | ndoOpen inputs =>
      rw [call] at first
      split at first
      · cases first
      · rename_i down
        rcases Option.map_eq_some_iff.mp first with ⟨⟨_, _⟩, opened, rfl⟩
        have down : s.running = false := by simpa using down
        rcases ih (open_between few vectors more between down (.of_run opened)) rest with ⟨after, kept⟩
        refine ⟨after, ?_⟩
        rw [kept, open_leaked few vectors more between down opened]
        simp [and_assoc]
    | ndoStop inputs =>
      rw [call] at first
      split at first
      · rcases Option.map_eq_some_iff.mp first with ⟨⟨_, _⟩, stopped, rfl⟩
        rcases stop_between few between (.of_run stopped) with ⟨here, same⟩
        rcases ih here rest with ⟨after, kept⟩
        refine ⟨after, ?_⟩
        rw [kept, same]
        simp
      · cases first

/-- After `onic_vf_remove` each allocation is freed once, or out of reach. -/
theorem remove_balanced (few : VfFew (vfSlots priv)) (between : VfBetween priv s)
    (ran : Program.Exec (onicVfRemove priv) s () s') :
    (s'.freed ++ s'.leaked).Perm (List.range s'.next) ∧ s'.leaked = s.leaked := by
  rcases between.known (fun _ => True) True.intro with ⟨k, at_, -, tight, lost, -, off⟩
  have after := (exec_wp (onicVfRemove_triple few off) between.safe at_ ran).2
  refine ⟨?_, (after.tight (tight ▸ True.intro)).trans lost⟩
  have entries (slot : VfSlot) : s'.at_ slot = none := after.facts slot
  exact (VfCtl.balanced_empty entries).mp after.balanced

end VfNetdev

theorem VfBetween.probed (priv : VfQueues) : VfBetween priv .probed :=
  ⟨VfSafe.probed, VfIdle.probed priv, .inl fun _ => rfl⟩

/-- Opens and stops in turn, and `onic_vf_remove`: each allocation has been freed exactly once and no
    entry has been overwritten that points to a queue, if and only if every open is spared. -/
theorem vf_released_iff {vectors : Nat} {qmax : BitVec 16} {priv : VfQueues}
    (granted : vectors ≤ onicMaxQueues + onicVfNonQVectors) (probe : onicVfProbeQueues vectors qmax = .ok priv)
    {cs : List VfCall} {inputs : List VfInput} {s s' : VfNetdev} (called : VfNetdev.calls priv cs .probed = some s)
    (removed : (VfNetdev.onicVfRemove priv).run inputs s = some ((), s')) :
    (s'.freed.Perm (List.range s'.next) ∧ s'.leaked = []) ↔ VfNetdev.AllSpared priv cs .probed := by
  rcases onicVfProbeQueues_few granted probe with ⟨few, vectors, tx, -⟩
  have more : 0 < priv.numTxQueues := by omega
  rcases VfNetdev.calls_between few vectors more cs (.probed priv) called with ⟨between, kept⟩
  rcases VfNetdev.remove_balanced few between (.of_run removed) with ⟨balanced, same⟩
  have start : VfNetdev.probed.leaked = [] := rfl
  rw [start, ← same] at kept
  constructor
  · rintro ⟨-, none⟩
    exact (kept.mp none).2
  · intro spared
    have none := kept.mpr ⟨rfl, spared⟩
    rw [none, List.append_nil] at balanced
    exact ⟨balanced, none⟩

/-- An open, a stop and the removal, all granted. -/
theorem vf_released_stopped : ∃ s s' : VfNetdev,
    ((s'.freed.Perm (List.range s'.next) ∧ s'.leaked = []) ↔
      VfNetdev.AllSpared oneQueue [.ndoOpen (.replicate 1200 grantedInput), .ndoStop (.replicate 1200 grantedInput)] .probed) ∧
    s.next = 8 ∧ s'.freed.length = 8 := by
  let cs : List VfCall := [.ndoOpen (.replicate 1200 grantedInput), .ndoStop (.replicate 1200 grantedInput)]
  let played := (VfNetdev.calls oneQueue cs .probed).bind fun s =>
    ((VfNetdev.onicVfRemove oneQueue).run (.replicate 1200 grantedInput) s).map fun last => (s, last.2)
  have seen : played.map (fun states => (states.1.next, states.2.freed.length)) = some (8, 8) := by decide +kernel
  rcases Option.map_eq_some_iff.mp seen with ⟨_, all, values⟩
  rcases Option.bind_eq_some_iff.mp all with ⟨s, called, rest⟩
  rcases Option.map_eq_some_iff.mp rest with ⟨⟨_, _⟩, removed, rfl⟩
  simp only [Prod.mk.injEq] at values
  have probe : onicVfProbeQueues 2 1 = .ok oneQueue := rfl
  exact ⟨s, _, vf_released_iff (by decide) probe called removed, values.1, values.2⟩

/-- The CLEAR_QUEUE commands of a stop are rejected, so it keeps the rings; the next open overwrites the
    pointers to them. -/
theorem vf_reopen_loses_queue : onicVfProbeQueues 2 1 = .ok oneQueue ∧ ∃ (cs : List VfCall) (inputs : List VfInput) (s s' : VfNetdev),
    VfNetdev.calls oneQueue cs .probed = some s ∧ (VfNetdev.onicVfRemove oneQueue).run inputs s = some ((), s') ∧
    s'.leaked = [1, 2, 0, 4, 7, 6, 5, 3] ∧ 1 ∉ s'.freed := by
  refine ⟨rfl, ?_⟩
  let granted : List VfInput := .replicate 1200 grantedInput
  let rejected : List VfInput := .replicate 40 { grantedInput with mbox := .rejected }
  let cs : List VfCall := [.ndoOpen granted, .ndoStop rejected, .ndoOpen granted]
  let played := (VfNetdev.calls oneQueue cs .probed).bind fun s =>
    ((VfNetdev.onicVfRemove oneQueue).run granted s).map fun last => (s, last.2)
  have seen : played.map (fun states => (states.2.leaked, decide (1 ∈ states.2.freed))) =
      some ([1, 2, 0, 4, 7, 6, 5, 3], false) := by decide +kernel
  rcases Option.map_eq_some_iff.mp seen with ⟨_, all, values⟩
  rcases Option.bind_eq_some_iff.mp all with ⟨s, called, rest⟩
  rcases Option.map_eq_some_iff.mp rest with ⟨⟨_, _⟩, removed, rfl⟩
  simp only [Prod.mk.injEq, decide_eq_false_iff_not] at values
  exact ⟨cs, granted, s, _, called, removed, values.1, values.2⟩

end OpenNic
