import OpenNic.Rx.PfLink

namespace OpenNic

/-- `onic_rx_poll` from where it has read its first completion. -/
def onicRxPollFrom (t budget : Nat) (cmpl : C2hCmpl) : Program PfRxPoll PfRxInput Nat := do
  let pidx ← .read fun s => qdmaUnpackC2hCmplStatPidx s.q.cmplRing.wb
  let (work, outOfBudget) ← onicRxLoop t pidx (budget - 1) cmpl 0
  if outOfBudget then .done work
  else
    .modify fun s =>
      if s.q.cmplRing.nextToClean = pidx ∨ s.q.cmplRing.nextToClean = 0 then
        s.setQ { s.q with cidx := (s.q.cmplRing.nextToClean, true) }
      else s
    .done work

theorem onicRxPoll_from (t budget : Nat) : onicRxPoll t budget = onicRxReadCmpl >>= onicRxPollFrom t budget := rfl

/-- Where no program runs there is no verdict. -/
abbrev PlainInput (plain : Prop) : Type := { input : PfRxInput // plain → input.xdp.prog = none }

def onPoll (plain : Prop) {α : Type} (p : Program PfRxPoll PfRxInput α) : Program PfRxLink (PlainInput plain) α :=
  (p.comap Subtype.val).lift PfRxLink.poll PfRxLink.setPoll

def onXdp {α : Type} (p : Program XdpRx XdpInput α) : Program PfRxPoll PfRxInput α :=
  (p.comap PfRxInput.xdp).lift PfRxPoll.xdp PfRxPoll.setXdp

section

variable {exact plain : Prop} {α β : Type}

theorem onPoll_bind (p : Program PfRxPoll PfRxInput α) (f : α → Program PfRxPoll PfRxInput β) :
    onPoll plain (p >>= f) = onPoll plain p >>= fun a => onPoll plain (f a) := by
  rw [onPoll, Program.comap_bind, Program.lift_bind]
  rfl

theorem onXdp_bind (p : Program XdpRx XdpInput α) (f : α → Program XdpRx XdpInput β) :
    onXdp (p >>= f) = onXdp p >>= fun a => onXdp (f a) := by
  rw [onXdp, Program.comap_bind, Program.lift_bind]
  rfl

theorem pfRx_access {act : PfRxInput → PfRxPoll → Option (α × PfRxPoll)} {pre : PfRxLink → Prop} {post : α → PfRxLink → Prop}
    (stable : (pfRxContract exact plain).Stable pre) (stable' : ∀ a, (pfRxContract exact plain).Stable (post a))
    (h : ∀ s input a poll, PfRxStream exact plain s.ends → pre s → (plain → input.xdp.prog = none) →
      act input s.poll = some (a, poll) → PfRxStream exact plain (s.setPoll poll).ends ∧ post a (s.setPoll poll)) :
    (pfRxContract exact plain).Triple pre (onPoll plain (.access act)) post := by
  apply Contract.Triple.access stable stable'
  intro s input a s' _ stream holds taken _
  obtain ⟨⟨b, poll⟩, first, same⟩ := Option.map_eq_some_iff.mp taken
  cases same
  obtain ⟨stream', after⟩ := h s input.1 _ poll stream holds input.2 first
  exact ⟨stream', True.intro, after⟩

theorem pfRx_read {f : PfRxPoll → α} {pre : PfRxLink → Prop} {post : α → PfRxLink → Prop}
    (stable : (pfRxContract exact plain).Stable pre) (stable' : ∀ a, (pfRxContract exact plain).Stable (post a))
    (h : ∀ s, PfRxStream exact plain s.ends → pre s → post (f s.poll) s) :
    (pfRxContract exact plain).Triple pre (onPoll plain (.read f)) post := by
  apply pfRx_access stable stable'
  intro s _ _ _ stream holds _ taken
  cases taken
  exact ⟨stream, h s stream holds⟩

theorem pfRx_modify {f : PfRxPoll → PfRxPoll} {pre post : PfRxLink → Prop} (stable : (pfRxContract exact plain).Stable pre)
    (stable' : (pfRxContract exact plain).Stable post)
    (h : ∀ s, PfRxStream exact plain s.ends → pre s →
      PfRxStream exact plain (s.setPoll (f s.poll)).ends ∧ post (s.setPoll (f s.poll))) :
    (pfRxContract exact plain).Triple pre (onPoll plain (.modify f)) fun _ => post := by
  apply pfRx_access stable fun _ => stable'
  intro s _ _ _ stream holds _ taken
  cases taken
  exact h s stream holds

theorem pfRx_done {a : α} {pre : PfRxLink → Prop} {post : α → PfRxLink → Prop} (stable : (pfRxContract exact plain).Stable pre)
    (h : ∀ s, pre s → post a s) : (pfRxContract exact plain).Triple pre (onPoll plain (.done a)) post :=
  .done stable fun s _ => h s

end

/-- A packet for the stack is one more there. -/
def SameStack (s s' : XdpRx) : Prop := s'.stack = s.stack

section

variable {t : Nat} {buff : XdpBuff}

theorem look_sameStack {α : Type} (f : XdpInput → α) :
    (Program.access fun input s => some (f input, s) : Program XdpRx XdpInput α).Steps SameStack := by
  apply Program.Steps.access
  intro _ s _ s' taken
  cases taken
  rfl

theorem onicXdpXmitBackBuff_sameStack : (onicXdpXmitBackBuff t buff).Steps SameStack := by
  apply (look_sameStack _).bind
  intro converted
  cases converted with
  | none => exact Program.Steps.bind (.modify fun _ => rfl) fun _ => .done _
  | some frame =>
    dsimp only
    apply (Program.Steps.read (R := SameStack) (fun _ => rfl) _).bind
    intro there
    split
    · exact Program.Steps.bind (.modify fun _ => rfl) fun _ => .done _
    · apply Program.Steps.bind
      · exact (Program.Steps.trivial _).lift fun _ _ _ => rfl
      · exact fun _ => Program.Steps.bind (.modify fun _ => rfl) fun _ => .done _

theorem onicXdpOutFailure_sameStack : (onicXdpOutFailure buff).Steps SameStack :=
  Program.Steps.bind (.modify fun _ => rfl) fun _ => .done _

/-- A verdict of a program gives nothing to the stack by itself. -/
theorem verdict_sameStack (act : Word) :
    (if act = xdpPass then do
      .modify fun s => { s with xdpPass := s.xdpPass + 1 }
      .done (- onicXdpPass)
    else if act = xdpTx then do
      let result ← onicXdpXmitBackBuff t buff
      if result = onicXdpConsumed then onicXdpOutFailure buff
      else .done (- result)
    else if act = xdpRedirect then do
      let err ← .access fun input s => some (input.redirect, if input.redirect = 0 then
        { s with redirected := s.redirected ++ [buff.page] } else s)
      if err ≠ 0 then onicXdpOutFailure buff
      else
        .modify fun s => { s with xdpRedirect := s.xdpRedirect + 1 }
        .done (- onicXdpRedir)
    else onicXdpOutFailure buff : Program XdpRx XdpInput Int).Steps SameStack := by
  split
  · exact Program.Steps.bind (.modify fun _ => rfl) fun _ => .done _
  · split
    · apply onicXdpXmitBackBuff_sameStack.bind
      intro result
      split
      · exact onicXdpOutFailure_sameStack
      · exact .done _
    · split
      · apply Program.Steps.bind
        · apply Program.Steps.access
          intro input s _ s' taken
          obtain ⟨-, rfl⟩ := Prod.mk.inj (Option.some.inj taken)
          unfold SameStack
          split <;> rfl
        · intro err
          split
          · exact onicXdpOutFailure_sameStack
          · exact Program.Steps.bind (.modify fun _ => rfl) fun _ => .done _
      · exact onicXdpOutFailure_sameStack

end

section

variable {exact plain : Prop} {α : Type} {A : VfRxLink → Prop} {L : Nat}

/-- What does not look at the queue, and how many packets the stack has. -/
def Stacked (A : VfRxLink → Prop) (L : Nat) (s : PfRxLink) : Prop := A s.ends ∧ s.poll.xdp.stack.length = L

/-- An assertion about the two ends that others keep. -/
def EndsStable (A : VfRxLink → Prop) : Prop := ∀ l l', HwOnly l l' → l.hw.fetched <+: l'.hw.fetched → A l → A l'

theorem EndsStable.stable (ends : EndsStable A) : (pfRxContract exact plain).Stable fun s => A s.ends :=
  fun _ _ holds between _ _ => ends _ _ between.ends between.fetched holds

theorem EndsStable.stacked (ends : EndsStable A) : (pfRxContract exact plain).Stable (Stacked A L) := by
  intro s s' holds between _ _
  refine ⟨ends _ _ between.ends between.fetched holds.1, ?_⟩
  rw [between.stack]
  exact holds.2

theorem xdp_steps (ends : EndsStable A) {p : Program XdpRx XdpInput α} (steps : p.Steps SameStack) :
    (pfRxContract exact plain).Triple (Stacked A L) (onPoll plain (onXdp p)) fun _ => Stacked A L := by
  have lifted : ((onXdp p).comap (Subtype.val : PlainInput plain → PfRxInput)).Steps fun poll poll' =>
      poll'.q = poll.q ∧ poll'.xdp.stack = poll.xdp.stack := by
    apply Program.Steps.comap
    exact (steps.comap _).lift fun _ _ same => ⟨rfl, same⟩
  apply Contract.Triple.lift_steps lifted ends.stacked
  rintro poll s - stream holds ⟨q, stack⟩ -
  have same : (s.setPoll poll).ends = s.ends := congrArg (VfRxLink.mk · s.hw) q
  have more : (s.setPoll poll).poll.xdp.stack.length = L := (congrArg List.length stack).trans holds.2
  refine ⟨?_, True.intro, ?_, more⟩
  · show PfRxStream exact plain (s.setPoll poll).ends
    rw [same]
    exact stream
  · rw [same]
    exact holds.1

/-- Without a program the packet is one for the stack. -/
theorem onicRunXdp_triple (ends : EndsStable A) (t : Nat) (buff : XdpBuff) :
    (pfRxContract exact plain).Triple (Stacked A L) (onPoll plain (onXdp (onicRunXdp t buff)))
      fun res s => (plain → res = - onicXdpPass) ∧ Stacked A L s := by
  rw [onicRunXdp, onXdp_bind, onPoll_bind]
  apply Contract.Triple.bind (M := fun prog s => (plain → prog = none) ∧ Stacked A L s)
  · apply pfRx_access ends.stacked fun _ => ends.stacked.pure_and
    intro s input a poll stream holds calm taken
    cases taken
    exact ⟨stream, calm, holds⟩
  intro prog
  cases prog with
  | none => exact pfRx_done ends.stacked.pure_and fun s holds => ⟨fun _ => rfl, holds.2⟩
  | some act =>
    apply Contract.Triple.pure_pre
    intro calm
    apply (xdp_steps ends (verdict_sameStack act)).conseq fun _ _ holds => holds
    exact fun _ s _ holds => ⟨fun h => absurd (calm h) (Option.some_ne_none act), holds⟩

/-- The packet reaches the stack, and then the poll goes on; or it does not, and without a program the poll then
    breaks off. -/
def Packeted (plain : Prop) (A : VfRxLink → Prop) (L : Nat) (goesOn : Bool) (s : PfRxLink) : Prop :=
  (goesOn = true ∧ Stacked A (L + 1) s) ∨ ((goesOn = true → ¬ plain) ∧ Stacked A L s)

theorem EndsStable.packeted (ends : EndsStable A) (goesOn : Bool) :
    (pfRxContract exact plain).Stable (Packeted plain A L goesOn) := by
  intro s s' holds between ok inv
  rcases holds with ⟨goes, more⟩ | ⟨busy, same⟩
  · exact .inl ⟨goes, ends.stacked s s' more between ok inv⟩
  · exact .inr ⟨busy, ends.stacked s s' same between ok inv⟩

theorem onicRxSkb_triple (ends : EndsStable A) (buff : XdpBuff) :
    (pfRxContract exact plain).Triple (Stacked A L) (onPoll plain (onXdp (onicRxSkb buff))) (Packeted plain A L) := by
  rw [onicRxSkb, onXdp_bind, onPoll_bind]
  apply Contract.Triple.bind (xdp_steps ends (look_sameStack _))
  intro built
  split
  · rw [onXdp_bind, onPoll_bind]
    apply Contract.Triple.bind (M := fun rv s => 0 ≤ rv ∧ Stacked A (L + 1) s)
    · apply pfRx_access ends.stacked fun _ => ends.stacked.pure_and
      intro s input rv poll stream holds _ taken
      cases taken
      refine ⟨stream, Int.natCast_nonneg _, holds.1, ?_⟩
      show (s.poll.xdp.stack ++ [buff.page]).length = L + 1
      rw [List.length_append, holds.2]
      rfl
    · intro rv
      apply Contract.Triple.pure_pre
      intro fine
      rw [if_neg (Int.not_lt.mpr fine)]
      exact pfRx_done ends.stacked fun s holds => .inl ⟨rfl, holds⟩
  · exact pfRx_done ends.stacked fun s holds => .inr ⟨fun goes => absurd goes Bool.false_ne_true, holds⟩

theorem onicRxPacket_triple (ends : EndsStable A) (t : Nat) (buff : XdpBuff) :
    (pfRxContract exact plain).Triple (Stacked A L) (onPoll plain (onXdp (onicRxPacket t buff))) (Packeted plain A L) := by
  rw [onicRxPacket, onXdp_bind, onPoll_bind]
  apply Contract.Triple.bind (onicRunXdp_triple ends t buff)
  intro res
  apply Contract.Triple.pure_pre
  intro passes
  have skips (busy : ¬ plain) : (pfRxContract exact plain).Triple (Stacked A L) (onPoll plain (onXdp (.done true)))
      (Packeted plain A L) := pfRx_done ends.stacked fun s holds => .inr ⟨fun _ => busy, holds⟩
  by_cases calm : plain
  · have is : res = -1 := passes calm
    rw [is]
    exact onicRxSkb_triple ends buff
  · split
    · dsimp only
      split
      · rw [onXdp_bind, onPoll_bind]
        apply Contract.Triple.bind (M := fun _ => Stacked A L)
        · exact xdp_steps ends (.modify fun _ => rfl)
        intro _
        split
        · exact onicRxSkb_triple ends buff
        · exact skips calm
      · split
        · exact onicRxSkb_triple ends buff
        · exact skips calm
    · exact skips calm

end

/-- Of `n` completions found in the status `d` have been received. -/
structure Between (exact plain : Prop) (n d : Nat) (l : VfRxLink) : Prop extends Stage exact plain d d d l where
  le : d ≤ n
  seen : n ≤ l.hw.published

/-- The next completion is at hand, and its length where it was written when it was read. -/
structure Todo (exact plain : Prop) (n d len : Nat) (l : VfRxLink) : Prop extends Between exact plain n d l where
  length : exact → d < n → l.hw.lens[d]? = some len

/-- Its page is known, too. -/
structure AtPage (exact plain : Prop) (n d len : Nat) (pg : RxPage) (l : VfRxLink) : Prop extends Todo exact plain n d len l where
  more : d < n
  page : (l.hw.fetched.map Prod.fst)[d]? = some (some pg)

/-- The packet has been dealt with, and its page is not the driver's any more. -/
structure Given (exact plain : Prop) (n d : Nat) (l : VfRxLink) : Prop extends Stage exact plain d d (d + 1) l where
  more : d < n
  seen : n ≤ l.hw.published

/-- A new page lies in its slot. -/
structure Refilled (exact plain : Prop) (n d : Nat) (l : VfRxLink) : Prop extends Stage exact plain (d + 1) d (d + 1) l where
  le : d + 1 ≤ n
  seen : n ≤ l.hw.published

section

variable {exact plain : Prop} {n d len : Nat} {pg : RxPage}

theorem getElem?_later {α : Type} {a b : List α} {x : α} (longer : a <+: b) (i : Nat) (is : a[i]? = some x) : b[i]? = some x := by
  obtain ⟨c, rfl⟩ := longer
  obtain ⟨less, -⟩ := List.getElem?_eq_some_iff.mp is
  rw [List.getElem?_append_left less]
  exact is

theorem stable_stage (clean k : Nat) : EndsStable (Stage exact plain d clean k) :=
  fun _ _ between fetched stage => stage.later between fetched

theorem stable_between : EndsStable (Between exact plain n d) := fun _ _ between fetched h =>
  ⟨h.toStage.later between fetched, h.le, h.seen.trans between.published⟩

theorem stable_todo : EndsStable (Todo exact plain n d len) := fun l l' between fetched h =>
  ⟨stable_between l l' between fetched h.toBetween, fun precise more => getElem?_later between.lens d (h.length precise more)⟩

theorem stable_atPage : EndsStable (AtPage exact plain n d len pg) := fun l l' between fetched h =>
  ⟨stable_todo l l' between fetched h.toTodo, h.more, getElem?_later (fetched.map Prod.fst) d h.page⟩

theorem stable_given : EndsStable (Given exact plain n d) := fun _ _ between fetched h =>
  ⟨h.toStage.later between fetched, h.more, h.seen.trans between.published⟩

theorem stable_refilled : EndsStable (Refilled exact plain n d) := fun _ _ between fetched h =>
  ⟨h.toStage.later between fetched, h.le, h.seen.trans between.published⟩

theorem Stage.sync {l : VfRxLink} {clean k : Nat} (stage : Stage exact plain d clean k l) (stream : PfRxStream exact plain l) :
    C2hSync d l := by
  obtain ⟨d', taken, sync⟩ := stream.sync
  have same : d' = d := Nat.add_right_cancel (taken.symm.trans stage.taken)
  rwa [same] at sync

theorem readPage_triple :
    (pfRxContract exact plain).Triple (fun s => d < n ∧ Todo exact plain n d len s.ends)
      (onPoll plain (.access fun _ s => (s.q.buffer (d % vfRxSlots)).pg.map fun pg => (pg, s)))
      fun pg s => AtPage exact plain n d len pg s.ends := by
  apply pfRx_access stable_todo.stable.pure_and fun _ => stable_atPage.stable
  rintro s - pg poll stream ⟨more, todo⟩ - taken
  obtain ⟨pg', here, same⟩ := Option.map_eq_some_iff.mp taken
  cases same
  have sync := todo.sync stream
  have less : d < s.hw.fetched.length := more.trans_le (todo.seen.trans (sync.published_le.trans sync.lens_le))
  have first : s.hw.fetched[d]? = some ((s.poll.q.buffer (d % vfRxSlots)).pg, s.poll.q.descRing.desc (d % vfRxSlots)) :=
    (List.getElem?_eq_getElem less).trans (congrArg some (sync.waiting d less (Nat.le_refl d)))
  refine ⟨stream, todo, more, ?_⟩
  show (s.hw.fetched.map Prod.fst)[d]? = some (some pg)
  rw [List.getElem?_map, first]
  exact congrArg some here

/-- What the note leaves behind: the poll goes on, or breaks off and comes back to the packet. -/
def Noted (exact plain : Prop) (n d : Nat) (goesOn : Bool) (s : PfRxLink) : Prop :=
  if goesOn then Given exact plain n d s.ends else Stage exact plain d d d s.ends

theorem noted_stable (goesOn : Bool) : (pfRxContract exact plain).Stable (Noted exact plain n d goesOn) := by
  cases goesOn with
  | true => exact stable_given.stable
  | false => exact (stable_stage d d).stable

theorem note_triple (slot before : Nat) (goesOn : Bool) :
    (pfRxContract exact plain).Triple (Packeted plain (AtPage exact plain n d len pg) before goesOn)
      (onPoll plain (.modify (PfRxPoll.note slot pg len before))) fun _ => Noted exact plain n d goesOn := by
  apply pfRx_modify (stable_atPage.packeted goesOn) (noted_stable goesOn)
  intro s stream packeted
  rcases packeted with ⟨rfl, at_, grown⟩ | ⟨busy, at_, same⟩
  · have more : before < s.poll.xdp.stack.length := by omega
    have told := at_.told.give slot at_.page fun precise => at_.length precise at_.more
    unfold PfRxPoll.note
    rw [if_pos more]
    refine ⟨⟨⟨d, at_.taken, (at_.sync stream).ring rfl rfl rfl rfl⟩, _, told⟩, ?_⟩
    exact ⟨⟨at_.taken, at_.descClean, at_.cmplClean, told⟩, at_.more, at_.seen⟩
  · have still : ¬ before < s.poll.xdp.stack.length := by omega
    unfold PfRxPoll.note
    rw [if_neg still]
    refine ⟨stream, ?_⟩
    cases goesOn with
    | true => exact ⟨⟨at_.taken, at_.descClean, at_.cmplClean, at_.told.skip (busy rfl)⟩, at_.more, at_.seen⟩
    | false => exact at_.toStage

theorem refill_triple :
    (pfRxContract exact plain).Triple (fun s => Given exact plain n d s.ends)
      (onPoll plain (.access fun (input : PfRxInput) s =>
        input.page.map fun dma => ((), s.setQ (s.q.onicRxPageRefill ⟨s.q.taken, dma⟩))))
      fun _ s => Refilled exact plain n d s.ends := by
  apply pfRx_access stable_given.stable fun _ => stable_refilled.stable
  intro s input _ poll stream given _ taken
  obtain ⟨dma, -, same⟩ := Option.map_eq_some_iff.mp taken
  cases same
  have more : s.poll.q.taken + 1 = d + 1 + vfRxSlots := by
    have before : s.poll.q.taken = d + vfRxSlots := given.taken
    omega
  have told : Told exact plain (d + 1) ⟨s.poll.q.onicRxPageRefill ⟨s.poll.q.taken, dma⟩, s.hw⟩ :=
    given.told.later rfl List.prefix_rfl List.prefix_rfl
  have sync := (given.sync stream).refill given.descClean (given.more.trans_le given.seen) ⟨s.poll.q.taken, dma⟩
  exact ⟨⟨⟨d + 1, more, sync⟩, _, told⟩, ⟨more, given.descClean, given.cmplClean, told⟩, given.more, given.seen⟩

theorem onicRxAdvance_given (q : RxQueue) (cmpl : C2hCmpl) : (q.onicRxAdvance cmpl).given = q.given := by
  simp only [RxQueue.onicRxAdvance]
  split <;> split <;> rfl

theorem advance_triple (cmpl : C2hCmpl) :
    (pfRxContract exact plain).Triple (fun s => Refilled exact plain n d s.ends)
      (onPoll plain (.modify fun s => s.setQ (s.q.onicRxAdvance cmpl)))
      fun _ s => Between exact plain n (d + 1) s.ends := by
  apply pfRx_modify stable_refilled.stable stable_between.stable
  intro s stream refilled
  obtain ⟨sync, descClean, cmplClean⟩ := (refilled.sync stream).advance refilled.descClean refilled.cmplClean cmpl
  have taken : (s.poll.q.onicRxAdvance cmpl).taken = d + 1 + vfRxSlots :=
    (onicRxAdvance_slots s.poll.q cmpl).2.2.trans refilled.taken
  have told : Told exact plain (d + 1) ⟨s.poll.q.onicRxAdvance cmpl, s.hw⟩ :=
    refilled.told.later (onicRxAdvance_given s.poll.q cmpl) List.prefix_rfl List.prefix_rfl
  exact ⟨⟨⟨d + 1, taken, sync⟩, _, told⟩, ⟨taken, descClean, cmplClean, told⟩, refilled.le, refilled.seen⟩

theorem onicRxRound_triple (t : Nat) (cmpl : C2hCmpl) :
    (pfRxContract exact plain).Triple (fun s => d < n ∧ Todo exact plain n d cmpl.pktLen s.ends) (onPoll plain (onicRxRound t cmpl))
      fun goesOn s => if goesOn then Between exact plain n (d + 1) s.ends else Stage exact plain d d d s.ends := by
  have todo : (pfRxContract exact plain).Stable fun s => Todo exact plain n d cmpl.pktLen s.ends := stable_todo.stable
  rw [onicRxRound, onPoll_bind]
  apply Contract.Triple.bind (M := fun slot s => slot = d % vfRxSlots ∧ d < n ∧ Todo exact plain n d cmpl.pktLen s.ends)
  · apply pfRx_read todo.pure_and fun _ => todo.pure_and.pure_and
    exact fun s _ holds => ⟨holds.2.descClean, holds⟩
  intro slot
  apply Contract.Triple.pure_pre
  rintro rfl
  rw [onPoll_bind]
  apply Contract.Triple.bind readPage_triple
  intro pg
  rw [onPoll_bind]
  apply Contract.Triple.bind (M := fun before s => Stacked (AtPage exact plain n d cmpl.pktLen pg) before s)
  · apply pfRx_read stable_atPage.stable fun _ => stable_atPage.stacked
    exact fun s _ at_ => ⟨at_, rfl⟩
  intro before
  rw [onPoll_bind]
  apply Contract.Triple.bind (onicRxPacket_triple stable_atPage t ⟨pg.id, pg.dma⟩)
  intro goesOn
  rw [onPoll_bind]
  apply Contract.Triple.bind (note_triple (d % vfRxSlots) before goesOn)
  intro _
  cases goesOn with
  | true =>
    rw [if_pos rfl, onPoll_bind]
    apply Contract.Triple.bind refill_triple
    intro _
    rw [onPoll_bind]
    apply Contract.Triple.bind (advance_triple cmpl)
    exact fun _ => pfRx_done stable_between.stable fun _ between => between
  | false =>
    rw [if_neg Bool.false_ne_true]
    exact pfRx_done (stable_stage d d).stable fun _ stage => stage

/-- The first completion of a poll is at hand, and its length where it was written when it was read. -/
structure AtHand (exact plain : Prop) (d len : Nat) (l : VfRxLink) : Prop extends Stage exact plain d d d l where
  length : exact → l.hw.lens[d]? = some len

theorem stable_atHand : EndsStable (AtHand exact plain d len) := fun _ _ between fetched h =>
  ⟨h.toStage.later between fetched, fun precise => getElem?_later between.lens d (h.length precise)⟩

/-- The completion that is read is the next one where that has been written. -/
theorem onicRxReadCmpl_triple {A : VfRxLink → Prop} {written : Prop} (ends : EndsStable A)
    (stage : ∀ l, A l → Stage exact plain d d d l)
    (there : ∀ l, PfRxStream exact plain l → A l → written → d < l.hw.lens.length) :
    (pfRxContract exact plain).Triple (fun s => A s.ends) (onPoll plain onicRxReadCmpl)
      fun cmpl s => A s.ends ∧ (written → s.hw.lens[d]? = some cmpl.pktLen) := by
  apply pfRx_read ends.stable
  · intro cmpl s s' holds between ok inv
    exact ⟨ends.stable s s' holds.1 between ok inv, fun w => getElem?_later between.ends.lens d (holds.2 w)⟩
  · intro s stream holds
    refine ⟨holds, fun w => ?_⟩
    have sync := (stage s.ends holds).sync stream
    have clean : s.poll.q.cmplRing.nextToClean = d % vfRxSlots := (stage s.ends holds).cmplClean
    have less : d < s.hw.lens.length := there s.ends stream holds w
    rw [clean, List.getElem?_eq_getElem less]
    exact congrArg some (sync.entries d less (Nat.le_refl d)).symm

theorem readCleanEnd_triple :
    (pfRxContract exact plain).Triple (fun s => Todo exact plain n d len s.ends)
      (onPoll plain (.read fun s => s.q.cmplRing.nextToClean))
      fun clean s => (clean ≠ n % vfRxSlots → d < n) ∧ Todo exact plain n d len s.ends := by
  apply pfRx_read stable_todo.stable fun _ => stable_todo.stable.pure_and
  intro s _ todo
  refine ⟨fun apart => Nat.lt_of_le_of_ne todo.le fun same => apart ?_, todo⟩
  rw [← same]
  exact todo.cmplClean

/-- Between two polls. -/
def PfRxSettled (exact plain : Prop) (s : PfRxLink) : Prop := ∃ d, Stage exact plain d d d s.ends

theorem pfRxSettled_stable : (pfRxContract exact plain).Stable (PfRxSettled exact plain) := by
  rintro s s' ⟨d, stage⟩ between _ _
  exact ⟨d, stage.later between.ends between.fetched⟩

/-- The induction is on the budget left. -/
theorem onicRxLoop_triple (t left work : Nat) (cmpl : C2hCmpl) :
    (pfRxContract exact plain).Triple (fun s => Todo exact plain n d cmpl.pktLen s.ends)
      (onPoll plain (onicRxLoop t (n % vfRxSlots) left cmpl work)) fun _ => PfRxSettled exact plain := by
  have stop (d : Nat) (cmpl : C2hCmpl) (result : Nat × Bool) :
      (pfRxContract exact plain).Triple (fun s => Todo exact plain n d cmpl.pktLen s.ends)
        (onPoll plain (.done result)) fun _ => PfRxSettled exact plain :=
    pfRx_done stable_todo.stable fun s todo => ⟨d, todo.toStage⟩
  have brokenOff (d : Nat) (result : Nat × Bool) : (pfRxContract exact plain).Triple (fun s => Stage exact plain d d d s.ends)
      (onPoll plain (.done result)) fun _ => PfRxSettled exact plain :=
    pfRx_done (stable_stage d d).stable fun s stage => ⟨d, stage⟩
  induction left generalizing d cmpl work with
  | zero =>
    rw [onicRxLoop, onPoll_bind]
    apply Contract.Triple.bind readCleanEnd_triple
    intro clean
    apply Contract.Triple.pure_pre
    intro more
    split
    · exact stop d cmpl _
    · rename_i apart
      rw [onPoll_bind]
      apply Contract.Triple.bind ((onicRxRound_triple t cmpl).from_pre _ fun s _ todo => ⟨more apart, todo⟩)
      intro goesOn
      cases goesOn with
      | true => exact pfRx_done stable_between.stable fun s between => ⟨d + 1, between.toStage⟩
      | false => exact brokenOff d _
  | succ left ih =>
    rw [onicRxLoop, onPoll_bind]
    apply Contract.Triple.bind readCleanEnd_triple
    intro clean
    apply Contract.Triple.pure_pre
    intro more
    split
    · exact stop d cmpl _
    · rename_i apart
      rw [onPoll_bind]
      apply Contract.Triple.bind ((onicRxRound_triple t cmpl).from_pre _ fun s _ todo => ⟨more apart, todo⟩)
      intro goesOn
      cases goesOn with
      | true =>
        rw [if_pos rfl, onPoll_bind]
        apply Contract.Triple.bind (onicRxReadCmpl_triple stable_between (fun _ h => h.toStage)
          fun l stream h (less : d + 1 < n) => less.trans_le (h.seen.trans (h.sync stream).published_le))
        intro cmpl'
        apply (ih (work + 1) cmpl').from_pre
        exact fun s _ h => ⟨h.1, fun _ => h.2⟩
      | false => exact brokenOff d _

theorem readStatusWord_triple :
    (pfRxContract exact plain).Triple (fun s => AtHand exact plain d len s.ends)
      (onPoll plain (.read fun s => qdmaUnpackC2hCmplStatPidx s.q.cmplRing.wb))
      fun pidx s => ∃ n, pidx = n % vfRxSlots ∧ Todo exact plain n d len s.ends := by
  apply pfRx_read stable_atHand.stable
  · rintro pidx s s' ⟨n, is, todo⟩ between ok inv
    exact ⟨n, is, stable_todo.stable s s' todo between ok inv⟩
  · intro s stream hand
    have sync := hand.sync stream
    exact ⟨s.hw.published, sync.status, ⟨hand.toStage, sync.done_le, Nat.le_refl _⟩, fun precise _ => hand.length precise⟩

theorem onicRxPollFrom_triple (t budget : Nat) (cmpl : C2hCmpl) :
    (pfRxContract exact plain).Triple (fun s => AtHand exact plain d cmpl.pktLen s.ends) (onPoll plain (onicRxPollFrom t budget cmpl))
      fun _ => PfRxSettled exact plain := by
  rw [onicRxPollFrom, onPoll_bind]
  apply Contract.Triple.bind readStatusWord_triple
  intro pidx
  apply Contract.Triple.exists_pre
  intro n
  apply Contract.Triple.pure_pre
  rintro rfl
  rw [onPoll_bind]
  apply Contract.Triple.bind (onicRxLoop_triple t (budget - 1) 0 cmpl)
  rintro ⟨work, outOfBudget⟩
  dsimp only
  split
  · exact pfRx_done pfRxSettled_stable fun _ holds => holds
  · rw [onPoll_bind]
    apply Contract.Triple.bind (M := fun _ => PfRxSettled exact plain)
    · apply pfRx_modify pfRxSettled_stable pfRxSettled_stable
      rintro s stream ⟨d, stage⟩
      split
      · have told : Told exact plain d ⟨{ s.poll.q with cidx := (s.poll.q.cmplRing.nextToClean, true) }, s.hw⟩ :=
          stage.told.later rfl List.prefix_rfl List.prefix_rfl
        exact ⟨⟨⟨d, stage.taken, (stage.sync stream).ring rfl rfl rfl rfl⟩, d, told⟩,
          d, stage.taken, stage.descClean, stage.cmplClean, told⟩
      · exact ⟨stream, d, stage⟩
    · exact fun _ => pfRx_done pfRxSettled_stable fun _ holds => holds

theorem onicRxPoll_triple (t budget : Nat) :
    (pfRxContract exact plain).Triple
      (fun s => ∃ d, Stage exact plain d d d s.ends ∧ (exact → d < s.hw.lens.length))
      (onPoll plain (onicRxPoll t budget)) fun _ => PfRxSettled exact plain := by
  apply Contract.Triple.exists_pre
  intro d
  have ready : EndsStable fun l => Stage exact plain d d d l ∧ (exact → d < l.hw.lens.length) :=
    fun l l' between fetched h => ⟨h.1.later between fetched, fun precise => (h.2 precise).trans_le between.lens.length_le⟩
  rw [onicRxPoll_from, onPoll_bind]
  apply Contract.Triple.bind (onicRxReadCmpl_triple ready (fun _ h => h.1) fun _ _ h precise => h.2 precise)
  intro cmpl
  apply (onicRxPollFrom_triple t budget cmpl).from_pre
  exact fun s _ h => ⟨h.1.1, h.2⟩

end

def SameGiven (q q' : RxQueue) : Prop := q'.given = q.given

/-- Setting a queue up gives nothing to the stack. -/
theorem onicInitRxQueueRings_given : onicInitRxQueueRings.Steps SameGiven := by
  have page (i : Nat) : (onicInitRxPage i).Steps SameGiven := by
    apply Program.Steps.bind
    · apply Program.Steps.access
      intro _ q _ q' taken
      cases taken
      rfl
    · intro page
      cases page with
      | none => exact .done _
      | some dma => exact Program.Steps.bind (.modify fun _ => rfl) fun _ => .done _
  have desc (i : Nat) : (onicInitRxDesc i).Steps SameGiven := by
    apply Program.Steps.modify
    intro q
    unfold SameGiven
    split <;> rfl
  unfold onicInitRxQueueRings
  apply Program.Steps.bind
  · exact .modify fun _ => rfl
  intro _
  apply (Program.Steps.untilErr page 0 _).bind
  intro rv
  split
  · exact .done _
  · apply (Program.Steps.fold (fun i _ => desc i) 0 _ ()).bind
    intro _
    apply Program.Steps.bind
    · exact .modify fun _ => rfl
    intro _
    apply Program.Steps.bind
    · exact .modify fun _ => rfl
    exact fun _ => .done _

theorem onicInitRxQueueRings_exec_given {q : RxQueue} (ran : Program.Exec onicInitRxQueueRings .kzalloc 0 q) : q.given = [] := by
  have kept : SameGiven .kzalloc q := by
    apply onicInitRxQueueRings_given.exec _ _ ran
    · exact fun _ => rfl
    · intro a b c first second
      unfold SameGiven at *
      rw [second, first]
  exact kept

/-- A queue that `onic_init_rx_queue` has set up, before the hardware has done anything. -/
theorem PfRxStream.start {exact plain : Prop} {q : RxQueue} (ran : Program.Exec onicInitRxQueueRings .kzalloc 0 q) :
    PfRxStream exact plain ⟨q, .start⟩ ∧ Stage exact plain 0 0 0 ⟨q, .start⟩ := by
  have given : q.given = [] := onicInitRxQueueRings_exec_given ran
  obtain ⟨filled, described, rfl⟩ := onicInitRxQueueRings_exec ran
  obtain ⟨desc, ring⟩ := described.descRing
  have descRing : filled.withHead.descRing = ⟨onicRxRingCount, desc, onicRxDescStep, 0, 0⟩ := by
    rw [RxQueue.withHead, RxQueue.setRxHead, ring]
  have told : Told exact plain 0 ⟨filled.withHead, .start⟩ := by
    constructor
    all_goals
      dsimp only
      rw [given]
    · exact List.nil_sublist _
    · exact fun _ => rfl
    · exact fun _ => List.nil_sublist _
  have taken : filled.withHead.taken = 0 + vfRxSlots := described.taken
  have sync : C2hSync 0 ⟨filled.withHead, .start⟩ := {
    descCount := by rw [descRing]
    cmplCount := rfl
    credit := ⟨onicRxDescStep, by rw [descRing]; rfl, rfl, Nat.zero_le _, by decide⟩
    hwDesc := rfl
    hwCmpl := rfl
    done_le := Nat.le_refl _
    published_le := Nat.le_refl _
    lens_le := Nat.le_refl _
    status := by
      show qdmaUnpackC2hCmplStatPidx 0 = 0
      decide
    slots := by
      intro i small
      obtain ⟨dma, slot⟩ := described.slots i small
      refine ⟨⟨i, dma⟩, slot, ?_⟩
      have word := described.descs i small ⟨i, dma⟩ (by rw [slot])
      rw [ring] at word
      rw [descRing]
      exact word
    entries := fun _ h => absurd h (Nat.not_lt_zero _)
    waiting := fun _ h => absurd h (Nat.not_lt_zero _)
    filled := by
      intro f mem
      cases mem }
  refine ⟨⟨⟨0, taken, sync⟩, 0, told⟩, taken, ?_, rfl, told⟩
  dsimp only
  rw [descRing]
  rfl

/-- Polls with any budget, one at a time; under `exact` a poll starts when the next completion has been written. -/
def pfRxRules (exact plain : Prop) : Pool.Rules Unit PfRxLink (PlainInput plain) where
  calls _ s p := (exact → s.done < s.hw.lens.length) ∧ ∃ t budget, p = onPoll plain (onicRxPoll t budget >>= fun _ => .done ())
  env := PfC2hStep

section

variable {exact plain : Prop}

theorem pfRxRules_fit :
    Pool.Fits (pfRxRules exact plain) (fun _ => True) (fun s => PfRxStream exact plain s.ends)
      (fun _ => pfRxContract exact plain) fun _ => PfRxSettled exact plain where
  same_ok _ := rfl
  same_inv _ := rfl
  threads t u apart := absurd rfl apart
  env s s' _ _ stream happens := ⟨(stream.hardware happens).1, fun _ => (stream.hardware happens).2⟩
  calls t s p call ok stream idle := by
    obtain ⟨written, t', budget, rfl⟩ := call
    obtain ⟨d, stage⟩ := idle
    have done : s.done = d := by
      rw [PfRxLink.done, show s.poll.q.taken = d + vfRxSlots from stage.taken]
      exact Nat.add_sub_cancel d vfRxSlots
    rw [onPoll_bind]
    have finish : (pfRxContract exact plain).Triple (PfRxSettled exact plain) (onPoll plain (.done ())) fun _ => PfRxSettled exact plain :=
      pfRx_done pfRxSettled_stable fun _ holds => holds
    rw [done] at written
    exact Contract.Triple.bind (onicRxPoll_triple t' budget) (fun _ => finish) s ok stream ⟨d, stage, written⟩

/-- What the stack has been given comes from what the hardware has taken, in its order and no packet twice. -/
structure PfStreamed (exact plain : Prop) (s : PfRxLink) : Prop where
  pages : (s.poll.q.given.map RxDelivery.page).Sublist (s.hw.fetched.map Prod.fst)
  filled : ∀ f ∈ s.hw.fetched, ∃ pg : RxPage, f = (some pg, pg.dstAddr)
  lens : exact → (s.poll.q.given.map fun d => (d.page, d.len)).Sublist ((s.hw.fetched.map Prod.fst).zip s.hw.lens)
  every : plain → s.poll.q.given.map RxDelivery.page <+: s.hw.fetched.map Prod.fst
  precise : exact → plain → s.poll.q.given.map (fun d => (d.page, d.len)) <+: (s.hw.fetched.map Prod.fst).zip s.hw.lens

theorem prefix_of_sublist_take {α : Type} {a b : List α} {k : Nat} (sub : a.Sublist (b.take k)) (length : a.length = k) : a <+: b := by
  have same : a = b.take k := sub.eq_of_length_le (by rw [length]; exact List.length_take_le k b)
  rw [same]
  exact List.take_prefix k b

theorem PfRxStream.streamed {s : PfRxLink} (stream : PfRxStream exact plain s.ends) : PfStreamed exact plain s := by
  obtain ⟨k, told⟩ := stream.told
  obtain ⟨d, -, sync⟩ := stream.sync
  constructor
  · exact told.pages.trans (List.take_sublist k _)
  · exact sync.filled
  · exact fun precise => (told.lens precise).trans (List.take_sublist k _)
  · exact fun calm => prefix_of_sublist_take told.pages (List.length_map RxDelivery.page |>.trans (told.all calm))
  · exact fun precise calm => prefix_of_sublist_take (told.lens precise) (List.length_map _ |>.trans (told.all calm))

theorem pf_rx_stream {q : RxQueue} (ran : Program.Exec onicInitRxQueueRings .kzalloc 0 q) (xdp : XdpRx)
    {P : Pool Unit PfRxLink (PlainInput plain)}
    (reach : Pool.Reach (pfRxRules exact plain) (fun _ => True) (Pool.start ⟨⟨q, xdp⟩, .start⟩) P) :
    PfStreamed exact plain P.state := by
  obtain ⟨stream, stage⟩ : PfRxStream exact plain ⟨q, .start⟩ ∧ Stage exact plain 0 0 0 ⟨q, .start⟩ := PfRxStream.start ran
  have idle (t : Unit) : (pfRxContract exact plain).wp ((Pool.start (T := Unit) (ι := PlainInput plain)
      (⟨⟨q, xdp⟩, .start⟩ : PfRxLink)).thread t) (fun _ => PfRxSettled exact plain) ⟨⟨q, xdp⟩, .start⟩ :=
    fun s' between ok inv => pfRxSettled_stable ⟨⟨q, xdp⟩, .start⟩ s' ⟨0, stage⟩ between ok inv
  exact (pfRxRules_fit.reach reach True.intro stream idle).2.1.streamed

end

theorem note_given {s : PfRxPoll} {slot len before : Nat} {pg : RxPage} (more : before < s.xdp.stack.length) :
    (s.note slot pg len before).q.given = s.q.given ++ [⟨slot, some pg, len⟩] := by
  unfold PfRxPoll.note
  rw [if_pos more]
  rfl

/-- Without a program, and with a page and an skb when asked, a packet goes to the stack. -/
theorem onicRxRound_gives {s : PfRxPoll} {pg : RxPage} (slot : (s.q.buffer s.q.descRing.nextToClean).pg = some pg) (t : Nat)
    (cmpl : C2hCmpl) : ∃ s', (onicRxRound t cmpl).eval PfRxInput.granted.1 s = some (true, s') ∧
      s'.q.given = s.q.given ++ [⟨s.q.descRing.nextToClean, some pg, cmpl.pktLen⟩] := by
  have packet : (onicRxPacket t ⟨pg.id, pg.dma⟩).eval PfRxInput.granted.1.xdp s.xdp =
      some (true, { s.xdp with stack := s.xdp.stack ++ [pg.id] }) := rfl
  have more : s.xdp.stack.length < (s.xdp.stack ++ [pg.id]).length := by
    rw [List.length_append]
    exact Nat.lt_succ_self _
  rw [onicRxRound]
  simp only [Program.eval_bind, Program.eval_read, Option.bind_some, slot, Program.eval_lift xdp_lens, Program.eval_comap,
    packet, Option.map_some, Program.eval_modify, if_true, Program.eval_access, Program.eval_done]
  refine ⟨_, rfl, ?_⟩
  show (RxQueue.onicRxAdvance _ _).given = _
  rw [onicRxAdvance_given]
  exact note_given more

/-- The same with a budget of one packet. -/
theorem onicRxLoop_gives {s : PfRxPoll} {pg : RxPage} {pidx : Nat} (slot : (s.q.buffer s.q.descRing.nextToClean).pg = some pg)
    (pending : s.q.cmplRing.nextToClean ≠ pidx) (t : Nat) (cmpl : C2hCmpl) :
    ∃ s', (onicRxLoop t pidx 0 cmpl 0).eval PfRxInput.granted.1 s = some ((1, true), s') ∧
      s'.q.given = s.q.given ++ [⟨s.q.descRing.nextToClean, some pg, cmpl.pktLen⟩] := by
  obtain ⟨s', ran, given⟩ := onicRxRound_gives slot t cmpl
  refine ⟨s', ?_, given⟩
  rw [onicRxLoop]
  simp only [Program.eval_bind, Program.eval_read, Option.bind_some, if_neg pending, ran, if_true, Program.eval_done, Nat.zero_add]

theorem onicRxPollFrom_gives {s : PfRxPoll} {pg : RxPage} (slot : (s.q.buffer s.q.descRing.nextToClean).pg = some pg)
    (pending : s.q.cmplRing.nextToClean ≠ qdmaUnpackC2hCmplStatPidx s.q.cmplRing.wb) (t : Nat) (cmpl : C2hCmpl) :
    ∃ s', (onicRxPollFrom t 1 cmpl).eval PfRxInput.granted.1 s = some (1, s') ∧
      s'.q.given = s.q.given ++ [⟨s.q.descRing.nextToClean, some pg, cmpl.pktLen⟩] := by
  obtain ⟨s', ran, given⟩ := onicRxLoop_gives slot pending t cmpl
  refine ⟨s', ?_, given⟩
  rw [onicRxPollFrom]
  simp only [Program.eval_bind, Program.eval_read, Option.bind_some, Nat.sub_self, ran, if_true, Program.eval_done]

/-- A queue at its start, of which page 0 lies in slot 0. -/
structure PfRxFirst (dma : BitVec 64) (q : RxQueue) : Prop where
  ran : Program.Exec onicInitRxQueueRings .kzalloc 0 q
  cmplRing : q.cmplRing = ⟨onicRxRingCount, fun _ => 0, 0, 0, 1⟩
  clean : q.descRing.nextToClean = 0
  page : (q.buffer 0).pg = some ⟨0, dma⟩
  pidx : q.pidx = onicRxDescStep
  taken : q.taken = vfRxSlots
  given : q.given = []

theorem pfRxFirst : ∃ q dma, PfRxFirst dma q := by
  obtain ⟨q, ran, cmplRing, clean⟩ := pfRxStarts
  have given : q.given = [] := onicInitRxQueueRings_exec_given ran
  obtain ⟨filled, described, rfl⟩ := onicInitRxQueueRings_exec ran
  obtain ⟨dma, slot⟩ := described.slots 0 (by decide)
  exact ⟨_, dma, ran, cmplRing, clean, congrArg RxBuff.pg slot, rfl, described.taken, given⟩

def pfRxStart (q : RxQueue) : PfRxLink := ⟨⟨q, ⟨false, TxQueue.initial 4096, [], [], [], 0, 0, 0, 0, 0, 0⟩⟩, .start⟩

/-- Its first packet has come in, of 64 bytes. -/
def pfRxPacket (q : RxQueue) : PfRxLink :=
  (pfRxStart q).setEnds (((pfRxStart q).ends.fetch.complete 0x4000000002 64).publish 1 1)

section

variable {exact plain : Prop} {q : RxQueue} {dma : BitVec 64}

theorem pfRxPacket_reach (first : PfRxFirst dma q) (f : Unit → Program PfRxLink (PlainInput plain) Unit) :
    Pool.Reach (pfRxRules exact plain) (fun _ => True) ⟨pfRxStart q, f⟩ ⟨pfRxPacket q, f⟩ := by
  let taken := (pfRxStart q).setEnds (pfRxStart q).ends.fetch
  let written := taken.setEnds (taken.ends.complete 0x4000000002 64)
  have apart : (pfRxStart q).hw.descCidx ≠ (pfRxStart q).poll.q.pidx := by
    intro same
    have is : 0 = onicRxDescStep := same.trans first.pidx
    exact absurd is (by decide)
  have fetches : PfC2hStep (pfRxStart q) taken := .fetch _ apart
  have completes : PfC2hStep taken written := .complete _ _ 0 _ Nat.zero_lt_one (show _ = C2hCmpl.mk 1 0 64 by decide)
  have publishes : PfC2hStep written (pfRxPacket q) := .publish _ _ _ (Nat.zero_le 1) (Nat.le_refl 1) (by decide)
  exact .head ⟨.env fetches, trivial⟩ (.head ⟨.env completes, trivial⟩ (.single ⟨.env publishes, trivial⟩))

theorem PfRxFirst.slot (first : PfRxFirst dma q) :
    ((pfRxPacket q).poll.q.buffer (pfRxPacket q).poll.q.descRing.nextToClean).pg = some ⟨0, dma⟩ := by
  show (q.buffer q.descRing.nextToClean).pg = _
  rw [first.clean, first.page]

theorem PfRxFirst.words (first : PfRxFirst dma q) : (pfRxPacket q).poll.q.cmplRing =
    ((⟨onicRxRingCount, fun _ => 0, 0, 0, 1⟩ : RxRing).setDesc 0 0x4000000002).setDesc vfRxSlots 1 :=
  congrArg (fun ring : RxRing => (ring.setDesc 0 0x4000000002).setDesc vfRxSlots 1) first.cmplRing

theorem PfRxFirst.pending (first : PfRxFirst dma q) : (pfRxPacket q).poll.q.cmplRing.nextToClean ≠
    qdmaUnpackC2hCmplStatPidx (pfRxPacket q).poll.q.cmplRing.wb := by
  rw [first.words]
  decide

end

theorem pfRx_lens : Program.Lens PfRxLink.poll PfRxLink.setPoll where
  get_set _ _ := rfl
  set_get _ := rfl
  set_set _ _ _ := rfl

/-- One packet of 64 bytes comes in and is polled. -/
theorem pf_rx_stream_one_packet : ∃ (P : Pool Unit PfRxLink (PlainInput True)) (pg : RxPage),
    PfStreamed True True P.state ∧ P.state.poll.q.given = [⟨0, some pg, 64⟩] := by
  obtain ⟨q, dma, first⟩ := pfRxFirst
  obtain ⟨poll, polled, more⟩ := onicRxPollFrom_gives first.slot first.pending 0
    (qdmaUnpackC2hCmpl ((pfRxPacket q).poll.q.cmplRing.desc (pfRxPacket q).poll.q.cmplRing.nextToClean))
  have ran : (onPoll True (onicRxPoll 0 1 >>= fun _ => .done ())).eval ⟨PfRxInput.granted.1, fun _ => rfl⟩ (pfRxPacket q) =
      some ((), (pfRxPacket q).setPoll poll) := by
    rw [onPoll, Program.eval_lift pfRx_lens, Program.eval_comap, onicRxPoll_from, onicRxReadCmpl, Program.eval_bind,
      Program.eval_bind, Program.eval_read, Option.bind_some, polled]
    rfl
  have here : (pfRxPacket q).done < (pfRxPacket q).hw.lens.length := by
    have taken : (pfRxPacket q).poll.q.taken = vfRxSlots := first.taken
    rw [PfRxLink.done, taken, Nat.sub_self]
    exact Nat.zero_lt_one
  have rest : Pool.Reach (pfRxRules True True) (fun _ => True) (Pool.start (pfRxPacket q))
      ⟨(pfRxPacket q).setPoll poll, (Pool.start (pfRxPacket q)).thread⟩ :=
    Pool.reach_of_exec (t := ()) rfl ⟨fun _ => here, 0, 1, rfl⟩ (.of_eval ran)
  refine ⟨_, ⟨0, dma⟩, pf_rx_stream first.ran _ ((pfRxPacket_reach first _).trans rest), ?_⟩
  have before : (pfRxPacket q).poll.q.given = [] := first.given
  have clean : (pfRxPacket q).poll.q.descRing.nextToClean = 0 := first.clean
  rw [first.words, before, clean] at more
  exact more

/-- A poll that starts too early reads the completion before and the status after the packet has come in: the packet
    goes to the stack with the length that was there before. -/
theorem pf_rx_early_poll : ∃ (q : RxQueue) (pg : RxPage) (P : Pool Unit PfRxLink (PlainInput True)),
    Program.Exec onicInitRxQueueRings .kzalloc 0 q ∧
    Pool.Reach (pfRxRules False True) (fun _ => True) (Pool.start (pfRxStart q)) P ∧
    P.state.hw.lens = [64] ∧ P.state.poll.q.given = [⟨0, some pg, 0⟩] := by
  obtain ⟨q, dma, first⟩ := pfRxFirst
  obtain ⟨poll, polled, more⟩ := onicRxPollFrom_gives first.slot first.pending 0 ⟨0, 0, 0⟩
  let rest (cmpl : C2hCmpl) : Program PfRxLink (PlainInput True) Unit := onPoll True (onicRxPollFrom 0 1 cmpl >>= fun _ => .done ())
  obtain ⟨act, reads, starts⟩ : ∃ act, act ⟨PfRxInput.granted.1, fun _ => rfl⟩ (pfRxStart q) = some
      (qdmaUnpackC2hCmpl (q.cmplRing.desc q.cmplRing.nextToClean), pfRxStart q) ∧
      onPoll True (onicRxPoll 0 1 >>= fun _ => .done ()) = .step act rest := ⟨_, rfl, rfl⟩
  have empty : qdmaUnpackC2hCmpl (q.cmplRing.desc q.cmplRing.nextToClean) = ⟨0, 0, 0⟩ := by
    rw [first.cmplRing]
    decide
  rw [empty] at reads
  have ran : (rest ⟨0, 0, 0⟩).eval ⟨PfRxInput.granted.1, fun _ => rfl⟩ (pfRxPacket q) = some ((), (pfRxPacket q).setPoll poll) := by
    dsimp only [rest]
    rw [onPoll, Program.eval_lift pfRx_lens, Program.eval_comap, Program.eval_bind, polled]
    rfl
  let P : Pool Unit PfRxLink (PlainInput True) := Pool.start (pfRxStart q)
  have call : Pool.Step (pfRxRules False True) P ⟨pfRxStart q, Function.update P.thread () (.step act rest)⟩ :=
    .call rfl ⟨False.elim, 0, 1, starts.symm⟩
  have read : Pool.Step (pfRxRules False True) ⟨pfRxStart q, Function.update P.thread () (.step act rest)⟩
      ⟨pfRxStart q, Function.update (Function.update P.thread () (.step act rest)) () (rest ⟨0, 0, 0⟩)⟩ :=
    .access (t := ()) (Function.update_self () (Program.step act rest) P.thread) reads
  have reach : Pool.Reach (pfRxRules False True) (fun _ => True) P
      ⟨(pfRxPacket q).setPoll poll, Function.update (Function.update P.thread () (.step act rest)) () (.done ())⟩ :=
    .head ⟨call, trivial⟩ (.head ⟨read, trivial⟩ ((pfRxPacket_reach first _).trans (Pool.reach_of_rest (.of_eval ran))))
  refine ⟨q, ⟨0, dma⟩, _, first.ran, reach, rfl, ?_⟩
  have before : (pfRxPacket q).poll.q.given = [] := first.given
  have clean : (pfRxPacket q).poll.q.descRing.nextToClean = 0 := first.clean
  rw [before, clean] at more
  exact more

end OpenNic
