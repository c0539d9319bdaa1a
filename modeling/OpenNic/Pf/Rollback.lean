import OpenNic.Pf.Netdev

namespace OpenNic

/-- An entry of `priv->tx_queue` or `priv->rx_queue`. -/
inductive PfSlot
  | tx (qid : Nat)
  | rx (qid : Nat)
  deriving DecidableEq

namespace PfSlot

/-- The resources of a queue in the order in which they are released. -/
def res (obj : Nat) : PfSlot → List PfRes
  | .tx _ => [⟨obj, .context⟩, ⟨obj, .desc⟩, ⟨obj, .buffer⟩, ⟨obj, .queue⟩]
  | .rx _ => [⟨obj, .context⟩, ⟨obj, .napi⟩, ⟨obj, .desc⟩, ⟨obj, .cmplDesc⟩] ++
      (List.range' 0 PfNetdev.rxSlots).map (fun i => ⟨obj, .page i⟩) ++
      [⟨obj, .buffer⟩, ⟨obj, .rxqInfo⟩, ⟨obj, .pool⟩, ⟨obj, .queue⟩]

/-- The step that allocates the queue object. -/
def queueStep : PfSlot → PfStep
  | .tx qid => .txQueue qid
  | .rx qid => .rxQueue qid

/-- The steps after it. -/
def fillSteps : PfSlot → List PfStep
  | .tx qid => [.txDesc qid, .txBuffer qid, .txContext qid]
  | .rx qid => [.rxDesc qid, .rxBuffer qid, .pagePool qid, .rxqInfo qid, .memModel qid] ++
      (List.range' 0 PfNetdev.rxSlots).map (.page qid) ++ [.rxCmplDesc qid, .rxContext qid]

/-- What they acquire. -/
def fillRes (obj : Nat) : PfSlot → List PfRes
  | .tx _ => [⟨obj, .desc⟩, ⟨obj, .buffer⟩, ⟨obj, .context⟩]
  | .rx _ => [⟨obj, .desc⟩, ⟨obj, .buffer⟩, ⟨obj, .pool⟩, ⟨obj, .rxqInfo⟩] ++
      (List.range' 0 PfNetdev.rxSlots).map (fun i => ⟨obj, .page i⟩) ++ [⟨obj, .cmplDesc⟩, ⟨obj, .napi⟩, ⟨obj, .context⟩]

def fill (obj : Nat) : PfSlot → Program PfNetdev PfFails Int
  | .tx qid => PfNetdev.onicFillTxQueue qid obj
  | .rx qid => PfNetdev.onicFillRxQueue qid obj

def clear : PfSlot → Program PfNetdev PfFails Unit
  | .tx qid => PfNetdev.onicClearTxQueue qid
  | .rx qid => PfNetdev.onicClearRxQueue qid

def init : PfSlot → Program PfNetdev PfFails Int
  | .tx qid => PfNetdev.onicInitTxQueue qid
  | .rx qid => PfNetdev.onicInitRxQueue qid

/-- The entry is set to the queue object. -/
def publish (obj : Nat) (s : PfNetdev) : PfSlot → PfNetdev
  | .tx qid => s.setTx qid (some ⟨obj, true, true, 0, 0⟩)
  | .rx qid => (s.arm qid true).setRx qid (some ⟨obj, true, true, true, true, s.xdpProg, 0, 0, 0, 0, 0⟩)

/-- Whether the entry is below `num_tx_queues` or `num_rx_queues`. -/
def Used (s : PfNetdev) : PfSlot → Prop
  | .tx qid => qid < s.numTxQueues
  | .rx qid => qid < s.numRxQueues

end PfSlot

namespace PfNetdev

/-- The queue object of an entry. -/
def objAt (s : PfNetdev) : PfSlot → Option Nat
  | .tx qid => (s.txQueue qid).map PfTxQueue.obj
  | .rx qid => (s.rxQueue qid).map PfRxQueue.obj

/-- The queue has everything that its clear looks for. -/
def Complete (s : PfNetdev) : PfSlot → Prop
  | .tx qid => ∀ q, s.txQueue qid = some q → q.desc = true ∧ q.buffer = true
  | .rx qid => ∀ q, s.rxQueue qid = some q → q.desc = true ∧ q.cmplDesc = true ∧ q.buffer = true ∧ q.rxqInfo = true

/-- The queues that are set are whole and apart from each other. -/
structure Sound (s : PfNetdev) : Prop where
  complete : ∀ slot, s.Complete slot
  whole : ∀ slot obj, s.objAt slot = some obj → ∀ res ∈ slot.res obj, s.hold.held res = true
  only : ∀ slot res, s.objAt slot = some res.obj → s.hold.held res = true → res ∈ slot.res res.obj
  apart : ∀ slot slot' obj, s.objAt slot = some obj → s.objAt slot' = some obj → slot = slot'
  used : ∀ slot, s.objAt slot ≠ none → slot.Used s
  young : ∀ res, s.hold.held res = true → res.obj < s.next

/-- What opening and stopping leave as it is; a receive queue that is new runs the present program. -/
structure Same (s s' : PfNetdev) : Prop where
  numTxQueues : s'.numTxQueues = s.numTxQueues
  numRxQueues : s'.numRxQueues = s.numRxQueues
  misused : s'.hold.misused = s.hold.misused
  faults : s'.faults = s.faults
  xdpProg : s'.xdpProg = s.xdpProg
  running : s'.running = s.running
  puts : s'.puts = s.puts
  next : s.next ≤ s'.next
  rxQueue : ∀ qid q, s'.rxQueue qid = some q → s.rxQueue qid = some q ∨ q.xdpProg = s.xdpProg

/-- Whatever has been acquired since `n` and not released is in a queue that is set. -/
def Covered (n : Nat) (s : PfNetdev) : Prop :=
  ∀ res : PfRes, n ≤ res.obj → s.hold.held res = true → ∃ slot, s.objAt slot = some res.obj

/-- A queue object from after `n` is held and in no entry. -/
def Lost (n : Nat) (s : PfNetdev) : Prop :=
  ∃ obj, n ≤ obj ∧ s.hold.held ⟨obj, .queue⟩ = true ∧ ∀ slot, s.objAt slot ≠ some obj

/-- The entry is empty and its queue is released. -/
structure Cleared (slot : PfSlot) (s s' : PfNetdev) : Prop where
  sound : Sound s'
  same : Same s s'
  next : s'.next = s.next
  objAt : s'.objAt = Function.update s.objAt slot none
  held : ∀ res, s'.hold.held res = true ↔ s.hold.held res = true ∧ s.objAt slot ≠ some res.obj

theorem Same.refl (s : PfNetdev) : Same s s := ⟨rfl, rfl, rfl, rfl, rfl, rfl, rfl, Nat.le_refl _, fun _ _ here => .inl here⟩

theorem Same.trans {a b c : PfNetdev} (h : Same a b) (h' : Same b c) : Same a c where
  numTxQueues := h'.numTxQueues.trans h.numTxQueues
  numRxQueues := h'.numRxQueues.trans h.numRxQueues
  misused := h'.misused.trans h.misused
  faults := h'.faults.trans h.faults
  xdpProg := h'.xdpProg.trans h.xdpProg
  running := h'.running.trans h.running
  puts := h'.puts.trans h.puts
  next := h.next.trans h'.next
  rxQueue := by
    intro qid q here
    rcases h'.rxQueue qid q here with old | new
    · exact h.rxQueue qid q old
    · exact .inr (new.trans h.xdpProg)

theorem Same.used {s s' : PfNetdev} (same : Same s s') {slot : PfSlot} : slot.Used s' ↔ slot.Used s := by
  cases slot <;> simp [PfSlot.Used, same.numTxQueues, same.numRxQueues]

end PfNetdev

open PfNetdev

theorem res_obj {slot : PfSlot} {obj : Nat} {res : PfRes} (mem : res ∈ slot.res obj) : res.obj = obj := by
  cases slot with
  | tx qid =>
    simp only [PfSlot.res, List.mem_cons, List.not_mem_nil, or_false] at mem
    rcases mem with rfl | rfl | rfl | rfl <;> rfl
  | rx qid =>
    simp only [PfSlot.res, List.mem_append, List.mem_cons, List.mem_map, List.not_mem_nil, or_false] at mem
    rcases mem with ((rfl | rfl | rfl | rfl) | ⟨i, -, rfl⟩) | (rfl | rfl | rfl | rfl) <;> rfl

theorem pages_nodup (obj lo n : Nat) : ((List.range' lo n).map fun i => (⟨obj, .page i⟩ : PfRes)).Nodup :=
  (List.nodup_range' ..).map fun i j same => by simpa using same

/-- The pages stand between other parts of the object. -/
theorem around_pages_nodup {obj n : Nat} {before after : List PfRes} (others : (before ++ after).Nodup)
    (apart : ∀ r ∈ before ++ after, ∀ i, r ≠ ⟨obj, .page i⟩) :
    (before ++ (List.range' 0 n).map (fun i => (⟨obj, .page i⟩ : PfRes)) ++ after).Nodup := by
  rcases List.nodup_append.mp others with ⟨first, last, between⟩
  simp only [List.nodup_append, List.mem_append, List.mem_map]
  refine ⟨⟨first, pages_nodup obj 0 n, ?_⟩, last, ?_⟩
  · rintro a mem b ⟨i, -, rfl⟩
    exact apart a (List.mem_append_left _ mem) i
  · rintro a (mem | ⟨i, -, rfl⟩) b mem'
    · exact between a mem b mem'
    · exact (apart b (List.mem_append_right _ mem') i).symm

theorem res_nodup (slot : PfSlot) (obj : Nat) : (slot.res obj).Nodup := by
  cases slot with
  | tx qid => simp [PfSlot.res]
  | rx qid => exact around_pages_nodup (by simp) (by simp)

section

variable {fails : PfFails} {s s' : PfNetdev} {slot : PfSlot} {obj : Nat}

@[simp] theorem free_eval (res : PfRes) : (free res).eval fails s = some ((), s.release res) := rfl

def PfNetdev.releaseAll (l : List PfRes) (s : PfNetdev) : PfNetdev := { s with hold := s.hold.releaseAll l }

theorem release_eq (res : PfRes) : s.release res = s.releaseAll [res] := rfl

theorem releaseAll_releaseAll (l l' : List PfRes) : (s.releaseAll l).releaseAll l' = s.releaseAll (l ++ l') := by
  simp [PfNetdev.releaseAll, Holdings.releaseAll]

theorem releaseAll_arm (l : List PfRes) (qid : Nat) (armed : Bool) :
    (s.arm qid armed).releaseAll l = (s.releaseAll l).arm qid armed := rfl

theorem freePages_eval (obj lo n : Nat) :
    (Program.fold (fun i _ => free ⟨obj, .page i⟩) lo n ()).eval fails s =
      some ((), s.releaseAll ((List.range' lo n).map fun i => ⟨obj, .page i⟩)) := by
  induction n generalizing lo s with
  | zero => rfl
  | succ n ih =>
    rw [Program.fold, Program.eval_bind, free_eval, Option.bind_some, ih, release_eq, releaseAll_releaseAll]
    rfl

theorem clearTx_eval {qid : Nat} {q : PfTxQueue} (there : s.txQueue qid = some q) (desc : q.desc = true)
    (buffer : q.buffer = true) : (onicClearTxQueue qid).eval fails s =
      some ((), (s.releaseAll ((PfSlot.tx qid).res q.obj)).setTx qid none) := by
  simp only [onicClearTxQueue, Program.eval_bind, Program.eval_read, Option.bind_some, there, desc, buffer, if_true,
    free_eval, Program.eval_modify, release_eq, releaseAll_releaseAll, PfSlot.res, List.cons_append, List.nil_append]

theorem clearRx_eval {qid : Nat} {q : PfRxQueue} (there : s.rxQueue qid = some q) (desc : q.desc = true)
    (cmplDesc : q.cmplDesc = true) (buffer : q.buffer = true) (rxqInfo : q.rxqInfo = true) :
    (onicClearRxQueue qid).eval fails s =
      some ((), ((s.releaseAll ((PfSlot.rx qid).res q.obj)).arm qid false).setRx qid none) := by
  simp only [onicClearRxQueue, Program.eval_bind, Program.eval_read, Option.bind_some, there, desc, cmplDesc, buffer,
    rxqInfo, if_true, freePages_eval, free_eval, Program.eval_modify, release_eq, releaseAll_arm, releaseAll_releaseAll,
    PfSlot.res, List.cons_append, List.nil_append]

theorem queue_mem_res (slot : PfSlot) (obj : Nat) : (⟨obj, .queue⟩ : PfRes) ∈ slot.res obj := by
  cases slot <;> simp [PfSlot.res]

theorem clear_eval_none (empty : s.objAt slot = none) : slot.clear.eval fails s = some ((), s) := by
  cases slot with
  | tx qid =>
    have none : s.txQueue qid = none := Option.map_eq_none_iff.mp empty
    simp [PfSlot.clear, onicClearTxQueue, Program.eval_bind, none]
  | rx qid =>
    have none : s.rxQueue qid = none := Option.map_eq_none_iff.mp empty
    simp [PfSlot.clear, onicClearRxQueue, Program.eval_bind, none]

theorem unset_tx (s : PfNetdev) (qid : Nat) : Same s (s.setTx qid none) ∧
    (s.setTx qid none).objAt = Function.update s.objAt (.tx qid) none ∧
    ∀ other, s.Complete other → (s.setTx qid none).Complete other := by
  refine ⟨⟨rfl, rfl, rfl, rfl, rfl, rfl, rfl, Nat.le_refl _, fun _ _ here => .inl here⟩, ?_, ?_⟩
  · funext other
    cases other <;> simp [PfNetdev.objAt, setTx, Function.update_apply]
    split <;> rfl
  · intro other complete
    cases other with
    | tx qid' =>
      by_cases at_ : qid' = qid
      · simp [PfNetdev.Complete, setTx, at_]
      · simpa [PfNetdev.Complete, setTx, at_] using complete
    | rx qid' => exact complete

theorem unset_rx (s : PfNetdev) (qid : Nat) : Same s ((s.arm qid false).setRx qid none) ∧
    ((s.arm qid false).setRx qid none).objAt = Function.update s.objAt (.rx qid) none ∧
    ∀ other, s.Complete other → ((s.arm qid false).setRx qid none).Complete other := by
  refine ⟨⟨rfl, rfl, rfl, rfl, rfl, rfl, rfl, Nat.le_refl _, ?_⟩, ?_, ?_⟩
  · intro qid' q here
    by_cases at_ : qid' = qid
    · simp [setRx, at_] at here
    · simp only [setRx, arm, Function.update_of_ne at_] at here
      exact .inl here
  · funext other
    cases other <;> simp [PfNetdev.objAt, setRx, arm, Function.update_apply]
    split <;> rfl
  · intro other complete
    cases other with
    | tx qid' => exact complete
    | rx qid' =>
      by_cases at_ : qid' = qid
      · simp [PfNetdev.Complete, setRx, at_]
      · simpa [PfNetdev.Complete, setRx, arm, at_] using complete

theorem clear_eval_some (fails : PfFails) (complete : s.Complete slot) (there : s.objAt slot = some obj) :
    ∃ s', slot.clear.eval fails s = some ((), s') ∧ Same (s.releaseAll (slot.res obj)) s' ∧
      s'.next = s.next ∧ s'.objAt = Function.update s.objAt slot none ∧ s'.hold = s.hold.releaseAll (slot.res obj) ∧
      ∀ other, s.Complete other → s'.Complete other := by
  have kept (other : PfSlot) (whole : s.Complete other) : (s.releaseAll (slot.res obj)).Complete other := by
    cases other <;> exact whole
  cases slot with
  | tx qid =>
    obtain ⟨q, here, rfl⟩ := Option.map_eq_some_iff.mp there
    have flags := complete q here
    have ran : (onicClearTxQueue qid).eval fails s = _ := clearTx_eval here flags.1 flags.2
    have after := unset_tx (s.releaseAll ((PfSlot.tx qid).res q.obj)) qid
    exact ⟨_, ran, after.1, rfl, after.2.1, rfl, fun other whole => after.2.2 other (kept other whole)⟩
  | rx qid =>
    obtain ⟨q, here, rfl⟩ := Option.map_eq_some_iff.mp there
    have flags := complete q here
    have ran : (onicClearRxQueue qid).eval fails s = _ := clearRx_eval here flags.1 flags.2.1 flags.2.2.1 flags.2.2.2
    generalize (PfSlot.rx qid).res q.obj = l at ran kept ⊢
    have after := unset_rx (s.releaseAll l) qid
    exact ⟨_, ran, after.1, rfl, after.2.1, rfl, fun other whole => after.2.2 other (kept other whole)⟩

theorem clear_run (fails : PfFails) (sound : Sound s) (slot : PfSlot) : ∃ s', slot.clear.eval fails s = some ((), s') ∧ Cleared slot s s' := by
  cases there : s.objAt slot with
  | none =>
    refine ⟨s, clear_eval_none there, sound, .refl s, rfl, ?_, fun res => ?_⟩
    · rw [← there, Function.update_eq_self]
    · simp [there]
  | some obj =>
    obtain ⟨s', ran, same, next, objAt, hold, complete⟩ := clear_eval_some fails (sound.complete slot) there
    have held (res : PfRes) : s'.hold.held res = true ↔ s.hold.held res = true ∧ s.objAt slot ≠ some res.obj := by
      rw [hold, Holdings.releaseAll_held, there]
      simp only [Bool.and_eq_true, Bool.not_eq_true', decide_eq_false_iff_not, ne_eq, Option.some.injEq]
      constructor
      · rintro ⟨absent, here⟩
        refine ⟨here, fun equal => absent ?_⟩
        rw [equal]
        exact sound.only slot res (by rw [there, equal]) here
      · rintro ⟨here, other⟩
        exact ⟨fun mem => other (res_obj mem).symm, here⟩
    have elsewhere {other : PfSlot} {o : Nat} (there' : s'.objAt other = some o) : other ≠ slot ∧ s.objAt other = some o := by
      rw [objAt, Function.update_apply] at there'
      split at there'
      · cases there'
      · exact ⟨‹_›, there'⟩
    have misused : s'.hold.misused = s.hold.misused := by
      rw [hold]
      exact Holdings.releaseAll_misused (res_nodup slot obj) (sound.whole slot obj there)
    have after : Same s s' := ⟨same.numTxQueues, same.numRxQueues, misused, same.faults, same.xdpProg, same.running,
      same.puts, same.next, same.rxQueue⟩
    refine ⟨s', ran, ⟨fun other => complete other (sound.complete other), ?_, ?_, ?_, ?_, ?_⟩, after, next, objAt, held⟩
    · intro other o there' res mem
      rcases elsewhere there' with ⟨ne, before⟩
      refine (held res).mpr ⟨sound.whole other o before res mem, fun here => ne ?_⟩
      rw [res_obj mem] at here
      exact sound.apart _ _ o before here
    · intro other res there' here
      exact sound.only other res (elsewhere there').2 ((held res).mp here).1
    · intro first second o there' there''
      exact sound.apart _ _ o (elsewhere there').2 (elsewhere there'').2
    · intro other set
      obtain ⟨o, there'⟩ := Option.ne_none_iff_exists'.mp set
      exact after.used.mpr (sound.used other (by rw [(elsewhere there').2]; simp))
    · intro res here
      rw [next]
      exact sound.young res ((held res).mp here).1

/-- The program acquires all of `res` when none of `steps` fails, and touches nothing else. -/
def Attempts (fails : PfFails) (steps : List PfStep) (res : List PfRes) (p : Program PfNetdev PfFails Int) : Prop :=
  ∀ s : PfNetdev, (∀ r ∈ res, s.hold.held r = false) → ∃ rv hold, p.eval fails s = some (rv, { s with hold := hold }) ∧
    ((∀ st ∈ steps, fails st = 0) → rv = 0 ∧ hold = s.hold.acquireAll res) ∧
    ((∃ st ∈ steps, fails st ≠ 0) → rv < 0 ∧ hold.misused = s.hold.misused ∧ ∀ r ∉ res, hold.held r = s.hold.held r)

theorem attempts_one {step : PfStep} {res : PfRes} (err : Nat → Int) (negative : ∀ n, n ≠ 0 → err n < 0)
    {p : Program PfNetdev PfFails Int}
    (ran : ∀ s, p.eval fails s = some (if fails step = 0 then (0, s.acquire res) else (err (fails step), s))) :
    Attempts fails [step] [res] p := by
  intro s fresh
  by_cases fine : fails step = 0
  · refine ⟨0, s.hold.acquire res, by rw [ran, if_pos fine]; rfl, fun _ => ⟨rfl, rfl⟩, fun bad => ?_⟩
    simp [fine] at bad
  · refine ⟨err (fails step), s.hold, by rw [ran, if_neg fine], fun good => ?_, fun _ => ⟨negative _ fine, rfl, fun _ _ => rfl⟩⟩
    exact absurd (good step List.mem_cons_self) fine

theorem attempts_alloc (step : PfStep) (res : PfRes) : Attempts fails [step] [res] (alloc step res) := by
  refine attempts_one (fun _ => - ENOMEM) (fun _ _ => by decide) fun s => ?_
  rw [alloc, Program.eval_access]
  split <;> rfl

theorem attempts_command (step : PfStep) (res : PfRes) : Attempts fails [step] [res] (command step res) := by
  refine attempts_one (fun n => - (n : Int)) (fun n ne => by omega) fun s => ?_
  rw [command, Program.eval_access]
  split <;> rfl

theorem attempts_nil : Attempts fails [] [] (.done 0) := by
  intro s _
  refine ⟨0, s.hold, rfl, fun _ => ⟨rfl, rfl⟩, fun bad => ?_⟩
  simp at bad

/-- One after the other, with the first error ending it. -/
theorem Attempts.then {steps steps' : List PfStep} {res res' : List PfRes} {p q : Program PfNetdev PfFails Int}
    (first : Attempts fails steps res p) (rest : Attempts fails steps' res' q) (nodup : (res ++ res').Nodup) :
    Attempts fails (steps ++ steps') (res ++ res') (p >>= fun err => if err ≠ 0 then .done err else q) := by
  intro s fresh
  obtain ⟨rv, hold, ran, good, bad⟩ := first s fun r mem => fresh r (List.mem_append_left _ mem)
  rw [Program.eval_bind, ran, Option.bind_some]
  by_cases fine : ∀ st ∈ steps, fails st = 0
  · obtain ⟨rfl, rfl⟩ := good fine
    rw [if_neg (by simp)]
    have disjoint := List.disjoint_of_nodup_append nodup
    obtain ⟨rv', hold', ran', good', bad'⟩ := rest { s with hold := s.hold.acquireAll res } fun r mem => by
      have absent : r ∉ res := fun here => disjoint here mem
      simp [Holdings.acquireAll_held, absent, fresh r (List.mem_append_right _ mem)]
    refine ⟨rv', hold', ran', fun all => ?_, fun some => ?_⟩
    · have last := good' fun st mem => all st (List.mem_append_right _ mem)
      refine ⟨last.1, last.2.trans ?_⟩
      rw [Holdings.acquireAll, Holdings.acquireAll, Holdings.acquireAll, List.foldl_append]
    · obtain ⟨st, mem, failed⟩ := some
      have late : st ∈ steps' := (List.mem_append.mp mem).resolve_left fun early => failed (fine st early)
      obtain ⟨negative, misused, others⟩ := bad' ⟨st, late, failed⟩
      refine ⟨negative, misused.trans ?_, fun r mem => ?_⟩
      · exact Holdings.acquireAll_misused (List.nodup_append.mp nodup).1 fun r mem => fresh r (List.mem_append_left _ mem)
      · simp only [List.mem_append, not_or] at mem
        rw [others r mem.2]
        simp [Holdings.acquireAll_held, mem.1]
  · have some : ∃ st ∈ steps, fails st ≠ 0 := by
      simpa using fine
    obtain ⟨negative, misused, others⟩ := bad some
    rw [if_pos (by omega)]
    refine ⟨rv, hold, rfl, fun all => ?_, fun _ => ⟨negative, misused, fun r mem => others r fun here => mem (List.mem_append_left _ here)⟩⟩
    exact absurd (fun st mem => all st (List.mem_append_left _ mem)) fine

theorem attempts_pages (qid obj lo n : Nat) :
    Attempts fails ((List.range' lo n).map (.page qid)) ((List.range' lo n).map fun i => ⟨obj, .page i⟩)
      (.untilErr (fun i => alloc (.page qid i) ⟨obj, .page i⟩) lo n) := by
  induction n generalizing lo with
  | zero => exact attempts_nil
  | succ n ih =>
    have nodup := pages_nodup obj lo (n + 1)
    exact (attempts_alloc (.page qid lo) ⟨obj, .page lo⟩).then (ih (lo + 1)) nodup

theorem attempts_pool (qid obj : Nat) : Attempts fails [.pagePool qid, .rxqInfo qid, .memModel qid]
    [⟨obj, .pool⟩, ⟨obj, .rxqInfo⟩] (onicCreatePagePool qid obj) := by
  intro s fresh
  have pool : s.hold.held ⟨obj, .pool⟩ = false := fresh _ (by simp)
  have rxqInfo : s.hold.held ⟨obj, .rxqInfo⟩ = false := fresh _ (by simp)
  simp only [onicCreatePagePool, command, Program.eval_bind, Program.eval_access]
  by_cases created : fails (.pagePool qid) = 0
  · rw [if_pos created]
    by_cases registered : fails (.rxqInfo qid) = 0
    · by_cases model : fails (.memModel qid) = 0
      · refine ⟨0, _, by simp [Program.eval_bind, registered, model, acquire]; rfl, fun _ => ⟨rfl, rfl⟩, fun bad => ?_⟩
        simp [created, registered, model] at bad
      · have negative : - (fails (.memModel qid) : Int) < 0 := by omega
        refine ⟨- (fails (.memModel qid) : Int), _, by simp [Program.eval_bind, registered, model, acquire, release]; rfl, fun good => ?_, fun _ => ⟨negative, ?_, ?_⟩⟩
        · exact absurd (good _ (by simp)) model
        · simp [Holdings.acquire, Holdings.release, pool, rxqInfo]
        · intro r absent
          simp only [List.mem_cons, List.not_mem_nil, or_false, not_or] at absent
          simp [Holdings.acquire, Holdings.release, absent]
    · have negative : - (fails (.rxqInfo qid) : Int) < 0 := by omega
      refine ⟨- (fails (.rxqInfo qid) : Int), _, by simp [Program.eval_bind, registered, acquire, release]; rfl, fun good => ?_, fun _ => ⟨negative, ?_, ?_⟩⟩
      · exact absurd (good _ (by simp)) registered
      · simp [Holdings.acquire, Holdings.release, pool]
      · intro r absent
        simp only [List.mem_cons, List.not_mem_nil, or_false, not_or] at absent
        simp [Holdings.acquire, Holdings.release, absent]
  · have negative : - (fails (.pagePool qid) : Int) < 0 := by omega
    refine ⟨- (fails (.pagePool qid) : Int), s.hold, by simp [created], fun good => ?_, fun _ => ⟨negative, rfl, fun _ _ => rfl⟩⟩
    exact absurd (good _ (by simp)) created

/-- NAPI is enabled before the contexts are written, and stays so where that fails. -/
theorem attempts_context (qid obj : Nat) : Attempts fails [.rxContext qid] [⟨obj, .napi⟩, ⟨obj, .context⟩]
    (do
      .modify (acquire ⟨obj, .napi⟩)
      command (.rxContext qid) ⟨obj, .context⟩) := by
  intro s fresh
  have napi : s.hold.held ⟨obj, .napi⟩ = false := fresh _ (by simp)
  simp only [command, Program.eval_bind, Program.eval_access, Program.eval_modify, Option.bind_some]
  by_cases fine : fails (.rxContext qid) = 0
  · refine ⟨0, _, by rw [if_pos fine]; rfl, fun _ => ⟨rfl, rfl⟩, fun bad => ?_⟩
    simp [fine] at bad
  · have negative : - (fails (.rxContext qid) : Int) < 0 := by omega
    refine ⟨- (fails (.rxContext qid) : Int), _, by rw [if_neg fine]; rfl, fun good => ?_, fun _ => ⟨negative, ?_, ?_⟩⟩
    · exact absurd (good _ (by simp)) fine
    · simp [Holdings.acquire, napi]
    · intro r absent
      simp only [List.mem_cons, List.not_mem_nil, or_false, not_or] at absent
      simp [Holdings.acquire, absent]

theorem fillRes_nodup (slot : PfSlot) (obj : Nat) : (slot.fillRes obj).Nodup := by
  cases slot with
  | tx qid => simp [PfSlot.fillRes]
  | rx qid => exact around_pages_nodup (by simp) (by simp)

theorem attempts_fill (fails : PfFails) (slot : PfSlot) (obj : Nat) : Attempts fails slot.fillSteps (slot.fillRes obj) (slot.fill obj) := by
  have nodup := fillRes_nodup slot obj
  cases slot with
  | tx qid =>
    exact (attempts_alloc (.txDesc qid) ⟨obj, .desc⟩).then ((attempts_alloc (.txBuffer qid) ⟨obj, .buffer⟩).then
      ((attempts_command (.txContext qid) ⟨obj, .context⟩).then attempts_nil (by simp)) (by simp)) (by simp)
  | rx qid =>
    have steps : (PfSlot.rx qid).fillSteps = [.rxDesc qid] ++ ([.rxBuffer qid] ++ ([.pagePool qid, .rxqInfo qid, .memModel qid] ++
        ((List.range' 0 rxSlots).map (.page qid) ++ ([.rxCmplDesc qid] ++ ([.rxContext qid] ++ []))))) := by
      simp [PfSlot.fillSteps]
    have res : (PfSlot.rx qid).fillRes obj = [⟨obj, .desc⟩] ++ ([⟨obj, .buffer⟩] ++ ([⟨obj, .pool⟩, ⟨obj, .rxqInfo⟩] ++
        ((List.range' 0 rxSlots).map (fun i => ⟨obj, .page i⟩) ++ ([⟨obj, .cmplDesc⟩] ++ ([⟨obj, .napi⟩, ⟨obj, .context⟩] ++ []))))) := by
      simp [PfSlot.fillRes]
    rw [res] at nodup
    have buffer := nodup.of_append_right
    have pool := buffer.of_append_right
    have pages := pool.of_append_right
    have cmplDesc := pages.of_append_right
    rw [steps, res]
    exact (attempts_alloc (.rxDesc qid) ⟨obj, .desc⟩).then ((attempts_alloc (.rxBuffer qid) ⟨obj, .buffer⟩).then
      ((attempts_pool qid obj).then ((attempts_pages qid obj 0 rxSlots).then
        ((attempts_alloc (.rxCmplDesc qid) ⟨obj, .cmplDesc⟩).then
          ((attempts_context qid obj).then attempts_nil cmplDesc.of_append_right) cmplDesc) pages) pool) buffer) nodup

theorem PfNetdev.Cleared.covered {n : Nat} (cleared : Cleared slot s s') (covered : Covered n s) : Covered n s' := by
  intro res late here
  rcases (cleared.held res).mp here with ⟨before, other⟩
  obtain ⟨slot', there⟩ := covered res late before
  refine ⟨slot', ?_⟩
  rw [cleared.objAt, Function.update_of_ne, there]
  intro at_
  exact other (at_ ▸ there)

theorem PfNetdev.Cleared.lost {n : Nat} (cleared : Cleared slot s s') (lost : Lost n s) : Lost n s' := by
  obtain ⟨o, late, here, nowhere⟩ := lost
  refine ⟨o, late, (cleared.held _).mpr ⟨here, nowhere slot⟩, fun slot' there => ?_⟩
  rw [cleared.objAt, Function.update_apply] at there
  split at there
  · cases there
  · exact nowhere slot' there

theorem mem_res_iff {r : PfRes} : r ∈ slot.res obj ↔ r = ⟨obj, .queue⟩ ∨ r ∈ slot.fillRes obj := by
  cases slot with
  | tx qid =>
    simp only [PfSlot.res, PfSlot.fillRes, List.mem_cons, List.not_mem_nil, or_false]
    tauto
  | rx qid =>
    simp only [PfSlot.res, PfSlot.fillRes, List.mem_append, List.mem_cons, List.not_mem_nil, or_false]
    tauto

theorem queue_not_mem_fillRes : (⟨obj, .queue⟩ : PfRes) ∉ slot.fillRes obj := by
  cases slot <;> simp [PfSlot.fillRes]

/-- The state with the queue object of a new queue. -/
def PfNetdev.withObject (s : PfNetdev) : PfNetdev := { s.acquire ⟨s.next, .queue⟩ with next := s.next + 1 }

theorem kzalloc_eval_ok {step : PfStep} (fine : fails step = 0) :
    (kzalloc step).eval fails s = some (some s.next, s.withObject) := by
  rw [kzalloc, Program.eval_access, if_pos fine]
  rfl

theorem kzalloc_eval_fail {step : PfStep} (failed : ¬ fails step = 0) : (kzalloc step).eval fails s = some (none, s) := by
  rw [kzalloc, Program.eval_access, if_neg failed]

/-- The entry is empty: the queue object first, then its parts, then the entry. -/
theorem init_eval {rv : Int} {hold : Holdings PfRes} (empty : s.objAt slot = none)
    (filled : (slot.fill s.next).eval fails s.withObject = some (rv, { s.withObject with hold := hold })) :
    slot.init.eval fails s =
      if fails slot.queueStep = 0 then
        if rv ≠ 0 then some (rv, { s.withObject with hold := hold })
        else some (0, slot.publish s.next { s.withObject with hold := hold })
      else some (- ENOMEM, s) := by
  have cleared : slot.clear.eval fails { s.withObject with hold := hold } = some ((), { s.withObject with hold := hold }) :=
    clear_eval_none (by cases slot <;> exact empty)
  cases slot with
  | tx qid =>
    have none : s.txQueue qid = none := Option.map_eq_none_iff.mp empty
    have filled : (onicFillTxQueue qid s.next).eval fails s.withObject = _ := filled
    have cleared : (onicClearTxQueue qid).eval fails { s.withObject with hold := hold } = _ := cleared
    simp only [PfSlot.init, onicInitTxQueue, Program.eval_bind, Program.eval_read, Option.bind_some, none, Option.isSome_none,
      Bool.false_eq_true, if_false, Program.eval_done, PfSlot.queueStep]
    by_cases object : fails (.txQueue qid) = 0
    · rw [kzalloc_eval_ok object, if_pos object]
      simp only [Option.bind_some, Program.eval_bind, filled]
      split
      · simp only [Program.eval_bind, cleared, Option.bind_some, Program.eval_done]
      · rfl
    · rw [kzalloc_eval_fail object, if_neg object]
      rfl
  | rx qid =>
    have none : s.rxQueue qid = none := Option.map_eq_none_iff.mp empty
    have filled : (onicFillRxQueue qid s.next).eval fails s.withObject = _ := filled
    have cleared : (onicClearRxQueue qid).eval fails { s.withObject with hold := hold } = _ := cleared
    simp only [PfSlot.init, onicInitRxQueue, Program.eval_bind, Program.eval_read, Option.bind_some, none, Option.isSome_none,
      Bool.false_eq_true, if_false, Program.eval_done, PfSlot.queueStep]
    by_cases object : fails (.rxQueue qid) = 0
    · rw [kzalloc_eval_ok object, if_pos object]
      simp only [Option.bind_some, Program.eval_bind, Program.eval_read, filled]
      split
      · simp only [Program.eval_bind, cleared, Option.bind_some, Program.eval_done]
      · rfl
    · rw [kzalloc_eval_fail object, if_neg object]
      rfl

/-- Whether the step allocates a queue object. -/
def PfStep.allocatesQueue : PfStep → Bool
  | .txQueue _ => true
  | .rxQueue _ => true
  | _ => false

def PfSlot.steps (slot : PfSlot) : List PfStep := slot.queueStep :: slot.fillSteps

theorem fillSteps_allocate {st : PfStep} (mem : st ∈ slot.fillSteps) : st.allocatesQueue = false := by
  cases slot with
  | tx qid =>
    simp only [PfSlot.fillSteps, List.mem_cons, List.not_mem_nil, or_false] at mem
    rcases mem with rfl | rfl | rfl <;> rfl
  | rx qid =>
    simp only [PfSlot.fillSteps, List.mem_append, List.mem_cons, List.mem_map, List.not_mem_nil, or_false] at mem
    rcases mem with ((rfl | rfl | rfl | rfl | rfl) | ⟨i, -, rfl⟩) | (rfl | rfl) <;> rfl

theorem queueStep_allocates : slot.queueStep.allocatesQueue = true := by
  cases slot <;> rfl

/-- What is left where setting up the queues of `slots` has returned `rv`; `n` is any queue object up to
    the first one of the call. -/
structure Ended (fails : PfFails) (slots : List PfSlot) (n : Nat) (rv : Int) (s s' : PfNetdev) : Prop where
  sound : Sound s'
  same : Same s s'
  lost : Lost n s → Lost n s'
  fine : failing fails (slots.flatMap PfSlot.steps) = none →
    rv = 0 ∧ (Covered n s → Covered n s') ∧ (∀ slot ∈ slots, s'.objAt slot ≠ none) ∧
      ∀ slot, s.objAt slot ≠ none → s'.objAt slot ≠ none
  object : ∀ st, failing fails (slots.flatMap PfSlot.steps) = some st → st.allocatesQueue = true →
    rv < 0 ∧ (Covered n s → Covered n s')
  part : ∀ st, failing fails (slots.flatMap PfSlot.steps) = some st → st.allocatesQueue = false → rv < 0 ∧ Lost n s'

/-- The entry is empty, and after the first `n` objects only whole queues are left or a queue is lost. -/
structure Shrunk (s s' : PfNetdev) : Prop where
  sound : Sound s'
  same : Same s s'
  covered : ∀ n, Covered n s → Covered n s'
  lost : ∀ n, Lost n s → Lost n s'
  objAt : ∀ slot, s.objAt slot = none → s'.objAt slot = none

theorem PfNetdev.Cleared.shrunk (cleared : Cleared slot s s') : Shrunk s s' := by
  refine ⟨cleared.sound, cleared.same, fun n => cleared.covered, fun n => cleared.lost, fun other empty => ?_⟩
  rw [cleared.objAt, Function.update_apply]
  split
  · rfl
  · exact empty

theorem Shrunk.refl (sound : Sound s) : Shrunk s s := ⟨sound, .refl s, fun _ h => h, fun _ h => h, fun _ h => h⟩

theorem Shrunk.trans {s'' : PfNetdev} (first : Shrunk s s') (second : Shrunk s' s'') : Shrunk s s'' :=
  ⟨second.sound, first.same.trans second.same, fun n h => second.covered n (first.covered n h),
    fun n h => second.lost n (first.lost n h), fun slot h => second.objAt slot (first.objAt slot h)⟩

theorem publish_objAt (slot : PfSlot) (obj : Nat) (s : PfNetdev) :
    (slot.publish obj s).objAt = Function.update s.objAt slot (some obj) := by
  funext other
  cases slot <;> cases other <;> simp [PfSlot.publish, PfNetdev.objAt, setTx, setRx, arm, Function.update_apply]
  all_goals split <;> rfl

theorem publish_complete (slot : PfSlot) (obj : Nat) (complete : ∀ other, s.Complete other) (other : PfSlot) :
    (slot.publish obj s).Complete other := by
  have before := complete other
  cases slot with
  | tx qid =>
    cases other with
    | tx qid' =>
      intro q here
      by_cases at_ : qid' = qid
      · simp [PfSlot.publish, setTx, at_] at here
        simp [← here]
      · simp only [PfSlot.publish, setTx, Function.update_of_ne at_] at here
        exact before q here
    | rx qid' => exact before
  | rx qid =>
    cases other with
    | tx qid' => exact before
    | rx qid' =>
      intro q here
      by_cases at_ : qid' = qid
      · simp [PfSlot.publish, setRx, at_] at here
        simp [← here]
      · simp only [PfSlot.publish, setRx, arm, Function.update_of_ne at_] at here
        exact before q here

theorem publish_same (slot : PfSlot) (obj : Nat) : Same s (slot.publish obj s) := by
  cases slot with
  | tx qid => exact ⟨rfl, rfl, rfl, rfl, rfl, rfl, rfl, Nat.le_refl _, fun _ _ here => .inl here⟩
  | rx qid =>
    refine ⟨rfl, rfl, rfl, rfl, rfl, rfl, rfl, Nat.le_refl _, fun qid' q here => ?_⟩
    by_cases at_ : qid' = qid
    · simp [PfSlot.publish, setRx, at_] at here
      exact .inr (by simp [← here])
    · simp only [PfSlot.publish, setRx, arm, Function.update_of_ne at_] at here
      exact .inl here

@[simp] theorem publish_hold (slot : PfSlot) (obj : Nat) : (slot.publish obj s).hold = s.hold := by
  cases slot <;> rfl

@[simp] theorem publish_next (slot : PfSlot) (obj : Nat) : (slot.publish obj s).next = s.next := by
  cases slot <;> rfl

theorem clear_eval_init (ran : slot.clear.eval fails s = some ((), s')) (empty : s'.objAt slot = none) :
    slot.init.eval fails s = slot.init.eval fails s' := by
  cases there : s.objAt slot with
  | none =>
    rw [clear_eval_none there] at ran
    cases ran
    rfl
  | some obj =>
    cases slot with
    | tx qid =>
      obtain ⟨q, here, -⟩ := Option.map_eq_some_iff.mp there
      have none : s'.txQueue qid = none := Option.map_eq_none_iff.mp empty
      have ran : (onicClearTxQueue qid).eval fails s = _ := ran
      simp only [PfSlot.init, onicInitTxQueue, Program.eval_bind, Program.eval_read, Option.bind_some, here, none,
        Option.isSome_some, Option.isSome_none, Bool.false_eq_true, if_true, if_false, Program.eval_done, ran]
    | rx qid =>
      obtain ⟨q, here, -⟩ := Option.map_eq_some_iff.mp there
      have none : s'.rxQueue qid = none := Option.map_eq_none_iff.mp empty
      have ran : (onicClearRxQueue qid).eval fails s = _ := ran
      simp only [PfSlot.init, onicInitRxQueue, Program.eval_bind, Program.eval_read, Option.bind_some, here, none,
        Option.isSome_some, Option.isSome_none, Bool.false_eq_true, if_true, if_false, Program.eval_done, ran]

/-- Nothing is held of a queue object that has not been allocated. -/
theorem PfNetdev.Sound.fresh (sound : Sound s) (part : PfPart) : s.hold.held ⟨s.next, part⟩ = false := by
  by_contra held
  have young := sound.young ⟨s.next, part⟩ (by simpa using held)
  exact Nat.lt_irrefl _ young

theorem PfNetdev.Sound.objAt_lt (sound : Sound s) (there : s.objAt slot = some obj) : obj < s.next :=
  sound.young ⟨obj, .queue⟩ (sound.whole slot obj there _ (queue_mem_res slot obj))

/-- Only what belongs to the next queue object has changed, and the entries have not. -/
theorem unpublished {hold : Holdings PfRes} (sound : Sound s) (misused : hold.misused = s.hold.misused)
    (others : ∀ r : PfRes, r.obj ≠ s.next → hold.held r = s.hold.held r) :
    Sound { s.withObject with hold := hold } ∧ Same s { s.withObject with hold := hold } := by
  have objAt (slot : PfSlot) : PfNetdev.objAt { s.withObject with hold := hold } slot = s.objAt slot := by
    cases slot <;> rfl
  have old {slot : PfSlot} {o : Nat} (there : s.objAt slot = some o) : o ≠ s.next := by
    have := sound.objAt_lt there
    omega
  refine ⟨⟨?_, ?_, ?_, ?_, ?_, ?_⟩, ⟨rfl, rfl, misused, rfl, rfl, rfl, rfl, Nat.le_succ _, fun _ _ here => .inl here⟩⟩
  · intro slot
    have complete := sound.complete slot
    cases slot <;> exact complete
  · intro slot o there res mem
    rw [objAt] at there
    have here := sound.whole slot o there res mem
    rw [← here]
    exact others res (res_obj mem ▸ old there)
  · intro slot res there here
    rw [objAt] at there
    exact sound.only slot res there ((others res (old there)).symm.trans here)
  · intro slot slot' o there there'
    rw [objAt] at there there'
    exact sound.apart slot slot' o there there'
  · intro slot set
    rw [objAt] at set
    have used := sound.used slot set
    cases slot <;> exact used
  · intro res here
    by_cases at_ : res.obj = s.next
    · exact at_ ▸ Nat.lt_succ_self _
    · have young := sound.young res ((others res at_).symm.trans here)
      exact Nat.lt_succ_of_lt young

/-- The queue is whole: it goes to its entry. -/
theorem published {hold : Holdings PfRes} {n : Nat} (sound : Sound s) (used : slot.Used s) (empty : s.objAt slot = none)
    (misused : hold.misused = s.hold.misused)
    (held : ∀ r, hold.held r = true ↔ s.hold.held r = true ∨ r ∈ slot.res s.next) :
    let s' := slot.publish s.next { s.withObject with hold := hold }
    Sound s' ∧ Same s s' ∧ (Lost n s → Lost n s') ∧ (Covered n s → Covered n s') ∧
      s'.objAt = Function.update s.objAt slot (some s.next) := by
  intro s'
  have others (r : PfRes) (ne : r.obj ≠ s.next) : hold.held r = s.hold.held r := by
    have outside : r ∉ slot.res s.next := fun mem => ne (res_obj mem)
    rw [Bool.eq_iff_iff, held]
    simp [outside]
  obtain ⟨sound₀, same₀⟩ := unpublished sound misused others
  have objAt₀ : PfNetdev.objAt { s.withObject with hold := hold } = s.objAt := by
    funext other
    cases other <;> rfl
  have objAt : s'.objAt = Function.update s.objAt slot (some s.next) := by rw [publish_objAt, objAt₀]
  have hold' : s'.hold = hold := publish_hold ..
  have same : Same s s' := same₀.trans (publish_same slot s.next)
  have cases_ {other : PfSlot} {o : Nat} (there : s'.objAt other = some o) :
      other = slot ∧ o = s.next ∨ other ≠ slot ∧ s.objAt other = some o := by
    rw [objAt, Function.update_apply] at there
    split at there
    · exact .inl ⟨‹_›, (Option.some.inj there).symm⟩
    · exact .inr ⟨‹_›, there⟩
  refine ⟨⟨publish_complete slot s.next sound₀.complete, ?_, ?_, ?_, ?_, ?_⟩, same, ?_, ?_, objAt⟩
  · intro other o there res mem
    rw [hold']
    rcases cases_ there with ⟨rfl, rfl⟩ | ⟨ne, there⟩
    · exact (held res).mpr (.inr mem)
    · exact (held res).mpr (.inl (sound.whole other o there res mem))
  · intro other res there here
    rw [hold', held] at here
    rcases cases_ there with ⟨rfl, at_⟩ | ⟨ne, there⟩
    · rcases here with old | new
      · have young := sound.young res old
        omega
      · rwa [at_]
    · rcases here with old | new
      · exact sound.only other res there old
      · have young := sound.objAt_lt there
        have at_ := res_obj new
        omega
  · intro other other' o there there'
    rcases cases_ there with ⟨rfl, rfl⟩ | ⟨ne, there⟩
    · rcases cases_ there' with ⟨rfl, -⟩ | ⟨ne', there'⟩
      · rfl
      · have young := sound.objAt_lt there'
        omega
    · have young := sound.objAt_lt there
      rcases cases_ there' with ⟨-, at_⟩ | ⟨ne', there'⟩
      · omega
      · exact sound.apart other other' o there there'
  · intro other set
    obtain ⟨o, there⟩ := Option.ne_none_iff_exists'.mp set
    rw [same.used]
    rcases cases_ there with ⟨rfl, -⟩ | ⟨ne, there⟩
    · exact used
    · exact sound.used other (by simp [there])
  · intro res here
    have next : s'.next = s.next + 1 := publish_next ..
    rw [hold', held] at here
    rcases here with old | new
    · have young := sound.young res old
      omega
    · have at_ := res_obj new
      omega
  · rintro ⟨o, late, here, nowhere⟩
    refine ⟨o, late, by rw [hold', held]; exact .inl here, fun other there => ?_⟩
    rcases cases_ there with ⟨rfl, rfl⟩ | ⟨ne, there⟩
    · have young := sound.young _ here
      simp at young
    · exact nowhere other there
  · intro covered res late here
    rw [hold', held] at here
    rcases here with old | new
    · obtain ⟨other, there⟩ := covered res late old
      have ne : other ≠ slot := fun at_ => by simp [at_, empty] at there
      exact ⟨other, by rw [objAt, Function.update_of_ne ne, there]⟩
    · exact ⟨slot, by rw [objAt, Function.update_self, res_obj new]⟩

theorem init_run (fails : PfFails) {n : Nat} (sound : Sound s) (used : slot.Used s) (empty : s.objAt slot = none) (first : n ≤ s.next) :
    ∃ rv s', slot.init.eval fails s = some (rv, s') ∧ Ended fails [slot] n rv s s' := by
  have held₀ (r : PfRes) : s.withObject.hold.held r = true ↔ s.hold.held r = true ∨ r = ⟨s.next, .queue⟩ := by
    by_cases ne : r = ⟨s.next, .queue⟩ <;> simp [PfNetdev.withObject, acquire, Holdings.acquire, ne]
  have misused₀ : s.withObject.hold.misused = s.hold.misused := Holdings.acquire_of_fresh (sound.fresh .queue)
  have fresh : ∀ r ∈ slot.fillRes s.next, s.withObject.hold.held r = false := by
    intro r mem
    have ne : r ≠ ⟨s.next, .queue⟩ := fun same => queue_not_mem_fillRes (same ▸ mem)
    have at_ : r.obj = s.next := res_obj (mem_res_iff.mpr (.inr mem))
    have absent : s.hold.held r = false := by
      have part := sound.fresh r.part
      rwa [← at_] at part
    rw [Bool.eq_false_iff]
    intro here
    rcases (held₀ r).mp here with old | same
    · rw [absent] at old
      cases old
    · exact ne same
  obtain ⟨rv, hold, filled, good, bad⟩ := attempts_fill fails slot s.next s.withObject fresh
  have steps : [slot].flatMap PfSlot.steps = slot.queueStep :: slot.fillSteps := by simp [PfSlot.steps]
  rw [init_eval empty filled]
  by_cases object : fails slot.queueStep = 0
  · have found : failing fails (slot.queueStep :: slot.fillSteps) = failing fails slot.fillSteps := by
      simp [failing, object]
    rw [if_pos object]
    by_cases fine : ∀ st ∈ slot.fillSteps, fails st = 0
    · obtain ⟨rfl, rfl⟩ := good fine
      have misused := (Holdings.acquireAll_misused (fillRes_nodup slot s.next) fresh).trans misused₀
      have after := published (n := n) sound used empty misused fun r => by
        rw [Holdings.acquireAll_held, Bool.or_eq_true, decide_eq_true_eq, held₀, mem_res_iff]
        tauto
      have none : failing fails ([slot].flatMap PfSlot.steps) = none := by rw [steps, found, failing_none]; exact fine
      refine ⟨0, _, by rw [if_neg (by simp)], after.1, after.2.1, after.2.2.1, fun _ => ⟨rfl, after.2.2.2.1, ?_, ?_⟩, ?_, ?_⟩
      · simp [after.2.2.2.2]
      · intro other set
        rw [after.2.2.2.2, Function.update_apply]
        split
        · simp
        · exact set
      · intro st some
        rw [none] at some
        cases some
      · intro st some
        rw [none] at some
        cases some
    · have some : ∃ st ∈ slot.fillSteps, fails st ≠ 0 := by simpa using fine
      obtain ⟨negative, misused, others⟩ := bad some
      have elsewhere (r : PfRes) (ne : r.obj ≠ s.next) : hold.held r = s.hold.held r := by
        rw [others r fun mem => ne (res_obj (mem_res_iff.mpr (.inr mem))), Bool.eq_iff_iff, held₀]
        constructor
        · rintro (old | rfl)
          · exact old
          · exact absurd rfl ne
        · exact .inl
      obtain ⟨sound', same⟩ := unpublished sound (misused.trans misused₀) elsewhere
      have lost : Lost n { s.withObject with hold := hold } := by
        refine ⟨s.next, first, (others _ queue_not_mem_fillRes).trans ((held₀ _).mpr (.inr rfl)), fun other there => ?_⟩
        have there : s.objAt other = Option.some s.next := by
          cases other <;> exact there
        exact Nat.lt_irrefl _ (sound.objAt_lt there)
      refine ⟨rv, _, by rw [if_pos (by omega)], sound', same, fun _ => lost, fun none => ?_, fun st at_ allocates => ?_,
        fun _ _ _ => ⟨negative, lost⟩⟩
      · rw [steps, found, failing_none] at none
        exact absurd none fine
      · rw [steps, found] at at_
        rw [fillSteps_allocate (failing_some at_).1] at allocates
        cases allocates
  · have found : failing fails ([slot].flatMap PfSlot.steps) = some slot.queueStep := by
      rw [failing, steps]
      simp [object]
    rw [if_neg object]
    refine ⟨- ENOMEM, s, rfl, sound, .refl s, id, fun none => ?_, fun _ _ _ => ⟨by decide, id⟩, fun st at_ allocates => ?_⟩
    · rw [found] at none
      cases none
    · rw [found] at at_
      cases at_
      rw [queueStep_allocates] at allocates
      cases allocates

theorem slot_run (fails : PfFails) {n : Nat} (sound : Sound s) (used : slot.Used s) (first : n ≤ s.next) :
    ∃ rv s', slot.init.eval fails s = some (rv, s') ∧ Ended fails [slot] n rv s s' := by
  obtain ⟨mid, ran, cleared⟩ := clear_run fails sound slot
  have empty : mid.objAt slot = none := by rw [cleared.objAt, Function.update_self]
  obtain ⟨rv, s', ran', ended⟩ := init_run fails (n := n) cleared.sound (cleared.same.used.mpr used) empty
    (first.trans cleared.same.next)
  refine ⟨rv, s', (clear_eval_init ran empty).trans ran', ended.sound, cleared.same.trans ended.same, ?_, ?_, ?_, ended.part⟩
  · exact fun lost => ended.lost (cleared.lost lost)
  · intro none
    obtain ⟨zero, covered, set, kept⟩ := ended.fine none
    refine ⟨zero, fun h => covered (cleared.covered h), set, fun other there => ?_⟩
    by_cases at_ : other = slot
    · exact set other (by simp [at_])
    · apply kept
      rwa [cleared.objAt, Function.update_of_ne at_]
  · intro st found allocates
    have after := ended.object st found allocates
    exact ⟨after.1, fun h => after.2 (cleared.covered h)⟩

theorem clearDown_run (fails : PfFails) (slotOf : Nat → PfSlot) (qid : Nat) (sound : Sound s) :
    ∃ s', (clearDown (fun q => (slotOf q).clear) qid).eval fails s = some ((), s') ∧ Shrunk s s' := by
  induction qid generalizing s with
  | zero => exact ⟨s, rfl, .refl sound⟩
  | succ qid ih =>
    obtain ⟨mid, ran, cleared⟩ := clear_run fails sound (slotOf qid)
    obtain ⟨s', ran', shrunk⟩ := ih cleared.sound
    refine ⟨s', ?_, cleared.shrunk.trans shrunk⟩
    rw [clearDown, Program.eval_bind, ran]
    exact ran'

/-- The induction is on the number of queues left; the first error ends it, and what is set up by then is
    cleared. -/
theorem initResource_run (fails : PfFails) (slotOf : Nat → PfSlot) (qid left : Nat) {n : Nat} (sound : Sound s)
    (used : ∀ q, q < qid + left → (slotOf q).Used s) (first : n ≤ s.next) :
    ∃ rv s', (initResource (fun q => (slotOf q).init) (fun q => (slotOf q).clear) qid left).eval fails s = some (rv, s') ∧
      Ended fails ((List.range' qid left).map slotOf) n rv s s' := by
  induction left generalizing qid s with
  | zero =>
    refine ⟨0, s, rfl, sound, .refl s, id, fun _ => ⟨rfl, id, by simp, fun _ h => h⟩, fun st found => ?_, fun st found => ?_⟩
    all_goals simp [failing] at found
  | succ left ih =>
    obtain ⟨rv, mid, ran, ended⟩ := slot_run fails (n := n) sound (used qid (by omega)) first
    have steps : ((List.range' qid (left + 1)).map slotOf).flatMap PfSlot.steps =
        [slotOf qid].flatMap PfSlot.steps ++ ((List.range' (qid + 1) left).map slotOf).flatMap PfSlot.steps := by
      simp [List.range'_succ]
    rw [initResource, Program.eval_bind, ran, Option.bind_some]
    cases head : failing fails ([slotOf qid].flatMap PfSlot.steps) with
    | none =>
      obtain ⟨rfl, covered, set, kept⟩ := ended.fine head
      obtain ⟨rv', s', ran', rest⟩ := ih (qid + 1) ended.sound
        (fun q low => ended.same.used.mpr (used q (by omega))) (first.trans ended.same.next)
      refine ⟨rv', s', by rw [if_pos rfl]; exact ran', rest.sound, ended.same.trans rest.same,
        fun h => rest.lost (ended.lost h), ?_, ?_, ?_⟩
      all_goals rw [steps, failing_append, head, Option.none_or]
      · intro none
        obtain ⟨zero, covered', set', kept'⟩ := rest.fine none
        refine ⟨zero, fun h => covered' (covered h), fun slot mem => ?_, fun slot there => kept' slot (kept slot there)⟩
        rw [List.range'_succ, List.map_cons, List.mem_cons] at mem
        rcases mem with rfl | later
        · exact kept' _ (set _ List.mem_cons_self)
        · exact set' slot later
      · intro st found allocates
        have after := rest.object st found allocates
        exact ⟨after.1, fun h => after.2 (covered h)⟩
      · exact rest.part
    | some st =>
      have negative : rv < 0 := by
        cases allocates : st.allocatesQueue with
        | true => exact (ended.object st head allocates).1
        | false => exact (ended.part st head allocates).1
      obtain ⟨s', ran', shrunk⟩ := clearDown_run fails slotOf qid ended.sound
      refine ⟨rv, s', ?_, shrunk.sound, ended.same.trans shrunk.same, fun h => shrunk.lost n (ended.lost h), ?_, ?_, ?_⟩
      · rw [if_neg (by omega), Program.eval_bind, ran']
        rfl
      all_goals rw [steps, failing_append, head, Option.some_or]
      · intro none
        cases none
      · rintro st' ⟨⟩ allocates
        exact ⟨negative, fun h => shrunk.covered n ((ended.object st head allocates).2 h)⟩
      · rintro st' ⟨⟩ allocates
        exact ⟨negative, shrunk.lost n (ended.part st head allocates).2⟩

theorem clearAll_run (fails : PfFails) (slotOf : Nat → PfSlot) (lo count : Nat) (sound : Sound s) :
    ∃ s', (Program.fold (fun q _ => (slotOf q).clear) lo count ()).eval fails s = some ((), s') ∧ Shrunk s s' ∧
      ∀ q, lo ≤ q → q < lo + count → s'.objAt (slotOf q) = none := by
  induction count generalizing lo s with
  | zero => exact ⟨s, rfl, .refl sound, fun q low high => by omega⟩
  | succ count ih =>
    obtain ⟨mid, ran, cleared⟩ := clear_run fails sound (slotOf lo)
    obtain ⟨s', ran', shrunk, empty⟩ := ih (lo + 1) cleared.sound
    refine ⟨s', ?_, cleared.shrunk.trans shrunk, fun q low high => ?_⟩
    · rw [Program.fold, Program.eval_bind, ran]
      exact ran'
    · rcases Nat.eq_or_lt_of_le low with rfl | later
      · exact shrunk.objAt _ (by rw [cleared.objAt, Function.update_self])
      · exact empty q later (by omega)

theorem stop_run (fails : PfFails) (sound : Sound s) : ∃ s', onicStopNetdev.eval fails s = some ((), s') ∧ Shrunk s s' ∧
    ∀ slot, s'.objAt slot = none := by
  obtain ⟨mid, ran, shrunk, emptyTx⟩ := clearAll_run fails .tx 0 s.numTxQueues sound
  obtain ⟨s', ran', shrunk', emptyRx⟩ := clearAll_run fails .rx 0 mid.numRxQueues shrunk.sound
  refine ⟨s', ?_, shrunk.trans shrunk', fun slot => ?_⟩
  · have tx : (Program.fold (fun qid _ => onicClearTxQueue qid) 0 s.numTxQueues ()).eval fails s = some ((), mid) := ran
    have rx : (Program.fold (fun qid _ => onicClearRxQueue qid) 0 mid.numRxQueues ()).eval fails mid = some ((), s') := ran'
    simp only [onicStopNetdev, Program.eval_bind, Program.eval_read, Option.bind_some, tx, rx]
  · by_contra set
    have used := shrunk'.sound.used slot set
    rw [shrunk'.same.used] at used
    cases slot with
    | tx qid =>
      have below := shrunk.same.used.mp used
      exact set (shrunk'.objAt _ (emptyTx qid (Nat.zero_le _) (by rw [Nat.zero_add]; exact below)))
    | rx qid => exact set (emptyRx qid (Nat.zero_le _) (by rw [Nat.zero_add]; exact used))

/-- The steps of `onic_open_netdev`, in order. -/
def PfNetdev.openSteps (s : PfNetdev) : List PfStep :=
  ((List.range' 0 s.numTxQueues).map PfSlot.tx).flatMap PfSlot.steps ++
    ((List.range' 0 s.numRxQueues).map PfSlot.rx).flatMap PfSlot.steps

/-- What `onic_open_netdev` leaves. -/
structure Opened (fails : PfFails) (rv : Int) (s s' : PfNetdev) : Prop where
  sound : Sound s'
  same : Same s s'
  fine : failing fails s.openSteps = none → rv = 0 ∧ ∀ slot, slot.Used s' → s'.objAt slot ≠ none
  failed : ∀ st, failing fails s.openSteps = some st → rv < 0 ∧ (∀ slot, s'.objAt slot = none) ∧
    (st.allocatesQueue = true → Covered s.next s') ∧ (st.allocatesQueue = false → Lost s.next s')

theorem open_run (fails : PfFails) (sound : Sound s) : ∃ rv s', onicOpenNetdev.eval fails s = some (rv, s') ∧ Opened fails rv s s' := by
  have start : Covered s.next s := fun res late here => absurd (sound.young res here) (by omega)
  obtain ⟨rv, mid, ran, ended⟩ := initResource_run fails .tx 0 s.numTxQueues sound (fun q low => by rwa [Nat.zero_add] at low) (Nat.le_refl s.next)
  have tx : onicInitTxResource.eval fails s = some (rv, mid) := ran
  obtain ⟨rv', last, ran', ended'⟩ := initResource_run fails .rx 0 mid.numRxQueues ended.sound
    (fun q low => by rwa [Nat.zero_add] at low)
    ended.same.next
  have rx : onicInitRxResource.eval fails mid = some (rv', last) := ran'
  have numRx : mid.numRxQueues = s.numRxQueues := ended.same.numRxQueues
  have steps : s.openSteps = ((List.range' 0 s.numTxQueues).map PfSlot.tx).flatMap PfSlot.steps ++
      ((List.range' 0 mid.numRxQueues).map PfSlot.rx).flatMap PfSlot.steps := by rw [numRx]; rfl
  rw [onicOpenNetdev, Program.eval_bind, tx, Option.bind_some]
  cases first : failing fails (((List.range' 0 s.numTxQueues).map PfSlot.tx).flatMap PfSlot.steps) with
  | none =>
    obtain ⟨rfl, covered, set, kept⟩ := ended.fine first
    rw [if_neg (by simp), Program.eval_bind, rx, Option.bind_some]
    cases second : failing fails (((List.range' 0 mid.numRxQueues).map PfSlot.rx).flatMap PfSlot.steps) with
    | none =>
      obtain ⟨rfl, covered', set', kept'⟩ := ended'.fine second
      refine ⟨0, last, rfl, ended'.sound, ended.same.trans ended'.same, fun _ => ⟨rfl, fun slot used => ?_⟩, fun st found => ?_⟩
      · cases slot with
        | tx qid =>
          have below : qid < s.numTxQueues := ended.same.used.mp (ended'.same.used.mp used)
          exact kept' _ (set _ (List.mem_map_of_mem (by simp [below])))
        | rx qid =>
          have below : qid < mid.numRxQueues := ended'.same.used.mp used
          exact set' _ (List.mem_map_of_mem (by simp [below]))
      · rw [steps, failing_append, first, Option.none_or, second] at found
        cases found
    | some st =>
      have negative : rv' < 0 := by
        cases allocates : st.allocatesQueue with
        | true => exact (ended'.object st second allocates).1
        | false => exact (ended'.part st second allocates).1
      obtain ⟨s', stopped, shrunk, empty⟩ := stop_run fails ended'.sound
      refine ⟨rv', s', ?_, shrunk.sound, (ended.same.trans ended'.same).trans shrunk.same, ?_, ?_⟩
      · rw [if_pos negative, Program.eval_bind, stopped]
        rfl
      all_goals rw [steps, failing_append, first, Option.none_or, second]
      · intro none
        cases none
      · rintro st' ⟨⟩
        refine ⟨negative, empty, fun allocates => ?_, fun allocates => ?_⟩
        · exact shrunk.covered _ ((ended'.object st second allocates).2 (covered start))
        · exact shrunk.lost _ (ended'.part st second allocates).2
  | some st =>
    have negative : rv < 0 := by
      cases allocates : st.allocatesQueue with
      | true => exact (ended.object st first allocates).1
      | false => exact (ended.part st first allocates).1
    obtain ⟨s', stopped, shrunk, empty⟩ := stop_run fails ended.sound
    refine ⟨rv, s', ?_, shrunk.sound, ended.same.trans shrunk.same, ?_, ?_⟩
    · rw [if_pos negative, Program.eval_bind, stopped]
      rfl
    all_goals rw [steps, failing_append, first, Option.some_or]
    · intro none
      cases none
    · rintro st' ⟨⟩
      refine ⟨negative, empty, fun allocates => ?_, fun allocates => ?_⟩
      · exact shrunk.covered _ ((ended.object st first allocates).2 start)
      · exact shrunk.lost _ (ended.part st first allocates).2

end

end OpenNic
