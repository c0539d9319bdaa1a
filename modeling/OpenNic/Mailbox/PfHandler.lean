import OpenNic.Mailbox.PfDriver
import OpenNic.Program.RelyGuarantee
import Mathlib.Data.List.Forall2

namespace OpenNic

def responseOpcode (opcode : Word) : Word :=
  if opcode = opConfigQueue then opConfigQueueResp
  else if opcode = opClearQueue then opClearQueueResp
  else opQueueResResp

def OnicVfResource.qres (res : OnicVfResource) : QueueRes :=
  ⟨res.funcId.setWidth 32, res.qbase.setWidth 32, res.qmax.setWidth 32, res.mac⟩

/-- The message answers this very request. -/
structure AnswerTo (x : Executed) (resp : Msg) : Prop where
  seq : resp.seq = x.req.seq
  opcode : resp.opcode = responseOpcode x.req.opcode
  queue : x.req.opcode = opConfigQueue ∨ x.req.opcode = opClearQueue →
    resp.qid = x.req.qid ∧ resp.dir = x.req.dir
  granted : resp.opcode = opQueueResResp → resp.status = stsOk → x.req.opcode = opGetQueueRes ∧
    ∃ res, onicPfMboxFindVfResource x.vfs (x.src.setWidth 16) = some res ∧ resp.qres = res.qres

theorem AnswerTo.error {x : Executed} {resp : Msg} (seq : resp.seq = x.req.seq)
    (opcode : resp.opcode = opQueueResResp) (status : resp.status = stsErr)
    (other : x.req.opcode ≠ opConfigQueue ∧ x.req.opcode ≠ opClearQueue) : AnswerTo x resp := by
  refine ⟨seq, ?_, ?_, ?_⟩
  · simp [responseOpcode, other.1, other.2, opcode]
  · intro queue
    rcases queue with config | clear
    · exact absurd config other.1
    · exact absurd clear other.2
  · intro _ ok
    rw [status] at ok
    exact absurd ok (by decide)

/-- A queue response, whatever its status came to be. -/
theorem AnswerTo.queueCmd {x : Executed} {resp : Msg} (seq : resp.seq = x.req.seq)
    (opcode : resp.opcode = responseOpcode x.req.opcode) (not_res : resp.opcode ≠ opQueueResResp)
    (queue : resp.qid = x.req.qid ∧ resp.dir = x.req.dir) : AnswerTo x resp :=
  ⟨seq, opcode, fun _ => queue, fun is => absurd is not_res⟩

theorem onicPfMboxConfigQueue_answers (x : Executed) (op : x.req.opcode = opConfigQueue) (mapped : Bool) :
    (onicPfMboxConfigQueue mapped x.vfs (x.src.setWidth 16) x.req).Results fun r => AnswerTo x r.2 := by
  have answer : AnswerTo x (onicPfMboxInitQueueCmdResp opConfigQueueResp x.req.seq x.req.qcfg.qid
      x.req.qcfg.dir) := by
    refine .queueCmd ?_ ?_ ?_ ⟨?_, ?_⟩
    · simp [onicPfMboxInitQueueCmdResp, Msg.seq, Msg.set, Function.update]
    · simp [onicPfMboxInitQueueCmdResp, Msg.opcode, Msg.set, Function.update, responseOpcode, ← op]
    · simp [onicPfMboxInitQueueCmdResp, Msg.opcode, Msg.set, Function.update, opConfigQueueResp,
        opQueueResResp]
    · simp [onicPfMboxInitQueueCmdResp, Msg.qid, Msg.set, Function.update, Msg.qcfg]
    · simp [onicPfMboxInitQueueCmdResp, Msg.dir, Msg.set, Function.update, Msg.qcfg]
  have finished (err : Int) : AnswerTo x (okUnless (onicPfMboxInitQueueCmdResp opConfigQueueResp x.req.seq
      x.req.qcfg.qid x.req.qcfg.dir) err).2 := by
    simp only [okUnless]
    split
    · refine .queueCmd ?_ ?_ ?_ ⟨?_, ?_⟩
      · simpa [Msg.seq, Msg.set] using answer.seq
      · simpa [Msg.opcode, Msg.set] using answer.opcode
      · simp [onicPfMboxInitQueueCmdResp, Msg.opcode, Msg.set, Function.update, opConfigQueueResp,
          opQueueResResp]
      · simpa [Msg.qid, Msg.set] using (answer.queue (.inl op)).1
      · simpa [Msg.dir, Msg.set] using (answer.queue (.inl op)).2
    · exact answer
  simp only [onicPfMboxConfigQueue]
  split
  · exact answer
  · split
    · exact answer
    · split
      · exact answer
      · split
        · exact answer
        · split
          · exact .map finished
          · split
            · split
              · exact answer
              · split
                · exact answer
                · exact .map finished
            · exact answer

theorem onicPfMboxClearQueue_answers (x : Executed) (op : x.req.opcode = opClearQueue) (mapped : Bool) :
    (onicPfMboxClearQueue mapped x.vfs (x.src.setWidth 16) x.req).Results fun r => AnswerTo x r.2 := by
  have answer : AnswerTo x (onicPfMboxInitQueueCmdResp opClearQueueResp x.req.seq x.req.qid x.req.dir) ∧
      AnswerTo x ((onicPfMboxInitQueueCmdResp opClearQueueResp x.req.seq x.req.qid x.req.dir).set 1 stsOk) := by
    have op' : responseOpcode (x.req 0) = opClearQueueResp := by
      rw [show x.req 0 = opClearQueue from op]
      decide
    constructor <;> refine .queueCmd ?_ ?_ ?_ ⟨?_, ?_⟩ <;>
      simp [onicPfMboxInitQueueCmdResp, Msg.seq, Msg.opcode, Msg.qid, Msg.dir, Msg.set, Function.update, op',
        opClearQueueResp, opQueueResResp]
  simp only [onicPfMboxClearQueue]
  split
  · exact answer.1
  · split
    · exact answer.1
    · split
      · exact (Program.Results.trivial _).bind fun _ _ => answer.2
      · split
        · exact (Program.Results.trivial _).bind fun _ _ => answer.2
        · exact answer.1

theorem makeQueueResResp_answers (x : Executed) (op : x.req.opcode = opGetQueueRes) :
    AnswerTo x (onicPfMboxMakeQueueResResp x.vfs (x.src.setWidth 16) x.req.seq).2 := by
  have other : x.req.opcode ≠ opConfigQueue ∧ x.req.opcode ≠ opClearQueue := by
    rw [op]
    decide
  simp only [onicPfMboxMakeQueueResResp]
  split
  · refine .error ?_ ?_ ?_ other <;> simp [Msg.seq, Msg.opcode, Msg.status, Msg.set, Function.update]
  · rename_i res found
    refine ⟨?_, ?_, fun queue => ?_, fun _ _ => ⟨op, res, found, Msg.qres_setQres _ _⟩⟩
    · simp [Msg.seq, Msg.setQres, Msg.set, Function.update]
    · rw [responseOpcode, if_neg other.1, if_neg other.2]
      simp [Msg.opcode, Msg.setQres, Msg.set, Function.update]
    · rcases queue with config | clear
      · exact absurd config other.1
      · exact absurd clear other.2

theorem handleRequest_answers (x : Executed) (mapped : Bool) :
    (handleRequest mapped x.vfs (x.src.setWidth 16) x.req).Results fun r => AnswerTo x r.2 := by
  simp only [handleRequest]
  split
  · rename_i get
    split
    · refine AnswerTo.error ?_ ?_ ?_ (by rw [get]; decide) <;>
        simp [Msg.seq, Msg.opcode, Msg.status, Msg.set, Function.update]
    · exact makeQueueResResp_answers x get
  · split
    · rename_i op
      exact onicPfMboxConfigQueue_answers x op mapped
    · rename_i not_config
      split
      · rename_i op
        exact onicPfMboxClearQueue_answers x op mapped
      · rename_i not_clear
        refine AnswerTo.error ?_ ?_ ?_ ⟨not_config, not_clear⟩ <;>
          simp [Msg.seq, Msg.opcode, Msg.status, Msg.set, Function.update]

def Executed.request (x : Executed) : FuncId × Msg := (x.src, x.req)

def Answers (x : Executed) (d : Delivered) : Prop := d.dst = x.src ∧ AnswerTo x d.resp

namespace PfSys

/-- Every request that arrived is answered or still in the inbox. -/
structure Settled (s : PfSys) : Prop where
  account : s.arrived.Perm (s.executed.map Executed.request ++ s.requests)
  answered : List.Forall₂ Answers s.executed s.delivered

/-- The oldest request of the source, where the target register points to. -/
structure Selected (src : FuncId) (req : Msg) (s : PfSys) : Prop where
  target : s.targetFn = src
  first : s.requests.find? (fun r => r.1 == src) = some (src, req)

/-- `x` is carried out and its request not yet released. -/
structure Executing (x : Executed) (before : List Executed) (s : PfSys) : Prop where
  selected : Selected x.src x.req s
  free : s.responses x.src = none
  executed : s.executed = before ++ [x]
  account : s.arrived.Perm (before.map Executed.request ++ s.requests)
  answered : List.Forall₂ Answers before s.delivered

/-- `x` is carried out and released; its answer is due. -/
structure Released (x : Executed) (before : List Executed) (s : PfSys) : Prop where
  target : s.targetFn = x.src
  free : s.responses x.src = none
  executed : s.executed = before ++ [x]
  account : s.arrived.Perm (s.executed.map Executed.request ++ s.requests)
  answered : List.Forall₂ Answers before s.delivered

def Staged (s : PfSys) : Prop :=
  Settled s ∨ (∃ x before, Executing x before s) ∨ ∃ x before, Released x before s

/-- Outside the handler no request is half done. -/
structure Accounted (s : PfSys) : Prop where
  idle : s.inside = [] → Settled s
  staged : Staged s

/-- What a thread inside the handler has to itself. -/
structure Undisturbed (s s' : PfSys) : Prop where
  target : s'.targetFn = s.targetFn
  out : s'.outMsg = s.outMsg
  executed : s'.executed = s.executed
  delivered : s'.delivered = s.delivered
  requests : ∃ new, s'.requests = s.requests ++ new ∧ s'.arrived = s.arrived ++ new
  responses : ∀ f, s.responses f = none → s'.responses f = none

theorem Undisturbed.refl (s : PfSys) : Undisturbed s s :=
  ⟨rfl, rfl, rfl, rfl, ⟨[], by simp⟩, fun _ none => none⟩

theorem Undisturbed.trans {a b c : PfSys} (h : Undisturbed a b) (h' : Undisturbed b c) :
    Undisturbed a c := by
  obtain ⟨new, requests, arrived⟩ := h.requests
  obtain ⟨new', requests', arrived'⟩ := h'.requests
  refine ⟨h'.target.trans h.target, h'.out.trans h.out, h'.executed.trans h.executed,
    h'.delivered.trans h.delivered, ⟨new ++ new', ?_, ?_⟩, fun f none => h'.responses f (h.responses f none)⟩
  · rw [requests', requests, List.append_assoc]
  · rw [arrived', arrived, List.append_assoc]

/-- Stages that others cannot take from the thread inside. -/
def Kept (Q : PfSys → Prop) : Prop := ∀ s s', Q s → Undisturbed s s' → Q s'

theorem kept_and {Q Q' : PfSys → Prop} (h : Kept Q) (h' : Kept Q') : Kept fun s => Q s ∧ Q' s :=
  fun s s' holds between => ⟨h s s' holds.1 between, h' s s' holds.2 between⟩

theorem kept_exists {α : Sort*} {Q : α → PfSys → Prop} (h : ∀ x, Kept (Q x)) : Kept fun s => ∃ x, Q x s :=
  fun s s' ⟨x, holds⟩ between => ⟨x, h x s s' holds between⟩

theorem kept_settled : Kept Settled := by
  intro s s' settled between
  obtain ⟨new, requests, arrived⟩ := between.requests
  constructor
  · rw [arrived, requests, between.executed, ← List.append_assoc]
    exact settled.account.append_right new
  · rw [between.executed, between.delivered]
    exact settled.answered

theorem kept_selected (src : FuncId) (req : Msg) : Kept (Selected src req) := by
  intro s s' selected between
  obtain ⟨new, requests, -⟩ := between.requests
  refine ⟨between.target.trans selected.target, ?_⟩
  rw [requests, List.find?_append, selected.first]
  rfl

theorem kept_free (f : FuncId) : Kept fun s => s.responses f = none :=
  fun _ _ free between => between.responses f free

theorem kept_executing (x : Executed) (before : List Executed) : Kept (Executing x before) := by
  intro s s' stage between
  obtain ⟨new, requests, arrived⟩ := between.requests
  refine ⟨kept_selected _ _ s s' stage.selected between, between.responses _ stage.free,
    between.executed.trans stage.executed, ?_, ?_⟩
  · rw [arrived, requests, ← List.append_assoc]
    exact stage.account.append_right new
  · rw [between.delivered]
    exact stage.answered

theorem kept_released (x : Executed) (before : List Executed) : Kept (Released x before) := by
  intro s s' stage between
  obtain ⟨new, requests, arrived⟩ := between.requests
  refine ⟨between.target.trans stage.target, between.responses _ stage.free,
    between.executed.trans stage.executed, ?_, ?_⟩
  · rw [arrived, requests, between.executed, ← List.append_assoc]
    exact stage.account.append_right new
  · rw [between.delivered]
    exact stage.answered

theorem kept_staged : Kept Staged := by
  intro s s' staged between
  rcases staged with settled | ⟨x, before, executing⟩ | ⟨x, before, released⟩
  · exact .inl (kept_settled s s' settled between)
  · exact .inr (.inl ⟨x, before, kept_executing x before s s' executing between⟩)
  · exact .inr (.inr ⟨x, before, kept_released x before s s' released between⟩)

theorem Accounted.undisturbed {s s' : PfSys} (h : Accounted s) (inside : s'.inside = s.inside)
    (between : Undisturbed s s') : Accounted s' :=
  ⟨fun idle => kept_settled s s' (h.idle (inside ▸ idle)) between, kept_staged s s' h.staged between⟩

theorem perm_eraseP_of_find {α : Type} {p : α → Bool} {l : List α} {a : α} (found : l.find? p = some a) :
    l.Perm (a :: l.eraseP p) := by
  induction l with
  | nil => cases found
  | cons b l ih =>
    cases here : p b with
    | true =>
      have same : b = a := by simpa [here] using found
      subst same
      simp [here]
    | false =>
      have later : l.find? p = some a := by simpa [here] using found
      rw [List.eraseP_cons_of_neg (by simp [here])]
      exact ((ih later).cons b).trans (.swap a b _)

/-- RCV takes the selected request out of the inbox and nothing else. -/
theorem Executing.receive {x : Executed} {before : List Executed} {s : PfSys}
    (stage : Executing x before s) : Released x before s.receive := by
  have split : s.requests.Perm (x.request :: s.receive.requests) := by
    simp only [PfSys.receive, stage.selected.target]
    exact perm_eraseP_of_find stage.selected.first
  refine ⟨stage.selected.target, stage.free, stage.executed, ?_, stage.answered⟩
  have moved : s.receive.executed = s.executed := rfl
  rw [moved, stage.executed, List.map_append, List.append_assoc]
  exact stage.account.trans (split.append_left _)

end PfSys

open PfSys

/-- While a thread is inside the handler nobody else touches what it works on. -/
def pfRely (u : PfThread) (s s' : PfSys) : Prop :=
  (u ∈ s'.inside ↔ u ∈ s.inside) ∧ (u ∈ s.inside → Undisturbed s s')

/-- The contract of a mailbox thread in the runs where the threads do not meet
    inside the handler. -/
def pfContract (u : PfThread) : Contract PfSys where
  ok s := s.inside.length ≤ 1
  inv := Accounted
  rely := pfRely u
  guarantee s s' := ∀ v, v ≠ u → pfRely v s s'
  rely_refl s := ⟨Iff.rfl, fun _ => .refl s⟩
  rely_trans h h' := ⟨h'.1.trans h.1, fun inside => (h.2 inside).trans (h'.2 (h.1.mpr inside))⟩
  guarantee_refl s _ _ := ⟨Iff.rfl, fun _ => .refl s⟩

section

variable {u : PfThread} {α β : Type}

/-- The thread is inside the handler, in a stage it has to itself. -/
def Holding (u : PfThread) (Q : PfSys → Prop) (s : PfSys) : Prop := s.inside = [u] ∧ Q s

theorem stable_holding {Q : PfSys → Prop} (kept : Kept Q) : (pfContract u).Stable (Holding u Q) := by
  rintro s s' ⟨inside, holds⟩ ⟨same, between⟩ ok _
  have here : u ∈ s.inside := by simp [inside]
  have still := same.mpr here
  refine ⟨?_, kept s s' holds (between here)⟩
  cases list : s'.inside with
  | nil => simp [list] at still
  | cons v rest =>
    have short : rest = [] := by simpa [pfContract, list] using ok
    subst short
    simpa [list, eq_comm] using still

theorem stable_outside : (pfContract u).Stable fun s => u ∉ s.inside :=
  fun _ _ outside between _ _ => fun inside => outside (between.1.mp inside)

/-- A step of the thread inside only owes its own stage. -/
theorem holding_access {Q : PfSys → Prop} {act : Input → PfSys → Option (α × PfSys)}
    {R : α → PfSys → Prop} (kept : Kept Q) (kept' : ∀ a, Kept (R a))
    (h : ∀ s i a s', Q s → act i s = some (a, s') → s'.inside = s.inside ∧ Staged s' ∧ R a s') :
    (pfContract u).Triple (Holding u Q) (.access act) fun a => Holding u (R a) := by
  apply Contract.Triple.access (stable_holding kept) fun a => stable_holding (kept' a)
  rintro s i a s' - - ⟨inside, holds⟩ taken -
  obtain ⟨same, staged, after⟩ := h s i a s' holds taken
  refine ⟨⟨fun idle => ?_, staged⟩, fun v other => ⟨by rw [same], fun mem => ?_⟩, ?_, after⟩
  · rw [same, inside] at idle
    cases idle
  · rw [inside, List.mem_singleton] at mem
    exact absurd mem other
  · rw [same, inside]

theorem holding_modify {Q : PfSys → Prop} {f : PfSys → PfSys} {R : PfSys → Prop} (kept : Kept Q)
    (kept' : Kept R) (h : ∀ s, Q s → (f s).inside = s.inside ∧ Staged (f s) ∧ R (f s)) :
    (pfContract u).Triple (Holding u Q) (.modify f : Program PfSys Input Unit) fun _ => Holding u R := by
  apply holding_access kept fun _ => kept'
  intro s _ _ s' holds taken
  obtain rfl : f s = s' := by simpa using taken
  exact h s holds

theorem holding_read {Q : PfSys → Prop} {f : PfSys → α} {R : α → PfSys → Prop} (kept : Kept Q)
    (kept' : ∀ a, Kept (R a)) (h : ∀ s, Q s → Staged s ∧ R (f s) s) :
    (pfContract u).Triple (Holding u Q) (.read f : Program PfSys Input α) fun a => Holding u (R a) := by
  apply holding_access kept kept'
  intro s _ a s' holds taken
  obtain ⟨rfl, rfl⟩ : f s = a ∧ s = s' := by simpa using taken
  exact ⟨rfl, h s holds⟩

theorem holding_done {Q : PfSys → Prop} {a : α} {R : α → PfSys → Prop} (kept : Kept Q)
    (h : ∀ s, Q s → R a s) :
    (pfContract u).Triple (Holding u Q) (.done a : Program PfSys Input α) fun a => Holding u (R a) :=
  .done (stable_holding kept) fun s _ ⟨inside, holds⟩ => ⟨inside, h s holds⟩

/-- Ready to read the request of `src`. -/
def Ready (src : FuncId) (req : Msg) (s : PfSys) : Prop :=
  Settled s ∧ Selected src req s ∧ s.responses src = none

theorem kept_ready (src : FuncId) (req : Msg) : Kept (Ready src req) :=
  kept_and kept_settled (kept_and (kept_selected src req) (kept_free src))

theorem onicPfMboxReadMsg_triple (src : FuncId) (req : Msg) :
    (pfContract u).Triple (Holding u (Ready src req)) onicPfMboxReadMsg
      fun msg => Holding u fun s => Ready src req s ∧ msg = req := by
  have kept (n : Nat) (msg : Msg) :
      Kept fun s => Ready src req s ∧ ∀ i : Fin 32, i.val < n → msg i = req i :=
    kept_and (kept_ready src req) fun _ _ h _ => h
  have loop : (pfContract u).Triple
      (Holding u fun s => Ready src req s ∧ ∀ i : Fin 32, i.val < 0 → Msg.zero i = req i) onicPfMboxReadMsg
      fun msg => Holding u fun s => Ready src req s ∧ ∀ i : Fin 32, i.val < 0 + 32 → msg i = req i := by
    apply Contract.Triple.fold (I := fun n (msg : Msg) =>
      Holding u fun s => Ready src req s ∧ ∀ i : Fin 32, i.val < n → msg i = req i)
    · exact fun n msg => stable_holding (kept n msg)
    · intro n msg _ less
      apply Contract.Triple.bind (M := fun word => Holding u fun s =>
        (Ready src req s ∧ ∀ i : Fin 32, i.val < n → msg i = req i) ∧ word = req (Fin.ofNat 32 n))
      · apply holding_access (kept n msg) fun word => kept_and (kept n msg) fun _ _ h _ => h
        intro s i word s' holds taken
        have shown : s.inMsg = some req := by
          simp [PfSys.inMsg, holds.1.2.1.target, holds.1.2.1.first]
        simp only [shown, Option.some.injEq, Prod.mk.injEq] at taken
        obtain ⟨rfl, rfl⟩ := taken
        exact ⟨rfl, .inl holds.1.1, holds, rfl⟩
      · intro word
        apply holding_done (kept_and (kept n msg) fun _ _ h _ => h)
        rintro s ⟨⟨ready, before⟩, rfl⟩
        refine ⟨ready, fun i small => ?_⟩
        by_cases here : i = Fin.ofNat 32 n
        · simp [Msg.set, here]
        · have apart : i.val ≠ n := by
            rintro rfl
            exact here (by simp)
          simpa only [Msg.set, Function.update_of_ne here] using before i (by omega)
  apply loop.conseq
  · rintro s - ⟨inside, ready⟩
    exact ⟨inside, ready, fun i less => absurd less (Nat.not_lt_zero _)⟩
  · rintro msg s - ⟨inside, ready, all⟩
    exact ⟨inside, ready, funext fun i => all i (by omega)⟩

theorem execute_triple (src : FuncId) (req : Msg) :
    (pfContract u).Triple (Holding u (Ready src req)) (PfMbox.execute src req)
      fun vfs => Holding u fun s => ∃ before, Executing ⟨src, req, vfs⟩ before s := by
  apply holding_access (kept_ready src req) fun vfs => kept_exists fun before => kept_executing _ before
  rintro s _ vfs s' ⟨settled, selected, free⟩ taken
  obtain ⟨rfl, rfl⟩ : s.vfs = vfs ∧ { s with executed := s.executed ++ [⟨src, req, s.vfs⟩] } = s' := by
    simpa using taken
  have stage : Executing ⟨src, req, s.vfs⟩ s.executed
      { s with executed := s.executed ++ [⟨src, req, s.vfs⟩] } :=
    ⟨⟨selected.target, selected.first⟩, free, rfl, settled.account, settled.answered⟩
  exact ⟨rfl, .inr (.inl ⟨_, _, stage⟩), s.executed, stage⟩

theorem onEngine_triple {Q : PfSys → Prop} {p : Program CtxtEngine Input α} {P : α → Prop}
    (results : p.Results P) (kept : Kept Q) (staged : ∀ s, Q s → Staged s)
    (frame : ∀ e s, Q s → Q { s with engine := e }) :
    (pfContract u).Triple (Holding u Q) (onEngine p) fun a => Holding u fun s => P a ∧ Q s := by
  have lifted : (pfContract u).Triple (Holding u Q) (onEngine p) fun a s => P a ∧ Holding u Q s := by
    apply Contract.Triple.lift results (stable_holding kept)
    rintro e s - - ⟨inside, holds⟩
    have holds' := frame e s holds
    refine ⟨⟨fun idle => ?_, staged _ holds'⟩, fun v other => ⟨Iff.rfl, fun mem => ?_⟩, inside, holds'⟩
    · rw [show s.inside = [] from idle] at inside
      cases inside
    · rw [inside, List.mem_singleton] at mem
      exact absurd mem other
  exact lifted.conseq (fun _ _ h => h) fun a s _ ⟨result, inside, holds⟩ => ⟨inside, result, holds⟩

/-- The window of the source holds the message as far as it is written. -/
def Written (x : Executed) (resp : Msg) (n : Nat) (s : PfSys) : Prop :=
  (∃ before, Released x before s) ∧ ∀ i : Fin 32, i.val < n → s.outMsg x.src i = resp i

theorem kept_written (x : Executed) (resp : Msg) (n : Nat) : Kept (Written x resp n) := by
  apply kept_and (kept_exists fun before => kept_released x before)
  intro s s' holds between i less
  rw [between.out]
  exact holds i less

theorem onicPfMboxWriteMsg_triple (x : Executed) (resp : Msg) :
    (pfContract u).Triple (Holding u fun s => ∃ before, Released x before s) (onicPfMboxWriteMsg resp)
      fun _ => Holding u (Written x resp 32) := by
  have loop : (pfContract u).Triple (Holding u (Written x resp 0)) (onicPfMboxWriteMsg resp)
      fun _ => Holding u (Written x resp (0 + 32)) := by
    apply Contract.Triple.fold (I := fun n (_ : Unit) => Holding u (Written x resp n))
    · exact fun n _ => stable_holding (kept_written x resp n)
    · intro n _ _ less
      apply holding_modify (kept_written x resp n) (kept_written x resp (n + 1))
      rintro s ⟨⟨before, stage⟩, written⟩
      have stage' : Released x before { s with
          outMsg := Function.update s.outMsg s.targetFn
            ((s.outMsg s.targetFn).set (Fin.ofNat 32 n) (resp (Fin.ofNat 32 n))) } :=
        ⟨stage.target, stage.free, stage.executed, stage.account, stage.answered⟩
      refine ⟨rfl, .inr (.inr ⟨x, before, stage'⟩), ⟨before, stage'⟩, fun i small => ?_⟩
      simp only [stage.target, Function.update_self]
      by_cases here : i = Fin.ofNat 32 n
      · simp [Msg.set, here]
      · have apart : i.val ≠ n := by
          rintro rfl
          exact here (by simp)
        simpa only [Msg.set, Function.update_of_ne here] using written i (by omega)
  apply loop.conseq
  · rintro s - ⟨inside, stage⟩
    exact ⟨inside, stage, fun i less => absurd less (Nat.not_lt_zero _)⟩
  · exact fun _ _ _ h => h

/-- SEND delivers the written answer to the source of the request. -/
theorem writeCmdSend_triple (x : Executed) (resp : Msg) (answer : AnswerTo x resp) :
    (pfContract u).Triple (Holding u (Written x resp 32)) PfMbox.writeCmdSend
      fun _ => Holding u Settled := by
  apply holding_modify (kept_written x resp 32) kept_settled
  rintro s ⟨⟨before, stage⟩, written⟩
  have whole : s.outMsg x.src = resp := funext fun i => written i i.isLt
  have sent : s.send = { s with
      responses := Function.update s.responses x.src (some resp)
      delivered := s.delivered ++ [⟨x.src, resp⟩] } := by
    rw [PfSys.send, stage.target, if_pos stage.free, whole]
  have settled : Settled s.send := by
    rw [sent]
    refine ⟨stage.account, ?_⟩
    rw [stage.executed]
    exact List.rel_append stage.answered (.cons ⟨rfl, answer⟩ .nil)
  exact ⟨by rw [sent], .inl settled, settled⟩

theorem answerRequest_triple (src : FuncId) (req : Msg) :
    (pfContract u).Triple (Holding u (Ready src req)) (answerRequest src)
      fun _ => Holding u Settled := by
  apply Contract.Triple.bind (onicPfMboxReadMsg_triple src req)
  intro msg
  by_cases same : msg = req
  · subst same
    have drop : (pfContract u).Triple (Holding u fun s => Ready src msg s ∧ msg = msg)
        (PfMbox.execute src msg) fun vfs => Holding u fun s => ∃ before, Executing ⟨src, msg, vfs⟩ before s :=
      (execute_triple src msg).conseq (fun s _ ⟨inside, ready, _⟩ => ⟨inside, ready⟩) fun _ _ _ h => h
    apply Contract.Triple.bind drop
    intro vfs
    have kept : Kept fun s => ∃ before, Executing ⟨src, msg, vfs⟩ before s :=
      kept_exists fun before => kept_executing _ before
    apply Contract.Triple.bind (onEngine_triple (handleRequest_answers ⟨src, msg, vfs⟩ true) kept
      (fun s ⟨before, stage⟩ => .inr (.inl ⟨_, before, stage⟩))
      fun e s ⟨before, stage⟩ => ⟨before, ⟨stage.selected.target, stage.selected.first⟩, stage.free,
        stage.executed, stage.account, stage.answered⟩)
    rintro ⟨err, resp⟩
    by_cases answer : AnswerTo ⟨src, msg, vfs⟩ resp
    · apply Contract.Triple.bind (M := fun _ => Holding u fun s =>
        ∃ before, Released ⟨src, msg, vfs⟩ before s)
      · apply holding_modify (kept_and (fun _ _ h _ => h) kept) (kept_exists fun before => kept_released _ before)
        rintro s ⟨-, before, stage⟩
        exact ⟨rfl, .inr (.inr ⟨_, before, stage.receive⟩), before, stage.receive⟩
      · intro _
        apply Contract.Triple.bind (onicPfMboxWriteMsg_triple ⟨src, msg, vfs⟩ resp)
        intro _
        apply Contract.Triple.bind (writeCmdSend_triple _ resp answer)
        exact fun _ => holding_done kept_settled fun _ settled => settled
    · exact fun s _ _ ⟨_, is, _⟩ => absurd is answer
  · exact fun s _ _ ⟨_, _, is⟩ => absurd is same

theorem curSrc_selected {s : PfSys} (pending : s.requests ≠ []) :
    ∃ req, s.requests.find? (fun r => r.1 == s.curSrc) = some (s.curSrc, req) := by
  cases list : s.requests with
  | nil => exact absurd list pending
  | cons r rest =>
    refine ⟨r.2, ?_⟩
    simp [PfSys.curSrc, list]

/-- A source that the status register named keeps its oldest request. -/
theorem kept_pending (src : FuncId) :
    Kept fun s => ∃ req, s.requests.find? (fun r => r.1 == src) = some (src, req) := by
  rintro s s' ⟨req, first⟩ between
  obtain ⟨new, requests, -⟩ := between.requests
  exact ⟨req, by rw [requests, List.find?_append, first]; rfl⟩

theorem onicPfMboxProcessOne_triple :
    (pfContract u).Triple (Holding u Settled) onicPfMboxProcessOne fun _ => Holding u Settled := by
  have finish (ret : Int) : (pfContract u).Triple (Holding u Settled) (.done ret : Program PfSys Input Int)
      fun _ => Holding u Settled := holding_done kept_settled fun _ settled => settled
  apply Contract.Triple.bind (holding_read kept_settled (fun _ => kept_settled) fun s settled =>
    ⟨.inl settled, settled⟩)
  intro mapped
  split
  · apply Contract.Triple.bind (M := fun (status : Word) => Holding u fun s => Settled s ∧
      (status.has 0 = true → ∃ req, s.requests.find? (fun r => r.1 == curSrcFn status) =
        some (curSrcFn status, req)))
    · apply holding_read kept_settled
      · intro status
        apply kept_and kept_settled
        intro s s' holds between is
        exact kept_pending _ s s' (holds is) between
      · intro s settled
        refine ⟨.inl settled, settled, fun pending => ?_⟩
        rw [PfSys.mboxSts_iMsg] at pending
        rw [PfSys.curSrcFn_mboxSts]
        exact curSrc_selected (by simpa using pending)
    · intro status
      split
      · exact (finish 0).conseq (fun s _ ⟨inside, settled, _⟩ => ⟨inside, settled⟩) fun _ _ _ h => h
      · rename_i is
        have pending : status.has 0 = true := by simpa using is
        have weaken {p : Program PfSys Input Int} (h : ∀ req, (pfContract u).Triple
            (Holding u fun s => Settled s ∧
              s.requests.find? (fun r => r.1 == curSrcFn status) = some (curSrcFn status, req)) p
            fun _ => Holding u Settled) :
            (pfContract u).Triple (Holding u fun s => Settled s ∧ (status.has 0 = true →
              ∃ req, s.requests.find? (fun r => r.1 == curSrcFn status) =
                some (curSrcFn status, req))) p fun _ => Holding u Settled :=
          (Contract.Triple.exists_pre h).conseq (fun s _ ⟨inside, settled, first⟩ =>
            (first pending).imp fun req is => ⟨inside, settled, is⟩) fun _ _ _ h => h
        apply weaken
        intro req
        have kept_selected' := kept_selected (curSrcFn status) req
        have kept_first : Kept fun s => Settled s ∧
            s.requests.find? (fun r => r.1 == curSrcFn status) = some (curSrcFn status, req) := by
          apply kept_and kept_settled
          intro s s' first between
          obtain ⟨new, requests, -⟩ := between.requests
          rw [requests, List.find?_append, first]
          rfl
        apply Contract.Triple.bind (M := fun _ => Holding u fun s =>
          Settled s ∧ Selected (curSrcFn status) req s)
        · apply holding_modify kept_first (kept_and kept_settled kept_selected')
          rintro s ⟨settled, first⟩
          have settled' : Settled { s with targetFn := curSrcFn status } :=
            ⟨settled.account, settled.answered⟩
          exact ⟨rfl, .inl settled', settled', rfl, first⟩
        · intro _
          apply Contract.Triple.bind (M := fun (status' : Word) => Holding u fun s =>
            (Settled s ∧ Selected (curSrcFn status) req s) ∧
              (status'.has 1 = false → s.responses (curSrcFn status) = none))
          · apply holding_read (kept_and kept_settled kept_selected')
            · intro status'
              apply kept_and (kept_and kept_settled kept_selected')
              intro s s' free between is
              exact kept_free _ s s' (free is) between
            · rintro s ⟨settled, selected⟩
              refine ⟨.inl settled, ⟨settled, selected⟩, fun is => ?_⟩
              rw [PfSys.mboxSts_oMsg, selected.target] at is
              simpa using is
          · intro status'
            split
            · exact (finish (-EBUSY)).conseq (fun s _ ⟨inside, ⟨settled, _⟩, _⟩ => ⟨inside, settled⟩)
                fun _ _ _ h => h
            · rename_i free
              exact (answerRequest_triple (curSrcFn status) req).conseq
                (fun s _ ⟨inside, ⟨settled, selected⟩, is⟩ =>
                  ⟨inside, settled, selected, is (by simpa using free)⟩) fun _ _ _ h => h
  · exact finish (-ENODEV)

def Outside (u : PfThread) (s : PfSys) : Prop := u ∉ s.inside

/-- A thread outside the handler disturbs nobody. -/
theorem outside_access {act : Input → PfSys → Option (α × PfSys)}
    (h : ∀ s i a s', act i s = some (a, s') → s'.inside = s.inside ∧ Undisturbed s s') :
    (pfContract u).Triple (Outside u) (.access act) fun _ => Outside u := by
  apply Contract.Triple.access stable_outside fun _ => stable_outside
  intro s i a s' _ accounted outside taken _
  obtain ⟨same, between⟩ := h s i a s' taken
  refine ⟨accounted.undisturbed same between, fun v _ => ⟨by rw [same], fun _ => between⟩, ?_⟩
  show u ∉ s'.inside
  rw [same]
  exact outside

theorem outside_read (f : PfSys → α) :
    (pfContract u).Triple (Outside u) (.read f : Program PfSys Input α) fun _ => Outside u := by
  apply outside_access
  intro s _ a s' taken
  obtain ⟨-, rfl⟩ : f s = a ∧ s = s' := by simpa using taken
  exact ⟨rfl, .refl s⟩

theorem outside_done (a : α) :
    (pfContract u).Triple (Outside u) (.done a : Program PfSys Input α) fun _ => Outside u :=
  .done stable_outside fun _ _ outside => outside

theorem onicPfMboxProcessAcks_triple :
    (pfContract u).Triple (Outside u) onicPfMboxProcessAcks fun _ => Outside u := by
  apply Contract.Triple.bind (outside_read _)
  intro mapped
  split
  · apply Contract.Triple.bind (outside_read _)
    intro status
    split
    · exact outside_done 0
    · apply Contract.Triple.fold (I := fun _ _ => Outside u)
      · exact fun _ _ => stable_outside
      · intro i processed _ _
        apply Contract.Triple.bind (outside_read _)
        intro ack
        split
        · exact outside_done processed
        · apply Contract.Triple.bind (M := fun _ => Outside u)
          · apply outside_access
            intro s _ _ s' taken
            cases taken
            exact ⟨rfl, rfl, rfl, rfl, rfl, ⟨[], by simp⟩, fun _ free => free⟩
          · exact fun _ => outside_done _
  · exact outside_done (-ENODEV)

/-- In the runs considered a thread enters only when the other is not inside. -/
theorem enter_triple : (pfContract u).Triple (Outside u) (PfMbox.enter u) fun _ => Holding u Settled := by
  apply Contract.Triple.modify stable_outside (stable_holding kept_settled)
  intro s _ accounted _ alone
  have empty : s.inside = [] := by
    have short : s.inside.length + 1 ≤ 1 := alone
    exact List.eq_nil_of_length_eq_zero (by omega)
  have settled := accounted.idle empty
  have settled' : Settled { s with inside := u :: s.inside } := ⟨settled.account, settled.answered⟩
  refine ⟨⟨fun idle => absurd idle (List.cons_ne_nil _ _), .inl settled'⟩, fun v other => ⟨?_, fun mem => ?_⟩, ?_, settled'⟩
  · simp [other]
  · simp [empty] at mem
  · simp [empty]

theorem leave_triple : (pfContract u).Triple (Holding u Settled) (PfMbox.leave u) fun _ => Outside u := by
  apply Contract.Triple.modify (stable_holding kept_settled) stable_outside
  rintro s - - ⟨inside, settled⟩ -
  have settled' : Settled { s with inside := s.inside.erase u } := ⟨settled.account, settled.answered⟩
  refine ⟨⟨fun _ => settled', .inl settled'⟩, fun v other => ⟨?_, fun mem => ?_⟩, ?_⟩
  · simp [inside]
    exact other
  · rw [inside, List.mem_singleton] at mem
    exact absurd mem other
  · simp [inside]

theorem onicPfMboxProcessPending_triple (rounds : Nat) (processed : Int) :
    (pfContract u).Triple (Outside u) (onicPfMboxProcessPending u rounds processed)
      fun _ => Outside u := by
  induction rounds generalizing processed with
  | zero => exact .blocked
  | succ rounds ih =>
    apply Contract.Triple.bind onicPfMboxProcessAcks_triple
    intro acks
    split
    · exact outside_done acks
    · apply Contract.Triple.bind enter_triple
      intro _
      apply Contract.Triple.bind onicPfMboxProcessOne_triple
      intro err
      apply Contract.Triple.bind leave_triple
      intro _
      split
      · exact outside_done err
      · split
        · exact outside_done _
        · exact ih _

end

end OpenNic
