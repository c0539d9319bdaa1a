import OpenNic.Mailbox.VfCommand

namespace OpenNic

/-- What happens to the link besides its threads: the other functions' messages, and
    what the PF does elsewhere. -/
inductive LinkEnv (me : FuncId) (l : Link) : Link → Prop
  | arrive (src : FuncId) (req : Msg) (other : src ≠ me) :
      LinkEnv me l (l.setPf { l.pf with
        requests := l.pf.requests ++ [(src, req)], arrived := l.pf.arrived ++ [(src, req)] })
  | consume (f : FuncId) (other : f ≠ me) :
      LinkEnv me l (l.setPf { l.pf with responses := Function.update l.pf.responses f none })
  | ack (acks : Nat → Word) : LinkEnv me l (l.setPf { l.pf with acks := acks })
  | table (vfs : VfTable) : LinkEnv me l (l.setPf { l.pf with vfs := vfs })
  | contexts (engine : CtxtEngine) : LinkEnv me l (l.setPf { l.pf with engine := engine })

/-- The commands a thread of the VF may give. -/
inductive VfCommand (me : FuncId) (k : Nat) : Program Link Input Int → Prop
  | getQueueResource : VfCommand me k (onicVfMboxGetQueueResource me k)
  | configQueue (cfg : QueueCfg) : VfCommand me k (onicVfMboxConfigQueue me k cfg)
  | clearQueue (qid : BitVec 16) (dir : Word) : VfCommand me k (onicVfMboxClearQueue me k qid dir)

def linkCalls (me : FuncId) : LinkThread → Link → Program Link Input Unit → Prop
  | .pf u, l, p => ∃ q, pfRules.calls u l.pf q ∧ p = q.lift Link.pf Link.setPf
  | .irq, _, p => p = onicVfMboxIrqThread me
  | .cmd k, _, p => ∃ command, VfCommand me k command ∧ p = command >>= fun _ => .done ()

def linkRules (me : FuncId) : Pool.Rules LinkThread Link Input where
  calls := linkCalls me
  env := LinkEnv me

/-- A command that returns 0 was executed and answered with OK under its own sequence
    number, and no other command has that number. -/
structure Agreement (me : FuncId) (l : Link) : Prop where
  agreed : ∀ r ∈ l.vf.returned, r.ret = 0 → r.req ∈ l.vf.sent ∧ Agreed me l.pf r
  numbered : (l.vf.sent.map Msg.seq).Nodup

/-- The link when `mbox_seq` has just been drawn: whatever is in flight does not carry
    one of the next `N` numbers. -/
structure LinkFresh (me : FuncId) (N : Nat) (l : Link) : Prop where
  pf : Fresh l.pf
  requests : ∀ m, (me, m) ∈ l.pf.requests → ¬ InRun l.vf.mboxSeq N m.seq
  response : ∀ m, l.pf.responses me = some m → ¬ InRun l.vf.mboxSeq N m.seq
  sent : l.vf.sent = []
  returned : l.vf.returned = []
  mboxLock : l.vf.mboxLock = none
  mboxResp : l.vf.mboxResp = Msg.zero
  irqInside : l.vf.irqInside = false
  cmdInside : l.vf.cmdInside = false

variable {me : FuncId} {seq0 : Word} {N : Nat}

theorem LinkFresh.inv {l : Link} (fresh : LinkFresh me N l) : LinkInv me l.vf.mboxSeq N l where
  pf := ⟨fun _ => fresh.pf.settled, .inl fresh.pf.settled⟩
  arrived m mem := .inr (fresh.requests m (fresh.pf.arrived ▸ mem))
  inbox m full := .inr (fresh.response m full)
  sent i less := by simp [fresh.sent] at less
  idle _ := ⟨by simp [fresh.sent], fresh.cmdInside⟩
  resp _ _ := .inl fresh.mboxResp
  returned r mem := by simp [fresh.returned] at mem

theorem LinkInv.agreement {l : Link} (inv : LinkInv me seq0 N l) (few : N < 2 ^ 32)
    (bound : l.vf.sent.length ≤ N) : Agreement me l := by
  refine ⟨inv.returned, List.pairwise_map.mpr (List.pairwise_iff_getElem.mpr ?_)⟩
  intro i j less less' order same
  rw [inv.sent i less, inv.sent j less'] at same
  have index := ofNat_add_inj (by omega) (by omega) same
  omega

/-- The PF's handler seen from the link: it adds to the history and to free inboxes. -/
theorem LinkInv.progress {l : Link} {pf : PfSys} (inv : LinkInv me seq0 N l) (accounted : pf.Accounted)
    (progress : Progress l.pf pf) : LinkInv me seq0 N (l.setPf pf) where
  pf := accounted
  arrived m mem := inv.arrived m (progress.arrived ▸ mem)
  inbox m full := by
    rcases progress.added me m full with before | delivered
    · exact (inv.inbox m before).grown progress.grown
    · exact .inl delivered
  sent := inv.sent
  idle := inv.idle
  resp irq cmd := (inv.resp irq cmd).grown progress.grown
  returned r mem ok := ⟨(inv.returned r mem ok).1, (inv.returned r mem ok).2.grown progress.grown⟩

/-- The rest of the link relies on no more of the PF than that its history grows and the
    VF's inbox keeps its message. -/
theorem linkRely_pf {l : Link} {pf : PfSys} (t : LinkThread) (grown : Grown l.pf pf)
    (kept : ∀ m, l.pf.responses me = some m → pf.responses me = some m)
    (handler : ∀ u, t = .pf u → pfRely u l.pf pf) : linkRely me t l (l.setPf pf) := by
  cases t with
  | pf u => exact handler u rfl
  | irq => exact ⟨rfl, grown, fun _ => ⟨rfl, kept⟩⟩
  | cmd k => exact ⟨Iff.rfl, grown, fun _ => ⟨rfl, rfl, rfl, rfl, rfl⟩, fun _ _ => ⟨rfl, kept⟩⟩

theorem LinkEnv.undisturbed {l l' : Link} (happens : LinkEnv me l l') :
    ∃ pf, l' = l.setPf pf ∧ pf.inside = l.pf.inside ∧ PfSys.Undisturbed l.pf pf ∧
      pf.responses me = l.pf.responses me ∧ ∀ m, (me, m) ∈ pf.arrived → (me, m) ∈ l.pf.arrived := by
  cases happens with
  | arrive src req other =>
    refine ⟨_, rfl, rfl, ⟨rfl, rfl, rfl, rfl, ⟨[(src, req)], rfl, rfl⟩, fun _ free => free⟩, rfl, ?_⟩
    intro m mem
    rcases List.mem_append.mp mem with before | last
    · exact before
    · simp [other.symm] at last
  | consume f other =>
    exact ⟨_, rfl, rfl, undisturbed_consume l.pf f, Function.update_of_ne other.symm _ _, fun _ h => h⟩
  | ack acks => exact ⟨_, rfl, rfl, ⟨rfl, rfl, rfl, rfl, ⟨[], by simp⟩, fun _ free => free⟩, rfl, fun _ h => h⟩
  | table vfs => exact ⟨_, rfl, rfl, ⟨rfl, rfl, rfl, rfl, ⟨[], by simp⟩, fun _ free => free⟩, rfl, fun _ h => h⟩
  | contexts engine =>
    exact ⟨_, rfl, rfl, ⟨rfl, rfl, rfl, rfl, ⟨[], by simp⟩, fun _ free => free⟩, rfl, fun _ h => h⟩

theorem LinkInv.env {l l' : Link} (inv : LinkInv me seq0 N l) (happens : LinkEnv me l l') :
    LinkInv me seq0 N l' ∧ ∀ t, linkRely me t l l' := by
  obtain ⟨pf, rfl, inside, between, responses, arrived⟩ := happens.undisturbed
  have grown : Grown l.pf pf :=
    ⟨fun x mem => by rw [between.executed]; exact mem, fun d mem => by rw [between.delivered]; exact mem⟩
  constructor
  · exact {
      pf := inv.pf.undisturbed inside between
      arrived := fun m mem => inv.arrived m (arrived m mem)
      inbox := fun m full => (inv.inbox m (responses ▸ full)).grown grown
      sent := inv.sent
      idle := inv.idle
      resp := fun irq cmd => (inv.resp irq cmd).grown grown
      returned := fun r mem ok => ⟨(inv.returned r mem ok).1, (inv.returned r mem ok).2.grown grown⟩ }
  · intro t
    exact linkRely_pf t grown (fun m full => responses.trans full) fun u _ => ⟨by rw [inside], fun _ => between⟩

def linkIdle : LinkThread → Link → Prop
  | .pf u, l => Outside u l.pf
  | .irq, l => l.vf.irqInside = false
  | .cmd k, l => Idle k l

theorem pfCall_wp {u : PfThread} {q : Program PfSys Input Unit} {l : Link} (called : pfRules.calls u l.pf q)
    (ok : (linkContract me seq0 N (.pf u)).ok l) (inv : LinkInv me seq0 N l) (outside : Outside u l.pf) :
    (linkContract me seq0 N (.pf u)).wp (q.lift Link.pf Link.setPf) (fun _ => linkIdle (.pf u)) l := by
  have steps : q.Steps Progress := by
    obtain ⟨rounds, rfl⟩ := called
    cases u with
    | user => exact onicUserThreadFn_steps rounds
    | error => exact onicErrorThreadFn_steps rounds
  have alone := pfRules_fit.calls u l.pf q called ok.1.1 inv.pf outside
  refine Contract.wp_lift (C := pfContract u) (D := linkContract me seq0 N (.pf u)) (R := Progress)
    (fun _ _ => rfl) (fun _ h => h.1.1) (fun _ h => LinkInv.pf h) (fun _ _ between => between) steps ?_ alone
  intro t pf _ inv' _ accounted guarantee progress
  refine ⟨inv'.progress accounted progress, fun v other => ?_⟩
  exact linkRely_pf v progress.grown (progress.kept me) fun u' is =>
    guarantee u' fun same => other (by rw [is, same])

theorem linkRules_fit (few : N < 2 ^ 32) :
    Pool.Fits (linkRules me) (fun l => Assumed N l ∧ Apart l) (LinkInv me seq0 N)
      (linkContract me seq0 N) linkIdle where
  same_ok _ := rfl
  same_inv _ := rfl
  threads _ u other _ _ _ _ guarantee := guarantee u other.symm
  env _ _ _ _ inv happens := inv.env happens
  calls t l p called ok inv idle := by
    cases t with
    | pf u =>
      obtain ⟨q, called', rfl⟩ := called
      exact pfCall_wp called' ok inv idle
    | irq =>
      cases called
      have whole : (linkContract me seq0 N .irq).Triple (At .irq 0 [] false) (onicVfMboxIrqThread me)
          fun _ => At .irq 0 [] false :=
        .bind onicVfMboxProcessOne_triple fun _ => at_done ()
      exact whole l ok inv idle
    | cmd k =>
      obtain ⟨command, given, rfl⟩ := called
      have whole : (linkContract me seq0 N (.cmd k)).Triple (Idle k) command fun _ => Idle k := by
        cases given with
        | getQueueResource => exact onicVfMboxGetQueueResource_triple few
        | configQueue cfg => exact onicVfMboxConfigQueue_triple few cfg
        | clearQueue qid dir => exact onicVfMboxClearQueue_triple few qid dir
      exact whole.bind (fun _ => .done (a := ()) stable_idle fun _ _ h => h) l ok inv idle

theorem vf_mbox_agreement_apart {l : Link} {P : Pool LinkThread Link Input} (few : N < 2 ^ 32)
    (fresh : LinkFresh me N l)
    (reach : Pool.Reach (linkRules me) (fun l => Assumed N l ∧ Apart l) (Pool.start l) P) :
    Agreement me P.state := by
  have start_ok : Assumed N l ∧ Apart l :=
    ⟨⟨by simp [NoOverlap, fresh.pf.inside], by simp [fresh.sent]⟩, by simp [Apart, fresh.irqInside]⟩
  have idle (t : LinkThread) : (linkContract me l.vf.mboxSeq N t).wp (.done () : Program Link Input Unit)
      (fun _ => linkIdle t) l := by
    intro l' between ok inv
    cases t with
    | pf u => exact stable_outside l.pf l'.pf (by simp [fresh.pf.inside]) between ok.1.1 inv.pf
    | irq => exact between.irqInside.trans fresh.irqInside
    | cmd k => exact stable_idle l l' (by simp [Idle, fresh.mboxLock]) between ok inv
  obtain ⟨ok, inv, -⟩ := (linkRules_fit few).reach reach start_ok fresh.inv idle
  exact inv.agreement few ok.1.2

instance (N : Nat) (l : Link) : Decidable (Assumed N l) :=
  inferInstanceAs (Decidable (NoOverlap l.pf ∧ l.vf.sent.length ≤ N))

instance (l : Link) : Decidable (Apart l) :=
  inferInstanceAs (Decidable (¬ (l.vf.irqInside = true ∧ l.vf.cmdInside = true)))

/-- The first VF's link just after probing. -/
def firstLink : Link where
  pf := .withRequests oneVf []
  vf := {
    mboxSeq := 7
    mboxResp := Msg.zero
    mboxDone := 0
    mboxLock := none
    outMsg := Msg.zero
    res := ⟨0, 0, 0, 0⟩
    resourceValid := false
    sent := []
    returned := []
    irqInside := false
    cmdInside := false }

theorem firstLink_fresh (N : Nat) : LinkFresh 4 N firstLink where
  pf := ⟨rfl, rfl, rfl, rfl⟩
  requests m mem := by simp [firstLink, PfSys.withRequests] at mem
  response m full := by simp [firstLink, PfSys.withRequests] at full
  sent := rfl
  returned := rfl
  mboxLock := rfl
  mboxResp := rfl
  irqInside := rfl
  cmdInside := rfl

/-- A queue resource is asked for and the PF has answered. -/
def answeredMoves : List (Pool.Move LinkThread Link Input) :=
  .call (.cmd 0) (onicVfMboxGetQueueResource 4 0 >>= fun _ => .done ()) ::
    List.replicate 41 (.access (.cmd 0) ⟨0, true⟩) ++
    .call (.pf .user) ((onicUserThreadFn 1).lift Link.pf Link.setPf) ::
    List.replicate 75 (.access (.pf .user) ⟨0, true⟩)

theorem answeredMoves_allowed : ∀ m ∈ answeredMoves, m.Allowed (linkRules 4) := by
  intro m mem
  simp only [answeredMoves, List.cons_append, List.mem_cons, List.mem_append, List.mem_replicate] at mem
  rcases mem with rfl | ⟨-, rfl⟩ | rfl | ⟨-, rfl⟩
  · exact fun _ => ⟨_, .getQueueResource, rfl⟩
  · trivial
  · exact fun _ => ⟨_, ⟨1, rfl⟩, rfl⟩
  · trivial

/-- The interrupt thread takes the answer and the command finds it complete. -/
def takenMoves : List (Pool.Move LinkThread Link Input) :=
  answeredMoves ++ .call .irq (onicVfMboxIrqThread 4) :: List.replicate 68 (.access .irq ⟨0, true⟩) ++
    List.replicate 20 (.access (.cmd 0) ⟨0, true⟩)

theorem takenMoves_allowed : ∀ m ∈ takenMoves, m.Allowed (linkRules 4) := by
  intro m mem
  simp only [takenMoves, List.append_assoc, List.cons_append, List.mem_append, List.mem_cons,
    List.mem_replicate] at mem
  rcases mem with answered | rfl | ⟨-, rfl⟩ | ⟨-, rfl⟩
  · exact answeredMoves_allowed m answered
  · exact fun _ => rfl
  · trivial
  · trivial

theorem vf_mbox_agreement_get_queue_resource :
    ∃ P, Pool.Reach (linkRules 4) (fun l => Assumed 1 l ∧ Apart l) (Pool.start firstLink) P ∧
      (P.state.vf.returned.map fun r => (r.ret, r.res.funcId)) = [(0, 4)] ∧ Agreement 4 P.state := by
  have played : ((Pool.start firstLink).play (fun l => decide (Assumed 1 l ∧ Apart l)) takenMoves).map
      (fun P => P.state.vf.returned.map fun r => (r.ret, r.res.funcId)) = some [(0, 4)] := by
    decide +kernel
  obtain ⟨P, ran, results⟩ := Option.map_eq_some_iff.mp played
  have reach : Pool.Reach (linkRules 4) (fun l => Assumed 1 l ∧ Apart l) _ P :=
    Pool.reach_of_play (fun l => of_decide_eq_true) takenMoves_allowed ran
  exact ⟨P, reach, results, vf_mbox_agreement_apart (by decide) (firstLink_fresh 1) reach⟩

/-- The interrupt thread has seen the answer when the command times out, takes it by
    itself and checks it; then the interrupt thread clears `mbox_resp`. -/
def clearedMoves : List (Pool.Move LinkThread Link Input) :=
  answeredMoves ++ .call .irq (onicVfMboxIrqThread 4) :: .access .irq ⟨0, true⟩ ::
    List.replicate 77 (.access (.cmd 0) ⟨0, true⟩) ++
    .access .irq ⟨0, true⟩ :: List.replicate 12 (.access (.cmd 0) ⟨0, true⟩)

theorem clearedMoves_allowed : ∀ m ∈ clearedMoves, m.Allowed (linkRules 4) := by
  intro m mem
  simp only [clearedMoves, List.append_assoc, List.cons_append, List.mem_append, List.mem_cons,
    List.mem_replicate] at mem
  rcases mem with answered | rfl | rfl | ⟨-, rfl⟩ | rfl | ⟨-, rfl⟩
  · exact answeredMoves_allowed m answered
  · exact fun _ => rfl
  · trivial
  · trivial
  · trivial
  · trivial

theorem vf_mbox_cleared_response_accepted :
    LinkFresh 4 1 firstLink ∧
      ∃ P, Pool.Reach (linkRules 4) (Assumed 1) (Pool.start firstLink) P ∧ ¬ Agreement 4 P.state := by
  refine ⟨firstLink_fresh 1, ?_⟩
  have played : ((Pool.start firstLink).play (fun l => decide (Assumed 1 l)) clearedMoves).map
      (fun P => P.state.vf.returned.map fun r => (r.ret, r.req.opcode, r.res.funcId)) =
        some [(0, opGetQueueRes, 0)] := by
    decide +kernel
  obtain ⟨P, ran, results⟩ := Option.map_eq_some_iff.mp played
  refine ⟨P, Pool.reach_of_play (fun l => of_decide_eq_true) clearedMoves_allowed ran, fun agreement => ?_⟩
  obtain ⟨r, single, is⟩ := List.map_eq_singleton_iff.mp results
  obtain ⟨ret, opcode, funcId⟩ : r.ret = 0 ∧ r.req.opcode = opGetQueueRes ∧ r.res.funcId = 0 := by
    simpa using is
  obtain ⟨-, x, -, -, -, -, stored⟩ := agreement.agreed r (by simp [single]) ret
  obtain ⟨res, found, same⟩ := stored opcode
  have owner := (onicPfMboxFindVfResource_some found).2.1
  have zero : res.funcId = 0 := by
    rw [same] at funcId
    exact funcId
  rw [owner] at zero
  exact absurd zero (by decide)

end OpenNic
