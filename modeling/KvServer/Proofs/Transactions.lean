import Mathlib
import KvServer.Proofs.Recording

/-!
# Transactions

Inside a transaction a connection's actions only lengthen its queue, and EXEC answers what running
that queue directly, one action after another, answers. Two facts carry this: no command reads or
writes the transaction queues, and the only one that reads the replaying flag is BLPOP, which
answers null where it would have waited. Other connections never touch a transaction's queue.

`Server.Oblivious` names a handler that reads and writes neither the queues nor the flag; every
handler but BLPOP is one. `Server.replay_eq_runDirect` compares EXEC's replay with a direct run,
and `Server.transaction_queues_then_replays` follows a transaction from MULTI to EXEC.
-/

namespace KvServer

namespace Transactions

theorem multi_of_isActive {t : Transactions} {c : ConnId} (h : t.isActive c = true) :
    t.multi c = t := by
  simp only [Transactions.isActive] at h
  simp [Transactions.multi, h]

end Transactions

namespace Server

/-- The server with the given transaction queues and replaying flag. -/
def withQueues (s : Server) (t : Transactions) (b : Bool) : Server :=
  { s with transactions := t, replaying := b }

@[simp] theorem withQueues_lists (s : Server) (t : Transactions) (b : Bool) :
    (s.withQueues t b).lists = s.lists := rfl
@[simp] theorem withQueues_strings (s : Server) (t : Transactions) (b : Bool) :
    (s.withQueues t b).strings = s.strings := rfl
@[simp] theorem withQueues_replaying (s : Server) (t : Transactions) (b : Bool) :
    (s.withQueues t b).replaying = b := rfl
@[simp] theorem isLive_withQueues (s : Server) (t : Transactions) (b : Bool) (c : ConnId) :
    (s.withQueues t b).isLive c = s.isLive c := rfl

theorem withQueues_self (s : Server) : s.withQueues s.transactions s.replaying = s := rfl

/-! ## Every handler but BLPOP ignores the queues and the flag -/

theorem record_withQueues (s : Server) (t : Transactions) (b : Bool) (ev : Value) :
    (s.withQueues t b).record ev = (s.record ev).withQueues t b := rfl

theorem deliver_withQueues (s : Server) (t : Transactions) (b : Bool) (c : ConnId) (v : Value)
    (r : Bool) : (s.withQueues t b).deliver c v r = (s.deliver c v r).withQueues t b := by
  by_cases h : s.isLive c
  · simp only [deliver, isLive_withQueues, h, if_true]
    rfl
  · simp only [deliver, isLive_withQueues, h]
    rfl

theorem applyWakeups_withQueues (t : Transactions) (b : Bool) : ∀ (ws : List Wakeup) (s : Server),
    (s.withQueues t b).applyWakeups ws = (s.applyWakeups ws).withQueues t b
  | [], _ => rfl
  | .served c key v :: ws, s => by
    simp only [applyWakeups, record_withQueues, deliver_withQueues, applyWakeups_withQueues t b ws]
  | .timedOut c :: ws, s => by
    simp only [applyWakeups, deliver_withQueues, applyWakeups_withQueues t b ws]

theorem wake_withQueues (s : Server) (t : Transactions) (b : Bool) (now : Instant) (key : String) :
    (s.withQueues t b).wake now key = (s.wake now key).withQueues t b := by
  unfold wake
  rw [← applyWakeups_withQueues]
  rfl

/-- What a command handler is: the server, the instant and the request give a reply and a server,
or a refusal. -/
abbrev Handler := Server → Instant → Request → Except CommandError (Outcome × Server)

/-- A handler that reads and writes neither the transaction queues nor the replaying flag. -/
def Oblivious (h : Handler) : Prop :=
  ∀ s t b now q, h (s.withQueues t b) now q = (h s now q).map fun r => (r.1, r.2.withQueues t b)

theorem ping_oblivious : Oblivious ping := by
  intro s t b now q
  unfold ping
  split <;> rfl

theorem echo_oblivious : Oblivious echo := by
  intro s t b now q
  unfold echo
  split <;> rfl

theorem set_oblivious : Oblivious set := by
  intro s t b now q
  unfold Server.set
  rcases parseSet q.args with e | ⟨key, value, ttl⟩ <;> rfl

theorem get_oblivious : Oblivious get := by
  intro s t b now q
  unfold Server.get
  split <;> rfl

theorem incr_oblivious : Oblivious incr := by
  intro s t b now q
  unfold Server.incr
  split
  · rename_i key _
    rw [withQueues_strings]
    rcases s.strings.incr now key with _ | ⟨n, st⟩ <;> rfl
  · rfl

theorem push_oblivious (front : Bool) : Oblivious (push front) := by
  intro s t b now q
  unfold push
  split
  · simp only [Except.map, ← wake_withQueues]
    rfl
  · rfl

theorem lrange_oblivious : Oblivious lrange := by
  intro s t b now q
  unfold Server.lrange
  rcases parseLRange q.args with e | ⟨key, start, stop⟩ <;> rfl

theorem llen_oblivious : Oblivious llen := by
  intro s t b now q
  unfold llen
  split <;> rfl

theorem lpop_oblivious : Oblivious lpop := by
  intro s t b now q
  unfold Server.lpop
  rcases parseLPop q.args with e | ⟨key, _ | n⟩
  · rfl
  · dsimp only [bind, Except.bind, pure, Except.pure, withQueues_lists]
    rcases s.lists.lpop key with ⟨_ | v, l⟩ <;> rfl
  · dsimp only [bind, Except.bind, pure, Except.pure, withQueues_lists]
    split_ifs <;> rfl

theorem info_oblivious : Oblivious info := fun _ _ _ _ _ => rfl

theorem replconf_oblivious : Oblivious replconf := by
  intro s t b now q
  unfold replconf
  split <;> rfl

theorem psync_oblivious : Oblivious psync := by
  intro s t b now q
  unfold psync
  split
  · split <;> rfl
  · rfl

/-- BLPOP reads no queue, and with the flag it had it runs as before. -/
theorem blpop_withQueues (s : Server) (t : Transactions) (now : Instant) (q : Request) :
    (s.withQueues t s.replaying).blpop now q =
      (s.blpop now q).map fun r => (r.1, r.2.withQueues t s.replaying) := by
  unfold Server.blpop
  rcases parseBLPop q.args with e | ⟨key, timeout⟩
  · rfl
  · dsimp only [bind, Except.bind, pure, Except.pure, withQueues_lists]
    rcases s.lists.lpop key with ⟨_ | v, l⟩
    · cases s.replaying <;> rfl
    · rfl

theorem act_oblivious {q : Request} (hq : q.action ≠ .blpop) (s : Server) (t : Transactions)
    (b : Bool) (now : Instant) :
    (s.withQueues t b).act now q = (s.act now q).map fun r => (r.1, r.2.withQueues t b) := by
  obtain ⟨origin, a, args⟩ := q
  cases a
  case ping => exact ping_oblivious s t b now _
  case echo => exact echo_oblivious s t b now _
  case set => exact set_oblivious s t b now _
  case get => exact get_oblivious s t b now _
  case incr => exact incr_oblivious s t b now _
  case rpush => exact push_oblivious false s t b now _
  case lpush => exact push_oblivious true s t b now _
  case lrange => exact lrange_oblivious s t b now _
  case llen => exact llen_oblivious s t b now _
  case lpop => exact lpop_oblivious s t b now _
  case blpop => exact absurd rfl hq
  case info => exact info_oblivious s t b now ⟨origin, .info, args⟩
  case replconf => exact replconf_oblivious s t b now _
  case psync => exact psync_oblivious s t b now _

/-- No action reads the transaction queues. -/
theorem act_withQueues (s : Server) (t : Transactions) (now : Instant) (q : Request) :
    (s.withQueues t s.replaying).act now q =
      (s.act now q).map fun r => (r.1, r.2.withQueues t s.replaying) := by
  by_cases hq : q.action = .blpop
  · obtain ⟨origin, a, args⟩ := q
    subst hq
    exact blpop_withQueues s t now _
  · exact act_oblivious hq s t s.replaying now

/-- No action writes the transaction queues or the flag. -/
theorem act_keeps {s s' : Server} {now : Instant} {q : Request} {o : Outcome}
    (h : s.act now q = .ok (o, s')) : s'.withQueues s.transactions s.replaying = s' := by
  have := act_withQueues s s.transactions now q
  rw [withQueues_self, h] at this
  exact (Prod.mk.inj (Except.ok.inj this)).2.symm

theorem perform_keeps (s : Server) (now : Instant) (q : Request) :
    (s.perform now q).2.transactions = s.transactions ∧ (s.perform now q).2.replaying = s.replaying := by
  unfold perform
  rcases h : s.act now q with e | ⟨o, s'⟩
  · exact ⟨rfl, rfl⟩
  · rw [← act_keeps h]
    exact ⟨rfl, rfl⟩

/-! ## Waiting -/

/-- Only a BLPOP that finds its list empty waits, outside a replay, and waiting only parks it. -/
theorem act_suspended {s s' : Server} {now : Instant} {q : Request}
    (h : s.act now q = .ok (.suspended, s')) :
    q.action = .blpop ∧ s.replaying = false ∧ ∃ key timeout, parseBLPop q.args = .ok (key, timeout) ∧
      s.lists.items key = [] ∧ s' = s.block now key q.origin timeout := by
  obtain ⟨origin, a, args⟩ := q
  cases a
  case blpop =>
    refine ⟨rfl, ?_⟩
    simp only [act, Server.blpop] at h
    rcases hp : parseBLPop args with e | ⟨key, timeout⟩
    · simp [hp, bind, Except.bind] at h
    rcases hl : s.lists.lpop key with ⟨_ | v, l⟩
    · have hnil : s.lists.items key = [] := by
        simpa [Lists.lpop_fst] using congrArg Prod.fst hl
      simp only [hp, hl, bind, Except.bind, pure, Except.pure] at h
      cases hr : s.replaying <;> simp [hr] at h
      exact ⟨rfl, key, timeout, rfl, hnil, h.symm⟩
    · simp [hp, hl, bind, Except.bind, pure, Except.pure] at h
  all_goals
    exfalso
    simp only [act, ping, echo, Server.set, Server.get, Server.incr, push, Server.lrange, llen,
      Server.lpop, info, replconf, psync, bind, Except.bind, pure, Except.pure] at h
    repeat' split at h
    all_goals simp at h

/-! ## EXEC's replay is a direct run -/

/-- Runs requests one after another as each would run on its own, except that one that would
wait answers null and leaves the server as it was. -/
def runDirect (now : Instant) : List Request → Server → List Value × Server
  | [], s => ([], s)
  | q :: qs, s =>
    let (reply, s) := match s.run now q.toCommand with
      | (.completed v, s') => (v, s')
      | (.suspended, _) => (.null, s)
    let (vs, s) := runDirect now qs s
    (reply :: vs, s)

theorem run_toCommand (s : Server) (now : Instant) (q : Request) :
    s.run now q.toCommand = s.perform now q := rfl

/-- With the flag set, a request answers as it would run directly, a wait turning into null with
nothing changed. -/
theorem perform_replaying (s : Server) (t : Transactions) (now : Instant) (q : Request) :
    (s.withQueues t true).perform now q =
      match s.perform now q with
      | (.completed v, s') => (.completed v, s'.withQueues t true)
      | (.suspended, _) => (.completed .null, s.withQueues t true) := by
  by_cases hq : q.action = .blpop ∧ s.replaying = false
  · -- a BLPOP outside a replay is the one request the flag changes
    obtain ⟨hq, hr⟩ := hq
    obtain ⟨origin, a, args⟩ := q
    subst hq
    simp only [perform, act, Server.blpop]
    rcases parseBLPop args with e | ⟨key, timeout⟩
    · rfl
    · dsimp only [bind, Except.bind, pure, Except.pure, withQueues_lists]
      rcases s.lists.lpop key with ⟨_ | v, l⟩
      · simp [hr]
      · rfl
  · have hact : (s.withQueues t true).act now q = (s.act now q).map fun r => (r.1, r.2.withQueues t true) := by
      cases hr : s.replaying
      · exact act_oblivious (fun ha => hq ⟨ha, hr⟩) s t true now
      · rw [← hr]
        exact act_withQueues s t now q
    simp only [perform, hact]
    rcases h : s.act now q with e | ⟨o, s'⟩
    · rfl
    cases o with
    | completed v => rfl
    | suspended => exact absurd ⟨(act_suspended h).1, (act_suspended h).2.1⟩ hq

/-- EXEC's replay of a queue, with the flag set and any transaction queues, is the direct run of
the queue. -/
theorem replay_eq_runDirect (now : Instant) (t : Transactions) : ∀ (qs : List Request) (s : Server),
    replay now qs (s.withQueues t true) = ((runDirect now qs s).1, (runDirect now qs s).2.withQueues t true)
  | [], _ => rfl
  | q :: qs, s => by
    simp only [replay, runDirect, run_toCommand, perform_replaying]
    rcases s.perform now q with ⟨o, s'⟩
    cases o with
    | completed v => rw [replay_eq_runDirect now t qs s']
    | suspended => rw [replay_eq_runDirect now t qs s]

theorem runDirect_transactions (now : Instant) : ∀ (qs : List Request) (s : Server),
    (runDirect now qs s).2.transactions = s.transactions
  | [], _ => rfl
  | q :: qs, s => by
    simp only [runDirect, run_toCommand]
    rcases h : s.perform now q with ⟨o, s'⟩
    cases o with
    | completed v =>
      rw [runDirect_transactions now qs s']
      simpa [h] using (perform_keeps s now q).1
    | suspended => exact runDirect_transactions now qs s

end Server

namespace Command

theorem ofFrame_origin {c : ConnId} {f : Value} {cmd : Command} (h : ofFrame c f = .ok cmd) :
    cmd.origin = c := by
  unfold ofFrame at h
  repeat' split at h
  all_goals simp only [reduceCtorEq, Except.ok.injEq] at h
  rw [← h]

/-- The request a frame from `c` joins `c`'s queue as, inside a transaction: an action with enough
elements. -/
def queued? (c : ConnId) (f : Value) : Option Request :=
  match ofFrame c f with
  | .ok cmd =>
    match cmd.verb with
    | .action a => if cmd.hasArity then some ⟨c, a, cmd.args⟩ else none
    | _ => none
  | .error _ => none

/-- A frame from `c` that is no EXEC and no DISCARD, so cannot end a transaction. -/
def KeepsTransaction (c : ConnId) (f : Value) : Prop :=
  ∀ cmd, ofFrame c f = .ok cmd → cmd.verb ≠ .exec ∧ cmd.verb ≠ .discard

/-- A frame that neither ends a transaction nor is queued in one fails to parse, lacks the right
number of elements, or is a MULTI. -/
theorem unqueued_cases {c : ConnId} {f : Value} (hk : KeepsTransaction c f)
    (hf : queued? c f = none) :
    (∃ e, ofFrame c f = .error e) ∨ (∃ cmd, ofFrame c f = .ok cmd ∧ cmd.hasArity = false) ∨
      ∃ args, ofFrame c f = .ok ⟨c, .multi, args⟩ := by
  rcases hof : ofFrame c f with e | cmd
  · exact .inl ⟨e, rfl⟩
  obtain ⟨origin, verb, args⟩ := cmd
  obtain rfl : origin = c := ofFrame_origin hof
  cases ha : ({ origin, verb, args } : Command).hasArity
  · exact .inr (.inl ⟨_, rfl, ha⟩)
  rcases verb with a | _ | _ | _
  · simp [queued?, hof, ha] at hf
  · exact .inr (.inr ⟨args, rfl⟩)
  · exact absurd rfl (hk _ hof).1
  · exact absurd rfl (hk _ hof).2

end Command

namespace Server

/-- Inside a transaction, an action with enough elements is only queued. -/
theorem execute_enqueues {s : Server} {c : ConnId} {qs : List Request}
    (hq : s.transactions.queues[c]? = some qs) {f : Value} {q : Request}
    (hf : Command.queued? c f = some q) (now : Instant) :
    s.execute now c f = (.completed (.simple "QUEUED"),
      { s with transactions := { queues := s.transactions.queues.insert c (qs ++ [q]) } }) := by
  unfold Command.queued? at hf
  rcases hc : Command.ofFrame c f with e | cmd
  · simp [hc] at hf
  have ho := Command.ofFrame_origin hc
  rw [hc] at hf
  rcases hv : cmd.verb with a | _ | _ | _ <;> simp only [hv, reduceCtorEq] at hf
  split at hf
  · rename_i ha
    cases hf
    simp [execute, hc, ha, Transactions.enqueue?, hv, ho, hq]
  · simp at hf

/-- Inside a transaction a MULTI changes nothing; without arguments it is answered OK. -/
theorem execute_nested_multi {s : Server} {c : ConnId} (hc : s.transactions.isActive c = true)
    {f : Value} {args : List String} (hf : Command.ofFrame c f = .ok ⟨c, .multi, args⟩)
    (now : Instant) :
    s.execute now c f =
      (.completed (if args.isEmpty then .ok else (CommandError.wrongArity .multi).reply), s) := by
  cases args with
  | nil =>
    simp [execute, hf, Command.hasArity, Verb.arity, Transactions.enqueue?, run, control,
      Transactions.multi_of_isActive hc]
  | cons a as =>
    simp [execute, hf, Command.hasArity, Verb.arity, Transactions.enqueue?, run, control]

/-- A frame that does not parse is answered with its parse error and changes nothing. -/
theorem execute_of_error {s : Server} {c : ConnId} {f : Value} {e : CommandError}
    (h : Command.ofFrame c f = .error e) (now : Instant) :
    s.execute now c f = (.completed e.reply, s) := by
  simp [execute, h]

/-- A command with the wrong number of elements is answered with the wrong-arity error of its verb
and changes nothing. -/
theorem execute_of_arity {s : Server} {c : ConnId} {f : Value} {cmd : Command}
    (h : Command.ofFrame c f = .ok cmd) (ha : cmd.hasArity = false) (now : Instant) :
    s.execute now c f = (.completed (CommandError.wrongArity cmd.verb).reply, s) := by
  simp [execute, h, ha]

/-- Inside a transaction a frame that is not queued, and ends nothing, changes nothing. A frame
that does not parse is answered with its parse error, a command with the wrong number of elements
with the wrong-arity error of its verb, and a nested MULTI with OK when it has no arguments and
with the wrong-arity error when it has some: every such frame but a bare MULTI gets an error. -/
theorem execute_not_queued {s : Server} {c : ConnId} (hc : s.transactions.isActive c = true)
    {f : Value} (hk : Command.KeepsTransaction c f) (hf : Command.queued? c f = none)
    (now : Instant) :
    (s.execute now c f).2 = s ∧
      (∀ e, Command.ofFrame c f = .error e → (s.execute now c f).1 = .completed e.reply) ∧
      (∀ cmd, Command.ofFrame c f = .ok cmd → cmd.hasArity = false →
        (s.execute now c f).1 = .completed (CommandError.wrongArity cmd.verb).reply) ∧
      (∀ args, Command.ofFrame c f = .ok ⟨c, .multi, args⟩ → (s.execute now c f).1 =
        .completed (if args.isEmpty then .ok else (CommandError.wrongArity .multi).reply)) ∧
      (¬ Command.ofFrame c f = .ok ⟨c, .multi, []⟩ →
        ∃ e : CommandError, (s.execute now c f).1 = .completed e.reply) := by
  have hkeep : (s.execute now c f).2 = s := by
    rcases Command.unqueued_cases hk hf with ⟨e, h⟩ | ⟨cmd, h, ha⟩ | ⟨args, h⟩
    · rw [execute_of_error h]
    · rw [execute_of_arity h ha]
    · rw [execute_nested_multi hc h]
  refine ⟨hkeep, fun e h => by rw [execute_of_error h], fun cmd h ha => by
    rw [execute_of_arity h ha], fun args h => by rw [execute_nested_multi hc h], fun hne => ?_⟩
  rcases Command.unqueued_cases hk hf with ⟨e, h⟩ | ⟨cmd, h, ha⟩ | ⟨args, h⟩
  · exact ⟨e, by rw [execute_of_error h]⟩
  · exact ⟨_, by rw [execute_of_arity h ha]⟩
  · -- a MULTI with arguments, since the bare one is excluded
    cases args with
    | nil => exact absurd h hne
    | cons a as => exact ⟨.wrongArity .multi, by rw [execute_nested_multi hc h]; rfl⟩

/-- A frame from `c` inside its transaction leaves `c`'s queue lengthened by what it queues. -/
theorem execute_own_queue {s : Server} {c : ConnId} {qs : List Request}
    (hq : s.transactions.queues[c]? = some qs) {f : Value} (hk : Command.KeepsTransaction c f)
    (now : Instant) :
    (s.execute now c f).2.transactions.queues[c]? = some (qs ++ (Command.queued? c f).toList) := by
  rcases hf : Command.queued? c f with _ | q
  · have hc : s.transactions.isActive c = true := by
      simp [Transactions.isActive, Std.HashMap.contains_eq_isSome_getElem?, hq]
    rw [(execute_not_queued hc hk hf now).1, hq]
    simp
  · simp [execute_enqueues hq hf]

theorem replay_transactions (now : Instant) (qs : List Request) (s : Server) (t : Transactions) :
    (replay now qs (s.withQueues t true)).2.transactions = t := by
  rw [replay_eq_runDirect]
  rfl

/-- MULTI, EXEC, DISCARD or an action of another connection leaves `c`'s queue as it was. -/
theorem control_queue_of_ne {s s' : Server} {now : Instant} {d c : ConnId} (hd : d ≠ c)
    {args : List String} {verb : Verb} {o : Outcome} (h : s.control now d args verb = .ok (o, s')) :
    s'.transactions.queues[c]? = s.transactions.queues[c]? := by
  cases verb with
  | action a =>
    rw [← act_keeps h]
    rfl
  | multi =>
    simp only [control] at h
    split at h
    · obtain ⟨-, rfl⟩ := Prod.mk.inj (Except.ok.inj h)
      simp only [Transactions.multi]
      split
      · rfl
      · simp [Std.HashMap.getElem?_insert, hd]
    · simp at h
  | exec =>
    simp only [control] at h
    split at h
    · simp at h
    rcases hx : s.transactions.exec? d with _ | ⟨queued, ts⟩
    · simp [hx] at h
    have hts : ts = { queues := s.transactions.queues.erase d } := by
      simp only [Transactions.exec?, Option.map_eq_some_iff] at hx
      obtain ⟨_, -, hx⟩ := hx
      exact (Prod.mk.inj hx).2.symm
    simp only [hx] at h
    obtain ⟨-, rfl⟩ := Prod.mk.inj (Except.ok.inj h)
    rw [show ({ s with transactions := ts, replaying := true } : Server) = s.withQueues ts true
      from rfl]
    simp [replay_transactions, hts, Std.HashMap.getElem?_erase, hd]
  | discard =>
    simp only [control] at h
    split at h
    · simp at h
    rcases hx : s.transactions.discard? d with _ | ts
    · simp [hx] at h
    simp only [hx] at h
    obtain ⟨-, rfl⟩ := Prod.mk.inj (Except.ok.inj h)
    simp only [Transactions.discard?] at hx
    split at hx
    · cases hx
      simp [Std.HashMap.getElem?_erase, hd]
    · simp at hx

/-- A command of another connection leaves `c`'s queue as it was. -/
theorem run_queue_of_ne {s : Server} {c : ConnId} {cmd : Command} (hd : cmd.origin ≠ c)
    (now : Instant) : (s.run now cmd).2.transactions.queues[c]? = s.transactions.queues[c]? := by
  unfold run
  rcases h : s.control now cmd.origin cmd.args cmd.verb with e | ⟨o, s'⟩
  · rfl
  · exact control_queue_of_ne hd h

/-- Requests of other connections never touch `c`'s queue. -/
theorem execute_queue_of_ne {s : Server} {c d : ConnId} (hd : d ≠ c) (now : Instant) (f : Value) :
    (s.execute now d f).2.transactions.queues[c]? = s.transactions.queues[c]? := by
  unfold execute
  rcases hof : Command.ofFrame d f with e | cmd
  · rfl
  have ho := Command.ofFrame_origin hof
  simp only
  split
  · rfl
  · rcases he : s.transactions.enqueue? cmd with _ | ts
    · exact run_queue_of_ne (ho ▸ hd) now
    · simp only [Transactions.enqueue?] at he
      split at he
      · split at he
        · cases he
          simp [Std.HashMap.getElem?_insert, ho, hd]
        · simp at he
      · simp at he

/-- EXEC answers the direct run of the queue from the server as it is, and leaves what that run
leaves, the transaction ended. -/
theorem execute_exec {s : Server} {c : ConnId} {qs : List Request}
    (hq : s.transactions.queues[c]? = some qs) {f : Value}
    (hf : Command.ofFrame c f = .ok ⟨c, .exec, []⟩) (now : Instant) :
    let d := runDirect now qs s
    s.execute now c f = (.completed (.array d.1),
      { d.2 with transactions := d.2.transactions.remove c, replaying := false }) := by
  intro d
  have hx : s.transactions.exec? c = some (qs, s.transactions.remove c) := by
    simp [Transactions.exec?, hq, Transactions.remove]
  simp only [execute, hf, Command.hasArity, Verb.arity, Transactions.enqueue?, run, control,
    List.isEmpty_nil, Bool.not_true, hx]
  rw [show ({ s with transactions := s.transactions.remove c, replaying := true } : Server) =
    s.withQueues (s.transactions.remove c) true from rfl, replay_eq_runDirect,
    runDirect_transactions]
  rfl

/-! ## A transaction from MULTI to EXEC -/

/-- Answers request frames one after another, each from its connection at its instant. -/
def executeAll : List (ConnId × Instant × Value) → Server → Server
  | [], s => s
  | (o, t, f) :: rest, s => executeAll rest (s.execute t o f).2

/-- The requests that the frames `c` sends in `script` join its queue as, inside a transaction. -/
def queuedFrom (c : ConnId) (script : List (ConnId × Instant × Value)) : List Request :=
  script.filterMap fun (o, _, f) => if o = c then Command.queued? c f else none

/-- Run lemma: along frames from any connections, none of `c`'s ending its transaction, `c`'s queue
gains exactly what `c` sends to be queued, in order. -/
theorem executeAll_queue {c : ConnId} : ∀ (script : List (ConnId × Instant × Value)) (s : Server)
    (qs : List Request), s.transactions.queues[c]? = some qs →
    (∀ t f, (c, t, f) ∈ script → Command.KeepsTransaction c f) →
    (executeAll script s).transactions.queues[c]? = some (qs ++ queuedFrom c script)
  | [], s, qs, hq, _ => by simpa [executeAll, queuedFrom] using hq
  | (o, t, f) :: rest, s, qs, hq, hk => by
    have hk' : ∀ t f, (c, t, f) ∈ rest → Command.KeepsTransaction c f :=
      fun t f h => hk t f (List.mem_cons_of_mem _ h)
    by_cases ho : o = c
    · subst ho
      rw [executeAll, executeAll_queue rest _ _ (execute_own_queue hq (hk t f (by simp)) t) hk']
      rcases hf : Command.queued? o f with _ | q <;> simp [queuedFrom, hf]
    · rw [executeAll, executeAll_queue rest _ _ (by rw [execute_queue_of_ne ho]; exact hq) hk']
      simp [queuedFrom, ho]

/-- A MULTI from a connection in no transaction gives it an empty queue, and is answered OK. -/
theorem execute_multi {s : Server} {c : ConnId} (hc : s.transactions.isActive c = false)
    {f : Value} (hf : Command.ofFrame c f = .ok ⟨c, .multi, []⟩) (now : Instant) :
    s.execute now c f =
      (.completed .ok, { s with transactions := { queues := s.transactions.queues.insert c [] } }) := by
  simp only [Transactions.isActive] at hc
  simp [execute, hf, Command.hasArity, Verb.arity, Transactions.enqueue?, run, control,
    Transactions.multi, hc]

/-- A transaction from MULTI to EXEC. From a server where `c` is in no transaction, MULTI is
answered OK. Then, whatever frames any connections send, none of `c`'s ending the transaction: a
frame of `c` that is an action with enough elements is answered `QUEUED` and only joins `c`'s
queue; any other frame of `c` changes nothing and is answered with its parse error if it does not
parse, with the wrong-arity error of its verb if it has the wrong number of elements (a nested
MULTI with arguments among them), and OK if it is a MULTI without arguments; other connections
never touch `c`'s queue, which so holds at every point exactly what `c` has queued so far. EXEC
then answers, in order, the replies of running that queue directly from the server as EXEC finds
it, a request that would wait answering null and parking nothing, and leaves the server as that
run does, with `c`'s transaction ended. -/
theorem transaction_queues_then_replays {s : Server} {c : ConnId}
    (hc : s.transactions.isActive c = false) {t₀ : Instant} {multi : Value}
    (hm : Command.ofFrame c multi = .ok ⟨c, .multi, []⟩) {script : List (ConnId × Instant × Value)}
    (hk : ∀ t f, (c, t, f) ∈ script → Command.KeepsTransaction c f) {now : Instant} {exec : Value}
    (he : Command.ofFrame c exec = .ok ⟨c, .exec, []⟩) :
    let s₁ := (s.execute t₀ c multi).2
    let s₂ := executeAll script s₁
    let d := runDirect now (queuedFrom c script) s₂
    (s.execute t₀ c multi).1 = .completed .ok ∧
    (∀ (s' : Server) qs, s'.transactions.queues[c]? = some qs → ∀ t f q,
      Command.queued? c f = some q → s'.execute t c f = (.completed (.simple "QUEUED"),
        { s' with transactions := { queues := s'.transactions.queues.insert c (qs ++ [q]) } })) ∧
    (∀ s' : Server, s'.transactions.isActive c = true → ∀ t f, Command.KeepsTransaction c f →
      Command.queued? c f = none → (s'.execute t c f).2 = s' ∧
        (∀ e, Command.ofFrame c f = .error e → (s'.execute t c f).1 = .completed e.reply) ∧
        (∀ cmd, Command.ofFrame c f = .ok cmd → cmd.hasArity = false →
          (s'.execute t c f).1 = .completed (CommandError.wrongArity cmd.verb).reply) ∧
        (∀ args, Command.ofFrame c f = .ok ⟨c, .multi, args⟩ → (s'.execute t c f).1 =
          .completed (if args.isEmpty then .ok else (CommandError.wrongArity .multi).reply)) ∧
        (¬ Command.ofFrame c f = .ok ⟨c, .multi, []⟩ →
          ∃ e : CommandError, (s'.execute t c f).1 = .completed e.reply)) ∧
    (∀ (s' : Server) o t f, o ≠ c →
      (s'.execute t o f).2.transactions.queues[c]? = s'.transactions.queues[c]?) ∧
    (∀ p, p <+: script → (executeAll p s₁).transactions.queues[c]? = some (queuedFrom c p)) ∧
    s₂.execute now c exec = (.completed (.array d.1),
      { d.2 with transactions := d.2.transactions.remove c, replaying := false }) := by
  intro s₁ s₂ d
  have h₁ : s₁.transactions.queues[c]? = some [] := by simp [s₁, execute_multi hc hm]
  -- every prefix of the run leaves `c` in its transaction, with what it queued so far
  have hrun : ∀ p, p <+: script →
      (executeAll p s₁).transactions.queues[c]? = some (queuedFrom c p) :=
    fun p hp => by simpa using executeAll_queue p s₁ [] h₁ fun t f h => hk t f (hp.subset h)
  exact ⟨by rw [execute_multi hc hm], fun s' qs hq t f q hf => execute_enqueues hq hf t,
    fun s' hc' t f hk' hf => execute_not_queued hc' hk' hf t,
    fun s' o t f ho => execute_queue_of_ne ho t f, hrun,
    execute_exec (hrun script (List.prefix_refl _)) he now⟩

/-- A master where connection 1 queues a SET while connection 2 reads the key. -/
theorem transaction_of_set_beside_get :
    let s := Server.new .master 6379
    let script : List (ConnId × Instant × Value) :=
      [(1, 0, Value.command ["SET", "k", "v"]), (2, 0, Value.command ["GET", "k"])]
    let s₁ := (s.execute 0 1 (Value.command ["MULTI"])).2
    let s₂ := executeAll script s₁
    let d := runDirect 0 (queuedFrom 1 script) s₂
    (s.transactions.isActive 1 = false ∧
      Command.ofFrame 1 (Value.command ["MULTI"]) = .ok ⟨1, .multi, []⟩ ∧
      (∀ t f, (1, t, f) ∈ script → Command.KeepsTransaction 1 f) ∧
      Command.ofFrame 1 (Value.command ["EXEC"]) = .ok ⟨1, .exec, []⟩) ∧
    ((s.execute 0 1 (Value.command ["MULTI"])).1 = .completed .ok ∧
    (∀ (s' : Server) qs, s'.transactions.queues[1]? = some qs → ∀ t f q,
      Command.queued? 1 f = some q → s'.execute t 1 f = (.completed (.simple "QUEUED"),
        { s' with transactions := { queues := s'.transactions.queues.insert 1 (qs ++ [q]) } })) ∧
    (∀ s' : Server, s'.transactions.isActive 1 = true → ∀ t f, Command.KeepsTransaction 1 f →
      Command.queued? 1 f = none → (s'.execute t 1 f).2 = s' ∧
        (∀ e, Command.ofFrame 1 f = .error e → (s'.execute t 1 f).1 = .completed e.reply) ∧
        (∀ cmd, Command.ofFrame 1 f = .ok cmd → cmd.hasArity = false →
          (s'.execute t 1 f).1 = .completed (CommandError.wrongArity cmd.verb).reply) ∧
        (∀ args, Command.ofFrame 1 f = .ok ⟨1, .multi, args⟩ → (s'.execute t 1 f).1 =
          .completed (if args.isEmpty then .ok else (CommandError.wrongArity .multi).reply)) ∧
        (¬ Command.ofFrame 1 f = .ok ⟨1, .multi, []⟩ →
          ∃ e : CommandError, (s'.execute t 1 f).1 = .completed e.reply)) ∧
    (∀ (s' : Server) o t f, o ≠ 1 →
      (s'.execute t o f).2.transactions.queues[1]? = s'.transactions.queues[1]?) ∧
    (∀ p, p <+: script → (executeAll p s₁).transactions.queues[1]? = some (queuedFrom 1 p)) ∧
    s₂.execute 0 1 (Value.command ["EXEC"]) = (.completed (.array d.1),
      { d.2 with transactions := d.2.transactions.remove 1, replaying := false })) := by
  intro s script s₁ s₂ d
  have hkw : ∀ (v : Verb) (kw : String) (args : List String), v.keyword = kw →
      Command.ofFrame 1 (Value.command (kw :: args)) = .ok ⟨1, v, args⟩ := by
    intro v kw args hkw
    subst hkw
    exact Command.ofFrame_toRequest 1 ⟨1, v, args⟩
  have hc : s.transactions.isActive 1 = false := by simp [s, Server.new, Transactions.isActive]
  have hm := hkw .multi "MULTI" [] (by decide)
  have he := hkw .exec "EXEC" [] (by decide)
  have hk : ∀ t f, (1, t, f) ∈ script → Command.KeepsTransaction 1 f := by
    intro t f hf
    obtain ⟨-, rfl⟩ : t = 0 ∧ f = Value.command ["SET", "k", "v"] := by simpa [script] using hf
    intro cmd hcmd
    rw [hkw (.action .set) "SET" ["k", "v"] (by decide)] at hcmd
    cases hcmd
    exact ⟨nofun, nofun⟩
  exact ⟨⟨hc, hm, hk, he⟩, transaction_queues_then_replays hc hm hk he⟩

/-- A MULTI with an argument inside a transaction is refused with the wrong-arity error rather
than answered OK, though it too keeps the queue. -/
theorem nested_multi_with_argument_refused :
    let s := ((Server.new .master 6379).execute 0 1 (Value.command ["MULTI"])).2
    s.transactions.isActive 1 = true ∧
      s.execute 0 1 (Value.command ["MULTI", "x"]) =
        (.completed (.error "ERR wrong number of arguments for 'multi' command"), s) ∧
      (s.execute 0 1 (Value.command ["MULTI", "x"])).1 ≠ .completed .ok := by
  intro s
  have hm : Command.ofFrame 1 (Value.command ["MULTI"]) = .ok ⟨1, .multi, []⟩ := by
    have hkw : Verb.multi.keyword = "MULTI" := by decide
    simpa [Command.toRequest, hkw] using Command.ofFrame_toRequest 1 ⟨1, .multi, []⟩
  have hmx : Command.ofFrame 1 (Value.command ["MULTI", "x"]) = .ok ⟨1, .multi, ["x"]⟩ := by
    have hkw : Verb.multi.keyword = "MULTI" := by decide
    simpa [Command.toRequest, hkw] using Command.ofFrame_toRequest 1 ⟨1, .multi, ["x"]⟩
  have hc : s.transactions.isActive 1 = true := by
    simp [s, execute_multi (s := Server.new .master 6379) (by simp [Server.new, Transactions.isActive]) hm,
      Transactions.isActive]
  have hx := execute_nested_multi hc hmx 0
  refine ⟨hc, by rw [hx]; rfl, ?_⟩
  rw [hx]
  simp [CommandError.reply, Value.ok]

end Server

end KvServer
