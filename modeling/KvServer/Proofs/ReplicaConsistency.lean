import Mathlib
import KvServer.Proofs.Recording

/-!
# A replica applying its master's writes holds what the master holds

A master records each write it makes as a request array; a replica applies them in order, each
arriving on its link to the master, at the instant the master made it. The replica then holds the
same live texts, with the same deadlines, and the same lists as the master, whatever the master
ran meanwhile: failing commands, transactions, pops of any count, blocked pops served by a later
push or timed out, connections opening and closing, timers firing.

Two things must hold of the replica for this, besides its stores agreeing with the master's: no
pop may be blocked on it, or a replicated push would feed it, and its link must be in no
transaction, or the writes would only be queued. The agreement is on deadlines as well as texts:
stores with the same live texts but different deadlines part as soon as one entry expires.

`Server.Follows` is the relation kept from step to step; `Server.Replicates` says that a step of
the master records writes that take a following replica to one that follows the master after the
step. Each command is shown to do so (`Server.act_replicates`), then a request
(`Server.execute_replicates`), then a whole run (`Server.runSteps_follows`).
-/

namespace KvServer

namespace Server

/-- The stores of `m` and `r` hold the same live texts, with the same deadlines, at `t`, and the
same lists. -/
structure StoresAgree (t : Instant) (m r : Server) : Prop where
  strings : m.strings.Agree t r.strings
  lists : ∀ key, m.lists.items key = r.lists.items key

/-- Applies writes as a replica does: each one arrives on the link to the master and runs at its
instant. -/
def replicate (link : ConnId) : Server → List (Value × Instant) → Server
  | s, [] => s
  | s, (ev, t) :: evs => replicate link (s.execute t link ev).2 evs

theorem replicate_append (link : ConnId) (s : Server) (xs ys : List (Value × Instant)) :
    s.replicate link (xs ++ ys) = (s.replicate link xs).replicate link ys := by
  induction xs generalizing s with
  | nil => rfl
  | cons x xs ih => exact ih _

/-- Replica `r` follows master `m` at `t`: their stores agree, no pop is blocked on `r`, and its
link to the master is in no transaction. -/
structure Follows (link : ConnId) (t : Instant) (m r : Server) : Prop where
  master : m.replication.isMaster = true
  agree : StoresAgree t m r
  idle : ∀ key, r.waiters.queue key = []
  link : r.transactions.isActive link = false

/-- The master, going from `m` to `m'` at `now`, recorded writes that take replica `r` to one
that follows `m'`. -/
def Replicates (link : ConnId) (now : Instant) (m m' r : Server) : Prop :=
  ∃ es, m'.replication.events = m.replication.events ++ es ∧
    Follows link now m' (r.replicate link (es.map (·, now)))

variable {link : ConnId} {now : Instant} {m m' r : Server}

theorem Follows.of_le {t : Instant} (h : Follows link t m r) (ht : t ≤ now) : Follows link now m r :=
  ⟨h.master, ⟨h.agree.strings.of_le ht, h.agree.lists⟩, h.idle, h.link⟩

/-- A master whose stores show what those of a followed master show is followed too. -/
theorem Follows.congr {t : Instant} (h : Follows link t m r) (hs : m'.strings.Agree t m.strings)
    (hl : ∀ key, m'.lists.items key = m.lists.items key) (hm : m'.replication.isMaster = true) :
    Follows link t m' r :=
  ⟨hm, ⟨hs.trans h.agree.strings, fun key => (hl key).trans (h.agree.lists key)⟩, h.idle, h.link⟩

/-- A step that records nothing and leaves the master's stores showing the same replicates
trivially. -/
theorem Follows.quiet (h : Follows link now m r) (hs : m'.strings.Agree now m.strings)
    (hl : ∀ key, m'.lists.items key = m.lists.items key)
    (he : m'.replication.events = m.replication.events)
    (hm : m'.replication.isMaster = true) : Replicates link now m m' r :=
  ⟨[], by simp [he], h.congr hs hl hm⟩

theorem Follows.same (h : Follows link now m r) : Replicates link now m m r :=
  h.quiet (Strings.Agree.refl _) (fun _ => rfl) rfl h.master

/-- Replication of two steps in a row. -/
theorem Replicates.trans {m₂ : Server} (h₁ : Replicates link now m m' r)
    (h₂ : ∀ r', Follows link now m' r' → Replicates link now m' m₂ r') :
    Replicates link now m m₂ r := by
  obtain ⟨es₁, he₁, hf₁⟩ := h₁
  obtain ⟨es₂, he₂, hf₂⟩ := h₂ _ hf₁
  refine ⟨es₁ ++ es₂, by rw [he₂, he₁, List.append_assoc], ?_⟩
  rw [List.map_append, replicate_append]
  exact hf₂

theorem Replicates.congr {m₂ : Server} (h : Replicates link now m m' r)
    (hs : m₂.strings = m'.strings) (hl : m₂.lists = m'.lists)
    (hrep : m₂.replication = m'.replication) : Replicates link now m m₂ r := by
  obtain ⟨es, he, hf⟩ := h
  exact ⟨es, hrep ▸ he, hf.congr (hs ▸ Strings.Agree.refl _) (by simp [hl])
    (by rw [hrep]; exact hf.master)⟩

/-! ## The replica runs a recorded write as the request it stands for -/

theorem execute_request {r : Server} (hlink : r.transactions.isActive link = false) {q : Request}
    (ha : q.toCommand.hasArity = true) (now : Instant) :
    r.execute now link q.toValue = r.perform now { q with origin := link } := by
  have hnone : r.transactions.queues[link]? = none := by
    simpa [Transactions.isActive] using hlink
  -- whether a command has its elements does not depend on who sent it
  have ha' : ({ origin := link, verb := .action q.action, args := q.args } : Command).hasArity :=
    ha
  simp only [execute, Request.toValue, Command.ofFrame_toRequest]
  simp [Request.toCommand, ha', Transactions.enqueue?, hnone, run, control, perform]

/-- A request on a connection inside a transaction is only queued. -/
theorem execute_queued {s : Server} {origin : ConnId} {qs : List Request}
    (hq : s.transactions.queues[origin]? = some qs) {q : Request}
    (ha : q.toCommand.hasArity = true) (now : Instant) :
    (s.execute now origin q.toValue).2 = { s with transactions :=
      { queues := s.transactions.queues.insert origin (qs ++ [{ q with origin }]) } } := by
  have ha' : ({ origin, verb := .action q.action, args := q.args } : Command).hasArity := ha
  simp only [execute, Request.toValue, Command.ofFrame_toRequest]
  simp [Request.toCommand, ha', Transactions.enqueue?, hq]

theorem Follows.replicate_request (h : Follows link now m r) {q : Request}
    (ha : q.toCommand.hasArity = true) :
    r.replicate link [(q.toValue, now)] = (r.perform now { q with origin := link }).2 := by
  simp [replicate, execute_request h.link ha]

/-! ## Each command replicates -/

theorem parseSet_length {args : List String} {v : String × String × Option Nat}
    (h : parseSet args = .ok v) : 2 ≤ args.length := by
  unfold parseSet at h
  split at h <;> simp_all

theorem Follows.set (h : Follows link now m r) {q : Request} (hq : q.action = .set) {o : Outcome}
    (hs : m.set now q = .ok (o, m')) : Replicates link now m m' r := by
  cases hp : parseSet q.args with
  | error e => simp [Server.set, hp] at hs
  | ok v =>
    obtain ⟨key, value, ttl⟩ := v
    simp only [Server.set, hp] at hs
    cases hs
    have ha : q.toCommand.hasArity = true := by
      have := parseSet_length hp
      simp [Command.hasArity, Request.toCommand, hq, Verb.arity]
      omega
    refine ⟨[q.toValue], record_events h.master _, ?_⟩
    rw [List.map_singleton, h.replicate_request ha]
    simp only [perform, act, hq, Server.set, hp]
    exact ⟨by simp [h.master], ⟨h.agree.strings.set now key value ttl, h.agree.lists⟩, h.idle, h.link⟩

theorem Follows.incr (h : Follows link now m r) {q : Request} (hq : q.action = .incr) {o : Outcome}
    (hs : m.incr now q = .ok (o, m')) : Replicates link now m m' r := by
  unfold Server.incr at hs
  split at hs
  · rename_i key hargs
    have hrel := h.agree.strings.incr key
    cases hm : m.strings.incr now key with
    | none => simp [hm] at hs
    | some x =>
      obtain ⟨n, st⟩ := x
      simp only [hm] at hs
      cases hs
      cases hr : r.strings.incr now key with
      | none => simp [hm, hr] at hrel
      | some y =>
        -- the replica's INCR succeeds too, and the two stores agree after it
        have hagree : st.Agree now y.2 := by
          rw [hm, hr] at hrel
          cases hrel with
          | some hxy => exact hxy.2
        have ha : q.toCommand.hasArity = true := by
          simp [Command.hasArity, Request.toCommand, hq, hargs, Verb.arity]
        refine ⟨[q.toValue], record_events h.master _, ?_⟩
        rw [List.map_singleton, h.replicate_request ha]
        simp only [perform, act, hq, Server.incr, hargs, hr]
        exact ⟨by simp [h.master], ⟨hagree, h.agree.lists⟩, h.idle, h.link⟩
  · simp at hs

theorem parseLPop_length {args : List String} {v : String × Option Nat}
    (h : parseLPop args = .ok v) : 1 ≤ args.length := by
  unfold parseLPop at h
  split at h <;> simp_all

/-- LPOP takes `count` items (one without a count) from the front of the key's list, and records
itself when it took any. -/
theorem lpop_spec (s : Server) (now : Instant) {q : Request} {key : String} {count : Option Nat}
    (hp : parseLPop q.args = .ok (key, count)) :
    ∃ o s', s.lpop now q = .ok (o, s') ∧ s'.strings = s.strings ∧ s'.waiters = s.waiters ∧
      s'.transactions = s.transactions ∧
      (∀ k, s'.lists.items k =
        if key = k then (s.lists.items key).drop (count.getD 1) else s.lists.items k) ∧
      s'.replication = if ((s.lists.items key).take (count.getD 1)).isEmpty then s.replication
        else (s.record q.toValue).replication := by
  cases count with
  | none =>
    rcases hl : s.lists.lpop key with ⟨v, L⟩
    have hv : v = (s.lists.items key).head? := by rw [← Lists.lpop_fst, hl]
    have hL : ∀ k, L.items k = if key = k then (s.lists.items key).drop 1 else s.lists.items k := by
      intro k
      rw [← Lists.items_lpop, hl]
    cases v with
    | none =>
      refine ⟨.completed .null, { s with lists := L }, by simp [Server.lpop, hp, hl], rfl, rfl, rfl,
        hL, ?_⟩
      simp [List.head?_eq_none_iff.1 hv.symm]
    | some x =>
      refine ⟨.completed (.bulk x), ({ s with lists := L }).record q.toValue,
        by simp [Server.lpop, hp, hl], rfl, rfl, rfl, hL, ?_⟩
      obtain ⟨t, ht⟩ := List.head?_eq_some_iff.1 hv.symm
      simp only [ht]
      rfl
  | some n =>
    rcases hl : s.lists.popFront key n with ⟨vs, L⟩
    have hvs : vs = (s.lists.items key).take n := by rw [← Lists.popFront_fst, hl]
    have hL : ∀ k, L.items k = if key = k then (s.lists.items key).drop n else s.lists.items k := by
      intro k
      rw [← Lists.items_popFront, hl]
    refine ⟨.completed (Value.command vs),
      if vs = [] then { s with lists := L } else ({ s with lists := L }).record q.toValue,
      by simp [Server.lpop, hp, hl], ?_, ?_, ?_, ?_, ?_⟩
    all_goals by_cases hpop : vs = []
    all_goals simp [hpop, ← hvs, hL]
    -- recording touches only the replication state
    rfl

theorem Follows.lpop (h : Follows link now m r) {q : Request} (hq : q.action = .lpop) {o : Outcome}
    (hs : m.lpop now q = .ok (o, m')) : Replicates link now m m' r := by
  cases hp : parseLPop q.args with
  | error e => simp [Server.lpop, hp] at hs
  | ok v =>
    obtain ⟨key, count⟩ := v
    obtain ⟨o₁, m₁, hm₁, hstr, -, -, hlists, hrep⟩ := m.lpop_spec now hp
    obtain ⟨-, rfl⟩ : o₁ = o ∧ m₁ = m' := by simpa [hm₁] using hs
    by_cases hpop : ((m.lists.items key).take (count.getD 1)).isEmpty
    · -- nothing taken: nothing recorded, and the list is as it was
      have hdrop : (m.lists.items key).drop (count.getD 1) = m.lists.items key := by
        rcases List.take_eq_nil_iff.1 (List.isEmpty_iff.1 hpop) with h0 | h0 <;> simp [h0]
      rw [if_pos hpop] at hrep
      refine h.quiet (by rw [hstr]; exact Strings.Agree.refl _) (fun k => ?_) (by rw [hrep])
        (by rw [hrep]; exact h.master)
      rw [hlists k]
      split <;> simp_all
    · rw [if_neg hpop] at hrep
      have ha : q.toCommand.hasArity = true := by
        have := parseLPop_length hp
        simp [Command.hasArity, Request.toCommand, hq, Verb.arity]
        omega
      refine ⟨[q.toValue], by rw [hrep]; exact record_events h.master _, ?_⟩
      rw [List.map_singleton, h.replicate_request ha]
      obtain ⟨o₂, r₁, hr₁, hrs, hrw, hrt, hrl, -⟩ :=
        r.lpop_spec now (q := { q with origin := link }) hp
      rw [hq] at hr₁
      simp only [perform, act, hq, hr₁]
      refine ⟨by rw [hrep]; simpa using h.master, ⟨by rw [hstr, hrs]; exact h.agree.strings,
        fun k => ?_⟩, by rw [hrw]; exact h.idle, by rw [hrt]; exact h.link⟩
      rw [hlists k, hrl k, h.agree.lists key, h.agree.lists k]

/-- A replicated `LPOP key` takes the first item of the key's list on the replica as on the
master. -/
theorem Follows.lpop_event (h : Follows link now m r) (key : String) :
    Follows link now { m with lists := (m.lists.lpop key).2 }
      (r.replicate link [(Value.command ["LPOP", key], now)]) := by
  let q : Request := { origin := link, action := .lpop, args := [key] }
  have ha : q.toCommand.hasArity = true := by simp [q, Command.hasArity, Request.toCommand, Verb.arity]
  have hv : q.toValue = Value.command ["LPOP", key] := Request.toValue_of_keyword (by decide) link [key]
  rw [← hv, h.replicate_request ha]
  obtain ⟨o, r₁, hr₁, hrs, hrw, hrt, hrl, -⟩ := r.lpop_spec now (q := q) rfl
  simp only [perform, act, q, hr₁]
  refine ⟨h.master, ⟨by rw [hrs]; exact h.agree.strings, fun k => ?_⟩, by rw [hrw]; exact h.idle,
    by rw [hrt]; exact h.link⟩
  rw [hrl k, Lists.items_lpop, h.agree.lists key, h.agree.lists k]
  rfl

/-- `k` replicated `LPOP key`s take the first `k` items of the key's list. -/
theorem Follows.lpops (key : String) : ∀ (k : Nat) {m m₂ r : Server}, Follows link now m r →
    m₂.strings = m.strings → m₂.replication.isMaster = true →
    (∀ k', m₂.lists.items k' = if key = k' then (m.lists.items key).drop k else m.lists.items k') →
    Follows link now m₂ (r.replicate link (List.replicate k (Value.command ["LPOP", key], now)))
  | 0, m, m₂, r, h, hs, hm, hl => by
    refine h.congr (by rw [hs]; exact Strings.Agree.refl _) (fun k' => ?_) hm
    rw [hl k']
    split <;> simp_all
  | k + 1, m, m₂, r, h, hs, hm, hl => by
    rw [List.replicate_succ]
    refine Follows.lpops key k (h.lpop_event key) hs hm fun k' => ?_
    rw [hl k', Lists.items_lpop, Lists.items_lpop]
    split <;> simp_all

theorem Follows.blpop (h : Follows link now m r) {q : Request} {o : Outcome}
    (hs : m.blpop now q = .ok (o, m')) : Replicates link now m m' r := by
  cases hp : parseBLPop q.args with
  | error e => simp [Server.blpop, hp, bind, Except.bind] at hs
  | ok v =>
    obtain ⟨key, timeout⟩ := v
    rcases hl : m.lists.lpop key with ⟨_ | x, L⟩
    · -- no data: the pop answers null or waits, which touches neither store
      simp only [Server.blpop, hp, hl, bind, Except.bind, pure, Except.pure] at hs
      split at hs
      · obtain ⟨-, rfl⟩ : _ ∧ m = m' := by simpa using hs
        exact h.same
      · obtain ⟨-, rfl⟩ : _ ∧ m.block now key q.origin timeout = m' := by simpa using hs
        exact h.quiet (Strings.Agree.refl _) (fun _ => rfl) rfl h.master
    · -- the pop takes the first item, recorded as `LPOP key`
      simp only [Server.blpop, hp, hl, bind, Except.bind, pure, Except.pure] at hs
      obtain ⟨-, rfl⟩ : _ ∧ ({ m with lists := L }).record (Value.command ["LPOP", key]) = m' := by
        simpa using hs
      refine ⟨[Value.command ["LPOP", key]], record_events h.master _, ?_⟩
      rw [List.map_singleton]
      refine (h.lpop_event key).congr (Strings.Agree.refl _) (fun k => ?_) (by simpa using h.master)
      simp [hl]

theorem Follows.push (h : Follows link now m r) (front : Bool) {q : Request}
    (hq : q.action = if front then .lpush else .rpush) {o : Outcome}
    (hs : m.push front now q = .ok (o, m')) : Replicates link now m m' r := by
  rcases hargs : q.args with _ | ⟨key, _ | ⟨item, rest⟩⟩
  · simp [Server.push, hargs] at hs
  · simp [Server.push, hargs] at hs
  rcases hP : (if front then m.lists.lpush key (item :: rest) else m.lists.rpush key (item :: rest))
    with ⟨len, P⟩
  simp only [Server.push, hargs, hP, Except.ok.injEq, Prod.mk.injEq] at hs
  obtain ⟨-, rfl⟩ := hs
  -- the master pushes, then serves `k` blocked pops from the front of the list
  have hm₁ : (({ m with lists := P }).record q.toValue).replication.isMaster = true := by
    simpa using h.master
  obtain ⟨k, hws, hwl, hwe, hwm⟩ := wake_spec hm₁ now key
  refine ⟨q.toValue :: List.replicate k (Value.command ["LPOP", key]), ?_, ?_⟩
  · rw [hwe, record_events (by simpa using h.master)]
    simp
  -- the replica pushes the same items and, with no pop blocked on it, serves none
  have ha : q.toCommand.hasArity = true := by
    cases front <;> simp [Command.hasArity, Request.toCommand, Verb.arity, hq, hargs]
  rcases hPr : (if front then r.lists.lpush key (item :: rest) else r.lists.rpush key (item :: rest))
    with ⟨lenr, Pr⟩
  have hitems : ∀ k', P.items k' = Pr.items k' := by
    intro k'
    have hP2 := congrArg Prod.snd hP
    have hPr2 := congrArg Prod.snd hPr
    cases front <;> simp only [Bool.false_eq_true, if_true, if_false] at hP2 hPr2 <;>
      simp only [← hP2, ← hPr2, Lists.items_lpush, Lists.items_rpush, h.agree.lists]
  have hpush : r.replicate link [(q.toValue, now)] =
      (({ r with lists := Pr }).record ({ q with origin := link }).toValue).wake now key := by
    rw [h.replicate_request ha]
    cases front <;> simp only [Bool.false_eq_true, if_true, if_false] at hq hPr <;>
      simp only [perform, act, hq, Server.push, hargs, Bool.false_eq_true, if_true, if_false, hPr]
  obtain ⟨hrs, hrl, hri, hrt⟩ := wake_of_idle (s := ({ r with lists := Pr }).record
    ({ q with origin := link }).toValue) h.idle now key
  have h₁ : Follows link now (({ m with lists := P }).record q.toValue)
      (r.replicate link [(q.toValue, now)]) := by
    rw [hpush]
    exact ⟨hm₁, ⟨by rw [hrs]; exact h.agree.strings, fun k' => by rw [hrl]; exact hitems k'⟩, hri,
      by rw [hrt]; exact h.link⟩
  rw [List.map_cons, List.map_replicate, show ∀ x xs, (x :: xs : List (Value × Instant)) = [x] ++ xs
    from fun _ _ => rfl, replicate_append]
  exact Follows.lpops key k h₁ hws hwm hwl

/-- Every command the master runs replicates: what it records takes a following replica to one
that follows the master afterwards. -/
theorem act_replicates (h : Follows link now m r) {q : Request} {o : Outcome}
    (hs : m.act now q = .ok (o, m')) : Replicates link now m m' r := by
  unfold Server.act at hs
  cases ha : q.action <;> simp only [ha] at hs
  case set => exact h.set ha hs
  case incr => exact h.incr ha hs
  case rpush => exact h.push false ha hs
  case lpush => exact h.push true ha hs
  case lpop => exact h.lpop ha hs
  case blpop => exact h.blpop hs
  case get =>
    -- a read drops an expired entry, which no reader sees
    unfold Server.get at hs
    split at hs
    · obtain ⟨-, rfl⟩ := Prod.mk.inj (Except.ok.inj hs)
      exact h.quiet (Strings.agree_get _ now _) (fun _ => rfl) rfl h.master
    · simp at hs
  case psync =>
    -- a new replica is attached; nothing is recorded
    unfold Server.psync at hs
    split at hs
    · split at hs
      · simp at hs
      · obtain ⟨-, rfl⟩ := Prod.mk.inj (Except.ok.inj hs)
        have hm := h.master
        refine h.quiet (Strings.Agree.refl _) (fun _ => rfl) ?_ ?_ <;>
          simp only [Replication.addReplica] <;> split <;> simp_all [Replication.isMaster]
    · simp at hs
  all_goals
    -- the other commands only read
    obtain rfl : m' = m := by
      simp only [Server.ping, Server.echo, Server.lrange, Server.llen, Server.info,
        Server.replconf, bind, Except.bind, pure, Except.pure] at hs
      repeat' split at hs
      all_goals first | exact (Prod.mk.inj (Except.ok.inj hs)).2.symm | simp at hs
    exact h.same

theorem perform_replicates (h : Follows link now m r) (q : Request) :
    Replicates link now m (m.perform now q).2 r := by
  unfold perform
  cases hs : m.act now q with
  | error e => exact h.same
  | ok x => exact act_replicates h hs

/-- The commands of a transaction, run in order by EXEC, replicate one after the other. -/
theorem replay_replicates (now : Instant) : ∀ (qs : List Request) {m r : Server},
    Follows link now m r → Replicates link now m (replay now qs m).2 r
  | [], _, _, h => h.same
  | q :: qs, m, r, h => by
    rcases hp : m.perform now q with ⟨o, m₁⟩
    have h₁ := perform_replicates h q
    rw [hp] at h₁
    rcases hr : replay now qs m₁ with ⟨vs, m₂⟩
    have h₂ : ∀ r', Follows link now m₁ r' → Replicates link now m₁ m₂ r' := by
      intro r' h'
      have := replay_replicates now qs h'
      rwa [hr] at this
    simp only [replay, hp, hr]
    exact h₁.trans h₂

theorem run_replicates (h : Follows link now m r) (c : Command) :
    Replicates link now m (m.run now c).2 r := by
  unfold run
  rcases hc : m.control now c.origin c.args c.verb with e | ⟨o, m'⟩
  · exact h.same
  unfold control at hc
  -- MULTI and DISCARD only open or drop a queue
  have hqueue : ∀ ts : Transactions, Replicates link now m { m with transactions := ts } r :=
    fun _ => h.quiet (Strings.Agree.refl _) (fun _ => rfl) rfl h.master
  cases hv : c.verb <;> simp only [hv] at hc
  case multi =>
    split at hc
    · obtain ⟨-, rfl⟩ := Prod.mk.inj (Except.ok.inj hc)
      exact hqueue _
    · simp at hc
  case discard =>
    split at hc
    · simp at hc
    · split at hc
      · simp at hc
      · obtain ⟨-, rfl⟩ := Prod.mk.inj (Except.ok.inj hc)
        exact hqueue _
  case exec =>
    split at hc
    · simp at hc
    · split at hc
      · simp at hc
      · -- EXEC replays the queue, with nothing allowed to wait
        rename_i queued ts _
        rcases hrp : replay now queued { m with transactions := ts, replaying := true } with
          ⟨replies, m₂⟩
        simp only [hrp, Except.ok.injEq, Prod.mk.injEq] at hc
        obtain ⟨-, rfl⟩ := hc
        have h₀ : Follows link now { m with transactions := ts, replaying := true } r :=
          h.congr (Strings.Agree.refl _) (fun _ => rfl) h.master
        have := replay_replicates now queued h₀
        rw [hrp] at this
        exact this.congr rfl rfl rfl
  case action a => exact act_replicates h hc

/-- Whatever request the master answers, the writes it records replicate. -/
theorem execute_replicates (h : Follows link now m r) (origin : ConnId) (frame : Value) :
    Replicates link now m (m.execute now origin frame).2 r := by
  unfold execute
  split
  · exact h.same
  · split
    · exact h.same
    · split
      · -- queued inside a transaction: nothing runs yet
        exact h.quiet (Strings.Agree.refl _) (fun _ => rfl) rfl h.master
      · exact run_replicates h _

end Server

/-- What happens at a master: a request frame from a connection at an instant, a connection
opening or closing, or a timer task firing. -/
inductive MasterStep where
  | execute (now : Instant) (conn : ConnId) (frame : Value)
  | opened
  | closed (conn : ConnId)
  | fire (task : TimerTask)

/-- The instant of a step that runs a request. -/
def MasterStep.instant? : MasterStep → Option Instant
  | .execute now _ _ => some now
  | _ => none

namespace Server

/-- Runs steps on a master: the server afterwards, and the writes it recorded, each with the
instant of the step that recorded it. -/
def runSteps : List MasterStep → Server → Server × List (Value × Instant)
  | [], s => (s, [])
  | .execute now c f :: steps, s =>
    let s' := (s.execute now c f).2
    ((runSteps steps s').1,
      (s'.replication.events.drop s.replication.events.length).map (·, now) ++ (runSteps steps s').2)
  | .opened :: steps, s => runSteps steps s.connectionOpened.2
  | .closed c :: steps, s => runSteps steps (s.connectionClosed c)
  | .fire task :: steps, s => runSteps steps (s.fire task)

variable {link : ConnId}

/-- Run lemma: along a run of the master whose requests come at instants that never go back, the
writes recorded, applied in order on a following replica, keep it following the master. -/
theorem runSteps_follows : ∀ (steps : List MasterStep) {t : Instant} {m r : Server},
    Follows link t m r → List.IsChain (· ≤ ·) (t :: steps.filterMap MasterStep.instant?) →
    (m.runSteps steps).1.replication.events =
        m.replication.events ++ (m.runSteps steps).2.map (·.1) ∧
      Follows link ((steps.filterMap MasterStep.instant?).getLastD t) (m.runSteps steps).1
        (r.replicate link (m.runSteps steps).2)
  | [], _, _, _, h, _ => ⟨by simp [runSteps], h⟩
  | .execute now c f :: steps, t, m, r, h, hchain => by
    simp only [List.filterMap_cons, MasterStep.instant?, List.isChain_cons_cons] at hchain
    obtain ⟨es, he, hf⟩ := execute_replicates (h.of_le hchain.1) c f
    obtain ⟨he', hf'⟩ := runSteps_follows steps hf hchain.2
    have hdrop : (m.execute now c f).2.replication.events.drop m.replication.events.length = es := by
      rw [he, List.drop_left]
    simp only [runSteps, hdrop, List.filterMap_cons, MasterStep.instant?, List.getLastD_cons]
    refine ⟨by rw [he', he]; simp [Function.comp_def], ?_⟩
    rw [replicate_append]
    exact hf'
  | .opened :: steps, t, m, r, h, hchain => by
    have h' : Follows link t m.connectionOpened.2 r :=
      h.congr (Strings.Agree.refl _) (fun _ => rfl) h.master
    exact runSteps_follows steps h' (by simpa [List.filterMap_cons, MasterStep.instant?] using hchain)
  | .closed c :: steps, t, m, r, h, hchain => by
    have h' : Follows link t (m.connectionClosed c) r :=
      h.congr (Strings.Agree.refl _) (fun _ => rfl) (by simpa using h.master)
    exact runSteps_follows steps h' (by simpa [List.filterMap_cons, MasterStep.instant?] using hchain)
  | .fire task :: steps, t, m, r, h, hchain => by
    have h' : Follows link t (m.fire task) r :=
      h.congr (by rw [fire_strings]; exact Strings.Agree.refl _) (by simp) (by simpa using h.master)
    obtain ⟨he, hf⟩ :=
      runSteps_follows steps h' (by simpa [List.filterMap_cons, MasterStep.instant?] using hchain)
    rw [fire_events] at he
    exact ⟨he, hf⟩

/-- A replica whose stores agree with its master's at `t₀`, deadlines included, with no pop blocked
on it and its link to the master in no transaction, applies the writes the master records along
any run whose requests come at instants from `t₀` on that never go back, each write on the link at
the instant the master made it. The writes are exactly those appended to the master's record, in
order, and afterwards the replica shows the same texts and the same lists as the master at every
instant from the master's last request on. -/
theorem replica_applies_master_writes {m r : Server} {link : ConnId} {t₀ : Instant}
    {steps : List MasterStep} (hm : m.replication.isMaster = true) (hagree : StoresAgree t₀ m r)
    (hidle : ∀ key, r.waiters.queue key = []) (hlink : r.transactions.isActive link = false)
    (htime : List.IsChain (· ≤ ·) (t₀ :: steps.filterMap MasterStep.instant?)) :
    let run := m.runSteps steps
    run.1.replication.events = m.replication.events ++ run.2.map (·.1) ∧
      ∀ t, (steps.filterMap MasterStep.instant?).getLastD t₀ ≤ t → ∀ key,
        run.1.strings.view t key = (r.replicate link run.2).strings.view t key ∧
          run.1.lists.items key = (r.replicate link run.2).lists.items key := by
  intro run
  obtain ⟨he, hf⟩ := runSteps_follows steps ⟨hm, hagree, hidle, hlink⟩ htime
  exact ⟨he, fun t ht key => ⟨hf.agree.strings.view_eq ht key, hf.agree.lists key⟩⟩

/-- A fresh master and a fresh replica, the master running one SET. -/
theorem replica_applies_master_writes_of_set :
    let m := Server.new .master 6379
    let r := Server.new (.replica ⟨"localhost", 6379⟩) 6380
    let steps := [MasterStep.execute 0 1 (Value.command ["SET", "k", "v"])]
    let run := m.runSteps steps
    (m.replication.isMaster = true ∧ StoresAgree 0 m r ∧ (∀ key, r.waiters.queue key = []) ∧
      r.transactions.isActive 7 = false ∧
      List.IsChain (· ≤ ·) (0 :: steps.filterMap MasterStep.instant?)) ∧
    (run.1.replication.events = m.replication.events ++ run.2.map (·.1) ∧
      ∀ t, (steps.filterMap MasterStep.instant?).getLastD 0 ≤ t → ∀ key,
        run.1.strings.view t key = (r.replicate 7 run.2).strings.view t key ∧
          run.1.lists.items key = (r.replicate 7 run.2).lists.items key) := by
  intro m r steps run
  have hm : m.replication.isMaster = true := rfl
  have hagree : StoresAgree 0 m r := ⟨fun _ => rfl, fun _ => rfl⟩
  have hidle : ∀ key, r.waiters.queue key = [] := by simp [r, Server.new, Waiters.queue]
  have hlink : r.transactions.isActive 7 = false := by
    simp [r, Server.new, Transactions.isActive]
  have htime : List.IsChain (· ≤ ·) (0 :: steps.filterMap MasterStep.instant?) := by
    simp [steps, MasterStep.instant?]
  exact ⟨⟨hm, hagree, hidle, hlink, htime⟩,
    replica_applies_master_writes hm hagree hidle hlink htime⟩

/-! ## A master running one SET -/

/-- A SET from a connection in no transaction stores the text, with no deadline, and records the
request. -/
theorem execute_set {s : Server} {o : ConnId} (hidle : s.transactions.isActive o = false)
    (now : Instant) (key value : String) :
    (s.execute now o (Value.command ["SET", key, value])).2 =
      ({ s with strings := s.strings.set now key value none }).record
        (Value.command ["SET", key, value]) := by
  have hq : ({ origin := o, action := .set, args := [key, value] } : Request).toValue =
      Value.command ["SET", key, value] := Request.toValue_of_keyword (by decide) o [key, value]
  rw [← hq, execute_request hidle (by simp [Command.hasArity, Request.toCommand, Verb.arity])]
  simp [perform, act, Server.set, parseSet, bind, Except.bind, pure, Except.pure]

/-- A master's run of one SET records it, to be replicated at its instant. -/
theorem runSteps_set {s : Server} (hm : s.replication.isMaster = true) {c : ConnId}
    (hidle : s.transactions.isActive c = false) (now : Instant) (key value : String) :
    s.runSteps [.execute now c (Value.command ["SET", key, value])] =
      (({ s with strings := s.strings.set now key value none }).record
          (Value.command ["SET", key, value]),
        [(Value.command ["SET", key, value], now)]) := by
  have hev : (({ s with strings := s.strings.set now key value none }).record
      (Value.command ["SET", key, value])).replication.events =
        s.replication.events ++ [Value.command ["SET", key, value]] := record_events hm _
  simp only [runSteps, execute_set hidle, hev]
  simp

/-- Replaying the master's writes keeps the replica in step only when its link is outside a
transaction and the two stores agree on deadlines. A replica whose link to the master is inside a
transaction, as a MULTI on the link leaves it, only queues the master's SET; and a replica holding
a text that the master holds with a deadline shows it after the master's copy expired. -/
theorem replica_diverges_in_transaction_or_on_deadlines :
    (let m := Server.new .master 6379
     let r := ((Server.new (.replica ⟨"localhost", 6379⟩) 6380).execute 0 7
       (Value.command ["MULTI"])).2
     let run := m.runSteps [.execute 0 1 (Value.command ["SET", "k", "v"])]
     r.replication.isMaster = false ∧ (∀ key, r.waiters.queue key = []) ∧
       (∀ key, m.strings.view 0 key = r.strings.view 0 key ∧ m.lists.items key = r.lists.items key) ∧
       run.1.strings.view 0 "k" = some "v" ∧ (r.replicate 7 run.2).strings.view 0 "k" = none) ∧
    (let m := { Server.new .master 6379 with strings := ({} : Strings).set 0 "k" "v" (some 10000000) }
     let r := { Server.new (.replica ⟨"localhost", 6379⟩) 6380 with
       strings := ({} : Strings).set 0 "k" "v" none }
     let run := m.runSteps [.execute 20000000 1 (Value.command ["SET", "j", "w"])]
     r.replication.isMaster = false ∧ (∀ key, r.waiters.queue key = []) ∧
       r.transactions.isActive 7 = false ∧
       (∀ key, m.strings.view 0 key = r.strings.view 0 key ∧ m.lists.items key = r.lists.items key) ∧
       run.1.strings.view 20000000 "k" = none ∧
       (r.replicate 7 run.2).strings.view 20000000 "k" = some "v") := by
  constructor
  · -- the link inside a transaction
    intro m r run
    have hmulti : Value.command ["MULTI"] =
        ({ origin := 7, verb := .multi, args := [] } : Command).toRequest := by
      have hkw' : Verb.multi.keyword = "MULTI" := by decide
      simp only [Command.toRequest, hkw']
    have hr : r = { Server.new (.replica ⟨"localhost", 6379⟩) 6380 with
        transactions := ({} : Transactions).multi 7 } := by
      simp only [r, hmulti]
      simp [Server.execute, Command.ofFrame_toRequest, Command.hasArity, Verb.arity,
        Transactions.enqueue?, Server.run, Server.control]
      rfl
    have hq7 : r.transactions.queues[7]? = some [] := by
      rw [hr]
      simp [Transactions.multi]
    have hrep : (r.replicate 7 [(Value.command ["SET", "k", "v"], 0)]).strings = r.strings := by
      have hv : ({ origin := 7, action := .set, args := ["k", "v"] } : Request).toValue =
          Value.command ["SET", "k", "v"] := Request.toValue_of_keyword (by decide) 7 ["k", "v"]
      rw [← hv]
      simp only [replicate]
      rw [execute_queued hq7 (by simp [Command.hasArity, Request.toCommand, Verb.arity])]
    have hrun := runSteps_set (s := m) rfl (c := 1) (by simp [m, Server.new, Transactions.isActive])
      0 "k" "v"
    refine ⟨by rw [hr]; rfl, by rw [hr]; simp [Waiters.queue, Server.new],
      fun key => ⟨by rw [hr]; rfl, by rw [hr]; rfl⟩, ?_, ?_⟩
    · simp [run, hrun, Strings.view, Strings.live_set, Entry.expired]
    · simp only [run, hrun, hrep]
      rw [hr]
      simp [Strings.view, Strings.live, Server.new]
  · -- the same texts now, with different deadlines
    intro m r run
    have hrun := runSteps_set (s := m) rfl (c := 1) (by simp [m, Server.new, Transactions.isActive])
      20000000 "j" "w"
    have hidle : r.transactions.isActive 7 = false := by simp [r, Server.new, Transactions.isActive]
    refine ⟨rfl, by simp [r, Waiters.queue, Server.new], hidle, fun key => ⟨?_, rfl⟩, ?_, ?_⟩
    · by_cases hk : "k" = key <;>
        simp [m, r, hk, Strings.view, Strings.live_set, Entry.expired, Clock.later?, Clock.horizon,
          Clock.nanosPerSecond]
    · simp only [run, hrun, m, record_strings, Strings.view, Strings.live_set]
      simp [Entry.expired, Clock.later?, Clock.horizon, Clock.nanosPerSecond]
    · simp only [run, hrun, replicate, execute_set hidle 20000000 "j" "w", r, record_strings,
        Strings.view, Strings.live_set]
      simp [Entry.expired]

end Server

end KvServer
