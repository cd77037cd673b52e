import Mathlib
import KvServer.Proofs.Suspension

/-!
# What requests do to the bookkeeping of connections

Besides its data, the server keeps what it knows of connections: which are open, the transaction
queue of each connection inside a transaction, the replicas attached, and the role and flags of
its own link to a master. A request of connection `o` changes little of it. An action only
records writes, and PSYNC attaches its sender (`Server.act_replication`); so a request keeps the
role and the link flags and attaches no replica but `o` or the sender of a request waiting in
`o`'s queue (`Replication.Attaches`, `Server.execute_attaches`). It changes no other queue, and
every queue keeps holding only requests of its owner (`Transactions.Owned`,
`Server.execute_owned`).

Processing the buffered frames of a connection runs its requests one after the other and, on a
link to the master, sets the link flag when the handshake ends; any relation that each of these
keeps and that composes holds across it (`Connection.processWith_rel`).
-/

namespace KvServer

namespace Replication

@[simp] theorem record_masterDown (r : Replication) (e : Value) :
    (r.record e).masterDown = r.masterDown := by
  unfold record
  split <;> rfl

@[simp] theorem record_retryPending (r : Replication) (e : Value) :
    (r.record e).retryPending = r.retryPending := by
  unfold record
  split <;> rfl

@[simp] theorem record_masterLinkUp (r : Replication) (e : Value) :
    (r.record e).masterLinkUp = r.masterLinkUp := by
  unfold record
  split <;> rfl

/-- From `r` to `r'` the role and the flags of the link to the master stay, and every replica
attached is one of `r` or one of `ids`. -/
structure Attaches (ids : List ConnId) (r r' : Replication) : Prop where
  role : r'.role = r.role
  masterDown : r'.masterDown = r.masterDown
  retryPending : r'.retryPending = r.retryPending
  masterLinkUp : r'.masterLinkUp = r.masterLinkUp
  replicas : ∀ c ∈ r'.replicas, c ∈ r.replicas ∨ c ∈ ids

namespace Attaches

variable {ids ids' : List ConnId} {r₁ r₂ r₃ : Replication}

theorem refl (ids : List ConnId) (r : Replication) : Attaches ids r r :=
  ⟨rfl, rfl, rfl, rfl, fun _ h => .inl h⟩

theorem trans (h₁ : Attaches ids r₁ r₂) (h₂ : Attaches ids r₂ r₃) : Attaches ids r₁ r₃ where
  role := h₂.role.trans h₁.role
  masterDown := h₂.masterDown.trans h₁.masterDown
  retryPending := h₂.retryPending.trans h₁.retryPending
  masterLinkUp := h₂.masterLinkUp.trans h₁.masterLinkUp
  replicas c hc := (h₂.replicas c hc).elim (h₁.replicas c) .inr

theorem mono (h : Attaches ids r₁ r₂) (hsub : ∀ c ∈ ids, c ∈ ids') : Attaches ids' r₁ r₂ :=
  ⟨h.role, h.masterDown, h.retryPending, h.masterLinkUp,
    fun c hc => (h.replicas c hc).imp id (hsub c)⟩

/-- Recording writes attaches nothing. -/
theorem foldl_record (ids : List ConnId) (r : Replication) (es : List Value) :
    Attaches ids r (es.foldl record r) := by
  induction es generalizing r with
  | nil => exact refl ids r
  | cons e es ih =>
    exact (show Attaches ids r (r.record e) by
      refine ⟨by simp, by simp, by simp, by simp, fun c hc => .inl ?_⟩
      simpa using hc).trans (ih _)

theorem addReplica (r : Replication) {c : ConnId} (hc : c ∈ ids) : Attaches ids r (r.addReplica c) := by
  unfold Replication.addReplica
  split
  · exact refl ids r
  · refine ⟨rfl, rfl, rfl, rfl, fun c' hc' => ?_⟩
    rcases List.mem_append.1 hc' with h | h
    · exact .inl h
    · exact .inr (List.mem_singleton.1 h ▸ hc)

end Attaches

end Replication

namespace Server

/-! ## What an action does to the replication state -/

/-- An action only records writes; PSYNC first attaches its sender as a replica. -/
theorem act_replication {s s' : Server} {now : Instant} {q : Request} {o : Outcome}
    (h : s.act now q = .ok (o, s')) :
    ∃ es : List Value, s'.replication = es.foldl Replication.record
      (if q.action = .psync then s.replication.addReplica q.origin else s.replication) := by
  obtain ⟨origin, a, args⟩ := q
  cases a
  case psync =>
    simp only [act, psync] at h
    split at h
    · split at h
      · cases h
      · cases h
        exact ⟨[], rfl⟩
    · cases h
  case rpush | lpush =>
    simp only [act, push] at h
    split at h
    · cases h
      -- the push records the request, and its wake one `LPOP` per item it hands out
      obtain ⟨k, -, -, -, hrep⟩ := wake_grows _ now _
      exact ⟨_ :: List.replicate k _, hrep⟩
    · cases h
  case set =>
    simp only [act, Server.set, bind, Except.bind, pure, Except.pure] at h
    split at h
    · cases h
    · cases h
      exact ⟨[_], rfl⟩
  case incr =>
    simp only [act, Server.incr] at h
    split at h
    · split at h
      · cases h
        exact ⟨[_], rfl⟩
      · cases h
    · cases h
  case lpop =>
    simp only [act, Server.lpop, bind, Except.bind, pure, Except.pure] at h
    split at h
    · cases h
    · cases h
      simp only [reduceCtorEq, ↓reduceIte]
      split_ifs
      · exact ⟨[_], rfl⟩
      · exact ⟨[], rfl⟩
  case blpop =>
    simp only [act, Server.blpop, bind, Except.bind, pure, Except.pure] at h
    split at h
    · cases h
    · split at h
      · cases h
        exact ⟨[_], rfl⟩
      · split at h <;> cases h <;> exact ⟨[], rfl⟩
  -- every other action keeps the replication state
  all_goals
    simp only [act, ping, echo, Server.get, Server.lrange, llen, info, replconf, bind,
      Except.bind, pure, Except.pure] at h
    repeat' split at h
    all_goals cases h
    all_goals exact ⟨[], rfl⟩

theorem act_attaches {s s' : Server} {now : Instant} {q : Request} {o : Outcome}
    (h : s.act now q = .ok (o, s')) : Replication.Attaches [q.origin] s.replication s'.replication := by
  obtain ⟨es, hes⟩ := act_replication h
  rw [hes]
  refine Replication.Attaches.trans ?_ (.foldl_record _ _ es)
  split
  · exact .addReplica _ (List.mem_singleton_self _)
  · exact .refl _ _

theorem perform_attaches (s : Server) (now : Instant) (q : Request) :
    Replication.Attaches [q.origin] s.replication (s.perform now q).2.replication := by
  unfold perform
  split
  · rename_i o s' h
    exact act_attaches h
  · exact .refl _ _

theorem replay_attaches (now : Instant) : ∀ (qs : List Request) (s : Server),
    Replication.Attaches (qs.map (·.origin)) s.replication (replay now qs s).2.replication
  | [], s => .refl _ _
  | q :: qs, s => by
    have h₁ : Replication.Attaches ((q :: qs).map (·.origin)) s.replication
        (s.perform now q).2.replication := (perform_attaches s now q).mono (by simp)
    have h₂ : Replication.Attaches ((q :: qs).map (·.origin)) (s.perform now q).2.replication
        (replay now qs (s.perform now q).2).2.replication :=
      (replay_attaches now qs (s.perform now q).2).mono fun c hc => List.mem_cons_of_mem _ hc
    exact h₁.trans h₂

/-- The requests waiting in the queue of `o`. -/
def queued (s : Server) (o : ConnId) : List Request :=
  (s.transactions.queues[o]?).getD []

/-- MULTI, EXEC, DISCARD or an action of `o` attaches at most `o` and the senders of the requests
EXEC replays from `o`'s queue. -/
theorem control_attaches {s s' : Server} {now : Instant} {o : ConnId} {args : List String}
    {v : Verb} {out : Outcome} (h : s.control now o args v = .ok (out, s')) :
    Replication.Attaches (o :: (s.queued o).map (·.origin)) s.replication s'.replication := by
  cases v with
  | action a => exact (act_attaches h).mono (by simp)
  | multi =>
    simp only [control] at h
    split at h <;> cases h
    exact .refl _ _
  | discard =>
    simp only [control] at h
    split at h
    · cases h
    · split at h <;> cases h
      exact .refl _ _
  | exec =>
    simp only [control] at h
    split at h
    · cases h
    · split at h
      · cases h
      · rename_i queued ts hx
        cases h
        -- EXEC replays exactly `o`'s queue
        have hq : queued = s.queued o := by
          simp only [Transactions.exec?, Option.map_eq_some_iff] at hx
          obtain ⟨q, hq, hpair⟩ := hx
          simp [Server.queued, hq, ← (Prod.mk.inj hpair).1]
        show Replication.Attaches _ s.replication
          (replay now queued (s.withQueues ts true)).2.replication
        exact (replay_attaches now queued (s.withQueues ts true)).mono fun c hc =>
          List.mem_cons_of_mem o (hq ▸ hc)

/-- A request of `o` keeps the role and the link flags, and attaches no replica but `o` and the
senders of the requests waiting in `o`'s queue. -/
theorem execute_attaches (s : Server) (now : Instant) (o : ConnId) (f : Value) :
    Replication.Attaches (o :: (s.queued o).map (·.origin)) s.replication
      (s.execute now o f).2.replication := by
  unfold execute
  rcases hof : Command.ofFrame o f with e | cmd
  · exact .refl _ _
  have ho := Command.ofFrame_origin hof
  dsimp only
  split
  · exact .refl _ _
  · split
    · exact .refl _ _
    · unfold run
      split
      · rename_i out s' hc
        rw [ho] at hc
        exact control_attaches hc
      · exact .refl _ _

end Server

/-! ## Transaction queues -/

namespace Transactions

/-- Every queue holds only requests of the connection that owns it. -/
def Owned (t : Transactions) : Prop :=
  ∀ (c : ConnId) (qs : List Request), t.queues[c]? = some qs → ∀ q ∈ qs, q.origin = c

namespace Owned

variable {t t' : Transactions}

theorem erase (h : t.Owned) (o : ConnId) : ({ queues := t.queues.erase o } : Transactions).Owned := by
  unfold Owned
  intro c qs hc
  rw [Std.HashMap.getElem?_erase] at hc
  split at hc
  · cases hc
  · exact h c qs hc

theorem multi (h : t.Owned) (o : ConnId) : (t.multi o).Owned := by
  unfold Transactions.multi
  split
  · exact h
  unfold Owned
  intro c qs hc
  rw [Std.HashMap.getElem?_insert] at hc
  split at hc
  · cases hc
    simp
  · exact h c qs hc

/-- Queuing a command puts it into the queue of its sender. -/
theorem enqueue (h : t.Owned) {cmd : Command} (he : t.enqueue? cmd = some t') : t'.Owned := by
  unfold enqueue? at he
  split at he
  · split at he
    · rename_i q hq
      cases he
      unfold Owned
      intro c qs hc
      rw [Std.HashMap.getElem?_insert] at hc
      split at hc
      · rename_i hce
        cases hc
        intro r hr
        rcases List.mem_append.1 hr with hr | hr
        · exact (h _ _ hq r hr).trans (by simpa using hce)
        · rw [List.mem_singleton.1 hr]
          simpa using hce
      · exact h c qs hc
    · cases he
  · cases he

end Owned

end Transactions

namespace Server

theorem control_owned {s s' : Server} {now : Instant} {o : ConnId} {args : List String} {v : Verb}
    {out : Outcome} (h : s.control now o args v = .ok (out, s')) (ht : s.transactions.Owned) :
    s'.transactions.Owned := by
  cases v with
  | action a => rwa [← act_keeps h]
  | multi =>
    simp only [control] at h
    split at h <;> cases h
    exact ht.multi o
  | discard =>
    simp only [control] at h
    split at h
    · cases h
    · split at h
      · cases h
      · rename_i ts hd
        cases h
        simp only [Transactions.discard?] at hd
        split at hd <;> cases hd
        exact ht.erase o
  | exec =>
    simp only [control] at h
    split at h
    · cases h
    · split at h
      · cases h
      · rename_i queued ts hx
        cases h
        -- the replay keeps the queues EXEC left, which forgot `o`'s
        have hts : ts = { queues := s.transactions.queues.erase o } := by
          simp only [Transactions.exec?, Option.map_eq_some_iff] at hx
          obtain ⟨q, -, hpair⟩ := hx
          exact (Prod.mk.inj hpair).2.symm
        show (replay now queued (s.withQueues ts true)).2.transactions.Owned
        rw [replay_transactions, hts]
        exact ht.erase o

/-- Every request keeps each queue holding only requests of its owner. -/
theorem execute_owned (s : Server) (now : Instant) (o : ConnId) (f : Value)
    (ht : s.transactions.Owned) : (s.execute now o f).2.transactions.Owned := by
  unfold execute
  rcases Command.ofFrame o f with e | cmd
  · exact ht
  dsimp only
  split
  · exact ht
  · split
    · rename_i ts he
      exact ht.enqueue he
    · unfold run
      split
      · rename_i out s' hc
        exact control_owned hc ht
      · exact ht

end Server

/-! ## Processing the frames of a connection -/

namespace Connection

variable {now : Instant} {R : Server → Server → Prop} {o : ConnId}

section Rel

variable (refl : ∀ s, R s s) (trans : ∀ {s₁ s₂ s₃ : Server}, R s₁ s₂ → R s₂ s₃ → R s₁ s₃)
  (exec : ∀ s f, R s (s.execute now o f).2)
  (linkUp : ∀ s : Server, R s { s with replication := { s.replication with masterLinkUp := true } })
include refl exec linkUp

/-- Handling a frame of connection `o` runs a request of `o` or drives the handshake, and keeps
the connection's id, kind and close mark. -/
theorem handle_rel {c c' : Connection} {s s' : Server} {f : Value} {e : Option ConnectionError}
    (hh : c.handle s now f = (e, c', s')) (hc : c.id = o) :
    R s s' ∧ c'.id = c.id ∧ c'.isReplicaLink = c.isReplicaLink ∧ c'.wantClose = c.wantClose := by
  unfold handle at hh
  cases hr : c.role with
  | client =>
    rw [hr] at hh
    dsimp only at hh
    split at hh <;>
    · rename_i heq
      cases hh
      have hx := exec s f
      rw [← hc, heq] at hx
      exact ⟨hx, rfl, by simp [isReplicaLink, send, hr], rfl⟩
  | replicaLink h =>
    rw [hr] at hh
    dsimp only at hh
    split at hh
    · cases hh
      exact ⟨hc ▸ exec s f, rfl, rfl, rfl⟩
    split at hh <;> cases hh
    · exact ⟨refl s, rfl, by simp [isReplicaLink, hr], rfl⟩
    · exact ⟨refl s, rfl, by simp [isReplicaLink, send, hr], rfl⟩
    · exact ⟨linkUp s, rfl, by simp [isReplicaLink, hr], rfl⟩

include trans in
/-- Processing the frames of connection `o` relates the server before and after by any reflexive,
transitive relation that every request of `o` and the end of a handshake satisfy; the connection
keeps its id, kind and close mark. -/
theorem processWith_rel : ∀ (fuel : Nat) {c c' : Connection} {s s' : Server}
    {e : Option ConnectionError}, c.id = o → processWith now fuel c s = (e, c', s') →
    R s s' ∧ c'.id = c.id ∧ c'.isReplicaLink = c.isReplicaLink ∧ c'.wantClose = c.wantClose
  | 0, c, c', s, s', e, _, hp => by
    cases hp
    exact ⟨refl s, rfl, rfl, rfl⟩
  | fuel + 1, c, c', s, s', e, hc, hp => by
    rw [processWith] at hp
    split at hp
    · cases hp
      exact ⟨refl s, rfl, rfl, rfl⟩
    split at hp
    · cases hp
      exact ⟨refl s, rfl, rfl, rfl⟩
    · cases hp
      exact ⟨refl s, rfl, rfl, rfl⟩
    · -- a frame: it is handled, and processing goes on unless handling failed
      dsimp only at hp
      split at hp
      all_goals
        rename_i c₂ s₂ hh
        obtain ⟨hR, hid, hk, hw⟩ := handle_rel refl exec linkUp hh hc
      · obtain ⟨hR', hid', hk', hw'⟩ := processWith_rel fuel (hid.trans hc) hp
        exact ⟨trans hR hR', hid'.trans hid, hk'.trans hk, hw'.trans hw⟩
      · cases hp
        exact ⟨hR, hid, hk, hw⟩

end Rel

end Connection

end KvServer
