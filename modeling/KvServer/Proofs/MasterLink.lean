import Mathlib
import KvServer.Proofs.OpenConnections

/-!
# One link to the master

A replica keeps at most one way to its master at a time: a reconnect waiting in the timer queue, a
connect under way, or an open link. Losing the link, or failing to connect, marks the master down;
at the end of that turn a single reconnect is scheduled, and when it fires it starts the one
connect, whose outcome opens the one link or marks the master down again.

The invariant (`Reactor.Guarded`) says that the reconnects queued are one exactly when a retry is
pending, that at most one of a pending retry, a connect under way and a link to the master holds,
and that while the master is marked down there is neither a connect nor a link. Requests change
none of it (`Server.KeepsRetry`), and each phase of a turn keeps it, as long as the sockets report
the outcome of connecting only while a connect is under way, as they do (`Reactor.feasible`). So
in every state a run from a fresh loop reaches, a retry is pending exactly when one reconnect is
queued, and reconnects queued, connects under way and links to the master number at most one
together (`Reactor.at_most_one_master_link`).
-/

namespace KvServer

namespace TimerQueue

variable {α : Type}

/-- Putting a timer into the queue adds it and moves no other. -/
theorem perm_insert (t : Timer α) : ∀ ts : List (Timer α), (insert t ts).Perm (t :: ts)
  | [] => List.Perm.refl _
  | u :: us => by
    unfold insert
    split
    · exact List.Perm.refl _
    · exact ((perm_insert t us).cons u).trans (List.Perm.swap t u us)

end TimerQueue

namespace Server

/-- How many reconnects to the master the timer queue holds. -/
def reconnects (s : Server) : Nat :=
  s.timers.timers.countP (·.task = .reconnectMaster)

/-- Parking a pop registers at most its own timeout, no reconnect. -/
@[simp] theorem reconnects_block (s : Server) (now : Instant) (key : String) (c : ConnId)
    (t : Option Nat) : (s.block now key c t).reconnects = s.reconnects := by
  simp only [block, Waiters.block, reconnects]
  cases t.bind (Clock.later? now) with
  | none => rfl
  | some d =>
    dsimp only
    rw [TimerQueue.registerAt, (TimerQueue.perm_insert _ _).countP_eq, List.countP_cons]
    simp

/-- From `s` to `s'` the reconnects queued and the flags of the link to the master stay. -/
structure KeepsRetry (s s' : Server) : Prop where
  reconnects : s'.reconnects = s.reconnects
  retryPending : s'.replication.retryPending = s.replication.retryPending
  masterDown : s'.replication.masterDown = s.replication.masterDown

namespace KeepsRetry

theorem refl (s : Server) : KeepsRetry s s :=
  ⟨rfl, rfl, rfl⟩

theorem trans {s₁ s₂ s₃ : Server} (h₁ : KeepsRetry s₁ s₂) (h₂ : KeepsRetry s₂ s₃) :
    KeepsRetry s₁ s₃ :=
  ⟨h₂.reconnects.trans h₁.reconnects, h₂.retryPending.trans h₁.retryPending,
    h₂.masterDown.trans h₁.masterDown⟩

end KeepsRetry

/-- A request registers no reconnect: its timers are the timeouts of the pops it parks. -/
theorem execute_reconnects (s : Server) (now : Instant) (o : ConnId) (f : Value) :
    (s.execute now o f).2.reconnects = s.reconnects :=
  execute_induction (R := fun s _ s' => s'.reconnects = s.reconnects)
    (fun hk _ => by rw [reconnects, hk.timers]; rfl)
    (fun h₁ h₂ => h₂.trans h₁)
    (fun h => by
      cases h with
      | quiet hk _ => rw [reconnects, hk.timers]; rfl
      | pop _ _ hk _ => rw [reconnects, hk.timers]; rfl
      | push key l ev _ => simp only [reconnects, wake_timers]; rfl
      | park key timeout _ _ => exact reconnects_block _ _ _ _ _)
    s now o f

/-- A request keeps the reconnects queued and the flags of the link to the master. -/
theorem execute_keepsRetry (s : Server) (now : Instant) (o : ConnId) (f : Value) :
    KeepsRetry s (s.execute now o f).2 :=
  ⟨execute_reconnects s now o f, (execute_attaches s now o f).retryPending,
    (execute_attaches s now o f).masterDown⟩

end Server

namespace Connection

variable {now : Instant}

/-- Processing the frames of a connection keeps the reconnects queued and the flags of the link to
the master, and the connection stays a link to the master or a client. -/
theorem processWith_keepsRetry (fuel : Nat) {c c' : Connection} {s s' : Server}
    {e : Option ConnectionError} (hp : processWith now fuel c s = (e, c', s')) :
    Server.KeepsRetry s s' ∧ c'.isReplicaLink = c.isReplicaLink := by
  obtain ⟨hR, -, hk, -⟩ := processWith_rel (R := Server.KeepsRetry) Server.KeepsRetry.refl
    Server.KeepsRetry.trans (fun s f => Server.execute_keepsRetry s now c.id f)
    (fun _ => ⟨rfl, rfl, rfl⟩) fuel rfl hp
  exact ⟨hR, hk⟩

/-- Handing a deferred reply to a connection keeps the reconnects queued, the flags of the link to
the master, and the kind of the connection. -/
theorem handOver_keepsRetry (c : Connection) (d : Delivery) (s : Server) (now : Instant) :
    Server.KeepsRetry s (c.handOver d s now).2.2 ∧
      (c.handOver d s now).2.1.isReplicaLink = c.isReplicaLink := by
  rcases handOver_cases c d s now with ⟨-, h⟩ | ⟨-, -, -, -, e, c', s', hp, h⟩ | ⟨-, -, -, h⟩
  · rw [h]
    exact ⟨.refl s, rfl⟩
  · rw [h]
    obtain ⟨hk, hl⟩ := processWith_keepsRetry _ hp
    exact ⟨hk, hl⟩
  · rw [h]
    exact ⟨.refl s, rfl⟩

end Connection

namespace Reactor

open Connection

/-- How many links to the master the loop holds. -/
def masterLinks (r : Reactor) : Nat :=
  r.links.countP (·.conn.isReplicaLink)

/-! ## What the sockets report -/

/-- Whether the sockets can report `e` to the loop `r`: the outcome of connecting to the master
comes only while a connect is under way. -/
def admits (r : Reactor) : Event → Bool
  | .masterConnected _ => r.connecting
  | _ => true

/-- Whether the sockets can report the events of a turn in order, each to the loop the events
before it left. -/
def admitsAll (r : Reactor) (now : Instant) : List Event → Bool
  | [] => true
  | e :: es => r.admits e && (r.handle now e).admitsAll now es

/-- Whether the sockets can report a step: the events of a turn must be admitted; peers may do
anything. -/
def stepAdmits (r : Reactor) : Step → Bool
  | .turn now events => r.admitsAll now events
  | _ => true

/-- Whether the sockets can report every step of a run. -/
def feasible (r : Reactor) : List Step → Bool
  | [] => true
  | st :: sts => r.stepAdmits st && (r.step st).feasible sts

/-! ## Links to the master -/

/-- Changing links without changing their kind keeps the links to the master. -/
theorem masterLinks_modifyLink (r : Reactor) {id : ConnId} {f : Link → Link}
    (hf : ∀ l ∈ r.links, l.conn.id = id → (f l).conn.isReplicaLink = l.conn.isReplicaLink) :
    (r.modifyLink id f).masterLinks = r.masterLinks := by
  unfold masterLinks modifyLink
  rw [List.countP_map]
  refine List.countP_congr fun l hl => ?_
  by_cases hid : l.conn.id = id
  · simp [hid, hf l hl hid]
  · simp [hid]

theorem masterLinks_markClose (r : Reactor) (id : ConnId) :
    (r.markClose id).masterLinks = r.masterLinks :=
  masterLinks_modifyLink r fun _ _ _ => rfl

theorem masterLinks_flushLink {r : Reactor} (hnd : (r.links.map (·.conn.id)).Nodup) (id : ConnId) :
    (r.flushLink id).masterLinks = r.masterLinks := by
  unfold flushLink
  rcases hl : r.link? id with _ | l
  · rfl
  dsimp only
  split
  · rename_i c outgoing hf
    refine masterLinks_modifyLink r fun l' hl' hid => ?_
    have h := (flush_alike hf).isReplicaLink
    rw [eq_of_link? hnd hl l' hl' hid]
    exact h
  · exact masterLinks_markClose r id

/-- With one link to the master, `l`, links of the loop that leave `l` out hold no link to the
master. -/
theorem countP_replicaLink_filter_ne {r : Reactor} (hml : r.masterLinks = 1) {l : Link}
    (hl : l ∈ r.links) (hk : l.conn.isReplicaLink = true) {ls : List Link}
    (hsub : ∀ m ∈ ls, m ∈ r.links) :
    (ls.filter (·.conn.id != l.conn.id)).countP (·.conn.isReplicaLink) = 0 := by
  rw [List.countP_eq_zero]
  intro m hm hmk
  obtain ⟨a, ha⟩ := List.length_eq_one_iff.1
    (show (r.links.filter (·.conn.isReplicaLink)).length = 1 by
      rw [← List.countP_eq_length_filter]
      exact hml)
  have hma : m = a :=
    List.mem_singleton.1 (ha ▸ List.mem_filter.2 ⟨hsub m (List.mem_filter.1 hm).1, hmk⟩)
  have hla : l = a := List.mem_singleton.1 (ha ▸ List.mem_filter.2 ⟨hl, hk⟩)
  have hne := (List.mem_filter.1 hm).2
  rw [hma, ← hla] at hne
  simp at hne

/-! ## Steps that leave the guard alone -/

/-- From `r` to `r'` the loop keeps what the guard reads: the reconnects queued, the flags of the
link to the master, whether a connect is under way, and the links to the master. -/
structure Steady (r r' : Reactor) : Prop where
  server : Server.KeepsRetry r.server r'.server
  connecting : r'.connecting = r.connecting
  masterLinks : r'.masterLinks = r.masterLinks

namespace Steady

theorem refl (r : Reactor) : Steady r r :=
  ⟨.refl _, rfl, rfl⟩

theorem trans {r₁ r₂ r₃ : Reactor} (h₁ : Steady r₁ r₂) (h₂ : Steady r₂ r₃) : Steady r₁ r₃ :=
  ⟨h₁.server.trans h₂.server, h₂.connecting.trans h₁.connecting,
    h₂.masterLinks.trans h₁.masterLinks⟩

/-- Changing only the server, within what the guard reads of it, is steady. -/
theorem of_server {r : Reactor} {s : Server} (hs : Server.KeepsRetry r.server s) :
    Steady r { r with server := s } :=
  ⟨hs, rfl, rfl⟩

/-- Run lemma for the folds of a turn whose steps, with the server in sync, are steady. -/
theorem foldl {α : Type} {g : Reactor → α → Reactor} (hsync : ∀ r a, KeepsSync r (g r a))
    (hg : ∀ r a, r.InSync → Steady r (g r a)) :
    ∀ (L : List α) (r : Reactor), r.InSync → Steady r (L.foldl g r)
  | [], r, _ => refl r
  | a :: L, r, hs => (hg r a hs).trans (foldl hsync hg L _ (hsync r a hs).1)

end Steady

/-- Changing links without changing their kind is steady. -/
theorem steady_modifyLink (r : Reactor) {id : ConnId} {f : Link → Link}
    (hf : ∀ l ∈ r.links, l.conn.id = id → (f l).conn.isReplicaLink = l.conn.isReplicaLink) :
    Steady r (r.modifyLink id f) :=
  ⟨.refl _, rfl, masterLinks_modifyLink r hf⟩

theorem steady_markClose (r : Reactor) (id : ConnId) : Steady r (r.markClose id) :=
  steady_modifyLink r fun _ _ _ => rfl

/-- Writing to a link keeps its kind; with distinct ids, no other link changes. -/
theorem steady_flushLink {r : Reactor} (hnd : (r.links.map (·.conn.id)).Nodup) (id : ConnId) :
    Steady r (r.flushLink id) := by
  unfold flushLink
  rcases hl : r.link? id with _ | l
  · exact .refl r
  dsimp only
  split
  · rename_i c outgoing hf
    refine ⟨.refl _, rfl, masterLinks_modifyLink r fun l' hl' hid => ?_⟩
    rw [eq_of_link? hnd hl l' hl' hid]
    exact (flush_alike hf).isReplicaLink
  · exact steady_markClose r id

/-- Reading a link runs its requests and keeps its kind. -/
theorem steady_readable {r : Reactor} (hnd : (r.links.map (·.conn.id)).Nodup) (now : Instant)
    (i : ConnId) : Steady r (r.handle now (.readable i)) := by
  unfold Reactor.handle
  dsimp only
  rcases hl : r.link? i with _ | l
  · exact .refl r
  dsimp only
  rcases ho : l.conn.onReadable l.sock r.server now with ⟨e, c, sock, s'⟩
  dsimp only
  obtain ⟨e₁, c₁, hp, ha⟩ := onReadable_processes ho
  obtain ⟨hk, hkind⟩ := processWith_keepsRetry _ hp
  refine ⟨hk, rfl, masterLinks_modifyLink r fun l' hl' hid => ?_⟩
  rw [eq_of_link? hnd hl l' hl' hid]
  show (if e.isSome then { c with wantClose := true } else c).isReplicaLink = l.conn.isReplicaLink
  rw [(alike_closeIf c e.isSome).isReplicaLink, ha.isReplicaLink, hkind]
  rfl

/-- Handing a reply over runs at most the requests of its connection and keeps every link's kind. -/
theorem steady_handOver {r : Reactor} (hnd : (r.links.map (·.conn.id)).Nodup) (now : Instant)
    (d : Delivery) : Steady r (r.handOver now d) := by
  unfold handOver
  rcases hl : r.link? d.conn with _ | l
  · exact .refl r
  dsimp only
  obtain ⟨hk, hkind⟩ := handOver_keepsRetry l.conn d r.server now
  refine ⟨hk, rfl, masterLinks_modifyLink r fun l' hl' hid => ?_⟩
  rw [eq_of_link? hnd hl l' hl' hid, ← hkind]
  dsimp only
  split <;> rfl

theorem steady_deliverWith (now : Instant) :
    ∀ (fuel : Nat) (r : Reactor), r.InSync → Steady r (deliverWith now fuel r)
  | 0, r, _ => .refl r
  | fuel + 1, r, hs => by
    rw [deliverWith_succ]
    split
    · exact .refl r
    -- taking the replies touches only the outbox
    have hs₀ : InSync { r with server := r.server.takeDeliveries.2 } :=
      (KeepsSync.of_server (s := r.server.takeDeliveries.2) (.of_eq rfl rfl rfl rfl) hs).1
    have h₁ := Steady.foldl (keepsSync_handOver · now) (fun r d hs => steady_handOver hs.nodup now d)
      r.server.outbox _ hs₀
    have hs₁ := (KeepsSync.foldl (keepsSync_handOver · now) r.server.outbox _ hs₀).1
    exact (Steady.of_server (s := r.server.takeDeliveries.2) ⟨rfl, rfl, rfl⟩).trans
      (h₁.trans (steady_deliverWith now fuel _ hs₁))

theorem steady_deliverDeferred {r : Reactor} (now : Instant) (hs : r.InSync) :
    Steady r (r.deliverDeferred now) :=
  steady_deliverWith now _ r hs

theorem steady_fanOut {r : Reactor} (hs : r.InSync) : Steady r r.fanOut := by
  unfold fanOut
  split
  · exact .refl r
  rw [show r.server.replication.drain =
    (r.server.replication.drain.1, r.server.replication.drain.2) from rfl]
  dsimp only
  have hs₀ : InSync { r with server := { r.server with replication := r.server.replication.drain.2 } } :=
    (KeepsSync.of_server (s := { r.server with replication := r.server.replication.drain.2 })
      (.of_eq rfl rfl rfl rfl) hs).1
  refine (Steady.of_server (s := { r.server with replication := r.server.replication.drain.2 })
    ⟨rfl, rfl, rfl⟩).trans (Steady.foldl (fun r' id => ?_) (fun r' id hs' => ?_) _ _ hs₀)
  · split
    · exact KeepsSync.refl r'
    · exact (KeepsSync.of_same (ids_modifyLink r' fun l _ hid => (foldl_send _ l.conn).1.trans hid)
        (.refl _)).trans (keepsSync_flushLink _ id)
  · split
    · exact .refl r'
    -- sending the writes keeps every link's id and kind
    have hids : (r'.modifyLink id fun l =>
        { l with conn := r.server.replication.drain.1.foldl send l.conn }).links.map (·.conn.id) =
        r'.links.map (·.conn.id) :=
      ids_modifyLink r' fun l _ hid => (foldl_send _ l.conn).1.trans hid
    refine (steady_modifyLink r' fun l _ _ => (alike_foldl_send l.conn _).isReplicaLink).trans
      (steady_flushLink ?_ id)
    rw [hids]
    exact hs'.nodup

theorem steady_flushAll {r : Reactor} (hs : r.InSync) : Steady r r.flushAll := by
  unfold flushAll
  refine Steady.foldl (fun r' l => ?_) (fun r' l hs' => ?_) _ _ hs
  · split
    · exact keepsSync_flushLink r' _
    · exact KeepsSync.refl r'
  · split
    · exact steady_flushLink hs'.nodup _
    · exact .refl r'

/-! ## The guard -/

/-- The guard against a second link to the master, with `n` reconnects taken off the timer queue
and not yet fired: the reconnects queued and in hand are one exactly when a retry is pending, at
most one of a pending retry, a connect under way and a link to the master holds, and while the
master is marked down there is neither a connect nor a link. -/
structure Guarded (n : Nat) (r : Reactor) : Prop where
  pending : r.server.reconnects + n = r.server.replication.retryPending.toNat
  atMostOne : r.server.replication.retryPending.toNat + r.connecting.toNat + r.masterLinks ≤ 1
  down : r.server.replication.masterDown = true → r.connecting = false ∧ r.masterLinks = 0

namespace Guarded

variable {n : Nat} {r : Reactor}

theorem steady {r' : Reactor} (h : Guarded n r) (hr : Steady r r') : Guarded n r' where
  pending := by rw [hr.server.reconnects, hr.server.retryPending]; exact h.pending
  atMostOne := by rw [hr.server.retryPending, hr.connecting, hr.masterLinks]; exact h.atMostOne
  down hd := by
    rw [hr.connecting, hr.masterLinks]
    exact h.down (hr.server.masterDown ▸ hd)

/-- With a connect under way there is no link to the master and no retry pending. -/
theorem of_connecting (h : Guarded n r) (hc : r.connecting = true) :
    r.server.replication.retryPending = false ∧ r.masterLinks = 0 := by
  have hone := h.atMostOne
  rw [hc, Bool.toNat_true] at hone
  refine ⟨?_, by omega⟩
  cases hp : r.server.replication.retryPending
  · rfl
  · rw [hp, Bool.toNat_true] at hone
    omega

/-- Step lemma for events: the outcome of the connect under way opens the one link to the master
or marks the master down; every other event is steady. -/
theorem handle (h : Guarded 0 r) (hs : r.InSync) (now : Instant) :
    ∀ e : Event, r.admits e = true → Guarded 0 (r.handle now e)
  | .accepted peer, _ => by
    refine h.steady ⟨⟨rfl, rfl, rfl⟩, rfl, ?_⟩
    simp [Reactor.handle, masterLinks, List.countP_append, Connection.new, isReplicaLink]
  | .acceptFailed, _ => h.steady ⟨⟨rfl, rfl, rfl⟩, rfl, rfl⟩
  | .masterConnected none, ha => by
    obtain ⟨hp, hl⟩ := h.of_connecting ha
    -- the connect failed: no link was open, and none is
    refine ⟨h.pending, ?_, fun _ => ⟨rfl, hl⟩⟩
    show r.server.replication.retryPending.toNat + false.toNat + r.masterLinks ≤ 1
    rw [hp, hl]
    decide
  | .masterConnected (some peer), ha => by
    obtain ⟨hp, hl⟩ := h.of_connecting ha
    -- the connect succeeded: its link is the only one, and the master is not down
    have hml : (r.handle now (.masterConnected (some peer))).masterLinks = r.masterLinks + 1 := by
      simp [Reactor.handle, masterLinks, List.countP_append, Connection.replicaLink, isReplicaLink,
        send]
    refine ⟨h.pending, ?_, fun hd => ?_⟩
    rotate_left
    · have hc := (h.down hd).1
      simp [admits, hc] at ha
    show r.server.replication.retryPending.toNat + false.toNat +
      (r.handle now (.masterConnected (some peer))).masterLinks ≤ 1
    rw [hml, hp, hl]
    decide
  | .readable i, _ => h.steady (steady_readable hs.nodup now i)
  | .writable i, _ => h.steady (steady_flushLink hs.nodup i)
  | .failed i, _ => h.steady (steady_markClose r i)

/-- Run lemma for the events of a turn that the sockets can report. -/
theorem handleAll (now : Instant) : ∀ (events : List Event) (r : Reactor), Guarded 0 r →
    r.InSync → r.admitsAll now events = true → Guarded 0 (events.foldl (Reactor.handle · now) r)
  | [], _, h, _, _ => h
  | e :: es, r, h, hs, ha => by
    simp only [admitsAll, Bool.and_eq_true] at ha
    exact handleAll now es _ (h.handle hs now e ha.1) (keepsSync_handle r now e hs).1 ha.2

/-- Run lemma for the due timers, the reconnects among the tasks not yet fired counted in hand. -/
theorem foldl_fire {g : Reactor → TimerTask → Reactor}
    (hg : ∀ r t n, Guarded (n + if t = .reconnectMaster then 1 else 0) r → Guarded n (g r t)) :
    ∀ (tasks : List TimerTask) (r : Reactor),
      Guarded (tasks.count .reconnectMaster) r → Guarded 0 (tasks.foldl g r)
  | [], _, h => h
  | t :: ts, r, h => by
    refine foldl_fire hg ts _ (hg r t _ ?_)
    rw [List.count_cons] at h
    simpa only [beq_iff_eq] using h

/-- A reconnect in hand fires: the retry it stood for ends, and a replica starts its one connect. -/
theorem fire_reconnect (h : Guarded (n + 1) r) :
    Guarded n (connectToMaster { r with server := r.server.fire .reconnectMaster }) := by
  have hpend := h.pending
  have hone := h.atMostOne
  -- the retry was pending, so nothing else was
  have hp : r.server.replication.retryPending = true := by
    cases hp : r.server.replication.retryPending
    · rw [hp, Bool.toNat_false] at hpend
      omega
    · rfl
  rw [hp, Bool.toNat_true] at hpend hone
  have hc : r.connecting = false := by
    cases hc : r.connecting
    · rfl
    · rw [hc, Bool.toNat_true] at hone
      omega
  have hl : r.masterLinks = 0 := by omega
  have hq : r.server.reconnects = 0 ∧ n = 0 := by omega
  unfold connectToMaster
  split
  · refine ⟨?_, ?_, fun hd => ⟨hc, hl⟩⟩
    · show r.server.reconnects + n = false.toNat
      rw [hq.1, hq.2]
      rfl
    · show false.toNat + r.connecting.toNat + r.masterLinks ≤ 1
      rw [hc, hl]
      decide
  · refine ⟨?_, ?_, fun hd => absurd hd (by simp)⟩
    · show r.server.reconnects + n = false.toNat
      rw [hq.1, hq.2]
      rfl
    · show false.toNat + true.toNat + r.masterLinks ≤ 1
      rw [hl]
      decide

/-- Firing the due timers keeps the guard: taking them off the queue puts their reconnects in
hand, and each fires as `fire_reconnect` says. -/
theorem runTimers (h : Guarded 0 r) (now : Instant) : Guarded 0 (r.runTimers now) := by
  unfold Reactor.runTimers
  rw [show r.server.dueTimers now = ((r.server.dueTimers now).1, (r.server.dueTimers now).2)
    from rfl]
  dsimp only
  refine foldl_fire (fun r' t n h' => ?_) _ _ ?_
  · cases t with
    | blockTimeout key id =>
      exact h'.steady ⟨⟨by simp [Server.reconnects], by simp, by simp⟩, rfl, rfl⟩
    | reconnectMaster => exact fire_reconnect h'
  · -- the due reconnects leave the queue for the hand
    refine ⟨?_, h.atMostOne, h.down⟩
    have hsplit := congrArg (List.countP (·.task = TimerTask.reconnectMaster))
      (List.takeWhile_append_dropWhile (p := (·.deadline ≤ now)) (l := r.server.timers.timers))
    rw [List.countP_append] at hsplit
    have hpend := h.pending
    simp only [Server.reconnects, Nat.add_zero] at hpend
    simp only [Server.dueTimers, TimerQueue.tick, Server.reconnects, List.count, List.countP_map]
    rw [← hpend, ← hsplit, Nat.add_comm]
    rfl

/-- Closing the links marked to close keeps the guard: losing the link to the master marks it
down, and then no link to it is left, since there was only one. -/
theorem closeFinished (h : Guarded 0 r) : Guarded 0 r.closeFinished := by
  unfold Reactor.closeFinished
  -- along the closing, the links left are links of the start and no connect starts
  refine (List.foldlRecOn (motive := fun r' => Guarded 0 r' ∧ r'.connecting = r.connecting ∧
      ∀ m ∈ r'.links, m ∈ r.links) r.links _ ⟨h, rfl, fun _ hm => hm⟩
    fun r' ⟨h', hc', hsub⟩ l hl => ?_).1
  dsimp only
  split
  · exact ⟨h', hc', hsub⟩
  have hle : (r'.links.filter (·.conn.id != l.conn.id)).countP (·.conn.isReplicaLink) ≤
      r'.masterLinks :=
    (List.filter_sublist).countP_le
  have hsub' : ∀ m ∈ r'.links.filter (·.conn.id != l.conn.id), m ∈ r.links :=
    fun m hm => hsub m (List.mem_filter.1 hm).1
  have hmost : r'.server.replication.retryPending.toNat + r'.connecting.toNat +
      (r'.links.filter (·.conn.id != l.conn.id)).countP (·.conn.isReplicaLink) ≤ 1 := by
    have := h'.atMostOne
    omega
  split
  · -- the link to the master closes: it was the only one, so none is left
    rename_i hk
    have hl₁ : 0 < r.masterLinks := List.countP_pos_iff.2 ⟨l, hl, hk⟩
    have hone := h.atMostOne
    have hc : r.connecting = false := by
      cases hc : r.connecting
      · rfl
      · rw [hc, Bool.toNat_true] at hone
        omega
    have hml : r.masterLinks = 1 := by omega
    exact ⟨⟨h'.pending, hmost, fun _ => ⟨hc' ▸ hc, countP_replicaLink_filter_ne hml hl hk hsub⟩⟩,
      hc', hsub'⟩
  · -- a client closes: the flags stay, and no link to the master is added
    refine ⟨⟨h'.pending, hmost, fun hd => ?_⟩, hc', hsub'⟩
    obtain ⟨hc₀, hl₀⟩ := h'.down hd
    refine ⟨hc₀, ?_⟩
    show (r'.links.filter (·.conn.id != l.conn.id)).countP (·.conn.isReplicaLink) = 0
    omega

/-- Scheduling a reconnect, on a replica whose master is down and with no retry pending, queues the
one reconnect; there is then no connect and no link. -/
theorem scheduleReconnect (h : Guarded 0 r) (now : Instant) :
    Guarded 0 (r.scheduleReconnect now) := by
  unfold Reactor.scheduleReconnect
  split
  · exact h
  rename_i hno
  simp only [Bool.or_eq_true, Bool.not_eq_true', not_or, Bool.not_eq_false] at hno
  obtain ⟨hc, hneed⟩ := hno
  simp only [Replication.needsReconnect, Bool.and_eq_true, Bool.not_eq_true'] at hneed
  obtain ⟨⟨-, hd⟩, hp⟩ := hneed
  have hl := (h.down hd).2
  have hpend := h.pending
  rw [hp, Bool.toNat_false] at hpend
  refine ⟨?_, ?_, fun _ => ⟨by simpa using hc, hl⟩⟩
  · show (r.server.timers.registerAt (now + reconnectInterval) .reconnectMaster).timers.countP
      (·.task = .reconnectMaster) + 0 = true.toNat
    have h0 : r.server.timers.timers.countP (·.task = .reconnectMaster) = 0 := hpend
    rw [TimerQueue.registerAt, (TimerQueue.perm_insert _ _).countP_eq, List.countP_cons, h0]
    rfl
  · show true.toNat + r.connecting.toNat + r.masterLinks ≤ 1
    rw [hl, show r.connecting = false by simpa using hc]
    decide

/-- Step lemma for turns whose events the sockets can report. -/
theorem turn (h : Guarded 0 r) (hs : r.InSync) (now : Instant) (events : List Event)
    (ha : r.admitsAll now events = true) : Guarded 0 (r.turn now events) := by
  unfold Reactor.turn
  dsimp only
  have h₁ := handleAll now events r h hs ha
  have hs₁ := (KeepsSync.foldl (keepsSync_handle · now) events r hs).1
  have h₂ := h₁.runTimers now
  have hs₂ := (keepsSync_runTimers _ now hs₁).1
  have h₃ := h₂.steady (steady_deliverDeferred now hs₂)
  have hs₃ := (keepsSync_deliverDeferred _ now hs₂).1
  have h₄ := h₃.steady (steady_fanOut hs₃)
  have hs₄ := (keepsSync_fanOut _ hs₃).1
  have h₅ := h₄.steady (steady_flushAll hs₄)
  exact h₅.closeFinished.scheduleReconnect now

/-- Step lemma for runs: peers touch only sockets. -/
theorem step (h : Guarded 0 r) (hs : r.InSync) :
    ∀ st : Step, r.stepAdmits st = true → Guarded 0 (r.step st)
  | .turn now events, ha => h.turn hs now events ha
  | .receive i _, _ => h.steady (steady_modifyLink r fun _ _ _ => rfl)
  | .hangUp i, _ => h.steady (steady_modifyLink r fun _ _ _ => rfl)
  | .collect i, _ => by
    simp only [Reactor.step, collect]
    split
    · exact h
    · exact h.steady (steady_modifyLink r fun _ _ _ => rfl)

/-- Run lemma: a run the sockets can report keeps the guard. -/
theorem run : ∀ (sts : List Step) (r : Reactor), Guarded 0 r → r.InSync →
    r.feasible sts = true → Guarded 0 (r.run sts)
  | [], _, h, _, _ => h
  | st :: sts, r, h, hs, hf => by
    simp only [feasible, Bool.and_eq_true] at hf
    exact run sts _ (h.step hs st hf.1) (keepsSync_step r st hs).1 hf.2

end Guarded

/-- A fresh loop has no reconnect queued and no link; a replica has its first connect under way. -/
theorem guarded_new (role : Role) (port : UInt16) : Guarded 0 (Reactor.new (Server.new role port)) := by
  unfold Reactor.new connectToMaster
  split
  · exact ⟨rfl, by simp [masterLinks, Server.new, Replication.new], fun _ => ⟨rfl, rfl⟩⟩
  · exact ⟨rfl, by simp [masterLinks, Server.new, Replication.new], fun hd => absurd hd (by simp)⟩

/-- In every state that a run from a fresh loop reaches, where the sockets report the outcome of
connecting to the master only while a connect is under way: a retry is pending exactly when one
reconnect is queued, and the reconnects queued, a connect under way and the links to the master
number at most one together, so there is never more than one reconnect and never more than one
link. -/
theorem at_most_one_master_link (role : Role) (port : UInt16) (steps : List Step)
    (hf : (Reactor.new (Server.new role port)).feasible steps = true) :
    let r := (Reactor.new (Server.new role port)).run steps
    (r.server.replication.retryPending = true ↔ r.server.reconnects = 1) ∧
      r.server.reconnects + r.connecting.toNat + r.masterLinks ≤ 1 := by
  intro r
  have h := Guarded.run steps _ (guarded_new role port) (inSync_new role port) hf
  have hpend := h.pending
  have hone := h.atMostOne
  rw [Nat.add_zero] at hpend
  rw [← hpend] at hone
  refine ⟨?_, hone⟩
  rw [hpend]
  cases r.server.replication.retryPending <;> simp

/-- A replica whose first connect fails retries two seconds later and then reaches its master:
the sockets can report that run, and the guard holds at its end. -/
theorem at_most_one_master_link_after_retry :
    let r₀ := Reactor.new (Server.new (.replica ⟨"127.0.0.1", 6379⟩) 6380)
    let steps := [Step.turn 0 [.masterConnected none], .turn reconnectInterval [],
      .turn reconnectInterval [.masterConnected (some "127.0.0.1:6379")]]
    r₀.feasible steps = true ∧
      (((r₀.run steps).server.replication.retryPending = true ↔
          (r₀.run steps).server.reconnects = 1) ∧
        (r₀.run steps).server.reconnects + (r₀.run steps).connecting.toNat +
          (r₀.run steps).masterLinks ≤ 1) :=
  ⟨by decide +kernel, at_most_one_master_link _ _ _ (by decide +kernel)⟩

end Reactor

end KvServer
