import Mathlib
import KvServer.Proofs.Bookkeeping

/-!
# Open connections

The server's record of open connections is the loop's connection map. Between any two phases of a
turn, and so at the end of every turn and between turns, a connection is open exactly when a link
carries its id, and every connection inside a transaction and every replica attached is open
(`Reactor.InSync`). Ids are never given twice: a connection open later was open before or got its
id later (`Server.OpensFresh`). So a connection once closed never opens again, neither a push
nor a block's timer ever queues a reply for it, and a push takes no item for a block of it
(`Reactor.open_connections_match_links`).

Requests of a connection keep the open connections and let only their sender enter a transaction
or be attached as a replica (`Server.Confined`); the two phases that change the connection map,
opening a link for an event and closing the links marked to close, change the server's record
with it. Every phase of a turn, and every step of a run, keeps the server in sync
(`Reactor.KeepsSync`).
-/

namespace KvServer

namespace Server

/-- From `s` to `s'` no connection id is given twice: the next id never goes back, and a
connection open in `s'` was open in `s` or got its id after `s`. -/
structure OpensFresh (s s' : Server) : Prop where
  nextConn : s.nextConn ≤ s'.nextConn
  live : ∀ c, s'.isLive c = true → s.isLive c = true ∨ s.nextConn ≤ c

namespace OpensFresh

variable {s₁ s₂ s₃ : Server}

theorem refl (s : Server) : OpensFresh s s :=
  ⟨le_rfl, fun _ h => .inl h⟩

theorem trans (h₁ : OpensFresh s₁ s₂) (h₂ : OpensFresh s₂ s₃) : OpensFresh s₁ s₃ where
  nextConn := h₁.nextConn.trans h₂.nextConn
  live c hc := (h₂.live c hc).elim (h₁.live c) fun h => .inr (h₁.nextConn.trans h)

/-- A connection closed in `s` whose id was already given stays closed. -/
theorem closed (h : OpensFresh s₁ s₂) {c : ConnId} (hc : c < s₁.nextConn)
    (hl : s₁.isLive c = false) : s₂.isLive c = false := by
  cases hl₂ : s₂.isLive c
  · rfl
  · rcases h.live c hl₂ with h' | h'
    · rw [hl] at h'
      cases h'
    · exact absurd h' (Nat.not_le.2 hc)

end OpensFresh

/-- What requests of the connections `os` do to the server's record of connections: the open
connections and the next id stay, no connection outside `os` enters a transaction, and, while
every queue holds only its owner's requests, that stays so and no connection outside `os` is
attached as a replica. -/
structure Confined (os : List ConnId) (s s' : Server) : Prop where
  live : s'.live = s.live
  nextConn : s'.nextConn = s.nextConn
  active : ∀ c, s'.transactions.isActive c = true → s.transactions.isActive c = true ∨ c ∈ os
  attached : s.transactions.Owned →
    s'.transactions.Owned ∧ ∀ c ∈ s'.replication.replicas, c ∈ s.replication.replicas ∨ c ∈ os

namespace Confined

variable {os : List ConnId} {s₁ s₂ s₃ : Server}

/-- A step that keeps the whole record of connections is confined to any connections. -/
theorem of_eq (hl : s₂.live = s₁.live) (hn : s₂.nextConn = s₁.nextConn)
    (ht : s₂.transactions = s₁.transactions)
    (hr : s₂.replication.replicas = s₁.replication.replicas) : Confined os s₁ s₂ where
  live := hl
  nextConn := hn
  active _ hc := .inl (ht ▸ hc)
  attached ho := ⟨ht ▸ ho, fun _ hc => .inl (hr ▸ hc)⟩

theorem refl (s : Server) : Confined os s s :=
  of_eq rfl rfl rfl rfl

theorem trans (h₁ : Confined os s₁ s₂) (h₂ : Confined os s₂ s₃) : Confined os s₁ s₃ where
  live := h₂.live.trans h₁.live
  nextConn := h₂.nextConn.trans h₁.nextConn
  active c hc := (h₂.active c hc).elim (h₁.active c) .inr
  attached ho := by
    obtain ⟨ho₂, hr₂⟩ := h₁.attached ho
    obtain ⟨ho₃, hr₃⟩ := h₂.attached ho₂
    exact ⟨ho₃, fun c hc => (hr₃ c hc).elim (hr₂ c) .inr⟩

/-- Requests give no connection an id. -/
theorem opensFresh (h : Confined os s₁ s₂) : OpensFresh s₁ s₂ :=
  ⟨h.nextConn.ge, fun c hc => .inl (by simpa only [isLive, h.live] using hc)⟩

end Confined

/-- A request of `o` keeps the open connections, and only `o` may enter a transaction or be
attached as a replica: a replayed transaction holds only requests of `o`. -/
theorem execute_confined (s : Server) (now : Instant) (o : ConnId) (f : Value) :
    Confined [o] s (s.execute now o f).2 where
  live := (execute_live s now o f).1
  nextConn := (execute_live s now o f).2.1
  active c hc := by
    by_cases hco : c = o
    · exact .inr (List.mem_singleton.2 hco)
    · left
      unfold Transactions.isActive at hc ⊢
      rwa [Std.HashMap.contains_eq_isSome_getElem?, execute_queue_of_ne (Ne.symm hco),
        ← Std.HashMap.contains_eq_isSome_getElem?] at hc
  attached ho := by
    refine ⟨execute_owned s now o f ho, fun c hc => ?_⟩
    rcases (execute_attaches s now o f).replicas c hc with h | h
    · exact .inl h
    right
    rcases List.mem_cons.1 h with h | h
    · exact List.mem_singleton.2 h
    -- a request waiting in `o`'s queue is one of `o`'s
    obtain ⟨q, hq, rfl⟩ := List.mem_map.1 h
    unfold queued at hq
    cases hqs : s.transactions.queues[o]? with
    | none => simp [hqs] at hq
    | some qs =>
      rw [hqs, Option.getD_some] at hq
      exact List.mem_singleton.2 (ho o qs hqs q hq)

@[simp] theorem expireBlock_transactions (s : Server) (key : String) (id : Nat) :
    (s.expireBlock key id).transactions = s.transactions := by
  unfold expireBlock deliver
  split
  · split <;> rfl
  · rfl

@[simp] theorem expireBlock_replication (s : Server) (key : String) (id : Nat) :
    (s.expireBlock key id).replication = s.replication := by
  unfold expireBlock deliver
  split
  · split <;> rfl
  · rfl

/-- A push's wake queues replies only for open connections. -/
theorem wake_outbox_live (s : Server) (now : Instant) (key : String) :
    ∀ d ∈ (s.wake now key).outbox, d ∈ s.outbox ∨ s.isLive d.conn = true := by
  obtain ⟨ws, -, hout, hlive, -, -⟩ := wake_queues_popped s now key
  intro d hd
  rw [hout] at hd
  rcases List.mem_append.1 hd with h | h
  · exact .inl h
  · obtain ⟨w, hw, rfl⟩ := List.mem_map.1 h
    exact .inr (hlive w hw)

/-- A block's timer queues its null reply only for an open connection. -/
theorem expireBlock_outbox_live (s : Server) (key : String) (id : Nat) :
    ∀ d ∈ (s.expireBlock key id).outbox, d ∈ s.outbox ∨ s.isLive d.conn = true := by
  intro d hd
  unfold expireBlock at hd
  split at hd
  · unfold deliver at hd
    split at hd
    · rename_i hc
      rcases List.mem_append.1 hd with h | h
      · exact .inl h
      · rw [List.mem_singleton.1 h]
        exact .inr hc
    · exact .inl hd
  · exact .inl hd

end Server

namespace Connection

variable {now : Instant}

/-- Processing the frames of a connection keeps the open connections, and only that connection may
enter a transaction or be attached as a replica. -/
theorem processWith_confined (fuel : Nat) {c c' : Connection} {s s' : Server}
    {e : Option ConnectionError} (hp : processWith now fuel c s = (e, c', s')) :
    Server.Confined [c.id] s s' ∧ c'.id = c.id := by
  obtain ⟨hR, hid, -, -⟩ := processWith_rel (R := Server.Confined [c.id]) Server.Confined.refl
    Server.Confined.trans (fun s f => Server.execute_confined s now c.id f)
    (fun _ => Server.Confined.of_eq rfl rfl rfl rfl) fuel rfl hp
  exact ⟨hR, hid⟩

/-- Handing a deferred reply to a connection runs at most that connection's requests. -/
theorem handOver_confined (c : Connection) (d : Delivery) (s : Server) (now : Instant) :
    Server.Confined [c.id] s (c.handOver d s now).2.2 ∧ (c.handOver d s now).2.1.id = c.id := by
  rcases handOver_cases c d s now with ⟨-, h⟩ | ⟨-, -, -, -, e, c', s', hp, h⟩ | ⟨-, -, -, h⟩
  · rw [h]
    exact ⟨.refl s, rfl⟩
  · rw [h]
    obtain ⟨hc, hid⟩ := processWith_confined _ hp
    exact ⟨hc, hid⟩
  · rw [h]
    exact ⟨.refl s, rfl⟩

end Connection

namespace Reactor

open Connection

/-- The server's record of connections agrees with the links: a connection is open exactly when a
link carries its id, every connection inside a transaction and every replica attached is open,
and every transaction queue holds only its owner's requests. The links carry distinct ids, each
given before the next id. -/
structure InSync (r : Reactor) : Prop where
  live : ∀ c, r.server.isLive c = true ↔ c ∈ r.links.map (·.conn.id)
  active : ∀ c, r.server.transactions.isActive c = true → r.server.isLive c = true
  replicas : ∀ c ∈ r.server.replication.replicas, r.server.isLive c = true
  owned : r.server.transactions.Owned
  nodup : (r.links.map (·.conn.id)).Nodup
  below : ∀ c, r.server.isLive c = true → c < r.server.nextConn

/-- From `r` to `r'` the server stays in sync with the links and gives no id twice. -/
def KeepsSync (r r' : Reactor) : Prop :=
  r.InSync → r'.InSync ∧ r.server.OpensFresh r'.server

namespace KeepsSync

variable {r r' : Reactor}

theorem refl (r : Reactor) : KeepsSync r r :=
  fun h => ⟨h, .refl _⟩

theorem trans {r₁ r₂ r₃ : Reactor} (h₁ : KeepsSync r₁ r₂) (h₂ : KeepsSync r₂ r₃) :
    KeepsSync r₁ r₃ := by
  intro h
  obtain ⟨h', hf₁⟩ := h₁ h
  obtain ⟨h'', hf₂⟩ := h₂ h'
  exact ⟨h'', hf₁.trans hf₂⟩

/-- Run lemma for the folds of a turn. -/
theorem foldl {α : Type} {g : Reactor → α → Reactor} (hg : ∀ r a, KeepsSync r (g r a)) :
    ∀ (L : List α) (r : Reactor), KeepsSync r (L.foldl g r)
  | [], r => refl r
  | a :: L, r => (hg r a).trans (foldl hg L (g r a))

/-- Requests of connections with links, the ids of the links kept, keep the server in sync: what
they may add is open. -/
theorem of_confined (os : List ConnId) (hids : r'.links.map (·.conn.id) = r.links.map (·.conn.id))
    (hos : ∀ o ∈ os, o ∈ r.links.map (·.conn.id)) (hc : Server.Confined os r.server r'.server) :
    KeepsSync r r' := by
  intro h
  have hlive : ∀ c, r'.server.isLive c = r.server.isLive c := fun c => by
    simp only [Server.isLive, hc.live]
  have hopen : ∀ c, r.server.isLive c = true ∨ c ∈ os → r'.server.isLive c = true := by
    rintro c (hl | ho)
    · rw [hlive]
      exact hl
    · rw [hlive]
      exact (h.live c).2 (hos c ho)
  obtain ⟨howned, hrep⟩ := hc.attached h.owned
  refine ⟨⟨fun c => ?_, fun c ha => ?_, fun c hr => ?_, howned, hids ▸ h.nodup, fun c hc' => ?_⟩,
    hc.opensFresh⟩
  · rw [hlive, hids]
    exact h.live c
  · exact hopen c ((hc.active c ha).imp_left (h.active c))
  · exact hopen c ((hrep c hr).imp_left (h.replicas c))
  · rw [hc.nextConn]
    exact h.below c (hlive c ▸ hc')

/-- A step that keeps the ids of the links and the server's record of connections keeps the
server in sync. -/
theorem of_same (hids : r'.links.map (·.conn.id) = r.links.map (·.conn.id))
    (hc : Server.Confined [] r.server r'.server) : KeepsSync r r' :=
  of_confined [] hids (fun _ h => absurd h List.not_mem_nil) hc

/-- Changing only the server, within its record of connections, keeps the server in sync. -/
theorem of_server {s : Server} (hc : Server.Confined [] r.server s) :
    KeepsSync r { r with server := s } :=
  of_same rfl hc

/-- Opening a link for a new connection with the next id keeps the server in sync: the server
opens that id. -/
theorem opening (c : Connection) (sock : Socket) (hc : c.id = r.server.nextConn)
    (hr : r'.server = r.server.connectionOpened.2)
    (hl : r'.links = r.links ++ [{ conn := c, sock }]) : KeepsSync r r' := by
  intro h
  have hlive : ∀ x, r'.server.isLive x = true ↔ x = r.server.nextConn ∨ r.server.isLive x = true := by
    intro x
    simp only [hr, Server.connectionOpened, Server.isLive, Std.HashSet.contains_insert,
      Bool.or_eq_true, beq_iff_eq]
    exact or_congr_left eq_comm
  have ht : r'.server.transactions = r.server.transactions := by rw [hr]; rfl
  have hrep : r'.server.replication = r.server.replication := by rw [hr]; rfl
  have hnext : r'.server.nextConn = r.server.nextConn + 1 := by rw [hr]; rfl
  refine ⟨⟨fun x => ?_, fun x hx => (hlive x).2 (.inr (h.active x (ht ▸ hx))),
    fun x hx => (hlive x).2 (.inr (h.replicas x (hrep ▸ hx))), ht ▸ h.owned, ?_, fun x hx => ?_⟩,
    ⟨hnext ▸ Nat.le_succ _, fun x hx => ?_⟩⟩
  · rw [hlive, hl, List.map_append, List.mem_append, h.live x]
    simp [hc, or_comm]
  · -- the new id is above every id given before
    rw [hl, List.map_append, List.nodup_append]
    refine ⟨h.nodup, List.nodup_singleton _, fun x hx y hy hxy => ?_⟩
    have hy' : y = r.server.nextConn := by simpa [hc] using hy
    have hx' : x = r.server.nextConn := by simpa [hc, hy'] using hxy
    exact Nat.lt_irrefl _ (hx' ▸ h.below x ((h.live x).2 hx))
  · rw [hnext]
    rcases (hlive x).1 hx with rfl | hx
    · exact Nat.lt_succ_self _
    · exact Nat.lt_succ_of_lt (h.below x hx)
  · rcases (hlive x).1 hx with rfl | hx
    · exact .inr le_rfl
    · exact .inl hx

/-- Closing the links of one id, with a server that forgets that connection, keeps the server in
sync. -/
theorem closing (id : ConnId) {s : Server} (hl : s.live = r.server.live.erase id)
    (hn : s.nextConn = r.server.nextConn) (ht : s.transactions = r.server.transactions.remove id)
    (hrep : s.replication.replicas = r.server.replication.replicas.filter (· ≠ id)) :
    KeepsSync r { r with server := s, links := r.links.filter (·.conn.id != id) } := by
  intro h
  have hlive : ∀ x, s.isLive x = true ↔ x ≠ id ∧ r.server.isLive x = true := by
    intro x
    simp only [Server.isLive, hl, Std.HashSet.contains_erase, Bool.and_eq_true, Bool.not_eq_true',
      beq_eq_false_iff_ne]
    exact and_congr_left' ne_comm
  have hmem : ∀ x, x ∈ (r.links.filter (·.conn.id != id)).map (·.conn.id) ↔
      x ≠ id ∧ x ∈ r.links.map (·.conn.id) := by
    intro x
    simp only [List.mem_map, List.mem_filter, bne_iff_ne, ne_eq]
    constructor
    · rintro ⟨l, ⟨hl, hne⟩, rfl⟩
      exact ⟨hne, l, hl, rfl⟩
    · rintro ⟨hne, l, hl, rfl⟩
      exact ⟨l, ⟨hl, hne⟩, rfl⟩
  refine ⟨⟨fun x => ?_, fun x hx => ?_, fun x hx => ?_, ?_,
    h.nodup.sublist (List.filter_sublist.map _), fun x hx => hn ▸ h.below x ((hlive x).1 hx).2⟩,
    ⟨hn.ge, fun x hx => .inl ((hlive x).1 hx).2⟩⟩
  · dsimp only
    rw [hlive, hmem, h.live x]
  · have hx' : x ≠ id ∧ r.server.transactions.isActive x = true := by
      simp only [ht, Transactions.remove, Transactions.isActive, Std.HashMap.contains_erase,
        Bool.and_eq_true, Bool.not_eq_true', beq_eq_false_iff_ne] at hx
      exact ⟨Ne.symm hx.1, hx.2⟩
    exact (hlive x).2 ⟨hx'.1, h.active x hx'.2⟩
  · dsimp only at hx
    rw [hrep, List.mem_filter] at hx
    exact (hlive x).2 ⟨by simpa using hx.2, h.replicas x hx.1⟩
  · dsimp only
    rw [ht]
    exact h.owned.erase id

end KeepsSync

open KeepsSync

/-! ## Each phase of a turn -/

theorem keepsSync_markClose (r : Reactor) (id : ConnId) : KeepsSync r (r.markClose id) :=
  of_same (ids_modifyLink r fun _ _ hid => hid) (.refl _)

theorem keepsSync_flushLink (r : Reactor) (id : ConnId) : KeepsSync r (r.flushLink id) := by
  unfold flushLink
  rcases hl : r.link? id with _ | l
  · exact refl r
  dsimp only
  split
  · rename_i c outgoing hf
    exact of_same (ids_modifyLink r fun _ _ _ => (flush_alike hf).id.trans (id_of_link? hl))
      (.refl _)
  · exact keepsSync_markClose r id

/-- Step lemma for events: accepting a connection or reaching the master opens a link with the
next id; reading runs the link's own requests; the rest touch no connection's record. -/
theorem keepsSync_handle (r : Reactor) (now : Instant) : ∀ e : Event, KeepsSync r (r.handle now e)
  | .accepted peer => opening (Connection.new r.server.nextConn peer) {} rfl rfl rfl
  | .acceptFailed => of_same rfl (.refl _)
  | .masterConnected none => of_same rfl (.of_eq rfl rfl rfl rfl)
  | .masterConnected (some peer) =>
    opening (Connection.replicaLink r.server.nextConn peer r.server.connectionOpened.2.port) {}
      rfl rfl rfl
  | .readable i => by
    unfold Reactor.handle
    dsimp only
    rcases hl : r.link? i with _ | l
    · exact refl r
    dsimp only
    rcases ho : l.conn.onReadable l.sock r.server now with ⟨e, c, sock, s'⟩
    dsimp only
    -- the link read and processed its own frames, and keeps its id, marked to close or not
    obtain ⟨e₁, c₁, hp, ha⟩ := onReadable_processes ho
    obtain ⟨hconf, hid⟩ := processWith_confined _ hp
    refine of_confined [l.conn.id] (ids_modifyLink r fun _ _ _ => ?_)
      (fun o ho => List.mem_singleton.1 ho ▸ List.mem_map_of_mem (mem_of_link? hl)) hconf
    show (if e.isSome then { c with wantClose := true } else c).id = i
    rw [(alike_closeIf c e.isSome).id, ha.id, hid]
    exact id_of_link? hl
  | .writable i => keepsSync_flushLink r i
  | .failed i => keepsSync_markClose r i

theorem keepsSync_runTimers (r : Reactor) (now : Instant) : KeepsSync r (r.runTimers now) := by
  unfold runTimers
  rw [show r.server.dueTimers now = ((r.server.dueTimers now).1, (r.server.dueTimers now).2)
    from rfl]
  refine (of_server (s := (r.server.dueTimers now).2) (.of_eq rfl rfl rfl rfl)).trans
    (foldl (fun r' t => ?_) _ _)
  cases t with
  | blockTimeout key id =>
    exact of_same rfl (.of_eq (Server.expireBlock_live ..) (Server.nextConn_expireBlock ..)
      (Server.expireBlock_transactions ..) (by rw [Server.expireBlock_replication]))
  | reconnectMaster =>
    dsimp only
    unfold connectToMaster
    split
    · exact of_same rfl (.of_eq rfl rfl rfl rfl)
    · exact of_same rfl (.of_eq rfl rfl rfl rfl)

/-- Handing a reply over runs at most the requests of the link it is for. -/
theorem keepsSync_handOver (r : Reactor) (now : Instant) (d : Delivery) :
    KeepsSync r (r.handOver now d) := by
  unfold handOver
  rcases hl : r.link? d.conn with _ | l
  · exact refl r
  dsimp only
  obtain ⟨hconf, hid⟩ := handOver_confined l.conn d r.server now
  refine of_confined [l.conn.id] (ids_modifyLink r fun _ _ _ => ?_)
    (fun o ho => List.mem_singleton.1 ho ▸ List.mem_map_of_mem (mem_of_link? hl)) hconf
  rw [← id_of_link? hl, ← hid]
  dsimp only
  split <;> rfl

theorem keepsSync_deliverWith (now : Instant) :
    ∀ (fuel : Nat) (r : Reactor), KeepsSync r (deliverWith now fuel r)
  | 0, r => refl r
  | fuel + 1, r => by
    rw [deliverWith_succ]
    split
    · exact refl r
    · exact (of_server (s := r.server.takeDeliveries.2) (.of_eq rfl rfl rfl rfl)).trans
        ((foldl (keepsSync_handOver · now) _ _).trans (keepsSync_deliverWith now fuel _))

theorem keepsSync_deliverDeferred (r : Reactor) (now : Instant) :
    KeepsSync r (r.deliverDeferred now) :=
  keepsSync_deliverWith now _ r

theorem keepsSync_fanOut (r : Reactor) : KeepsSync r r.fanOut := by
  unfold fanOut
  split
  · exact refl r
  rw [show r.server.replication.drain =
    (r.server.replication.drain.1, r.server.replication.drain.2) from rfl]
  dsimp only
  refine (of_server (s := { r.server with replication := r.server.replication.drain.2 })
    (.of_eq rfl rfl rfl rfl)).trans (foldl (fun r' id => ?_) _ _)
  split
  · exact refl r'
  · -- sending the writes keeps the replica's id
    refine (of_same (ids_modifyLink r' fun l _ _ => ?_) (.refl _)).trans (keepsSync_flushLink _ id)
    rw [(foldl_send _ l.conn).1]
    assumption

theorem keepsSync_flushAll (r : Reactor) : KeepsSync r r.flushAll := by
  unfold flushAll
  refine foldl (fun r' l => ?_) _ _
  split
  · exact keepsSync_flushLink r' _
  · exact refl r'

/-- Closing a link forgets its connection everywhere in the server; losing the link to the master
touches only its flags. -/
theorem keepsSync_closeFinished (r : Reactor) : KeepsSync r r.closeFinished := by
  unfold closeFinished
  refine foldl (fun r' l => ?_) _ _
  dsimp only
  split
  · exact refl r'
  · split
    · exact closing l.conn.id rfl rfl rfl rfl
    · exact closing l.conn.id rfl rfl rfl rfl

theorem keepsSync_scheduleReconnect (r : Reactor) (now : Instant) :
    KeepsSync r (r.scheduleReconnect now) := by
  unfold scheduleReconnect
  split
  · exact refl r
  · exact of_same rfl (.of_eq rfl rfl rfl rfl)

/-! ## Turns and runs -/

/-- Step lemma for turns: every phase keeps the server in sync. -/
theorem keepsSync_turn (r : Reactor) (now : Instant) (events : List Event) :
    KeepsSync r (r.turn now events) := by
  unfold turn
  exact (foldl (keepsSync_handle · now) events r).trans <| (keepsSync_runTimers _ now).trans <|
    (keepsSync_deliverDeferred _ now).trans <| (keepsSync_fanOut _).trans <|
    (keepsSync_flushAll _).trans <| (keepsSync_closeFinished _).trans <|
    keepsSync_scheduleReconnect _ now

/-- Peers touch only sockets. -/
theorem keepsSync_step (r : Reactor) : ∀ st : Step, KeepsSync r (r.step st)
  | .turn now events => keepsSync_turn r now events
  | .receive i _ => of_same (ids_modifyLink r fun _ _ hid => hid) (.refl _)
  | .hangUp i => of_same (ids_modifyLink r fun _ _ hid => hid) (.refl _)
  | .collect i => by
    simp only [Reactor.step, collect]
    split
    · exact refl r
    · exact of_same (ids_modifyLink r fun _ _ hid => hid) (.refl _)

/-- Run lemma: every run keeps the server in sync and gives no id twice. -/
theorem keepsSync_run : ∀ (sts : List Step) (r : Reactor), KeepsSync r (r.run sts)
  | [], r => refl r
  | st :: sts, r => (keepsSync_step r st).trans (keepsSync_run sts (r.step st))

/-- A fresh loop has no connection, open or linked. -/
theorem inSync_new (role : Role) (port : UInt16) : (Reactor.new (Server.new role port)).InSync := by
  have hq : ∀ (c : ConnId) (qs : List Request),
      (Server.new role port).transactions.queues[c]? ≠ some qs := by
    simp [Server.new]
  unfold Reactor.new connectToMaster
  split
  all_goals
    refine ⟨fun c => ?_, fun c hc => ?_, fun c hc => ?_, fun c qs h => absurd h (hq c qs),
      List.nodup_nil, fun c hc => ?_⟩
    all_goals simp_all [Server.new, Server.isLive, Transactions.isActive, Replication.new]

/-- Between any two steps of a run from a fresh loop, a connection is open exactly when a link
carries its id, and every connection inside a transaction and every replica attached has a link.
Ids are never given twice: a connection that is closed, its id given, stays closed for the rest of
any run, and neither a push nor a block's timer queues a reply for it. A push takes no item for
it either: the items a push's wake takes from the front of the key's list go, one each and in
order, to the wake-ups whose replies it queues, and none of these is for that id. -/
theorem open_connections_match_links (role : Role) (port : UInt16) (steps : List Step) :
    let r := (Reactor.new (Server.new role port)).run steps
    (∀ c, r.server.isLive c = true ↔ c ∈ r.links.map (·.conn.id)) ∧
      (∀ c, r.server.transactions.isActive c = true → c ∈ r.links.map (·.conn.id)) ∧
      (∀ c ∈ r.server.replication.replicas, c ∈ r.links.map (·.conn.id)) ∧
      ∀ (more : List Step) (c : ConnId), c < r.server.nextConn → r.server.isLive c = false →
        (r.run more).server.isLive c = false ∧
          ∀ (now : Instant) (key : String) (id : Nat),
            (∀ d ∈ ((r.run more).server.wake now key).outbox, d.conn ≠ c) ∧
              (∀ d ∈ ((r.run more).server.expireBlock key id).outbox, d.conn ≠ c) ∧
              ∃ (ws : List Wakeup) (k : Nat),
                ((r.run more).server.wake now key).outbox = ws.map Wakeup.delivery ∧
                ws.filterMap Wakeup.served? =
                  (((r.run more).server.lists.items key).take k).map (key, ·) ∧
                ((r.run more).server.wake now key).lists.items key =
                  ((r.run more).server.lists.items key).drop k ∧
                ∀ w ∈ ws, w.delivery.conn ≠ c := by
  intro r
  obtain ⟨h, -⟩ := keepsSync_run steps _ (inSync_new role port)
  have hrest := AtRest.run steps (atRest_new role port)
  refine ⟨h.live, fun c hc => (h.live c).1 (h.active c hc),
    fun c hc => (h.live c).1 (h.replicas c hc), fun more c hc hl => ?_⟩
  have hdead := (keepsSync_run more r h).2.closed hc hl
  -- at rest no reply is queued, so any reply a wake or a timer queues is new, and for an open
  -- connection
  have hout : (r.run more).server.outbox = [] := (AtRest.run more hrest).outbox
  have hnew : ∀ d, d ∈ (r.run more).server.outbox ∨ (r.run more).server.isLive d.conn = true →
      d.conn ≠ c := by
    rintro d (hd | hd) rfl
    · rw [hout] at hd
      exact List.not_mem_nil hd
    · rw [hdead] at hd
      cases hd
  refine ⟨hdead, fun now key id => ⟨fun d hd => hnew d (Server.wake_outbox_live _ now key d hd),
    fun d hd => hnew d (Server.expireBlock_outbox_live _ key id d hd), ?_⟩⟩
  -- the wake-ups that take the items are for live connections only
  obtain ⟨ws, k, hwake, hlive, hserved, hitems⟩ := Server.wake_queues_popped _ now key
  refine ⟨ws, k, by rw [hwake, hout, List.nil_append], hserved, by simpa using hitems key,
    fun w hw => hnew _ (.inr (hlive w hw))⟩

end Reactor

end KvServer
