import Mathlib
import KvServer.Proofs.OpenConnections

/-!
# Handing deferred replies over

Each turn of the loop hands the queued deferred replies to their connections in rounds, until a
round finds none queued. A round can queue new replies: resuming a connection runs its buffered
frames, and a push among them wakes other blocked pops. No socket is read in between, so every
frame such a round runs was already buffered.

The measure is the number of complete frames that the connections not marked to close hold after
their read positions (`Reactor.runnableFrames`). Handing a reply over never raises it, and lowers it
whenever it touches the server (`Reactor.handOver_progress`); a round that queues a reply has
touched the server, so every round either leaves nothing queued or lowers the measure
(`Reactor.deliverRound_progress`). The rounds therefore end, within one more than the frames
buffered at the start, and running them with more fuel changes nothing
(`Reactor.deliverDeferred_ends`). The only assumption is that the links carry distinct ids, as the
map of connections by id that the loop keeps does.

A reply handed to a connection marked to close is dropped. A push's wake pops items only for
connections the server counts open, and a connection is marked to close before the server stops
counting it open, so an item popped for a closing connection is lost
(`popped_item_reaches_waiter_unless_closing`); a run of the loop from a fresh server shows it
(`item_lost_to_closing_waiter`).
-/

namespace KvServer

/-! ## Complete frames after the read position -/

namespace Wire

/-- Each complete frame takes at least one byte. -/
theorem length_frames_le (bs : List UInt8) : (frames bs).1.length ≤ bs.length := by
  cases hr : read bs with
  | done v r =>
    have hlt := length_lt_of_read_done hr
    have ih := length_frames_le r
    rw [frames_of_done hr, List.length_cons]
    omega
  | incomplete r => simp [frames_of_incomplete hr]
  | failed e r => simp [frames_of_failed hr]
termination_by bs.length
decreasing_by exact hlt

end Wire

namespace Buffer

open Wire

/-- Committing a frame decoded from the mark leaves the frames after it. -/
theorem frames_commit_of_decode {b b' : Buffer} {v : Value}
    (h : b.mark.decode = (.ok (.frame v), b')) :
    (frames b'.commit.unread).1.length + 1 = (frames b.unread).1.length := by
  cases hr : read b.unread with
  | done v' r =>
    rw [decode_mark_of_done hr, Prod.mk.injEq] at h
    obtain ⟨-, rfl⟩ := h
    have hsuf : r <:+ b.unread := by
      simpa [hr, Step.rest] using read_rest_suffix b.unread
    rw [commit_advance_mark hsuf, unread_ofBytes, frames_of_done hr, List.length_cons]
  | incomplete r =>
    rw [decode_mark_of_incomplete hr] at h
    cases h
  | failed e r =>
    rw [decode_mark_of_failed hr] at h
    cases h

/-- Rewinding after decoding from the mark returns to the unread bytes decoding started from. -/
theorem unread_reset_decode_mark (b : Buffer) : b.mark.decode.2.reset.unread = b.unread := by
  unfold decode
  split <;> rfl

end Buffer

namespace Connection

variable {now : Instant}

/-- The complete frames a connection can still run: those after the read position of its inbound
buffer, and none once it is marked to close. -/
def runnable (c : Connection) : Nat :=
  if c.wantClose then 0 else (Wire.frames c.inbound.unread).1.length

@[simp] theorem runnable_send (c : Connection) (v : Value) : (c.send v).runnable = c.runnable :=
  rfl

@[simp] theorem runnable_close (c : Connection) : { c with wantClose := true }.runnable = 0 :=
  rfl

theorem runnable_le_len (c : Connection) : c.runnable ≤ c.inbound.len := by
  unfold runnable
  split
  · exact Nat.zero_le _
  · exact (Wire.length_frames_le _).trans (Buffer.unread_length_le _)

/-- Handling a frame keeps the connection's inbound buffer and close mark. -/
theorem handle_keeps_inbound (c : Connection) (s : Server) (now : Instant) (frame : Value) :
    (c.handle s now frame).2.1.inbound = c.inbound ∧
      (c.handle s now frame).2.1.wantClose = c.wantClose := by
  unfold handle
  split
  · split <;> exact ⟨rfl, rfl⟩
  · split
    · exact ⟨rfl, rfl⟩
    · split <;> exact ⟨rfl, rfl⟩

/-- Step lemma for processing: a connection not marked to close either runs nothing, leaving the
server as it was and, without an error, as many runnable frames; or it runs a frame, so it had one,
and without an error it has fewer left. -/
theorem processWith_runnable : ∀ (fuel : Nat) {c c' : Connection} {s s' : Server}
    {e : Option ConnectionError}, processWith now fuel c s = (e, c', s') → c.wantClose = false →
    s' = s ∧ (e = none → c'.runnable = c.runnable) ∨
      0 < c.runnable ∧ (e = none → c'.runnable < c.runnable)
  | 0, c, c', s, s', e, hp, _ => by
    cases hp
    exact .inl ⟨rfl, fun _ => rfl⟩
  | fuel + 1, c, c', s, s', e, hp, hw => by
    rw [processWith] at hp
    split at hp
    · cases hp
      exact .inl ⟨rfl, fun _ => rfl⟩
    split at hp
    · -- a malformed frame: the error closes the connection, nothing ran
      cases hp
      exact .inl ⟨rfl, fun h => by cases h⟩
    · -- an incomplete frame: the cursor goes back to where decoding started
      rename_i inbound hd
      cases hp
      have hu := Buffer.unread_reset_decode_mark c.inbound
      rw [hd] at hu
      exact .inl ⟨rfl, fun _ => by simp [runnable, hu]⟩
    · -- a frame: its bytes are committed, so the connection has one frame fewer to run
      rename_i v inbound hd
      have hfr := Buffer.frames_commit_of_decode hd
      have hc : c.runnable = (Wire.frames inbound.commit.unread).1.length + 1 := by
        simp [runnable, hw, hfr]
      dsimp only at hp
      split at hp
      all_goals
        rename_i c₂ s₂ hh
        have hk := handle_keeps_inbound { c with inbound := inbound.commit } s now v
        rw [hh] at hk
        dsimp only at hk
        have hc₂ : c₂.runnable = (Wire.frames inbound.commit.unread).1.length := by
          simp [runnable, hk.1, hk.2, hw]
      · have ih := processWith_runnable fuel hp (by rw [hk.2]; exact hw)
        refine .inr ⟨by omega, fun he => ?_⟩
        rcases ih with ⟨-, h⟩ | ⟨-, h⟩
        · rw [h he]; omega
        · have := h he; omega
      · cases hp
        exact .inr ⟨by omega, fun h => by cases h⟩

end Connection

/-! ## Runnable frames across the links -/

namespace Reactor

open Connection

/-- The complete frames the connections not marked to close can still run. -/
def runnableFrames (r : Reactor) : Nat :=
  (r.links.map (·.conn.runnable)).sum

/-- The runnable frames read the links only. -/
@[simp] theorem runnableFrames_server (r : Reactor) (s : Server) :
    ({ r with server := s } : Reactor).runnableFrames = r.runnableFrames :=
  rfl

theorem runnableFrames_le_buffered (r : Reactor) : r.runnableFrames ≤ r.buffered := by
  rw [runnableFrames, buffered_eq_sum]
  exact List.sum_le_sum fun l _ => runnable_le_len l.conn

/-- Putting a connection into the one link of an id changes the runnable frames by what that
link's connection had and the new one has. -/
theorem runnableFrames_setConn {r : Reactor} (hnd : (r.links.map (·.conn.id)).Nodup)
    {id : ConnId} {l : Link} (hl : r.link? id = some l) (c : Connection) :
    (r.modifyLink id fun l' => { l' with conn := c }).runnableFrames + l.conn.runnable =
      r.runnableFrames + c.runnable :=
  sum_map_update (·.conn.runnable) (fun l' => { l' with conn := c }) (id_of_link? hl) r.links hnd
    (mem_of_link? hl)

/-- Step lemma for handing one reply over: the links keep their ids, and the runnable frames never
grow, and shrink unless the server is left as it was. -/
theorem handOver_progress {r : Reactor} (hnd : (r.links.map (·.conn.id)).Nodup) (now : Instant)
    (d : Delivery) :
    (r.handOver now d).links.map (·.conn.id) = r.links.map (·.conn.id) ∧
      (r.handOver now d).runnableFrames ≤ r.runnableFrames ∧
      ((r.handOver now d).runnableFrames < r.runnableFrames ∨
        (r.handOver now d).server = r.server) := by
  unfold Reactor.handOver
  rcases hl : r.link? d.conn with _ | l
  · exact ⟨rfl, le_rfl, .inr rfl⟩
  dsimp only
  have hid := id_of_link? hl
  -- the connection put back keeps its id
  have hkeep : ∀ c : Connection, c.id = l.conn.id →
      (r.modifyLink d.conn fun l' => { l' with conn := c }).links.map (·.conn.id) =
        r.links.map (·.conn.id) :=
    fun c hc => ids_modifyLink r fun _ _ _ => hc.trans hid
  rcases Connection.handOver_cases l.conn d r.server now with
    ⟨-, heq⟩ | ⟨hw, -, -, -, e, c₁, s', hp, heq⟩ | ⟨-, -, -, heq⟩
  · -- skipped: the link keeps its connection
    rw [heq]
    dsimp only
    refine ⟨hkeep _ rfl, ?_, .inr rfl⟩
    have hb := runnableFrames_setConn hnd hl l.conn
    simp only [runnableFrames_server]
    omega
  · -- resumed: the connection runs its frames, fewer are left unless the server is untouched
    have hw₀ : ({ l.conn.send d.reply with suspended := false } : Connection).wantClose = false :=
      hw
    have hrun := processWith_runnable _ hp hw₀
    have hc₁ : c₁.id = l.conn.id := (processWith_confined _ hp).2
    have h₀ : ({ l.conn.send d.reply with suspended := false } : Connection).runnable =
        l.conn.runnable := rfl
    rw [heq]
    rcases e with _ | e
    all_goals
      dsimp only
      simp only [runnableFrames_server]
    · have hb := runnableFrames_setConn hnd hl c₁
      refine ⟨hkeep _ hc₁, ?_⟩
      rcases hrun with ⟨rfl, h⟩ | ⟨-, h⟩
      · have := h rfl
        exact ⟨by omega, .inr rfl⟩
      · have := h rfl
        exact ⟨by omega, .inl (by omega)⟩
    · have hb := runnableFrames_setConn hnd hl { c₁ with wantClose := true }
      rw [runnable_close] at hb
      refine ⟨hkeep _ hc₁, by omega, ?_⟩
      rcases hrun with ⟨rfl, -⟩ | ⟨h, -⟩
      · exact .inr rfl
      · exact .inl (by omega)
  · -- sent: the reply only adds to what the connection writes
    rw [heq]
    dsimp only
    refine ⟨hkeep _ rfl, ?_, .inr rfl⟩
    have hb := runnableFrames_setConn hnd hl (l.conn.send d.reply)
    rw [runnable_send] at hb
    simp only [runnableFrames_server]
    omega

/-- Handing replies over one after another keeps the ids, never raises the runnable frames, and
lowers them unless the server is left as it was. -/
theorem handOverAll_progress (now : Instant) : ∀ (ds : List Delivery) (r : Reactor),
    (r.links.map (·.conn.id)).Nodup →
    (ds.foldl (handOver · now) r).links.map (·.conn.id) = r.links.map (·.conn.id) ∧
      (ds.foldl (handOver · now) r).runnableFrames ≤ r.runnableFrames ∧
      ((ds.foldl (handOver · now) r).runnableFrames < r.runnableFrames ∨
        (ds.foldl (handOver · now) r).server = r.server)
  | [], r, _ => ⟨rfl, le_rfl, .inr rfl⟩
  | d :: ds, r, hnd => by
    obtain ⟨hids₁, hle₁, hlt₁⟩ := handOver_progress hnd now d
    obtain ⟨hids₂, hle₂, hlt₂⟩ := handOverAll_progress now ds _ (hids₁ ▸ hnd)
    exact ⟨hids₂.trans hids₁, hle₂.trans hle₁, lt_or_eq_trans hle₁ hlt₁ hle₂ hlt₂⟩

/-! ## The rounds -/

/-- More fuel keeps a finished answer: once the rounds have left nothing queued, further rounds
change nothing. -/
theorem deliverWith_stable (now : Instant) : ∀ {n m : Nat} {r : Reactor},
    (deliverWith now n r).server.outbox = [] → n ≤ m → deliverWith now m r = deliverWith now n r
  | 0, m, r, h, _ => deliverWith_of_empty now h m
  | n + 1, m, r, h, hle => by
    obtain ⟨m, rfl⟩ : ∃ m', m = m' + 1 := ⟨m - 1, by omega⟩
    rw [deliverWith_succ] at h
    rw [deliverWith_succ, deliverWith_succ]
    by_cases he : r.server.outbox = []
    · rw [if_pos he, if_pos he]
    · rw [if_neg he] at h
      rw [if_neg he, if_neg he]
      exact deliverWith_stable now h (by omega)

/-- Step lemma for the rounds: a round keeps the ids of the links, and either leaves no reply
queued or lowers the runnable frames. A reply is queued only by running a frame. -/
theorem deliverRound_progress {r : Reactor} (hnd : (r.links.map (·.conn.id)).Nodup)
    (now : Instant) :
    (r.deliverRound now).links.map (·.conn.id) = r.links.map (·.conn.id) ∧
      ((r.deliverRound now).server.outbox = [] ∨
        (r.deliverRound now).runnableFrames < r.runnableFrames) := by
  obtain ⟨hids, -, hlt⟩ := handOverAll_progress now r.server.outbox
    { r with server := r.server.takeDeliveries.2 } hnd
  refine ⟨hids, ?_⟩
  rcases hlt with h | h
  · exact .inr h
  · -- the server is the one taking the replies left: nothing is queued
    left
    rw [deliverRound, h]
    rfl

/-- Run lemma for the rounds: with fuel beyond the runnable frames, the rounds end with no reply
left queued. -/
theorem deliverWith_outbox (now : Instant) : ∀ (fuel : Nat) (r : Reactor),
    (r.links.map (·.conn.id)).Nodup → (r.server.outbox = [] ∨ r.runnableFrames < fuel) →
    (deliverWith now fuel r).server.outbox = []
  | 0, r, _, h => by
    have he : r.server.outbox = [] := h.resolve_right (Nat.not_lt_zero _)
    rw [deliverWith_of_empty now he]
    exact he
  | fuel + 1, r, hnd, h => by
    rw [deliverWith_succ]
    by_cases he : r.server.outbox = []
    · rw [if_pos he]
      exact he
    rw [if_neg he]
    obtain ⟨hids, hround⟩ := deliverRound_progress hnd now
    refine deliverWith_outbox now fuel _ (hids ▸ hnd) ?_
    have hf := h.resolve_left he
    rcases hround with h' | h'
    · exact .inl h'
    · exact .inr (by omega)

/-- Handing out the deferred replies ends: however the rounds resume connections, whose frames
push to other waiters and queue more replies or park again, at most one round more than the
complete frames the open connections buffer is needed. The rounds leave no reply queued, and running
them with any more fuel gives the same loop. -/
theorem deliverDeferred_ends (r : Reactor) (hnd : (r.links.map (·.conn.id)).Nodup)
    (now : Instant) :
    (r.deliverDeferred now).server.outbox = [] ∧
      ∀ fuel, r.runnableFrames < fuel → deliverWith now fuel r = r.deliverDeferred now := by
  have hend := deliverWith_outbox now (r.runnableFrames + 1) r hnd (.inr (Nat.lt_succ_self _))
  have hle : r.runnableFrames + 1 ≤ r.buffered + 2 := by
    have := runnableFrames_le_buffered r
    omega
  have hdef : r.deliverDeferred now = deliverWith now (r.runnableFrames + 1) r :=
    deliverWith_stable now hend hle
  refine ⟨hdef ▸ hend, fun fuel hf => ?_⟩
  rw [hdef]
  exact deliverWith_stable now hend hf

/-- Two waiting clients: a queued reply resumes the first, whose buffered push serves the second,
so a second round hands the second its reply. -/
def chainedWaiters : Reactor :=
  let s₀ := ((Server.new .master 6379).connectionOpened.2.connectionOpened).2
  { server := (s₀.block 0 "done" 2 none).deliver 1 (Value.command ["jobs", "j"]) true,
    links := [{ conn := { Connection.new 1 "a" with
                  suspended := true,
                  inbound := Buffer.empty.append (Value.command ["RPUSH", "done", "x"]).encode } },
              { conn := { Connection.new 2 "b" with suspended := true } }] }

theorem deliverDeferred_ends_chained_waiters :
    (chainedWaiters.links.map (·.conn.id)).Nodup ∧
      (chainedWaiters.deliverDeferred 0).server.outbox = [] ∧
      ∀ fuel, chainedWaiters.runnableFrames < fuel →
        deliverWith 0 fuel chainedWaiters = chainedWaiters.deliverDeferred 0 :=
  ⟨by decide, deliverDeferred_ends chainedWaiters (by decide) 0⟩

end Reactor

/-! ## An item popped for a closing connection -/

/-- A push's wake takes the first `k` items of the key, and only for blocked pops whose connection
the server counts live; it queues each, in order, as the `[key, item]` reply for the pop it
serves. Whenever the loop hands such a reply over, a connection marked to close, or the link to
the master, drops it and nothing changes; any other connection sends it, ahead of what a
resumption then adds. -/
theorem popped_item_reaches_waiter_unless_closing (s : Server) (now : Instant) (key : String) :
    ∃ (ws : List Wakeup) (k : Nat),
      (s.wake now key).outbox = s.outbox ++ ws.map Wakeup.delivery ∧
      (∀ k', (s.wake now key).lists.items k' =
        if key = k' then (s.lists.items key).drop k else s.lists.items k') ∧
      ws.filterMap Wakeup.served? = ((s.lists.items key).take k).map (key, ·) ∧
      ∀ w ∈ ws, s.isLive w.delivery.conn = true ∧
        ∀ (r : Reactor) (later : Instant) (l : Link), r.link? w.delivery.conn = some l →
          (l.conn.wantClose = true ∨ l.conn.isReplicaLink = true →
            (r.handOver later w.delivery).server = r.server ∧
              (r.handOver later w.delivery).link? w.delivery.conn = some l) ∧
          (l.conn.wantClose = false → l.conn.isReplicaLink = false →
            ∃ more, ((r.handOver later w.delivery).link? w.delivery.conn).map Link.stream =
              some (l.stream ++ w.delivery.reply.encode ++ more)) := by
  obtain ⟨ws, k, hout, hlive, hserved, hitems⟩ := Server.wake_queues_popped s now key
  refine ⟨ws, k, hout, hitems, hserved, fun w hw => ⟨hlive w hw, ?_⟩⟩
  intro r later l hl
  exact Reactor.handOver_stream r later w.delivery hl

/-- The item is lost in a run of the loop. A fresh master accepts two connections; connection 1
sends BLPOP on the empty list `k` and waits. Then its peer shuts its side while connection 2 sends
RPUSH `k v`, and one turn reads both: reading the end of the stream marks connection 1 to close,
though the server still counts it open; the push answers 1 and its wake takes `v` for the waiting
pop; the reply is dropped by the closing connection, which the turn then closes. Afterwards `v` is
neither in the list, nor queued, nor on its way to any connection. -/
theorem item_lost_to_closing_waiter :
    let r := (Reactor.new (Server.new .master 6379)).run
      [.turn 0 [.accepted "127.0.0.1:40001", .accepted "127.0.0.1:40002"],
        .receive 1 (Value.command ["BLPOP", "k", "0"]).encode, .turn 0 [.readable 1],
        .hangUp 1, .receive 2 (Value.command ["RPUSH", "k", "v"]).encode]
    let r' := r.turn 0 [.readable 1, .readable 2]
    (r.link? 1).map (·.conn.suspended) = some true ∧ r.server.waiters.queue "k" ≠ [] ∧
      r'.server.lists.items "k" = [] ∧ r'.server.outbox = [] ∧ r'.link? 1 = none ∧
      r'.links.map Link.stream = [(Value.integer 1).encode] := by
  intro r r'
  let s₀ := Server.new .master 6379
  let s₁ : Server := { s₀ with nextConn := 3, live := (s₀.live.insert 1).insert 2 }
  let blpop := Value.command ["BLPOP", "k", "0"]
  let rpush := Value.command ["RPUSH", "k", "v"]
  let c₁ := Connection.new 1 "127.0.0.1:40001"
  let c₂ := Connection.new 2 "127.0.0.1:40002"
  -- the server's steps go through the general lemmas, since its maps are hashed; the rest of each
  -- turn is evaluated
  have hx₁ : s₁.execute 0 1 blpop = (.suspended, s₁.block 0 "k" 1 none) :=
    Server.execute_blpop_parks (by simp [s₁, s₀, Server.new, Transactions.isActive]) rfl
      (by decide +kernel) (by simp [s₁, s₀, Server.new, Lists.items]) 0
  have hp₁ : ({ c₁ with inbound := { bytes := blpop.encode } } : Connection).processInbound s₁ 0 =
      (none, { c₁ with suspended := true, inbound := { bytes := [] } }, s₁.block 0 "k" 1 none) := by
    rw [@Connection.processInbound_client 0 [blpop] _ s₁ [] rfl rfl (by decide +kernel)
      (by decide +kernel) (by simp)]
    simp [Server.serve, hx₁, c₁, Connection.new, Buffer.append]
  -- before the last turn connection 1 waits and its peer has shut its side, and connection 2's
  -- RPUSH is on its socket
  let L₁ : Link :=
    { conn := { c₁ with suspended := true, inbound := { bytes := [] } }
      sock := { incoming := { writerClosed := true } } }
  let L₂ : Link := { conn := c₂, sock := { incoming := { bytes := rpush.encode } } }
  let s₂ := s₁.block 0 "k" 1 none
  have hr : r = { server := s₂, links := [L₁, L₂] } := by
    show (((((Reactor.new s₀).turn 0 [.accepted c₁.peer, .accepted c₂.peer]).receive 1
      blpop.encode).turn 0 [.readable 1]).hangUp 1).receive 2 rpush.encode = _
    have h₁ : (Reactor.new s₀).turn 0 [.accepted c₁.peer, .accepted c₂.peer] =
        { server := s₁, links := [{ conn := c₁ }, { conn := c₂ }] } := rfl
    have hl : (({ server := s₁, links := [{ conn := c₁ }, { conn := c₂ }] } : Reactor).receive 1
        blpop.encode).link? 1 =
          some { conn := c₁, sock := { incoming := { bytes := blpop.encode } } } := rfl
    rw [h₁]
    unfold Reactor.turn
    rw [List.foldl_cons, List.foldl_nil, Reactor.handle_readable hl
      (Connection.onReadable_of_flush hp₁ rfl (.inl ⟨rfl, rfl⟩))]
    rfl
  let b : Block := { id := 0, conn := 1, deadline := none }
  have hq : s₂.waiters.queue "k" = [b] := by
    simp [s₂, s₁, s₀, b, Server.block, Waiters.block, Waiters.queue, Server.new]
  refine ⟨by rw [hr]; rfl, by rw [hr]; simp [hq], ?_⟩
  -- connection 2's RPUSH hands `v` to the waiting pop
  obtain ⟨hreply, hitems, hout, htimers, hrepl⟩ := Server.execute_rpush_serves
    (show s₂.transactions.isActive 2 = false by
      simp [s₂, s₁, s₀, Server.block, Server.new, Transactions.isActive])
    (show s₂.lists.items "k" = [] by simp [s₂, s₁, s₀, Server.block, Server.new, Lists.items]) hq
    (show s₂.isLive b.conn = true by simp [s₂, s₁, s₀, b, Server.block, Server.new, Server.isLive])
    rfl "v" 0
  let s₃ := (s₂.execute 0 2 rpush).2
  have hx₂ : s₂.execute 0 2 rpush = (.completed (.integer 1), s₃) := Prod.ext hreply rfl
  have hp₂ : ({ c₂ with inbound := { bytes := rpush.encode } } : Connection).processInbound s₂ 0 =
      (none,
        { c₂ with
          outbound := c₂.outbound.append (Value.integer 1).encode
          inbound := { bytes := [] } },
        s₃) := by
    rw [@Connection.processInbound_client 0 [rpush] _ s₂ [] rfl rfl (by decide +kernel)
      (by decide +kernel) (by simp)]
    simp [Server.serve, hx₂, c₂, Connection.new, Buffer.append]
  -- the last turn: connection 1 reads the end of its stream and is marked to close, connection 2's
  -- push is answered
  have hl₁ : ({ server := s₂, links := [L₁, L₂] } : Reactor).link? 1 = some L₁ := rfl
  have h₃ := Reactor.handle_readable hl₁
    (Connection.onReadable_of_flush (Connection.processInbound_suspended s₂ 0 rfl) rfl
      (.inr ⟨_, rfl, rfl⟩))
  have hl₂ : (({ server := s₂, links := [L₁, L₂] } : Reactor).handle 0 (.readable 1)).link? 2 =
      some L₂ := by
    rw [h₃]
    rfl
  have h₄ := Reactor.handle_readable hl₂
    (Connection.onReadable_of_flush hp₂ rfl (.inl ⟨rfl, rfl⟩))
  -- the rest of the turn reads only the timers, the queued replies and the replication state of
  -- the server the push left
  have hs₃ : s₃ = { s₃ with
      timers := s₂.timers
      outbox := s₂.outbox ++ [{ conn := 1, reply := Value.command ["k", "v"], resumes := true }]
      replication := (s₂.replication.record rpush).record (Value.command ["LPOP", "k"]) } := by
    rw [← htimers, ← hout, ← hrepl]
  have hturn : r' = ({ server := s₂, links := [L₁, L₂] } : Reactor).turn 0
      [.readable 1, .readable 2] := by
    show r.turn 0 _ = _
    rw [hr]
  rw [hturn]
  unfold Reactor.turn
  rw [List.foldl_cons, List.foldl_cons, List.foldl_nil, h₄, hs₃]
  refine ⟨?_, List.isEmpty_iff.1 (by decide +kernel),
    Option.isNone_iff_eq_none.1 (by decide +kernel), by decide +kernel⟩
  rw [Reactor.scheduleReconnect_lists, Reactor.closeFinished_lists, Reactor.flushAll_server]
  exact hitems

end KvServer
