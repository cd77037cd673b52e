import Mathlib
import KvServer.Proofs.ReplicaStream

/-!
# What a blocked pop is handed

A push's wake serves the key's blocked pops from the front of its list. Only pops whose connection
the server counts live take items, each the next one, and each served pop is queued, in order, as
the `[key, item]` reply for its connection (`Server.wake_queues_popped`). The loop then hands each
queued reply to its connection: one marked to close, or the link to the master, drops it, and any
other sends it, ahead of the replies to the frames a resumed connection then takes
(`Reactor.handOver_stream`). A connection that is marked to close while the server still counts
it live thus loses the items popped for it.

For following one run of the loop: a push onto an empty list on which one pop waits hands it the
item at once (`Server.execute_rpush_serves`), and a readable connection's link takes what reading
its socket came to (`Reactor.handle_readable`, with `Connection.onReadable_of_flush`).
-/

namespace KvServer

namespace Wakeup

/-- The reply a wake-up queues for its connection: the key and the item, or null at a timeout. -/
def delivery : Wakeup → Delivery
  | .served c key v => { conn := c, reply := Value.command [key, v], resumes := true }
  | .timedOut c => { conn := c, reply := .null, resumes := true }

/-- The key and the item a served wake-up hands over. -/
def served? : Wakeup → Option (String × String)
  | .served _ key v => some (key, v)
  | .timedOut _ => none

end Wakeup

namespace Waiters

/-- Serving blocks wakes only blocks whose connection is live, and hands the served ones the first
items of the key's list, one each and in order. -/
theorem serve_hands_front (live : ConnId → Bool) (now : Instant) (key : String) :
    ∀ (q : List Block) (l : Lists), ∃ k,
      (∀ w ∈ (serve live now key q l).1, live w.delivery.conn = true) ∧
      (serve live now key q l).1.filterMap Wakeup.served? = ((l.items key).take k).map (key, ·) ∧
      ∀ k', (serve live now key q l).2.2.items k' =
        if key = k' then (l.items key).drop k else l.items k'
  | [], l => ⟨0, by simp [serve], by simp [serve], fun k' => by split <;> simp_all [serve]⟩
  | b :: bs, l => by
    simp only [serve]
    split
    · exact serve_hands_front live now key bs l
    · rename_i hlive
      have hb : live b.conn = true := by simpa using hlive
      split
      · obtain ⟨k, hw, hs, hi⟩ := serve_hands_front live now key bs l
        refine ⟨k, fun w hw' => ?_, by simpa only [List.filterMap_cons, Wakeup.served?] using hs, hi⟩
        rcases List.mem_cons.1 hw' with rfl | hw'
        · exact hb
        · exact hw w hw'
      · rcases hp : l.lpop key with ⟨_ | v, l'⟩
        · exact ⟨0, by simp, by simp, fun k' => by split <;> simp_all⟩
        · -- the item is the head of the list, and the rest is served from its tail
          obtain ⟨k, hw, hs, hi⟩ := serve_hands_front live now key bs l'
          have hl' : ∀ k', l'.items k' = if key = k' then (l.items key).drop 1 else l.items k' := by
            intro k'
            rw [← Lists.items_lpop, hp]
          have hv : (l.items key).head? = some v := by
            rw [← Lists.lpop_fst, hp]
          obtain ⟨tail, htail⟩ : ∃ tail, l.items key = v :: tail := by
            cases h : l.items key with
            | nil => simp [h] at hv
            | cons x xs =>
              rw [h] at hv
              exact ⟨xs, by simpa using hv⟩
          refine ⟨k + 1, fun w hw' => ?_, ?_, fun k' => ?_⟩
          · rcases List.mem_cons.1 hw' with rfl | hw'
            · exact hb
            · exact hw w hw'
          · rw [List.filterMap_cons, hs, hl' key]
            simp [Wakeup.served?, htail]
          · rw [hi k', hl' key, hl' k']
            split <;> simp_all

/-- Serving a queue of one block of a live connection, with no deadline, from a list of one item
hands the item to that block and empties the list. -/
theorem serve_single {live : ConnId → Bool} {now : Instant} {key : String} {b : Block}
    (hlive : live b.conn = true) (hd : b.deadline = none) {l : Lists} {item : String}
    (hi : l.items key = [item]) :
    serve live now key [b] l = ([.served b.conn key item], [], (l.lpop key).2) := by
  have hp : l.lpop key = (some item, (l.lpop key).2) :=
    Prod.ext (by rw [Lists.lpop_fst, hi]; rfl) rfl
  simp only [serve, hlive, hd, Bool.not_true, Bool.false_eq_true, if_false, Option.any_none]
  rw [hp]

/-- A key whose queue is one block has that queue in the map. -/
theorem queues_of_queue {w : Waiters} {key : String} {b : Block} (hq : w.queue key = [b]) :
    w.queues[key]? = some [b] := by
  simp only [Waiters.queue] at hq
  cases h : w.queues[key]? with
  | none => simp [h] at hq
  | some q => simp_all

end Waiters

namespace Server

@[simp] theorem record_live (s : Server) (e : Value) : (s.record e).live = s.live := rfl

@[simp] theorem deliver_live (s : Server) (c : ConnId) (v : Value) (b : Bool) :
    (s.deliver c v b).live = s.live := by
  unfold deliver
  split <;> rfl

/-- Wake-ups for live connections are all queued, in order. -/
theorem applyWakeups_outbox : ∀ (ws : List Wakeup) (s : Server),
    (∀ w ∈ ws, s.isLive w.delivery.conn = true) →
      (s.applyWakeups ws).outbox = s.outbox ++ ws.map Wakeup.delivery
  | [], s, _ => by simp [applyWakeups]
  | .served c key v :: ws, s, hlive => by
    have hc : s.isLive c = true := hlive _ (.head _)
    have ih := applyWakeups_outbox ws
      ((s.record (Value.command ["LPOP", key])).deliver c (Value.command [key, v]) true)
      (fun w hw => by simpa [isLive] using hlive w (.tail _ hw))
    have hd : ((s.record (Value.command ["LPOP", key])).deliver c (Value.command [key, v])
        true).outbox = s.outbox ++ [(Wakeup.served c key v).delivery] := by
      simp only [deliver]
      rw [if_pos (show (s.record (Value.command ["LPOP", key])).isLive c = true from hc)]
      rfl
    rw [applyWakeups, ih, hd]
    simp
  | .timedOut c :: ws, s, hlive => by
    have hc : s.isLive c = true := hlive _ (.head _)
    have ih := applyWakeups_outbox ws (s.deliver c .null true)
      (fun w hw => by simpa [isLive] using hlive w (.tail _ hw))
    rw [applyWakeups, ih]
    simp [deliver, hc, Wakeup.delivery]

/-- A push's wake pops items only for blocked pops whose connection is live: the first `k` items
of the key, each queued, in order, as the `[key, item]` reply for the pop it serves. -/
theorem wake_queues_popped (s : Server) (now : Instant) (key : String) :
    ∃ (ws : List Wakeup) (k : Nat),
      (s.wake now key).outbox = s.outbox ++ ws.map Wakeup.delivery ∧
      (∀ w ∈ ws, s.isLive w.delivery.conn = true) ∧
      ws.filterMap Wakeup.served? = ((s.lists.items key).take k).map (key, ·) ∧
      ∀ k', (s.wake now key).lists.items k' =
        if key = k' then (s.lists.items key).drop k else s.lists.items k' := by
  unfold wake Waiters.onPush
  cases hq : s.waiters.queues[key]? with
  | none =>
    refine ⟨[], 0, by simp [applyWakeups], by simp, by simp, fun k' => ?_⟩
    by_cases hk : key = k' <;> simp [applyWakeups, hk]
  | some q =>
    obtain ⟨k, hw, hs, hi⟩ := Waiters.serve_hands_front s.isLive now key q s.lists
    rcases hserve : Waiters.serve s.isLive now key q s.lists with ⟨ws, rest, l'⟩
    simp only [hserve] at hw hs hi ⊢
    refine ⟨ws, k, applyWakeups_outbox ws _ hw, hw, hs, fun k' => ?_⟩
    rw [applyWakeups_lists]
    exact hi k'

/-- A push's wake on a key with one item, where one pop of a live connection waits with no
deadline, hands the item to that pop: the list empties, the `[key, item]` reply is queued for the
pop's connection, and the pop is recorded. -/
theorem wake_single {s : Server} {key item : String} (hi : s.lists.items key = [item]) {b : Block}
    (hq : s.waiters.queue key = [b]) (hlive : s.isLive b.conn = true) (hd : b.deadline = none)
    (now : Instant) :
    (s.wake now key).lists.items key = [] ∧
      (s.wake now key).outbox =
        s.outbox ++ [{ conn := b.conn, reply := Value.command [key, item], resumes := true }] ∧
      (s.wake now key).timers = s.timers ∧
      (s.wake now key).replication = s.replication.record (Value.command ["LPOP", key]) := by
  unfold wake Waiters.onPush
  rw [Waiters.queues_of_queue hq]
  dsimp only
  rw [Waiters.serve_single hlive hd hi]
  -- the one wake-up records the pop and queues its reply for a connection still open
  have hlive' : s.live.contains b.conn = true := hlive
  simp only [applyWakeups]
  refine ⟨?_, ?_, ?_, ?_⟩ <;> simp [deliver, isLive, hlive', record, Lists.items_lpop, hi]

/-- A push of one item onto a key whose list is empty and on which a single pop of a live
connection waits with no deadline, from a connection in no transaction: the push answers 1, and its
wake hands the item to that pop at once, so the list stays empty and the `[key, item]` reply is
queued for the pop's connection. The push and then the pop are recorded; no timer changes. -/
theorem execute_rpush_serves {s : Server} {o : ConnId} (hidle : s.transactions.isActive o = false)
    {key : String} (he : s.lists.items key = []) {b : Block} (hq : s.waiters.queue key = [b])
    (hlive : s.isLive b.conn = true) (hd : b.deadline = none) (item : String) (now : Instant) :
    (s.execute now o (Value.command ["RPUSH", key, item])).1 = .completed (.integer 1) ∧
      (s.execute now o (Value.command ["RPUSH", key, item])).2.lists.items key = [] ∧
      (s.execute now o (Value.command ["RPUSH", key, item])).2.outbox =
        s.outbox ++ [{ conn := b.conn, reply := Value.command [key, item], resumes := true }] ∧
      (s.execute now o (Value.command ["RPUSH", key, item])).2.timers = s.timers ∧
      (s.execute now o (Value.command ["RPUSH", key, item])).2.replication =
        (s.replication.record (Value.command ["RPUSH", key, item])).record
          (Value.command ["LPOP", key]) := by
  have hv : ({ origin := o, action := .rpush, args := [key, item] } : Request).toValue =
      Value.command ["RPUSH", key, item] := Request.toValue_of_keyword (by decide) o [key, item]
  rw [← hv, execute_request hidle (by simp [Command.hasArity, Request.toCommand, Verb.arity])]
  -- the push makes the list `[item]`, is recorded, and wakes the key
  let s₁ := { s with lists := (s.lists.rpush key [item]).2 }.record
    (Value.command ["RPUSH", key, item])
  have hpush : s.perform now { origin := o, action := .rpush, args := [key, item] } =
      (.completed (.integer 1), s₁.wake now key) := by
    simp [s₁, perform, act, push, Lists.rpush, he, hv]
  obtain ⟨h₁, h₂, h₃, h₄⟩ := wake_single
    (show s₁.lists.items key = [item] by simp [s₁, Lists.items_rpush, he])
    (show s₁.waiters.queue key = [b] from hq) (show s₁.isLive b.conn = true from hlive) hd now
  rw [hpush]
  refine ⟨rfl, h₁, ?_, h₃, ?_⟩
  · rw [h₂]
    rfl
  · rw [h₄]
    simp only [s₁, record, hv]

end Server

namespace Connection

/-- `c'` is `c` with more bytes for its peer: the same connection, its outbound buffer extended. -/
structure Sends (c c' : Connection) : Prop where
  id : c'.id = c.id
  outbound : c.outbound.bytes <+: c'.outbound.bytes

theorem Sends.refl (c : Connection) : c.Sends c :=
  ⟨rfl, List.prefix_refl _⟩

theorem Sends.trans {c₁ c₂ c₃ : Connection} (h₁ : c₁.Sends c₂) (h₂ : c₂.Sends c₃) : c₁.Sends c₃ :=
  ⟨h₂.id.trans h₁.id, h₁.outbound.trans h₂.outbound⟩

theorem sends_send (c : Connection) (v : Value) : c.Sends (c.send v) :=
  ⟨rfl, List.prefix_append _ _⟩

theorem handle_sends (c : Connection) (s : Server) (now : Instant) (frame : Value) :
    c.Sends (c.handle s now frame).2.1 := by
  unfold handle
  split
  · split
    · exact sends_send c _
    · exact ⟨rfl, List.prefix_refl _⟩
  · split
    · exact ⟨rfl, List.prefix_refl _⟩
    · split
      · exact ⟨rfl, List.prefix_refl _⟩
      · exact ⟨rfl, List.prefix_append _ _⟩
      · exact ⟨rfl, List.prefix_refl _⟩

theorem sends_of_handle {c c₂ : Connection} {s s₂ : Server} {now : Instant} {frame : Value}
    {e : Option ConnectionError} (hh : c.handle s now frame = (e, c₂, s₂)) : c.Sends c₂ := by
  have h := handle_sends c s now frame
  rw [hh] at h
  exact h

/-- Taking buffered frames only adds replies to what a connection sends. -/
theorem processWith_sends (now : Instant) :
    ∀ (fuel : Nat) (c : Connection) (s : Server), c.Sends (processWith now fuel c s).2.1
  | 0, c, _ => .refl c
  | fuel + 1, c, s => by
    simp only [processWith]
    split
    · exact ⟨rfl, List.prefix_refl _⟩
    · split
      · exact ⟨rfl, List.prefix_refl _⟩
      · exact ⟨rfl, List.prefix_refl _⟩
      · -- the frame's handler sees the connection with the frame taken off its inbound buffer
        split
        · rename_i c₂ s₂ hh
          have h := sends_of_handle hh
          exact (⟨h.id, h.outbound⟩ : c.Sends c₂).trans (processWith_sends now fuel c₂ s₂)
        · rename_i c₂ s₂ hh
          have h := sends_of_handle hh
          exact ⟨h.id, h.outbound⟩

/-- Resuming a connection sends the deferred reply first, then the replies to the frames it
takes. -/
theorem resume_sends (c : Connection) (reply : Value) (s : Server) (now : Instant) :
    (c.resume reply s now).2.1.id = c.id ∧
      c.outbound.bytes ++ reply.encode <+: (c.resume reply s now).2.1.outbound.bytes := by
  have h := processWith_sends now ({ c.send reply with suspended := false }.inbound.len + 1)
    { c.send reply with suspended := false } s
  exact ⟨h.id, h.outbound⟩

/-- A connection neither marked to close nor the link to the master sends a reply handed to it,
ahead of whatever a resumption then adds. -/
theorem handOver_sends {c : Connection} (hc : c.wantClose = false) (hl : c.isReplicaLink = false)
    (d : Delivery) (s : Server) (now : Instant) :
    (c.handOver d s now).2.1.id = c.id ∧
      c.outbound.bytes ++ d.reply.encode <+: (c.handOver d s now).2.1.outbound.bytes := by
  unfold handOver
  rw [if_neg (by simp [hc, hl])]
  split
  · exact resume_sends c d.reply s now
  · exact ⟨rfl, List.prefix_refl _⟩

/-- A readable socket whose frames run without error, on a connection whose replies the socket
takes, comes to the connection as the flush left it, with the error of the end-of-stream check if
that check fails. -/
theorem onReadable_of_flush {now : Instant} {c c₁ c₂ : Connection} {sock : Socket}
    {s s' : Server} {outgoing : Net.Pipe} {e : Option ConnectionError}
    (hp : (c.read sock.incoming).2.1.processInbound s now = (none, c₁, s'))
    (hf : c₁.flush sock.outgoing = .ok (c₂, outgoing))
    (he : c₂.checkEof = .ok () ∧ e = none ∨ ∃ err, c₂.checkEof = .error err ∧ e = some err) :
    c.onReadable sock s now =
      (e, c₂, { incoming := (c.read sock.incoming).2.2, outgoing }, s') := by
  unfold onReadable
  rcases hr : c.read sock.incoming with ⟨n, c₀, incoming⟩
  rw [hr] at hp
  dsimp only at hp ⊢
  rw [hp]
  dsimp only
  rw [hf]
  dsimp only
  rcases he with ⟨h, rfl⟩ | ⟨err, h, rfl⟩ <;> rw [h]

end Connection

namespace Reactor

/-- Putting a connection of the same id into a link replaces that link's connection. -/
theorem link?_setConn (r : Reactor) {id : ConnId} {l : Link} (hl : r.link? id = some l)
    (c : Connection) (hc : c.id = id) :
    (r.modifyLink id fun l' => { l' with conn := c }).link? id = some { l with conn := c } := by
  have hf : ∀ l' : Link, l'.conn.id = id → ({ l' with conn := c } : Link).conn.id = id :=
    fun _ _ => hc
  rw [link?_modifyLink r hf id, if_pos rfl, hl]
  rfl

/-- Handing a deferred reply to a connection with a link: one marked to close, or the link to the
master, drops it and nothing changes; any other has it appended to the bytes on their way to its
peer, followed by what a resumption adds. -/
theorem handOver_stream (r : Reactor) (now : Instant) (d : Delivery) {l : Link}
    (hl : r.link? d.conn = some l) :
    (l.conn.wantClose = true ∨ l.conn.isReplicaLink = true →
      (r.handOver now d).server = r.server ∧ (r.handOver now d).link? d.conn = some l) ∧
    (l.conn.wantClose = false → l.conn.isReplicaLink = false →
      ∃ more, ((r.handOver now d).link? d.conn).map Link.stream =
        some (l.stream ++ d.reply.encode ++ more)) := by
  have hid := id_of_link? hl
  unfold handOver
  rw [hl]
  dsimp only
  constructor
  · intro hskip
    have hsk : l.conn.handOver d r.server now = (.skipped, l.conn, r.server) := by
      unfold Connection.handOver
      rw [if_pos (by rcases hskip with h | h <;> simp [h])]
    rw [hsk]
    refine ⟨rfl, ?_⟩
    show (r.modifyLink d.conn fun l' => { l' with conn := l.conn }).link? d.conn = some l
    exact link?_setConn r hl l.conn hid
  · intro hc hr
    obtain ⟨hid', more, hmore⟩ := Connection.handOver_sends hc hr d r.server now
    rcases hres : l.conn.handOver d r.server now with ⟨h, c', s'⟩
    rw [hres] at hid' hmore
    refine ⟨more, ?_⟩
    dsimp only
    -- resuming may fail, which marks the connection to close and keeps its buffers
    split
    · show ((r.modifyLink d.conn fun l' =>
        { l' with conn := { c' with wantClose := true } }).link? d.conn).map Link.stream = _
      rw [link?_setConn r hl { c' with wantClose := true } (hid'.trans hid)]
      simp [Link.stream, hmore]
    · show ((r.modifyLink d.conn fun l' => { l' with conn := c' }).link? d.conn).map Link.stream = _
      rw [link?_setConn r hl c' (hid'.trans hid)]
      simp [Link.stream, hmore]

/-- A readable connection's link takes what its socket's reading came to, marked to close on an
error, and the server is left as the reading left it. -/
theorem handle_readable {r : Reactor} {now : Instant} {i : ConnId} {l : Link}
    (hl : r.link? i = some l) {e : Option ConnectionError} {c : Connection}
    {sock : Connection.Socket} {s : Server}
    (h : l.conn.onReadable l.sock r.server now = (e, c, sock, s)) :
    r.handle now (.readable i) =
      { r.modifyLink i (fun _ =>
          { conn := if e.isSome then { c with wantClose := true } else c, sock })
        with server := s } := by
  simp only [handle, hl, h]

end Reactor

end KvServer
