import Mathlib
import KvServer.Proofs.Processing

/-!
# Suspended connections and their blocks

Between two turns of the loop, a client connection waits exactly when one blocked pop carries
its id, and no reply is left queued; and no connection id has two blocked pops unless it was
given to a link to the master, whose requests run without ever suspending it.

The invariant (`Reactor.Standing M ds r`) keeps, for every link, where it stands (`Reactor.Stands`):
a client not marked to close is in its slot of `Server.Slot`, counting the replies queued for it
and those in hand `ds`; `M` holds the ids given to links to the master. Each phase of a turn keeps
it: the events (`Standing.handle`), the timers (`Standing.runTimers`), handing the deferred
replies over (`Standing.deliverDeferred`, which also empties the outbox: each round after the
first takes a byte from some buffer), writing to replicas and peers, closing and scheduling a
reconnect. A turn leaves the loop at rest (`Reactor.AtRest`), and a run from a fresh loop stays
at rest after every step (`Reactor.suspended_iff_one_block`).

The exception for links to the master is needed: such a link applies every frame of the master's
stream and is never suspended, so BLPOPs on an empty list park it once each
(`Server.replicate_blpops`). `Reactor.turn_readable_master` carries that to the end of a turn, and
`Reactor.master_link_holds_two_blocks` reaches it from a fresh replica.
-/

namespace KvServer

namespace Connection

variable {now : Instant}

/-- Marking a connection to close keeps where it stands otherwise. -/
theorem alike_closeIf (c : Connection) (b : Bool) :
    Alike c (if b then { c with wantClose := true } else c) := by
  cases b
  · exact Alike.refl c
  · exact alike_close c

theorem alike_foldl_send (c : Connection) : ∀ vs : List Value, Alike c (vs.foldl send c)
  | [] => Alike.refl c
  | v :: vs => (alike_send c v).trans (alike_foldl_send (c.send v) vs)

/-- When its socket can be read, a connection reads, processes its frames, and then flushes and
checks the end of the stream, which changes nothing of where it stands. -/
theorem onReadable_processes {c c' : Connection} {sock sock' : Socket} {s s' : Server}
    {e : Option ConnectionError} (h : c.onReadable sock s now = (e, c', sock', s')) :
    ∃ e₁ c₁, (c.read sock.incoming).2.1.processInbound s now = (e₁, c₁, s') ∧ Alike c₁ c' := by
  unfold onReadable at h
  rcases hr : c.read sock.incoming with ⟨n, c₀, incoming⟩
  rw [hr] at h
  dsimp only at h ⊢
  split at h
  · rename_i e₁ c₁ s₁ hp
    cases h
    exact ⟨_, _, hp, Alike.refl _⟩
  · rename_i c₁ s₁ hp
    split at h
    · cases h
      exact ⟨_, _, hp, Alike.refl _⟩
    · rename_i c₂ outgoing hf
      split at h <;>
      · cases h
        exact ⟨_, _, hp, flush_alike hf⟩

/-- Handing a deferred reply over: a connection marked to close, or the link to the master,
is skipped; a client waiting for a reply that resumes it goes on with its buffered frames; any
other is sent the reply. -/
theorem handOver_cases (c : Connection) (d : Delivery) (s : Server) (now : Instant) :
    ((c.wantClose = true ∨ c.isReplicaLink = true) ∧ c.handOver d s now = (.skipped, c, s)) ∨
      (c.wantClose = false ∧ c.isReplicaLink = false ∧ d.resumes = true ∧ c.suspended = true ∧
        ∃ e c' s', ({ c.send d.reply with suspended := false }).processInbound s now = (e, c', s') ∧
          c.handOver d s now = (.handed e, c', s')) ∨
      (c.wantClose = false ∧ c.isReplicaLink = false ∧ (d.resumes && c.suspended) = false ∧
        c.handOver d s now = (.handed none, c.send d.reply, s)) := by
  unfold handOver
  by_cases hskip : (c.wantClose || c.isReplicaLink) = true
  · rw [if_pos hskip]
    exact .inl ⟨by simpa using hskip, rfl⟩
  rw [if_neg hskip]
  simp only [Bool.or_eq_true, not_or, Bool.not_eq_true] at hskip
  by_cases hres : (d.resumes && c.suspended) = true
  · rw [if_pos hres]
    simp only [Bool.and_eq_true] at hres
    exact .inr (.inl ⟨hskip.1, hskip.2, hres.1, hres.2, _, _, _, rfl, rfl⟩)
  · rw [if_neg hres]
    exact .inr (.inr ⟨hskip.1, hskip.2, by simpa using hres, rfl⟩)

end Connection

namespace Reactor

open Connection

/-! ## Links -/

theorem mem_of_link? {r : Reactor} {id : ConnId} {l : Link} (h : r.link? id = some l) :
    l ∈ r.links :=
  List.mem_of_find?_eq_some h

theorem ne_of_link?_eq_none {r : Reactor} {id : ConnId} (h : r.link? id = none) :
    ∀ l ∈ r.links, l.conn.id ≠ id := by
  intro l hl hid
  have := List.find?_eq_none.1 h l hl
  simp [hid] at this

/-- With distinct ids, the link of an id is the only one carrying it. -/
theorem eq_of_link? {r : Reactor} {id : ConnId} {l : Link}
    (hnd : (r.links.map (·.conn.id)).Nodup) (h : r.link? id = some l) :
    ∀ l' ∈ r.links, l'.conn.id = id → l' = l := by
  intro l' hl' hid
  have hl := mem_of_link? h
  exact List.inj_on_of_nodup_map hnd hl' hl (hid.trans (id_of_link? h).symm)

theorem mem_modifyLink {r : Reactor} {id : ConnId} {f : Link → Link} {L : Link}
    (hL : L ∈ (r.modifyLink id f).links) :
    ∃ l ∈ r.links, (l.conn.id = id ∧ L = f l) ∨ (l.conn.id ≠ id ∧ L = l) := by
  simp only [modifyLink, List.mem_map] at hL
  obtain ⟨l, hl, rfl⟩ := hL
  refine ⟨l, hl, ?_⟩
  by_cases hid : l.conn.id = id
  · exact .inl ⟨hid, by simp [hid]⟩
  · exact .inr ⟨hid, by simp [hid]⟩

theorem ids_modifyLink (r : Reactor) {id : ConnId} {f : Link → Link}
    (hf : ∀ l ∈ r.links, l.conn.id = id → (f l).conn.id = id) :
    (r.modifyLink id f).links.map (·.conn.id) = r.links.map (·.conn.id) := by
  simp only [modifyLink, List.map_map]
  refine List.map_congr_left fun l hl => ?_
  by_cases hid : l.conn.id = id
  · simp [hid, hf l hl hid]
  · simp [hid]

/-- Starting to connect to the master touches only the replication flags. -/
theorem connectToMaster_keeps (r : Reactor) :
    (connectToMaster r).links = r.links ∧ Server.KeepsBlocking r.server (connectToMaster r).server := by
  unfold connectToMaster
  split
  · exact ⟨rfl, .refl _⟩
  · exact ⟨rfl, ⟨rfl, rfl, rfl, rfl, rfl⟩⟩

/-! ## Bytes buffered -/

theorem foldl_add_len (g : Link → Nat) :
    ∀ (L : List Link) (n : Nat), L.foldl (fun n l => n + g l) n = n + (L.map g).sum
  | [], n => by simp
  | l :: L, n => by
    rw [List.foldl_cons, foldl_add_len g L, List.map_cons, List.sum_cons]
    omega

theorem buffered_eq_sum (r : Reactor) : r.buffered = (r.links.map (·.conn.inbound.len)).sum := by
  rw [buffered, foldl_add_len, Nat.zero_add]

/-- Over links of distinct ids, changing the link `l` of an id changes a sum over the links by what
its term gained or lost. -/
theorem sum_map_update (g : Link → Nat) {id : ConnId} {l : Link} (f : Link → Link)
    (hid : l.conn.id = id) :
    ∀ L : List Link, (L.map (·.conn.id)).Nodup → l ∈ L →
      ((L.map fun l' => if l'.conn.id == id then f l' else l').map g).sum + g l =
        (L.map g).sum + g (f l)
  | [], _, hmem => by simp at hmem
  | l₀ :: L, hnd, hmem => by
    obtain ⟨hout, hnd'⟩ := List.nodup_cons.1 hnd
    simp only [List.map_cons, List.sum_cons]
    by_cases h₀ : l₀.conn.id = id
    · -- the link of `id` is the head, and no other link carries `id`
      have hrest : ∀ l' ∈ L, l'.conn.id ≠ id := fun l' hl' hid' =>
        hout (List.mem_map.2 ⟨l', hl', hid'.trans h₀.symm⟩)
      have hl : l = l₀ := by
        rcases List.mem_cons.1 hmem with h | h
        · exact h
        · exact absurd hid (hrest l h)
      have hmap : (L.map fun l' => if l'.conn.id == id then f l' else l').map g = L.map g := by
        rw [List.map_map]
        exact List.map_congr_left fun l' hl' => by simp [hrest l' hl']
      rw [hmap, hl]
      simp only [h₀, beq_self_eq_true, if_true]
      omega
    · have hmem' : l ∈ L := by
        rcases List.mem_cons.1 hmem with rfl | h
        · exact absurd hid h₀
        · exact h
      have ih := sum_map_update g f hid L hnd' hmem'
      simp only [show (l₀.conn.id == id) = false by simpa using h₀, Bool.false_eq_true, if_false]
      omega

/-- Changing the one link of an id changes the bytes buffered by what its buffer gained or lost. -/
theorem buffered_modifyLink {r : Reactor} {id : ConnId} {l : Link} {f : Link → Link} {n : Nat}
    (hnd : (r.links.map (·.conn.id)).Nodup) (hl : r.link? id = some l)
    (hf : ∀ l', l'.conn.id = id → (f l').conn.inbound.len = n) :
    (r.modifyLink id f).buffered + l.conn.inbound.len = r.buffered + n := by
  have hid := id_of_link? hl
  rw [buffered_eq_sum, buffered_eq_sum, ← hf l hid]
  exact sum_map_update (·.conn.inbound.len) f hid r.links hnd (mem_of_link? hl)

/-! ## Rounds of handing replies over -/

/-- One round of the loop: every queued reply is taken, then each is handed to its connection in
turn. -/
def deliverRound (r : Reactor) (now : Instant) : Reactor :=
  r.server.outbox.foldl (handOver · now) { r with server := r.server.takeDeliveries.2 }

theorem deliverWith_succ (now : Instant) (fuel : Nat) (r : Reactor) :
    deliverWith now (fuel + 1) r =
      if r.server.outbox = [] then r else deliverWith now fuel (r.deliverRound now) := by
  simp only [deliverWith, deliverRound, Server.takeDeliveries, List.isEmpty_iff]

theorem deliverWith_of_empty (now : Instant) {r : Reactor} (h : r.server.outbox = []) :
    ∀ fuel, deliverWith now fuel r = r
  | 0 => rfl
  | fuel + 1 => by rw [deliverWith_succ, if_pos h]

end Reactor

/-! ## Where a connection stands -/

namespace Server

/-- Where a connection stands reads the blocked pops only, given the replies counted. -/
theorem Slot.congr {s s' : Server} {c : ConnId} {sus : Bool} {n : Nat} (h : s.Slot c sus n)
    (hw : s'.waiters = s.waiters) : s'.Slot c sus n := by
  simpa only [Slot, NoBlock, OneBlock, hw] using h

/-- Firing a task reads only what counts for blocked pops. -/
theorem KeepsBlocking.fire {s₁ s₂ : Server} (hk : KeepsBlocking s₁ s₂) :
    ∀ t : TimerTask, KeepsBlocking (s₁.fire t) (s₂.fire t)
  | .blockTimeout key id => by
    simp only [Server.fire, Server.expireBlock, hk.waiters]
    split
    · rename_i c w _
      simp only [Server.deliver, Server.isLive, hk.live]
      by_cases hc : s₁.live.contains c = true
      · simp only [hc, if_true]
        exact ⟨rfl, hk.timers, by rw [hk.outbox], rfl, hk.nextConn⟩
      · simp only [hc, Bool.false_eq_true, if_false]
        exact ⟨rfl, hk.timers, hk.outbox, rfl, hk.nextConn⟩
    · exact hk
  | .reconnectMaster => ⟨hk.waiters, hk.timers, hk.outbox, hk.live, hk.nextConn⟩

/-- Registering a reconnect keeps the server tidy: it is no block's timer. -/
theorem Tidy.registerReconnect {s : Server} (hs : s.Tidy) (deadline : Instant)
    (repl : Replication) :
    ({ s with replication := repl, timers := s.timers.registerAt deadline .reconnectMaster } :
      Server).Tidy where
  orderly := by
    refine ⟨hs.orderly.sorted, hs.orderly.below, hs.orderly.unique, fun t ht key id htask => ?_⟩
    rcases (TimerQueue.mem_insert _ t _).1 ht with rfl | ht
    · cases htask
    · exact hs.orderly.timers t ht key id htask
  outbox := hs.outbox
  blocks := hs.blocks

/-- A connection in its slot and not suspended has no block and nothing pending. -/
theorem Slot.idle {s : Server} {c : ConnId} {n : Nat} (h : s.Slot c false n) :
    s.NoBlock c ∧ n = 0 := by
  rcases h with ⟨-, hn, h0⟩ | ⟨h, -⟩ | ⟨h, -⟩
  · exact ⟨hn, h0⟩
  · cases h
  · cases h

/-- A connection in its slot with a reply pending is suspended with no block, and that reply is
the only one. -/
theorem Slot.pending {s : Server} {c : ConnId} {sus : Bool} {n : Nat} (h : s.Slot c sus (n + 1)) :
    sus = true ∧ s.NoBlock c ∧ n = 0 := by
  rcases h with ⟨-, -, h0⟩ | ⟨-, -, h0⟩ | ⟨hs, hn, h1⟩
  · omega
  · omega
  · exact ⟨hs, hn, by omega⟩

/-- A BLPOP from a connection in no transaction, outside a replay, on a key whose list is empty,
parks the connection on the key with the timeout it gives and suspends it. -/
theorem execute_blpop_parks {s : Server} {o : ConnId} (hidle : s.transactions.isActive o = false)
    (hr : s.replaying = false) {key t : String} {timeout : Option Nat}
    (ht : parseBLPop [key, t] = .ok (key, timeout)) (he : s.lists.items key = []) (now : Instant) :
    s.execute now o (Value.command ["BLPOP", key, t]) = (.suspended, s.block now key o timeout) := by
  have hq : ({ origin := o, action := .blpop, args := [key, t] } : Request).toValue =
      Value.command ["BLPOP", key, t] := Request.toValue_of_keyword (by decide +kernel) o [key, t]
  rw [← hq, execute_request hidle (by simp [Command.hasArity, Request.toCommand, Verb.arity])]
  -- the list is empty, so the pop finds nothing and waits
  rcases hl : s.lists.lpop key with ⟨_ | v, l⟩
  · simp only [perform, act, Server.blpop, ht, hl, hr, bind, Except.bind, pure, Except.pure,
      Bool.false_eq_true, if_false]
  · have hv := congrArg Prod.fst hl
    simp [Lists.lpop_fst, he] at hv

/-- BLPOPs with no timeout on a key whose list is empty, applied by a link in no transaction as
the master's writes, park the link once each: nothing answers them, so nothing stops the next.
The blocks join the key's queue in order with consecutive ids; no timer or reply comes of them. -/
theorem replicate_blpops {o : ConnId} {key t : String} (ht : parseBLPop [key, t] = .ok (key, none))
    (now : Instant) : ∀ (n : Nat) (s : Server), s.transactions.isActive o = false →
      s.replaying = false → s.lists.items key = [] →
      (s.replicate o ((List.replicate n (Value.command ["BLPOP", key, t])).map (·, now))).waiters.queue
          key = s.waiters.queue key ++
            (List.range n).map (fun j => { id := s.waiters.nextId + j, conn := o, deadline := none }) ∧
        (s.replicate o ((List.replicate n (Value.command ["BLPOP", key, t])).map (·, now))).timers =
          s.timers ∧
        (s.replicate o ((List.replicate n (Value.command ["BLPOP", key, t])).map (·, now))).outbox =
          s.outbox
  | 0, s, _, _, _ => by simp [replicate]
  | n + 1, s, hidle, hr, he => by
    -- the first parks the link and leaves its transaction, the replay flag and the lists as they were
    obtain ⟨hq, ht', ho⟩ := replicate_blpops ht now n (s.block now key o none) hidle hr he
    simp only [List.replicate_succ, List.map_cons, replicate, execute_blpop_parks hidle hr ht he now]
    refine ⟨?_, ht', ho⟩
    rw [hq, queue_block, if_pos rfl, List.range_succ_eq_map]
    -- the later blocks' ids count on from the first
    simp only [block_waiters_nextId, List.map_cons, List.map_map, List.append_assoc,
      List.singleton_append, Nat.add_zero, Option.bind_none]
    congr 3
    funext j
    simp only [Function.comp_apply, Nat.succ_eq_add_one]
    congr 1
    omega

end Server

namespace Reactor

open Connection

variable {M : List ConnId} {ds ds' : List Delivery} {now : Instant}

/-- Where connection `c` of the loop stands, `M` holding the ids given to links to the master and
`ds` the replies in hand: it is open and its id was given; its id is in `M` exactly when it is a
link to the master; a client not marked to close is in its slot, counting the replies for it in
hand and queued; and a client marked to close that is not waiting has no block. -/
structure Stands (M : List ConnId) (ds : List Delivery) (s : Server) (c : Connection) : Prop where
  live : s.isLive c.id = true
  below : c.id < s.nextConn
  master : c.id ∈ M ↔ c.isReplicaLink = true
  slot : c.isReplicaLink = false → c.wantClose = false →
    s.Slot c.id c.suspended (ds.countP (·.conn = c.id) + s.replies c.id)
  closing : c.isReplicaLink = false → c.wantClose = true → c.suspended = false → s.NoBlock c.id

namespace Stands

variable {s s' : Server} {c c' : Connection}

/-- A client that is not waiting has no block. -/
theorem noBlock (h : Stands M ds s c) (hk : c.isReplicaLink = false)
    (hsus : c.suspended = false) : s.NoBlock c.id := by
  cases hw : c.wantClose
  · exact (Server.Slot.idle (hsus ▸ h.slot hk hw)).1
  · exact h.closing hk hw hsus

theorem alike (h : Stands M ds s c) (ha : Alike c c') : Stands M ds s c' where
  live := ha.id ▸ h.live
  below := ha.id ▸ h.below
  master := by rw [ha.id, ha.isReplicaLink]; exact h.master
  slot hk hw := by
    have hw₀ : c.wantClose = false := by
      cases hc : c.wantClose
      · rfl
      · rw [ha.wantClose hc] at hw
        cases hw
    rw [ha.id, ha.suspended]
    exact h.slot (ha.isReplicaLink ▸ hk) hw₀
  closing hk hw hsus := by
    rw [ha.id]
    exact h.noBlock (ha.isReplicaLink ▸ hk) (ha.suspended ▸ hsus)

/-- Where a connection stands reads the blocked pops, the replies, the next id and whether the
connection is open. -/
theorem congr (h : Stands M ds s c) (hw : s'.waiters = s.waiters) (ho : s'.outbox = s.outbox)
    (hn : s.nextConn ≤ s'.nextConn) (hl : s'.isLive c.id = true) : Stands M ds s' c where
  live := hl
  below := lt_of_lt_of_le h.below hn
  master := h.master
  slot hk hw' := by
    have hr : s'.replies c.id = s.replies c.id := by simp [Server.replies, ho]
    rw [hr]
    exact (h.slot hk hw').congr hw
  closing hk hw' hsus k b hb := h.closing hk hw' hsus k b (hw ▸ hb)

/-- A server that keeps the blocked pops, the replies and the connections keeps every standing. -/
theorem keeps (h : Stands M ds s c) (hk : Server.KeepsBlocking s s') : Stands M ds s' c :=
  h.congr hk.waiters hk.outbox hk.nextConn.ge (by simpa only [Server.isLive, hk.live] using h.live)

/-- Where a connection stands reads of `M` only whether its own id is in it. -/
theorem extend {M' : List ConnId} (h : Stands M ds s c) (hM : c.id ∈ M' ↔ c.id ∈ M) :
    Stands M' ds s c :=
  ⟨h.live, h.below, hM.trans h.master, h.slot, h.closing⟩

/-- Requests of another connection keep where `c` stands, with the replies for `c` in hand
unchanged. -/
theorem runs (h : Stands M ds s c) {o : ConnId} (hr : s.RunsFor o s') (ho : c.id ≠ o)
    (hds : ds'.countP (·.conn = c.id) = ds.countP (·.conn = c.id)) : Stands M ds' s' c where
  live := by simpa only [Server.isLive, hr.live] using h.live
  below := hr.nextConn ▸ h.below
  master := h.master
  slot hk hw := hds ▸ (hr.passes c.id ho h.live).slot _ _ (h.slot hk hw)
  closing hk hw hsus := fun k b hb hbc =>
    h.closing hk hw hsus k b (hr.shrinks c.id ho k b hb hbc) hbc

/-- Dropping a reply in hand keeps where `c` stands, when the reply is not for `c` or `c` is no
client in its slot. -/
theorem drop {d : Delivery} (h : Stands M (d :: ds) s c)
    (hd : c.id = d.conn → c.isReplicaLink = true ∨ c.wantClose = true) : Stands M ds s c where
  live := h.live
  below := h.below
  master := h.master
  slot hk hw := by
    have hne : d.conn ≠ c.id := fun he => by
      rcases hd he.symm with h' | h' <;> simp_all
    simpa [List.countP_cons, hne] using h.slot hk hw
  closing := h.closing

/-- Processing its own frames keeps where a connection stands. -/
theorem process {fuel : Nat} {e : Option ConnectionError} (h : Stands M ds s c) (hs : s.Tidy)
    (hp : processWith now fuel c s = (e, c', s')) : Stands M ds s' c' := by
  have hP := processWith_processed fuel hp hs h.below
  refine ⟨?_, ?_, ?_, fun hk hw => ?_, fun hk hw hsus => ?_⟩
  · simpa only [Server.isLive, hP.id, hP.runs.live] using h.live
  · rw [hP.id, hP.runs.nextConn]
    exact h.below
  · rw [hP.id, hP.isReplicaLink]
    exact h.master
  all_goals
    rw [hP.isReplicaLink] at hk
    rw [hP.wantClose] at hw
    rw [hP.id]
  · by_cases hsus : c.suspended = true
    · rw [processWith_suspended fuel s hsus, Prod.mk.injEq, Prod.mk.injEq] at hp
      obtain ⟨-, rfl, rfl⟩ := hp
      exact h.slot hk hw
    -- not waiting: nothing is pending for it, and processing leaves it in its slot
    have hsus' : c.suspended = false := by simpa using hsus
    obtain ⟨hn, h0⟩ := Server.Slot.idle (hsus' ▸ h.slot hk hw)
    obtain ⟨hown, hrep⟩ := processWith_own fuel hp hk hsus' hs h.below hn
    rw [hrep]
    rcases hown with ⟨hs', ho⟩ | ⟨hs', hn'⟩
    · exact .inr (.inl ⟨hs', ho, h0⟩)
    · exact .inl ⟨hs', hn', h0⟩
  · by_cases hsus₀ : c.suspended = true
    · rw [processWith_suspended fuel s hsus₀, Prod.mk.injEq, Prod.mk.injEq] at hp
      obtain ⟨-, rfl, rfl⟩ := hp
      exact h.closing hk hw hsus
    have hsus' : c.suspended = false := by simpa using hsus₀
    obtain ⟨hown, -⟩ := processWith_own fuel hp hk hsus' hs h.below (h.noBlock hk hsus')
    rcases hown with ⟨hs', -⟩ | ⟨-, hn'⟩
    · rw [hs'] at hsus
      cases hsus
    · exact hn'

end Stands

/-- Processing a connection's frames leaves no other connection outside `M` two blocks, and the
connection itself, if outside `M`, at most one. -/
theorem atMostOne_process {s s' : Server} {c c' : Connection} {fuel : Nat}
    {e : Option ConnectionError} (h : Stands M ds s c) (hs : s.Tidy)
    (hone : ∀ x, x ∉ M → s.AtMostOneBlock x) (hp : processWith now fuel c s = (e, c', s')) :
    ∀ x, x ∉ M → s'.AtMostOneBlock x := by
  have hP := processWith_processed fuel hp hs h.below
  intro x hx
  by_cases hxc : x = c.id
  · subst hxc
    have hk : c.isReplicaLink = false := by simpa using mt h.master.2 hx
    by_cases hsus : c.suspended = true
    · rw [processWith_suspended fuel s hsus, Prod.mk.injEq, Prod.mk.injEq] at hp
      obtain ⟨-, -, rfl⟩ := hp
      exact hone c.id hx
    obtain ⟨hown, -⟩ := processWith_own fuel hp hk (by simpa using hsus) hs h.below
      (h.noBlock hk (by simpa using hsus))
    rcases hown with ⟨-, ho⟩ | ⟨-, hn⟩
    · exact ho.atMostOne
    · exact hn.atMostOne
  · intro k₁ k₂ b₁ b₂ h₁ h₂ hc₁ hc₂
    exact hone x hx k₁ k₂ b₁ b₂ (hP.runs.shrinks x hxc k₁ b₁ h₁ hc₁)
      (hP.runs.shrinks x hxc k₂ b₂ h₂ hc₂) hc₁ hc₂

/-! ## The invariant of the loop -/

/-- The invariant of the loop, `M` holding the ids given to links to the master and `ds` the
replies in hand: the server is tidy, every reply in hand resumes its connection, the links carry
distinct ids, every id of `M` was given, no connection outside `M` has two blocks, and every link
stands where it should. -/
structure Standing (M : List ConnId) (ds : List Delivery) (r : Reactor) : Prop where
  tidy : r.server.Tidy
  inHand : ∀ d ∈ ds, d.resumes = true
  nodup : (r.links.map (·.conn.id)).Nodup
  masters : ∀ m ∈ M, m < r.server.nextConn
  atMostOne : ∀ c, c ∉ M → r.server.AtMostOneBlock c
  links : ∀ l ∈ r.links, Stands M ds r.server l.conn

namespace Standing

variable {r r' : Reactor}

/-- The invariant reads the links and, of the server, what counts for blocked pops. -/
theorem congr (hs : Standing M ds r) (hl : r'.links = r.links)
    (hk : Server.KeepsBlocking r.server r'.server) : Standing M ds r' where
  tidy := hs.tidy.of_keeps hk
  inHand := hs.inHand
  nodup := hl ▸ hs.nodup
  masters m hm := hk.nextConn ▸ hs.masters m hm
  atMostOne c hc k₁ k₂ b₁ b₂ h₁ h₂ :=
    hs.atMostOne c hc k₁ k₂ b₁ b₂ (hk.waiters ▸ h₁) (hk.waiters ▸ h₂)
  links l hl' := (hs.links l (hl ▸ hl')).keeps hk

/-- Changing links of one id, each into one that stands alike, keeps the invariant. -/
theorem modifyLink (hs : Standing M ds r) {id : ConnId} {f : Link → Link}
    (hf : ∀ l ∈ r.links, l.conn.id = id → Alike l.conn (f l).conn) :
    Standing M ds (r.modifyLink id f) where
  tidy := hs.tidy
  inHand := hs.inHand
  nodup := by
    rw [ids_modifyLink r fun l hl hid => (hf l hl hid).id.trans hid]
    exact hs.nodup
  masters := hs.masters
  atMostOne := hs.atMostOne
  links L hL := by
    obtain ⟨l, hl, ⟨hid, rfl⟩ | ⟨-, hL'⟩⟩ := mem_modifyLink hL
    · exact (hs.links l hl).alike (hf l hl hid)
    · exact hL' ▸ hs.links l hl

/-- Putting connection `c` into the links of its id, with a new server and new replies in hand,
keeps the invariant when the new server is tidy with the same next id, leaves no connection
outside `M` two blocks, and every link, the new one and the others, stands. -/
theorem setLink (hs : Standing M ds r) {id : ConnId} {f : Link → Link} {c : Connection}
    (hf : ∀ l, (f l).conn = c) (hc : c.id = id) {s' : Server} (htidy : s'.Tidy)
    (hin : ∀ d ∈ ds', d.resumes = true) (hnext : s'.nextConn = r.server.nextConn)
    (hone : ∀ x, x ∉ M → s'.AtMostOneBlock x) (hown : Stands M ds' s' c)
    (hother : ∀ l ∈ r.links, l.conn.id ≠ id → Stands M ds' s' l.conn) :
    Standing M ds' { r.modifyLink id f with server := s' } where
  tidy := htidy
  inHand := hin
  nodup := by
    show ((r.modifyLink id f).links.map (·.conn.id)).Nodup
    rw [ids_modifyLink r fun l _ hid => by rw [hf l, hc]]
    exact hs.nodup
  masters m hm := hnext ▸ hs.masters m hm
  atMostOne := hone
  links L hL := by
    obtain ⟨l, hl, ⟨-, rfl⟩ | ⟨hid, hL'⟩⟩ := mem_modifyLink hL
    · exact hf l ▸ hown
    · exact hL' ▸ hother l hl hid

/-- A reply in hand may be dropped when no client in its slot carries its connection's id. -/
theorem drop {d : Delivery} (hs : Standing M (d :: ds) r)
    (hd : ∀ l ∈ r.links, l.conn.id = d.conn →
      l.conn.isReplicaLink = true ∨ l.conn.wantClose = true) : Standing M ds r where
  tidy := hs.tidy
  inHand d' hd' := hs.inHand d' (List.mem_cons_of_mem d hd')
  nodup := hs.nodup
  masters := hs.masters
  atMostOne := hs.atMostOne
  links l hl := (hs.links l hl).drop (hd l hl)

/-- Processing the frames of the link of `id`, from a connection `c₀` that stands with the
replies `ds'` in hand, and putting back a connection alike to the one processing left, keeps
the invariant. -/
theorem processLink (hs : Standing M ds r) {id : ConnId} {c₀ c₁ c₂ : Connection} {s' : Server}
    {fuel : Nat} {e : Option ConnectionError} (h₀ : Stands M ds' r.server c₀) (hid : c₀.id = id)
    (hin : ∀ d ∈ ds', d.resumes = true)
    (hds : ∀ l ∈ r.links, l.conn.id ≠ id →
      ds'.countP (·.conn = l.conn.id) = ds.countP (·.conn = l.conn.id))
    (hp : processWith now fuel c₀ r.server = (e, c₁, s')) (ha : Alike c₁ c₂) {f : Link → Link}
    (hf : ∀ l, (f l).conn = c₂) :
    Standing M ds' { r.modifyLink id f with server := s' } := by
  have hP := processWith_processed fuel hp hs.tidy h₀.below
  refine hs.setLink hf (ha.id.trans (hP.id.trans hid)) hP.runs.tidy hin hP.runs.nextConn
    (atMostOne_process h₀ hs.tidy hs.atMostOne hp) ((h₀.process hs.tidy hp).alike ha)
    fun l hl hne => (hs.links l hl).runs hP.runs (hid ▸ hne) (hds l hl hne)

/-! ### Handing deferred replies over -/

/-- Resuming the link of a reply's connection, from a connection `c₀` that stands with the other
replies in hand, keeps the invariant, and the link's buffer loses what processing took. -/
theorem resumeLink {d : Delivery} (hs : Standing M (d :: ds) r) {l : Link}
    (hl : r.link? d.conn = some l) {c₀ c₁ c₂ : Connection} {s' : Server} {fuel : Nat}
    {e : Option ConnectionError} (h₀ : Stands M ds r.server c₀) (hid : c₀.id = d.conn)
    (hin : c₀.inbound = l.conn.inbound) (hp : processWith now fuel c₀ r.server = (e, c₁, s'))
    (ha : Alike c₁ c₂) (hin₂ : c₂.inbound = c₁.inbound) :
    Standing M ds { r.modifyLink d.conn (fun l' => { l' with conn := c₂ }) with server := s' } ∧
      (r.modifyLink d.conn (fun l' => { l' with conn := c₂ })).buffered ≤ r.buffered ∧
      ((r.modifyLink d.conn (fun l' => { l' with conn := c₂ })).buffered < r.buffered ∨
        s' = r.server) := by
  have hP := processWith_processed fuel hp hs.tidy h₀.below
  refine ⟨hs.processLink h₀ hid (fun d' hd' => hs.inHand d' (List.mem_cons_of_mem d hd'))
    (fun l' _ hne => by simp [Ne.symm hne]) hp ha fun _ => rfl, ?_⟩
  have hb := buffered_modifyLink (f := fun l' => { l' with conn := c₂ }) (n := c₂.inbound.len)
    hs.nodup hl fun _ _ => rfl
  have hle := hP.len_le
  rw [hin] at hle
  rw [← hin₂] at hle
  refine ⟨by omega, ?_⟩
  rcases hP.progress with hlt | hsame
  · rw [hin, ← hin₂] at hlt
    exact .inl (by omega)
  · exact .inr hsame

/-- Step lemma for the replies in hand: handing the first one over keeps the invariant and buffers
no more bytes, and strictly fewer unless the server is left as it was. The reply finds a client
in its slot waiting for it, as that slot counts it. -/
theorem handOver (now : Instant) {d : Delivery} (hs : Standing M (d :: ds) r) :
    Standing M ds (r.handOver now d) ∧ (r.handOver now d).buffered ≤ r.buffered ∧
      ((r.handOver now d).buffered < r.buffered ∨ (r.handOver now d).server = r.server) := by
  unfold Reactor.handOver
  rcases hl : r.link? d.conn with _ | l
  · -- no link of that id: the reply is dropped
    exact ⟨hs.drop fun l' hl' hid => absurd hid (ne_of_link?_eq_none hl l' hl'), le_rfl, .inr rfl⟩
  dsimp only
  have hmem := mem_of_link? hl
  have hid := id_of_link? hl
  have hst := hs.links l hmem
  rcases Connection.handOver_cases l.conn d r.server now with
    ⟨hskip, heq⟩ | ⟨hw, hk, hres, hsus, e, c₁, s', hp, heq⟩ | ⟨hw, hk, hres, -⟩
  · -- skipped: nothing changes
    rw [heq]
    dsimp only
    refine ⟨hs.setLink (f := fun l' => { l' with conn := l.conn }) (fun _ => rfl) hid hs.tidy
      (fun d' hd' => hs.inHand d' (List.mem_cons_of_mem d hd')) rfl hs.atMostOne
      (hst.drop fun _ => hskip.symm) fun l' hl' hne =>
        (hs.links l' hl').drop fun h => absurd h hne, ?_⟩
    have hb := buffered_modifyLink (f := fun l' => { l' with conn := l.conn })
      (n := l.conn.inbound.len) hs.nodup hl fun _ _ => rfl
    exact ⟨by simp only [buffered_eq_sum] at hb ⊢; omega, .inr rfl⟩
  · -- the client waits for this very reply: it resumes with nothing else pending
    have hpend := hst.slot hk hw
    rw [List.countP_cons, if_pos (by simp [hid]), Nat.add_right_comm] at hpend
    obtain ⟨-, hn, h0⟩ := Server.Slot.pending hpend
    have h₀ : Stands M ds r.server { l.conn.send d.reply with suspended := false } :=
      ⟨hst.live, hst.below, hst.master, fun _ _ => .inl ⟨rfl, hn, h0⟩, fun _ _ _ => hn⟩
    rw [heq]
    rcases e with _ | e
    all_goals
      dsimp only
      simp only [buffered_eq_sum]
    · have h := hs.resumeLink hl h₀ hid rfl hp (Alike.refl c₁) rfl
      simp only [buffered_eq_sum] at h
      exact h
    · have h := hs.resumeLink hl h₀ hid rfl hp (alike_close c₁) rfl
      simp only [buffered_eq_sum] at h
      exact h
  · -- a client in its slot that is not waiting has no reply pending
    have hsus : l.conn.suspended = false := by simpa [hs.inHand d List.mem_cons_self] using hres
    have h0 := (Server.Slot.idle (hsus ▸ hst.slot hk hw)).2
    rw [List.countP_cons, if_pos (by simp [hid])] at h0
    omega

/-- Handing every reply in hand over keeps the invariant and buffers no more bytes, and strictly
fewer unless the server is left as it was. -/
theorem handOverAll (now : Instant) : ∀ (ds : List Delivery) (r : Reactor), Standing M ds r →
    Standing M [] (ds.foldl (Reactor.handOver · now) r) ∧
      (ds.foldl (Reactor.handOver · now) r).buffered ≤ r.buffered ∧
      ((ds.foldl (Reactor.handOver · now) r).buffered < r.buffered ∨
        (ds.foldl (Reactor.handOver · now) r).server = r.server)
  | [], r, hs => ⟨hs, le_rfl, .inr rfl⟩
  | d :: ds, r, hs => by
    obtain ⟨hs₁, hle₁, hlt₁⟩ := hs.handOver now
    obtain ⟨hs₂, hle₂, hlt₂⟩ := handOverAll now ds _ hs₁
    exact ⟨hs₂, hle₂.trans hle₁, lt_or_eq_trans hle₁ hlt₁ hle₂ hlt₂⟩

/-- Taking the queued replies in hand keeps the invariant: each is counted in hand instead. -/
theorem take (hs : Standing M [] r) :
    Standing M r.server.outbox { r with server := r.server.takeDeliveries.2 } where
  tidy := ⟨hs.tidy.orderly.congr rfl rfl, by simp [Server.takeDeliveries], hs.tidy.blocks⟩
  inHand d hd := (hs.tidy.outbox d hd).1
  nodup := hs.nodup
  masters := hs.masters
  atMostOne := hs.atMostOne
  links l hl := by
    have hst := hs.links l hl
    refine ⟨hst.live, hst.below, hst.master, fun hk hw => ?_, hst.closing⟩
    -- the replies queued for the link are now in hand
    have hn : r.server.outbox.countP (·.conn = l.conn.id) +
        r.server.takeDeliveries.2.replies l.conn.id =
        ([] : List Delivery).countP (·.conn = l.conn.id) + r.server.replies l.conn.id := by
      simp [Server.replies, Server.takeDeliveries]
    rw [hn]
    exact (hst.slot hk hw).congr rfl

/-- Run lemma for the rounds of handing over: with fuel beyond the bytes buffered, every round
after the first takes a byte, so the rounds end with no reply left. -/
theorem deliverWith (now : Instant) : ∀ (fuel : Nat) (r : Reactor), Standing M [] r →
    (r.server.outbox = [] ∨ r.buffered + 1 < fuel) →
    Standing M [] (Reactor.deliverWith now fuel r) ∧
      (Reactor.deliverWith now fuel r).server.outbox = []
  | 0, r, hs, h => ⟨hs, by simpa [Reactor.deliverWith] using h⟩
  | fuel + 1, r, hs, h => by
    rw [Reactor.deliverWith_succ]
    by_cases he : r.server.outbox = []
    · rw [if_pos he]
      exact ⟨hs, he⟩
    rw [if_neg he]
    obtain ⟨hs', hle, hlt⟩ := handOverAll now _ _ hs.take
    refine deliverWith now fuel _ hs' ?_
    rw [Reactor.deliverRound]
    have hbuf : r.buffered + 1 < fuel + 1 := h.resolve_left he
    have hb0 : ({ r with server := r.server.takeDeliveries.2 } : Reactor).buffered = r.buffered :=
      rfl
    rcases hlt with hlt | hsame
    · exact .inr (by omega)
    · exact .inl (by rw [hsame]; rfl)

/-- Handing out the deferred replies keeps the invariant and leaves none queued. -/
theorem deliverDeferred (now : Instant) (hs : Standing M [] r) :
    Standing M [] (r.deliverDeferred now) ∧ (r.deliverDeferred now).server.outbox = [] :=
  hs.deliverWith now _ _ (.inr (by omega))

/-! ### The other phases of a turn -/

/-- A step of the server that runs no connection's requests, with the links left as they were,
keeps the invariant. -/
theorem runsAll (hs : Standing M ds r) (hr : ∀ o, r.server.RunsFor o r'.server)
    (hl : r'.links = r.links) : Standing M ds r' where
  tidy := (hr 0).tidy
  inHand := hs.inHand
  nodup := hl ▸ hs.nodup
  masters m hm := (hr 0).nextConn ▸ hs.masters m hm
  atMostOne c hc k₁ k₂ b₁ b₂ h₁ h₂ hc₁ hc₂ :=
    hs.atMostOne c hc k₁ k₂ b₁ b₂ ((hr (c + 1)).shrinks c (Nat.succ_ne_self c).symm k₁ b₁ h₁ hc₁)
      ((hr (c + 1)).shrinks c (Nat.succ_ne_self c).symm k₂ b₂ h₂ hc₂) hc₁ hc₂
  links l hl' :=
    (hs.links l (hl ▸ hl')).runs (hr (l.conn.id + 1)) (Nat.succ_ne_self l.conn.id).symm rfl

theorem markClose (hs : Standing M ds r) (id : ConnId) : Standing M ds (r.markClose id) :=
  hs.modifyLink fun l _ _ => alike_close l.conn

/-- Writing to a link keeps the invariant, whether the socket takes the bytes or fails. -/
theorem flushLink (hs : Standing M ds r) (id : ConnId) : Standing M ds (r.flushLink id) := by
  unfold Reactor.flushLink
  rcases hl : r.link? id with _ | l
  · exact hs
  dsimp only
  split
  · rename_i c outgoing hf
    exact hs.modifyLink fun l' hl' hid => eq_of_link? hs.nodup hl l' hl' hid ▸ flush_alike hf
  · exact hs.markClose id

/-- A fold of steps that each keep the invariant and the replies queued keeps both. -/
theorem foldl {α : Type} (g : Reactor → α → Reactor)
    (hg : ∀ r a, Standing M ds r → Standing M ds (g r a) ∧ (g r a).server.outbox = r.server.outbox) :
    ∀ (L : List α) (r : Reactor), Standing M ds r →
      Standing M ds (L.foldl g r) ∧ (L.foldl g r).server.outbox = r.server.outbox
  | [], _, hs => ⟨hs, rfl⟩
  | a :: L, r, hs => by
    obtain ⟨hs₁, ho₁⟩ := hg r a hs
    obtain ⟨hs₂, ho₂⟩ := foldl g hg L _ hs₁
    exact ⟨hs₂, ho₂.trans ho₁⟩

theorem flushAll (hs : Standing M ds r) :
    Standing M ds r.flushAll ∧ r.flushAll.server.outbox = r.server.outbox := by
  unfold Reactor.flushAll
  refine foldl _ (fun r' l hs' => ?_) _ _ hs
  split
  · exact ⟨hs'.flushLink _, by rw [(flushLink_stream r' l.conn.id 0).2]⟩
  · exact ⟨hs', rfl⟩

theorem fanOut (hs : Standing M ds r) :
    Standing M ds r.fanOut ∧ r.fanOut.server.outbox = r.server.outbox := by
  unfold Reactor.fanOut
  split
  · exact ⟨hs, rfl⟩
  rw [show r.server.replication.drain =
    (r.server.replication.drain.1, r.server.replication.drain.2) from rfl]
  dsimp only
  have hs₀ : Standing M ds
      { r with server := { r.server with replication := r.server.replication.drain.2 } } :=
    hs.congr rfl ⟨rfl, rfl, rfl, rfl, rfl⟩
  refine foldl _ (fun r' id hs' => ?_) _ _ hs₀
  split
  · exact ⟨hs', rfl⟩
  · have hsend : Standing M ds (r'.modifyLink id fun l =>
        { l with conn := r.server.replication.drain.1.foldl send l.conn }) :=
      hs'.modifyLink fun l _ _ => alike_foldl_send l.conn _
    exact ⟨hsend.flushLink id, by rw [(flushLink_stream _ id 0).2]; rfl⟩

/-- Closing the links of one id, with a server that forgets only that connection, keeps the
invariant. -/
theorem close (hs : Standing M ds r) (id : ConnId) {s' : Server}
    (hw : s'.waiters = r.server.waiters) (ht : s'.timers = r.server.timers)
    (ho : s'.outbox = r.server.outbox) (hn : s'.nextConn = r.server.nextConn)
    (hlive : ∀ c, c ≠ id → s'.isLive c = r.server.isLive c) :
    Standing M ds { r with server := s', links := r.links.filter (·.conn.id != id) } where
  tidy := hs.tidy.congr hw ht ho hn
  inHand := hs.inHand
  nodup := hs.nodup.sublist ((List.filter_sublist).map _)
  masters m hm := hn ▸ hs.masters m hm
  atMostOne c hc k₁ k₂ b₁ b₂ h₁ h₂ := hs.atMostOne c hc k₁ k₂ b₁ b₂ (hw ▸ h₁) (hw ▸ h₂)
  links l hl := by
    obtain ⟨hl, hne⟩ := List.mem_filter.1 hl
    have hne' : l.conn.id ≠ id := by simpa using hne
    have hst := hs.links l hl
    exact hst.congr hw ho hn.ge (by rw [hlive _ hne']; exact hst.live)

/-- Run lemma for closing: steps that each keep the invariant and the replies queued, and each
remove the links of the id of a link marked to close, leave no link carrying such an id. -/
theorem foldl_close {g : Reactor → Link → Reactor}
    (hg : ∀ r l, Standing M ds r → Standing M ds (g r l) ∧ (g r l).server.outbox = r.server.outbox ∧
      ∀ l' ∈ (g r l).links, l' ∈ r.links ∧ (l.conn.wantClose = true → l'.conn.id ≠ l.conn.id)) :
    ∀ (L : List Link) (r : Reactor), Standing M ds r →
      Standing M ds (L.foldl g r) ∧ (L.foldl g r).server.outbox = r.server.outbox ∧
        ∀ l' ∈ (L.foldl g r).links, l' ∈ r.links ∧
          ∀ l ∈ L, l.conn.wantClose = true → l'.conn.id ≠ l.conn.id
  | [], _, hs => ⟨hs, rfl, fun l' hl' => ⟨hl', by simp⟩⟩
  | l :: L, r, hs => by
    obtain ⟨hs₁, ho₁, hl₁⟩ := hg r l hs
    obtain ⟨hs₂, ho₂, hl₂⟩ := foldl_close hg L _ hs₁
    refine ⟨hs₂, ho₂.trans ho₁, fun l' hl' => ?_⟩
    obtain ⟨hl'₁, hne⟩ := hl₂ l' hl'
    obtain ⟨hl'₀, hne₀⟩ := hl₁ l' hl'₁
    refine ⟨hl'₀, fun l₀ hl₀ hw => ?_⟩
    rcases List.mem_cons.1 hl₀ with rfl | hl₀
    · exact hne₀ hw
    · exact hne l₀ hl₀ hw

/-- Closing the links marked to close keeps the invariant and the replies queued, and leaves no
link marked to close. -/
theorem closeFinished (hs : Standing M ds r) :
    Standing M ds r.closeFinished ∧ r.closeFinished.server.outbox = r.server.outbox ∧
      ∀ l ∈ r.closeFinished.links, l.conn.wantClose = false := by
  -- a link that is left had its own id closed if it was marked
  have hleft : ∀ {g : Reactor → Link → Reactor},
      (∀ r l, Standing M ds r → Standing M ds (g r l) ∧ (g r l).server.outbox = r.server.outbox ∧
        ∀ l' ∈ (g r l).links, l' ∈ r.links ∧ (l.conn.wantClose = true → l'.conn.id ≠ l.conn.id)) →
      Standing M ds (r.links.foldl g r) ∧ (r.links.foldl g r).server.outbox = r.server.outbox ∧
        ∀ l ∈ (r.links.foldl g r).links, l.conn.wantClose = false := by
    intro g hg
    obtain ⟨hs', ho', hl'⟩ := foldl_close hg r.links r hs
    refine ⟨hs', ho', fun l hl => ?_⟩
    obtain ⟨hl₀, hne⟩ := hl' l hl
    cases hw : l.conn.wantClose
    · rfl
    · exact absurd rfl (hne l hl₀ hw)
  unfold Reactor.closeFinished
  refine hleft fun r' l hs' => ?_
  dsimp only
  split
  · exact ⟨hs', rfl, fun l' hl' => ⟨hl', by simp_all⟩⟩
  · -- closing `l`: the server forgets it, and notes the master down if it was the link to it
    have hlive : ∀ c, c ≠ l.conn.id →
        (r'.server.connectionClosed l.conn.id).isLive c = r'.server.isLive c := by
      intro c hc
      simp [Server.isLive, Server.connectionClosed, Std.HashSet.contains_erase, Ne.symm hc]
    refine ⟨?_, by split <;> rfl, fun l' hl' => ?_⟩
    · split
      · exact hs'.close l.conn.id rfl rfl rfl rfl hlive
      · exact hs'.close l.conn.id rfl rfl rfl rfl hlive
    · obtain ⟨hl'', hne⟩ := List.mem_filter.1 hl'
      exact ⟨hl'', fun _ => by simpa using hne⟩

/-- Firing the due timers keeps the invariant: a block's timeout answers it as a push would, and
a reconnect touches no block. -/
theorem runTimers (now : Instant) (hs : Standing M ds r) : Standing M ds (r.runTimers now) := by
  -- the loop fires the tasks as the server does, up to the replication flags
  have hfold : ∀ {g : Reactor → TimerTask → Reactor},
      (∀ r t, (g r t).links = r.links ∧ Server.KeepsBlocking (r.server.fire t) (g r t).server) →
      ∀ (tasks : List TimerTask) (r : Reactor) (s : Server), Server.KeepsBlocking s r.server →
        (tasks.foldl g r).links = r.links ∧
          Server.KeepsBlocking (tasks.foldl Server.fire s) (tasks.foldl g r).server := by
    intro g hg tasks
    induction tasks with
    | nil => exact fun r s hk => ⟨rfl, hk⟩
    | cons t ts ih =>
      intro r s hk
      obtain ⟨hl, hk'⟩ := hg r t
      obtain ⟨hl', hk''⟩ := ih (g r t) (s.fire t) ((hk.fire t).trans hk')
      exact ⟨hl'.trans hl, hk''⟩
  have hk : (r.runTimers now).links = r.links ∧
      Server.KeepsBlocking (r.server.runTimers now).2 (r.runTimers now).server := by
    unfold Reactor.runTimers Server.runTimers
    rw [show r.server.dueTimers now = ((r.server.dueTimers now).1, (r.server.dueTimers now).2)
      from rfl]
    refine hfold (fun r' t => ?_) _ _ _ (.refl _)
    cases t with
    | blockTimeout key id => exact ⟨rfl, .refl _⟩
    | reconnectMaster => exact connectToMaster_keeps _
  exact hs.runsAll (fun o => (Server.runTimers_runsFor hs.tidy now o).keeps hk.2) hk.1

/-- Scheduling a reconnect keeps the invariant, the replies queued and the links. -/
theorem scheduleReconnect (now : Instant) (hs : Standing M ds r) :
    Standing M ds (r.scheduleReconnect now) ∧
      (r.scheduleReconnect now).server.outbox = r.server.outbox ∧
      (r.scheduleReconnect now).links = r.links := by
  unfold Reactor.scheduleReconnect
  split
  · exact ⟨hs, rfl, rfl⟩
  refine ⟨⟨hs.tidy.registerReconnect _ _, hs.inHand, hs.nodup, hs.masters, hs.atMostOne,
    fun l hl => (hs.links l hl).congr rfl rfl le_rfl (hs.links l hl).live⟩, rfl, rfl⟩

/-! ### Events -/

/-- Opening a link to a new connection with the next id, not waiting and not marked to close,
keeps the invariant; its id joins `M` if the link is to the master. -/
theorem addLink (hs : Standing M [] r) {c : Connection} (hc : c.id = r.server.nextConn)
    (hsus : c.suspended = false) (hw : c.wantClose = false) (sock : Socket) (r₁ : Reactor)
    (hr : r₁.server = r.server.connectionOpened.2)
    (hl : r₁.links = r.links ++ [{ conn := c, sock }]) :
    Standing (M ++ if c.isReplicaLink then [c.id] else []) [] r₁ := by
  have hbelow : ∀ l ∈ r.links, l.conn.id < r.server.nextConn := fun l hl => (hs.links l hl).below
  have hfresh : c.id ∉ M := fun hm => Nat.lt_irrefl _ (hc ▸ hs.masters _ hm)
  have hM : ∀ x, x ≠ c.id → (x ∈ M ++ (if c.isReplicaLink then [c.id] else []) ↔ x ∈ M) := by
    intro x hx
    split <;> simp [hx]
  -- the new id names no block and no reply
  have hnb : r.server.NoBlock c.id := fun k b hb hbc => by
    have := hs.tidy.blocks k b hb
    rw [hbc, hc] at this
    exact Nat.lt_irrefl _ this
  have hrep : r.server.replies c.id = 0 := List.countP_eq_zero.2 fun d hd hdc => by
    have := (hs.tidy.outbox d hd).2
    simp only [decide_eq_true_eq] at hdc
    rw [hdc, hc] at this
    exact Nat.lt_irrefl _ this
  have hopened : r.server.nextConn ≤ r₁.server.nextConn := by
    rw [hr]
    exact Nat.le_succ _
  have hlive : ∀ x, r₁.server.isLive x = (r.server.nextConn == x || r.server.isLive x) := by
    intro x
    simp [hr, Server.connectionOpened, Server.isLive, Std.HashSet.contains_insert]
  refine ⟨?_, by simp, ?_, fun m hm => ?_, fun x hx => ?_, fun L hL => ?_⟩
  · rw [hr]
    refine ⟨hs.tidy.orderly.congr rfl rfl, fun d hd => ?_, fun k b hb => ?_⟩
    · obtain ⟨hres, hlt⟩ := hs.tidy.outbox d hd
      exact ⟨hres, Nat.lt_succ_of_lt hlt⟩
    · exact Nat.lt_succ_of_lt (hs.tidy.blocks k b hb)
  · rw [hl, List.map_append, List.nodup_append]
    refine ⟨hs.nodup, by simp, ?_⟩
    simp only [List.map_cons, List.map_nil, List.mem_singleton, List.mem_map]
    rintro _ ⟨l, hl, rfl⟩ _ rfl hid
    have := hbelow l hl
    rw [hid, hc] at this
    exact Nat.lt_irrefl _ this
  · rcases List.mem_append.1 hm with hm | hm
    · exact lt_of_lt_of_le (hs.masters m hm) hopened
    · have hm' : m = c.id := by split at hm <;> simp_all
      rw [hm', hc, hr]
      exact Nat.lt_succ_self _
  · rw [hr]
    exact hs.atMostOne x fun hm => hx (List.mem_append_left _ hm)
  · rw [hl] at hL
    rcases List.mem_append.1 hL with hL | hL
    · -- a link that was there stands as it did
      have hst := hs.links L hL
      have hne : L.conn.id ≠ c.id := by
        rw [hc]
        exact Nat.ne_of_lt (hbelow L hL)
      refine (hst.congr (by rw [hr]; rfl) (by rw [hr]; rfl) hopened ?_).extend (hM _ hne)
      rw [hlive, hst.live, Bool.or_true]
    · -- the new link: open, with no block and nothing pending
      obtain rfl := List.mem_singleton.1 hL
      refine ⟨by rw [hlive, hc]; simp, hc ▸ lt_of_lt_of_le (Nat.lt_succ_self _) (by rw [hr]; rfl),
        ?_, fun _ _ => .inl ⟨hsus, ?_, ?_⟩, fun _ hw' => absurd hw' (by simp [hw])⟩
      · cases hk : c.isReplicaLink <;> simp [hfresh]
      · rw [hr]
        exact hnb
      · simpa [hr, Server.connectionOpened, Server.replies] using hrep

end Standing

/-- The ids that event `e` gives to a new link to the master. -/
def masterIdOf (r : Reactor) : Event → List ConnId
  | .masterConnected (some _) => [r.server.nextConn]
  | _ => []

/-- The ids that the events of a turn give to new links to the master, in order. -/
def masterIds (r : Reactor) (now : Instant) : List Event → List ConnId
  | [] => []
  | e :: es => r.masterIdOf e ++ (r.handle now e).masterIds now es

namespace Standing

variable {r : Reactor}

/-- Step lemma for events: each keeps the invariant, a link to the master it opens adding its id
to `M`. -/
theorem handle (now : Instant) (hs : Standing M [] r) :
    ∀ e : Event, Standing (M ++ r.masterIdOf e) [] (r.handle now e)
  | .accepted peer => by
    have h := hs.addLink (c := Connection.new r.server.nextConn peer) rfl rfl rfl {}
      (r.handle now (.accepted peer)) rfl rfl
    simpa [masterIdOf, Connection.new, isReplicaLink] using h
  | .acceptFailed => by
    simp only [masterIdOf, List.append_nil]
    exact hs.congr rfl (.refl _)
  | .masterConnected none => by
    simp only [masterIdOf, List.append_nil]
    exact hs.congr rfl ⟨rfl, rfl, rfl, rfl, rfl⟩
  | .masterConnected (some peer) => by
    have h := hs.addLink
      (c := Connection.replicaLink r.server.nextConn peer r.server.connectionOpened.2.port)
      rfl rfl rfl {} (r.handle now (.masterConnected (some peer))) rfl rfl
    simpa [masterIdOf, Connection.replicaLink, isReplicaLink, send] using h
  | .readable i => by
    simp only [masterIdOf, List.append_nil]
    unfold Reactor.handle
    dsimp only
    rcases hl : r.link? i with _ | l
    · exact hs
    dsimp only
    rcases ho : l.conn.onReadable l.sock r.server now with ⟨e, c, sock, s'⟩
    dsimp only
    -- the link read, processed its frames, and is put back marked to close if that failed
    obtain ⟨e₁, c₁, hp, ha⟩ := onReadable_processes ho
    have h₀ := (hs.links l (mem_of_link? hl)).alike (alike_read l.conn l.sock.incoming)
    exact hs.processLink
      (f := fun _ => { conn := (if e.isSome then { c with wantClose := true } else c), sock })
      h₀ ((alike_read l.conn l.sock.incoming).id.trans (id_of_link? hl))
      (by simp) (fun _ _ _ => rfl) hp (ha.trans (alike_closeIf c e.isSome)) fun _ => rfl
  | .writable i => by
    simp only [masterIdOf, List.append_nil]
    exact hs.flushLink i
  | .failed i => by
    simp only [masterIdOf, List.append_nil]
    exact hs.markClose i

/-- Run lemma for the events of a turn. -/
theorem handleAll (now : Instant) : ∀ (events : List Event) {M : List ConnId} (r : Reactor),
    Standing M [] r →
      Standing (M ++ r.masterIds now events) [] (events.foldl (Reactor.handle · now) r)
  | [], M, r, hs => by simpa [masterIds] using hs
  | e :: es, M, r, hs => by
    have h := handleAll now es _ (hs.handle now e)
    simpa [masterIds, List.append_assoc] using h

end Standing

/-! ## Blocked pops across a turn -/

/-- A fold of steps that each keep some part of the loop keeps it. -/
theorem foldl_keeps {α β : Type} (f : Reactor → β) {g : Reactor → α → Reactor}
    (hg : ∀ r a, f (g r a) = f r) : ∀ (L : List α) (r : Reactor), f (L.foldl g r) = f r
  | [], _ => rfl
  | a :: L, r => (foldl_keeps f hg L (g r a)).trans (hg r a)

/-- With no timer due, firing the timers only moves the timer queue on. -/
theorem runTimers_of_none_due {r : Reactor} {now : Instant}
    (ht : (r.server.timers.tick now).1 = []) :
    (r.runTimers now).server = { r.server with timers := (r.server.timers.tick now).2 } := by
  simp [Reactor.runTimers, Server.dueTimers, ht]

/-- With no reply queued, handing replies over does nothing. -/
theorem deliverDeferred_of_empty {r : Reactor} (now : Instant) (ho : r.server.outbox = []) :
    r.deliverDeferred now = r :=
  deliverWith_of_empty now ho _

theorem fanOut_waiters (r : Reactor) : r.fanOut.server.waiters = r.server.waiters := by
  unfold Reactor.fanOut
  split
  · rfl
  · -- the visits leave the server as the drain left it
    have hs := foldl_server (fun r₁ id => (visit_stream r₁ r.server.replication.events id 0).2)
      r.server.replication.replicas
      { r with server := { r.server with replication := { r.server.replication with events := [] } } }
    exact congrArg (·.waiters) hs

theorem flushAll_server (r : Reactor) : r.flushAll.server = r.server := by
  unfold Reactor.flushAll
  refine foldl_keeps (·.server) (fun r' l => ?_) r.links r
  split
  · exact (flushLink_stream r' l.conn.id 0).2
  · rfl

/-- Closing the finished connections changes only which connections are open, their transactions
and the replication state: a view of the server that none of these touches stays. -/
theorem closeFinished_keeps {α : Type} (f : Server → α)
    (hc : ∀ (s : Server) (c : ConnId), f (s.connectionClosed c) = f s)
    (hm : ∀ s : Server, f { s with replication := s.replication.markMasterDown } = f s)
    (r : Reactor) : f r.closeFinished.server = f r.server := by
  unfold Reactor.closeFinished
  refine foldl_keeps (fun r => f r.server) (fun r' l => ?_) r.links r
  dsimp only
  split
  · rfl
  · split
    · rw [hm, hc]
    · exact hc _ _

theorem closeFinished_waiters (r : Reactor) :
    r.closeFinished.server.waiters = r.server.waiters :=
  closeFinished_keeps (·.waiters) (fun _ _ => rfl) (fun _ => rfl) r

theorem scheduleReconnect_waiters (r : Reactor) (now : Instant) :
    (r.scheduleReconnect now).server.waiters = r.server.waiters := by
  unfold Reactor.scheduleReconnect
  split <;> rfl

theorem closeFinished_lists (r : Reactor) : r.closeFinished.server.lists = r.server.lists :=
  closeFinished_keeps (·.lists) (fun _ _ => rfl) (fun _ => rfl) r

theorem scheduleReconnect_lists (r : Reactor) (now : Instant) :
    (r.scheduleReconnect now).server.lists = r.server.lists := by
  unfold Reactor.scheduleReconnect
  split <;> rfl

/-- After the events, a turn changes the blocked pops only by firing timers and handing replies
over: with no timer due and no reply queued once the events are handled, the turn ends with the
blocked pops the events left. -/
theorem turn_waiters (r : Reactor) (now : Instant) (events : List Event)
    (ht : ((events.foldl (handle · now) r).server.timers.tick now).1 = [])
    (ho : (events.foldl (handle · now) r).server.outbox = []) :
    (r.turn now events).server.waiters = (events.foldl (handle · now) r).server.waiters := by
  unfold Reactor.turn
  dsimp only
  have hr := runTimers_of_none_due ht
  rw [deliverDeferred_of_empty now (by rw [hr]; exact ho), scheduleReconnect_waiters,
    closeFinished_waiters, flushAll_server, fanOut_waiters, hr]

/-- A turn in which a link to the master past its handshake, not waiting and holding no bytes,
reads whole frames applies them as the master's writes: when that leaves no timer due and no reply
queued, the turn ends with the blocked pops the writes leave. -/
theorem turn_readable_master {r : Reactor} {i : ConnId} {l : Link} {h : Handshake}
    {fs : List Value} (now : Instant) (hl : r.link? i = some l)
    (hrole : l.conn.role = .replicaLink h) (hd : h.isDone = true)
    (hsus : l.conn.suspended = false) (hwf : ∀ f ∈ fs, f.WellFormed)
    (hin : (l.conn.read l.sock.incoming).2.1.inbound = { bytes := fs.flatMap Value.encode })
    (ht : ((r.server.replicate i (fs.map (·, now))).timers.tick now).1 = [])
    (ho : (r.server.replicate i (fs.map (·, now))).outbox = []) :
    (r.turn now [.readable i]).server.waiters = (r.server.replicate i (fs.map (·, now))).waiters := by
  have hid : l.conn.id = i := id_of_link? hl
  -- the link reads the frames and applies them all
  have hp : (l.conn.read l.sock.incoming).2.1.processInbound r.server now =
      (none, { (l.conn.read l.sock.incoming).2.1 with inbound := { bytes := [] } },
        r.server.replicate i (fs.map (·, now))) := by
    have hlen := Value.length_le_flatMap_encode fs
    rw [← hid]
    refine Connection.processWith_master hd fs _ _ r.server [] ?_ hrole hsus hwf rfl
      (by rw [hin, List.append_nil])
    simp only [hin, Buffer.len]
    omega
  have hs : (r.handle now (.readable i)).server = r.server.replicate i (fs.map (·, now)) := by
    rcases hr : l.conn.onReadable l.sock r.server now with ⟨e, c', sock', s'⟩
    obtain ⟨e₁, c₁, hp', -⟩ := Connection.onReadable_processes hr
    rw [hp] at hp'
    simp only [Reactor.handle, hl, hr]
    exact (Prod.ext_iff.1 (Prod.ext_iff.1 hp').2).2.symm
  rw [turn_waiters r now _ (by rw [List.foldl_cons, List.foldl_nil, hs]; exact ht)
    (by rw [List.foldl_cons, List.foldl_nil, hs]; exact ho)]
  exact congrArg (·.waiters) hs

/-! ## Between turns -/

/-- The loop between turns, `M` holding the ids given to links to the master: the invariant holds
with no reply in hand or queued, and no link is marked to close. -/
structure AtRest (M : List ConnId) (r : Reactor) : Prop where
  standing : Standing M [] r
  outbox : r.server.outbox = []
  unmarked : ∀ l ∈ r.links, l.conn.wantClose = false

/-- Step lemma for turns: from the invariant, a turn leaves the loop at rest, the links to the
master it opened joining `M`. Each phase keeps the invariant, handing over empties the outbox and
nothing after it queues a reply, and closing leaves no link marked. -/
theorem Standing.turn {r : Reactor} (hs : Standing M [] r) (now : Instant) (events : List Event) :
    AtRest (M ++ r.masterIds now events) (r.turn now events) := by
  unfold Reactor.turn
  dsimp only
  have h₁ := Standing.handleAll now events r hs
  obtain ⟨h₃, ho₃⟩ := (h₁.runTimers now).deliverDeferred now
  obtain ⟨h₄, ho₄⟩ := h₃.fanOut
  obtain ⟨h₅, ho₅⟩ := h₄.flushAll
  obtain ⟨h₆, ho₆, hw₆⟩ := h₅.closeFinished
  obtain ⟨h₇, ho₇, hl₇⟩ := h₆.scheduleReconnect now
  exact ⟨h₇, by rw [ho₇, ho₆, ho₅, ho₄, ho₃], by rw [hl₇]; exact hw₆⟩

/-- Changing only the socket of a link keeps the loop at rest. -/
theorem AtRest.modifySock {r : Reactor} (h : AtRest M r) (id : ConnId) {f : Link → Link}
    (hf : ∀ l, (f l).conn = l.conn) : AtRest M (r.modifyLink id f) where
  standing := h.standing.modifyLink fun l _ _ => hf l ▸ Alike.refl l.conn
  outbox := h.outbox
  unmarked L hL := by
    obtain ⟨l, hl, ⟨-, rfl⟩ | ⟨-, rfl⟩⟩ := mem_modifyLink hL
    · rw [hf l]
      exact h.unmarked l hl
    · exact h.unmarked _ hl

/-- What can happen to the loop: a turn at an instant with the events its sockets report, or a
peer sending bytes, shutting its side, or reading what it was sent. -/
inductive Step where
  | turn (now : Instant) (events : List Event)
  | receive (id : ConnId) (bytes : List UInt8)
  | hangUp (id : ConnId)
  | collect (id : ConnId)

/-- The loop after a step. -/
def step (r : Reactor) : Step → Reactor
  | .turn now events => r.turn now events
  | .receive i bytes => r.receive i bytes
  | .hangUp i => r.hangUp i
  | .collect i => (r.collect i).2

/-- The loop after a run of steps. -/
def run (r : Reactor) : List Step → Reactor
  | [] => r
  | st :: sts => (r.step st).run sts

/-- The ids that a step gives to new links to the master. -/
def stepMasterIds (r : Reactor) : Step → List ConnId
  | .turn now events => r.masterIds now events
  | _ => []

/-- The ids that a run gives to new links to the master, in order. -/
def runMasterIds (r : Reactor) : List Step → List ConnId
  | [] => []
  | st :: sts => r.stepMasterIds st ++ (r.step st).runMasterIds sts

/-- Step lemma for runs: every step leaves the loop at rest; peers touch only sockets. -/
theorem AtRest.step {r : Reactor} (h : AtRest M r) :
    ∀ st : Step, AtRest (M ++ r.stepMasterIds st) (r.step st)
  | .turn now events => by
    simpa only [stepMasterIds, Reactor.step] using h.standing.turn now events
  | .receive i bytes => by
    simp only [stepMasterIds, List.append_nil, Reactor.step, receive]
    exact h.modifySock i fun _ => rfl
  | .hangUp i => by
    simp only [stepMasterIds, List.append_nil, Reactor.step, hangUp]
    exact h.modifySock i fun _ => rfl
  | .collect i => by
    simp only [stepMasterIds, List.append_nil, Reactor.step, collect]
    split
    · exact h
    · exact h.modifySock i fun _ => rfl

/-- Run lemma: a run keeps the loop at rest, the links to the master it opens joining `M`. -/
theorem AtRest.run : ∀ (sts : List Step) {M : List ConnId} {r : Reactor}, AtRest M r →
    AtRest (M ++ r.runMasterIds sts) (r.run sts)
  | [], M, r, h => by simpa [runMasterIds, Reactor.run] using h
  | st :: sts, M, r, h => by
    simpa [runMasterIds, Reactor.run, List.append_assoc] using AtRest.run sts (h.step st)

/-- A fresh loop is at rest, with no link to the master yet. -/
theorem atRest_new (role : Role) (port : UInt16) : AtRest [] (Reactor.new (Server.new role port)) := by
  have hq : ∀ k, (Server.new role port).waiters.queue k = [] := fun _ => by
    simp [Server.new, Waiters.queue]
  have hk := (connectToMaster_keeps { server := Server.new role port }).2
  have hl := (connectToMaster_keeps { server := Server.new role port }).1
  refine ⟨⟨Server.Tidy.of_keeps ⟨Server.new_orderly role port, by simp [Server.new], by simp [hq]⟩
    hk, by simp, by simp [Reactor.new, hl], by simp, fun c _ k₁ k₂ b₁ b₂ h₁ => ?_, ?_⟩, ?_, ?_⟩
  · simp [Reactor.new, hk.waiters, hq] at h₁
  · simp [Reactor.new, hl]
  · rw [Reactor.new, hk.outbox]
    rfl
  · simp [Reactor.new, hl]

/-- At rest, a client link waits exactly when one blocked pop carries its id. -/
theorem AtRest.suspended_iff {r : Reactor} (h : AtRest M r) {l : Link} (hl : l ∈ r.links)
    (hk : l.conn.isReplicaLink = false) :
    l.conn.suspended = true ↔ r.server.OneBlock l.conn.id := by
  have hslot := (h.standing.links l hl).slot hk (h.unmarked l hl)
  have h0 : ([] : List Delivery).countP (·.conn = l.conn.id) + r.server.replies l.conn.id = 0 := by
    simp [Server.replies, h.outbox]
  rw [h0] at hslot
  rcases hslot with ⟨hs, hn, -⟩ | ⟨hs, ho, -⟩ | ⟨-, -, h1⟩
  · rw [hs]
    exact ⟨fun h => absurd h Bool.false_ne_true, fun ho => absurd ho hn.not_oneBlock⟩
  · exact ⟨fun _ => ho, fun _ => hs⟩
  · cases h1

/-- Between two turns of the loop, started fresh: every client connection waits exactly when one
blocked pop carries its id, no reply is left queued, and no connection id has two blocked pops
unless it was given to a link to the master. -/
theorem suspended_iff_one_block (role : Role) (port : UInt16) (steps : List Step) :
    (∀ l ∈ ((Reactor.new (Server.new role port)).run steps).links,
      l.conn.isReplicaLink = false →
        (l.conn.suspended = true ↔
          ((Reactor.new (Server.new role port)).run steps).server.OneBlock l.conn.id)) ∧
      ((Reactor.new (Server.new role port)).run steps).server.outbox = [] ∧
      ∀ c, c ∉ (Reactor.new (Server.new role port)).runMasterIds steps →
        ((Reactor.new (Server.new role port)).run steps).server.AtMostOneBlock c := by
  have h := AtRest.run steps (atRest_new role port)
  rw [List.nil_append] at h
  exact ⟨fun l hl hk => h.suspended_iff hl hk, h.outbox, h.standing.atMostOne⟩

/-- The link to the master is the exception, and it does arise: once its handshake is done, a
BLPOP the master sends on an empty list parks the link without suspending it, so the next one parks
it again. A fresh replica connects to its master, which answers the handshake and then sends two
BLPOPs on `k`; at the end of the turn that reads them, the link's id carries two blocked pops. -/
theorem master_link_holds_two_blocks :
    let hello := [Value.simple "PONG", Value.ok, Value.ok,
      Value.simple ("FULLRESYNC " ++ replicationId ++ " 0")]
    let pops := List.replicate 2 (Value.command ["BLPOP", "k", "0"])
    let r := (Reactor.new (Server.new (.replica ⟨"127.0.0.1", 6379⟩) 6380)).run
      [.turn 0 [.masterConnected (some "127.0.0.1:6379")], .receive 1 (hello.flatMap Value.encode),
        .turn 0 [.readable 1], .receive 1 (pops.flatMap Value.encode)]
    ¬ ∀ c, (r.turn 0 [.readable 1]).server.AtMostOneBlock c := by
  intro hello pops r hall
  -- the loop before the last turn, read off by evaluation
  obtain ⟨l, hl⟩ : ∃ l, r.link? 1 = some l := Option.isSome_iff_exists.1 (by decide +kernel)
  have hdone : (r.link? 1).map (fun l => ConnectionRole.casesOn (motive := fun _ => Bool)
      l.conn.role false fun h => h.isDone && !l.conn.suspended) = some true := by decide +kernel
  have hbuf : (r.link? 1).map (fun l => ((l.conn.read l.sock.incoming).2.1.inbound.bytes,
      (l.conn.read l.sock.incoming).2.1.inbound.cursor,
      (l.conn.read l.sock.incoming).2.1.inbound.marked)) = some (pops.flatMap Value.encode, 0, 0) := by
    decide +kernel
  obtain ⟨hidle, hrep, hlists, hwait, ho, ht⟩ : r.server.transactions.queues.isEmpty = true ∧
      r.server.replaying = false ∧ r.server.lists.entries.isEmpty = true ∧
      r.server.waiters.queues.isEmpty = true ∧ r.server.outbox = [] ∧
      (r.server.timers.tick 0).1 = [] := by
    decide +kernel
  have hparse : parseBLPop ["k", "0"] = .ok ("k", none) := by decide +kernel
  have hwf : ∀ f ∈ pops, f.WellFormed := by decide +kernel
  -- the link is past its handshake, waits for nothing, and has read the two BLPOPs
  rw [hl, Option.map_some, Option.some.injEq] at hdone hbuf
  obtain ⟨h, hrole, hd, hsus⟩ : ∃ h, l.conn.role = .replicaLink h ∧ h.isDone = true ∧
      l.conn.suspended = false := by
    rcases hrole : l.conn.role with _ | h
    · simp [hrole] at hdone
    · simp only [hrole, Bool.and_eq_true, Bool.not_eq_true'] at hdone
      exact ⟨h, rfl, hdone⟩
  have hin : (l.conn.read l.sock.incoming).2.1.inbound = { bytes := pops.flatMap Value.encode } := by
    generalize (l.conn.read l.sock.incoming).2.1.inbound = b at hbuf ⊢
    simp only [Prod.mk.injEq] at hbuf
    obtain ⟨hb₁, hb₂, hb₃⟩ := hbuf
    cases b
    simp_all
  clear_value r
  -- the two BLPOPs find `k` empty and each park the link on it
  have he : r.server.lists.items "k" = [] := by
    simp [Lists.items, Std.HashMap.getElem?_of_isEmpty hlists]
  have hidle' : r.server.transactions.isActive 1 = false := by
    simp [Transactions.isActive, Std.HashMap.contains_of_isEmpty hidle]
  have hq : r.server.waiters.queue "k" = [] := by
    simp [Waiters.queue, Std.HashMap.getElem?_of_isEmpty hwait]
  obtain ⟨hq', ht', ho'⟩ := Server.replicate_blpops hparse 0 2 r.server hidle' hrep he
  have hw := turn_readable_master 0 hl hrole hd hsus hwf hin (by rw [ht']; exact ht)
    (by rw [ho']; exact ho)
  have hk : (r.turn 0 [.readable 1]).server.waiters.queue "k" =
      [{ id := r.server.waiters.nextId, conn := 1, deadline := none },
        { id := r.server.waiters.nextId + 1, conn := 1, deadline := none }] := by
    rw [hw, hq', hq]
    simp [List.range_succ]
  obtain ⟨-, hb⟩ := hall 1 "k" "k" _ _ (by rw [hk]; exact List.mem_cons_self ..)
    (by rw [hk]; exact List.mem_cons_of_mem _ (List.mem_singleton_self _)) rfl rfl
  simp at hb

end Reactor

end KvServer
