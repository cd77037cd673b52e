import Mathlib
import KvServer.Proofs.Handoff

/-!
# What happens to blocked pops

A blocking pop that finds no data parks at the tail of its key's queue; it leaves the queue when a
push's wake reaches it (served with the next item, timed out, or dropped when its connection is
closed) or when its timer fires. `PopEvent` records these moves, and every piece of the server's
work has its events: `Server.wakeLog`, `Server.expireLog`, and from them `Server.actLog`,
`Server.executeLog` and, for a run of operations, `Server.history`. Serving is read through what
it does to each block it reaches (`Waiters.serve_eq_serveLog`), and a wake and a timer queue
exactly the replies of their departures (`Server.wake_outbox`, `Server.expireBlock_outbox`).

What an action does to the lists and the blocked pops is said once, by `Server.ActEffect`: it
leaves both alone, takes items from the front of one list, pushes to one list and then serves its
blocked pops, or finds its list empty and parks. `Server.execute_induction` carries any relation
that every such effect satisfies and that composes across a whole request.

A first use: a push serves the key's waiting pops until the list or the queue runs out
(`Waiters.serve_settles`), and nothing else adds data, so a pop waits only on an empty list in
every state a fresh server reaches (`Server.waiting_only_on_empty_lists`).
-/

namespace KvServer

/-! ## The history of the blocked pops -/

/-- What became of a blocked pop that left its queue. -/
inductive Fate where
  /-- A push handed it `value`, the first item of its key's list. -/
  | served (value : String)
  /-- A push found its deadline come: it is answered with null. -/
  | timedOut
  /-- Its timer fired while it was still waiting: it is answered with null. -/
  | expired
  /-- A push found its connection closed: it took nothing. -/
  | dropped
  deriving DecidableEq

namespace Fate

/-- The item a served pop took. -/
def value? : Fate → Option String
  | .served v => some v
  | _ => none

/-- The wake-up serving records for block `b` of `key`. -/
def wakeup? (key : String) (b : Block) : Fate → Option Wakeup
  | .served v => some (.served b.conn key v)
  | .timedOut => some (.timedOut b.conn)
  | _ => none

/-- The fate a push gives a block, from whether its connection is open and whether its deadline
has come: dropped when closed, timed out when due, served otherwise. -/
def Fits (live due : Bool) : Fate → Prop
  | .served _ => live = true ∧ due = false
  | .timedOut => live = true ∧ due = true
  | .expired => False
  | .dropped => live = false

end Fate

/-- A blocked pop leaving the queue of `key` at `time`, and whether its connection was open
then. -/
structure Departure where
  key : String
  block : Block
  fate : Fate
  live : Bool
  time : Instant

/-- The reply a departure queues for its connection, if that connection is open: the key and the
item to a served pop, null to one whose deadline came or whose timer fired, nothing to a dropped
one. -/
def Departure.delivery? (d : Departure) : Option Delivery :=
  if d.live then
    match d.fate with
    | .served v => some { conn := d.block.conn, reply := Value.command [d.key, v], resumes := true }
    | .timedOut | .expired => some { conn := d.block.conn, reply := .null, resumes := true }
    | .dropped => none
  else none

/-- What happens to the blocked pops. -/
inductive PopEvent where
  /-- A pop finds the list of `key` empty and waits at the tail of its queue. -/
  | parked (key : String) (block : Block) (time : Instant)
  /-- A waiting pop leaves its queue. -/
  | departed (d : Departure)

/-- The reply an event queues. -/
def PopEvent.delivery? : PopEvent → Option Delivery
  | .parked .. => none
  | .departed d => d.delivery?

namespace Waiters

variable (w : Waiters)

/-! ## The queues of blocked pops -/

theorem queue_setQueue (key : String) (q : List Block) (k : String) :
    (w.setQueue key q).queue k = if key = k then q else w.queue k := by
  unfold setQueue queue
  by_cases hq : q = [] <;> by_cases hk : key = k <;>
    simp [hq, hk, Std.HashMap.getElem?_erase, Std.HashMap.getElem?_insert]

@[simp] theorem nextId_setQueue (key : String) (q : List Block) :
    (w.setQueue key q).nextId = w.nextId := rfl

@[simp] theorem block_fst (key : String) (c : ConnId) (d : Option Instant) :
    (w.block key c d).1 = { id := w.nextId, conn := c, deadline := d } := rfl

@[simp] theorem nextId_block (key : String) (c : ConnId) (d : Option Instant) :
    (w.block key c d).2.nextId = w.nextId + 1 := rfl

/-- Parking appends the new block to its key's queue. -/
theorem queue_block (key : String) (c : ConnId) (d : Option Instant) (k : String) :
    (w.block key c d).2.queue k =
      if key = k then w.queue key ++ [{ id := w.nextId, conn := c, deadline := d }] else w.queue k := by
  by_cases hk : key = k
  · subst hk
    simp [block, queue]
  · simp [block, queue, hk, Std.HashMap.getElem?_insert]

theorem onPush_fst (l : Lists) (key : String) (live : ConnId → Bool) (now : Instant) :
    (w.onPush l key live now).1 = (serve live now key (w.queue key) l).1 := by
  unfold onPush queue
  cases w.queues[key]? <;> rfl

theorem onPush_lists (l : Lists) (key : String) (live : ConnId → Bool) (now : Instant) :
    (w.onPush l key live now).2.2 = (serve live now key (w.queue key) l).2.2 := by
  unfold onPush queue
  cases w.queues[key]? <;> rfl

/-- A push leaves the key with the blocks its serving did not reach. -/
theorem queue_onPush (l : Lists) (key : String) (live : ConnId → Bool) (now : Instant) (k : String) :
    (w.onPush l key live now).2.1.queue k =
      if key = k then (serve live now key (w.queue key) l).2.1 else w.queue k := by
  unfold onPush
  cases hq : w.queues[key]? with
  | none =>
    have h0 : w.queue key = [] := by simp [queue, hq]
    by_cases hk : key = k
    · subst hk
      simp [h0, serve]
    · simp [hk]
  | some q =>
    have hq' : w.queue key = q := by simp [queue, hq]
    simp only [queue_setQueue, hq']

@[simp] theorem nextId_onPush (l : Lists) (key : String) (live : ConnId → Bool) (now : Instant) :
    (w.onPush l key live now).2.1.nextId = w.nextId := by
  unfold onPush
  cases w.queues[key]? <;> rfl

/-- A timer takes its block out of the key's queue, if it is still there. -/
theorem queue_expire (key : String) (id : Nat) (k : String) :
    (w.expire key id).2.queue k = if key = k then (w.queue key).filter (·.id ≠ id) else w.queue k := by
  simp only [expire]
  cases hf : (w.queue key).find? (·.id = id) with
  | none =>
    -- no block of that id waits on the key, so the filter keeps every block
    have hall : ∀ b ∈ w.queue key, b.id ≠ id := by
      intro b hb hid
      simpa [hid] using List.find?_eq_none.1 hf b hb
    have hkeep : (w.queue key).filter (·.id ≠ id) = w.queue key :=
      List.filter_eq_self.2 fun b hb => by simpa using hall b hb
    by_cases hk : key = k
    · subst hk
      simp only [if_true, hkeep]
    · simp [hk]
  | some b => exact queue_setQueue w key _ k

@[simp] theorem nextId_expire (key : String) (id : Nat) : (w.expire key id).2.nextId = w.nextId := by
  simp only [expire]
  split <;> rfl

theorem expire_snd_of_fst {key : String} {id : Nat} (h : (w.expire key id).1 = none) :
    (w.expire key id).2 = w := by
  simp only [expire] at h ⊢
  cases hf : (w.queue key).find? (·.id = id) with
  | none => rfl
  | some b => simp [hf] at h

theorem expire_fst (key : String) (id : Nat) :
    (w.expire key id).1 = ((w.queue key).find? (·.id = id)).map (·.conn) := by
  simp only [expire]
  split <;> simp_all

/-- Serving stops only when the queue or the list has run out. -/
theorem serve_settles (live : ConnId → Bool) (now : Instant) (key : String) :
    ∀ (q : List Block) (l : Lists),
      (serve live now key q l).2.1 = [] ∨ (serve live now key q l).2.2.items key = []
  | [], l => .inl rfl
  | b :: bs, l => by
    simp only [serve]
    split
    · exact serve_settles live now key bs l
    · split
      · exact serve_settles live now key bs l
      · rcases hp : l.lpop key with ⟨_ | v, l'⟩
        · -- the list had no first item
          right
          simpa [Lists.lpop_fst] using congrArg Prod.fst hp
        · exact serve_settles live now key bs l'


/-! ## What serving does to each block -/

/-- What serving the blocks `q` of a key at `now` does to each block it reaches, the key's list
holding `items`: a block whose connection is closed is dropped, one whose deadline has come times
out, and every other takes the next item, until the blocks or the items run out. -/
def serveLog (live : ConnId → Bool) (now : Instant) : List Block → List String → List (Block × Fate)
  | [], _ => []
  | b :: bs, items =>
    if !live b.conn then (b, .dropped) :: serveLog live now bs items
    else if b.deadline.any (· ≤ now) then (b, .timedOut) :: serveLog live now bs items
    else
      match items with
      | [] => []
      | v :: vs => (b, .served v) :: serveLog live now bs vs

variable {live : ConnId → Bool} {now : Instant}

/-- Serving reaches the blocks in queue order: the blocks it reaches are a prefix of the queue. -/
theorem serveLog_map_fst : ∀ (q : List Block) (items : List String),
    (serveLog live now q items).map Prod.fst = q.take (serveLog live now q items).length
  | [], _ => rfl
  | b :: bs, items => by
    simp only [serveLog]
    split
    · simp [serveLog_map_fst bs items]
    · split
      · simp [serveLog_map_fst bs items]
      · split
        · rfl
        · rename_i v vs
          simp [serveLog_map_fst bs vs]

/-- The items handed out are the first items of the list, one to each served block, in order. -/
theorem serveLog_values : ∀ (q : List Block) (items : List String),
    (serveLog live now q items).filterMap (·.2.value?) <+: items
  | [], _ => List.nil_prefix
  | b :: bs, items => by
    simp only [serveLog]
    split
    · simpa [Fate.value?] using serveLog_values bs items
    · split
      · simpa [Fate.value?] using serveLog_values bs items
      · split
        · exact List.nil_prefix
        · rename_i v vs
          simpa [Fate.value?] using serveLog_values bs vs

/-- A block is dropped exactly when its connection is closed; a live one times out exactly when
its deadline has come, and is served otherwise. -/
theorem fate_of_mem_serveLog : ∀ {q : List Block} {items : List String} {b : Block} {f : Fate},
    (b, f) ∈ serveLog live now q items → f.Fits (live b.conn) (b.deadline.any (· ≤ now))
  | [], _, _, _, h => by simp [serveLog] at h
  | b' :: bs, items, b, f, h => by
    simp only [serveLog] at h
    split at h
    · rcases List.mem_cons.1 h with h | h
      · obtain ⟨rfl, rfl⟩ := Prod.mk.inj h
        simp_all [Fate.Fits]
      · exact fate_of_mem_serveLog h
    · split at h
      · rcases List.mem_cons.1 h with h | h
        · obtain ⟨rfl, rfl⟩ := Prod.mk.inj h
          simp_all [Fate.Fits]
        · exact fate_of_mem_serveLog h
      · split at h
        · simp at h
        · rcases List.mem_cons.1 h with h | h
          · obtain ⟨rfl, rfl⟩ := Prod.mk.inj h
            simp_all [Fate.Fits]
          · exact fate_of_mem_serveLog h

/-- Serving, read through what it does to each block: the wake-ups are those of the blocks it
reaches, the blocks left are the rest of the queue, and the list loses the items handed out. -/
theorem serve_eq_serveLog (key : String) : ∀ (q : List Block) (l : Lists),
    (serve live now key q l).1 = (serveLog live now q (l.items key)).filterMap (fun p => p.2.wakeup? key p.1) ∧
      (serve live now key q l).2.1 = q.drop (serveLog live now q (l.items key)).length ∧
      ∀ k, (serve live now key q l).2.2.items k =
        if key = k then (l.items key).drop ((serveLog live now q (l.items key)).filterMap (·.2.value?)).length
        else l.items k
  | [], l => ⟨rfl, rfl, fun k => by split <;> simp_all [serve, serveLog]⟩
  | b :: bs, l => by
    simp only [serve, serveLog]
    split
    · simpa [Fate.wakeup?, Fate.value?] using serve_eq_serveLog key bs l
    · split
      · obtain ⟨h₁, h₂, h₃⟩ := serve_eq_serveLog key bs l
        exact ⟨by simp [h₁, Fate.wakeup?], by simp [h₂], by simpa [Fate.value?] using h₃⟩
      · rcases hp : l.lpop key with ⟨_ | v, l'⟩
        · -- the list is empty, so serving stops at `b`
          have he : l.items key = [] := by simpa [Lists.lpop_fst] using congrArg Prod.fst hp
          simp only [he]
          exact ⟨rfl, rfl, fun k => by split <;> simp_all⟩
        · -- `v` heads the list, and the rest of the queue is served from its tail
          have hl' : ∀ k, l'.items k = if key = k then (l.items key).drop 1 else l.items k := by
            intro k
            rw [← Lists.items_lpop, hp]
          obtain ⟨tail, htail⟩ : ∃ tail, l.items key = v :: tail := by
            have hv : (l.items key).head? = some v := by rw [← Lists.lpop_fst, hp]
            cases h : l.items key with
            | nil => simp [h] at hv
            | cons x xs => exact ⟨xs, by simp_all⟩
          have htail' : l'.items key = tail := by simp [hl', htail]
          obtain ⟨h₁, h₂, h₃⟩ := serve_eq_serveLog key bs l'
          rw [htail'] at h₁ h₂ h₃
          simp only [htail]
          refine ⟨by simp [h₁, Fate.wakeup?], by simp [h₂], fun k => ?_⟩
          rw [h₃ k, hl' k]
          split <;> simp_all [Fate.value?]

end Waiters

namespace Server

/-! ## What a step leaves alone -/

/-- `s'` has the blocked pops, the timers, the replies waiting, the open connections and the next
connection id of `s`. -/
structure KeepsBlocking (s s' : Server) : Prop where
  waiters : s'.waiters = s.waiters
  timers : s'.timers = s.timers
  outbox : s'.outbox = s.outbox
  live : s'.live = s.live
  nextConn : s'.nextConn = s.nextConn

namespace KeepsBlocking

theorem refl (s : Server) : KeepsBlocking s s := ⟨rfl, rfl, rfl, rfl, rfl⟩

theorem trans {s₁ s₂ s₃ : Server} (h₁ : KeepsBlocking s₁ s₂) (h₂ : KeepsBlocking s₂ s₃) :
    KeepsBlocking s₁ s₃ :=
  ⟨h₂.waiters.trans h₁.waiters, h₂.timers.trans h₁.timers, h₂.outbox.trans h₁.outbox,
    h₂.live.trans h₁.live, h₂.nextConn.trans h₁.nextConn⟩

theorem record (s : Server) (ev : Value) : KeepsBlocking s (s.record ev) :=
  ⟨rfl, rfl, rfl, rfl, rfl⟩

end KeepsBlocking

@[simp] theorem applyWakeups_waiters : ∀ (ws : List Wakeup) (s : Server),
    (s.applyWakeups ws).waiters = s.waiters
  | [], _ => rfl
  | .served c key v :: ws, s => by simp [applyWakeups, applyWakeups_waiters ws]
  | .timedOut c :: ws, s => by simp [applyWakeups, applyWakeups_waiters ws]

@[simp] theorem deliver_timers (s : Server) (c : ConnId) (v : Value) (b : Bool) :
    (s.deliver c v b).timers = s.timers := by
  unfold deliver; split <;> rfl

@[simp] theorem applyWakeups_timers : ∀ (ws : List Wakeup) (s : Server),
    (s.applyWakeups ws).timers = s.timers
  | [], _ => rfl
  | .served c key v :: ws, s => by simp [applyWakeups, applyWakeups_timers ws, record]
  | .timedOut c :: ws, s => by simp [applyWakeups, applyWakeups_timers ws]

@[simp] theorem applyWakeups_live : ∀ (ws : List Wakeup) (s : Server),
    (s.applyWakeups ws).live = s.live
  | [], _ => rfl
  | .served c key v :: ws, s => by simp [applyWakeups, applyWakeups_live ws]
  | .timedOut c :: ws, s => by simp [applyWakeups, applyWakeups_live ws]

/-! ## A push's wake -/

variable (s : Server) (now : Instant) (key : String)

/-- A wake leaves the key with the blocks it did not reach, and every other queue as it was. -/
theorem queue_wake (k : String) :
    (s.wake now key).waiters.queue k =
      if key = k then (Waiters.serve s.isLive now key (s.waiters.queue key) s.lists).2.1
      else s.waiters.queue k := by
  simp only [wake, applyWakeups_waiters, Waiters.queue_onPush]

theorem wake_lists :
    (s.wake now key).lists = (Waiters.serve s.isLive now key (s.waiters.queue key) s.lists).2.2 := by
  simp only [wake, applyWakeups_lists, Waiters.onPush_lists]

@[simp] theorem nextId_wake : (s.wake now key).waiters.nextId = s.waiters.nextId := by
  simp only [wake, applyWakeups_waiters, Waiters.nextId_onPush]

@[simp] theorem wake_timers : (s.wake now key).timers = s.timers := by
  simp only [wake, applyWakeups_timers]

@[simp] theorem wake_live : (s.wake now key).live = s.live := by
  simp only [wake, applyWakeups_live]

/-- After a push's wake the key has no data or no waiting pop. -/
theorem wake_settles :
    (s.wake now key).lists.items key = [] ∨ (s.wake now key).waiters.queue key = [] := by
  rw [wake_lists, queue_wake, if_pos rfl]
  exact (Waiters.serve_settles s.isLive now key _ _).symm

/-- A wake changes the list and the queue of its own key only. -/
theorem wake_of_ne {k : String} (hk : key ≠ k) :
    (s.wake now key).lists.items k = s.lists.items k ∧
      (s.wake now key).waiters.queue k = s.waiters.queue k := by
  obtain ⟨n, -, hi⟩ := Waiters.serve_spec s.isLive now key (s.waiters.queue key) s.lists
  refine ⟨?_, by rw [queue_wake, if_neg hk]⟩
  rw [wake_lists, hi k, if_neg hk]

/-! ## Parking and timers -/

@[simp] theorem block_waiters_nextId (t : Option Nat) (c : ConnId) :
    (s.block now key c t).waiters.nextId = s.waiters.nextId + 1 := rfl
@[simp] theorem block_outbox (t : Option Nat) (c : ConnId) : (s.block now key c t).outbox = s.outbox :=
  rfl
@[simp] theorem block_live (t : Option Nat) (c : ConnId) : (s.block now key c t).live = s.live := rfl


/-! ## The departures of a wake and of a timer -/

/-- The blocks a push's wake on `key` at `now` takes off the queue, with what becomes of each. -/
def wakeLog (s : Server) (now : Instant) (key : String) : List PopEvent :=
  (Waiters.serveLog s.isLive now (s.waiters.queue key) (s.lists.items key)).map
    fun p => .departed ⟨key, p.1, p.2, s.isLive p.1.conn, now⟩

/-- The block a timer for block `id` of `key` takes off the queue at `now`, if it still waits. -/
def expireLog (s : Server) (now : Instant) (key : String) (id : Nat) : List PopEvent :=
  ((s.waiters.queue key).find? (·.id = id)).toList.map
    fun b => .departed ⟨key, b, .expired, s.isLive b.conn, now⟩

/-- A wake queues exactly the replies of its departures, in order. -/
theorem wake_outbox :
    (s.wake now key).outbox = s.outbox ++ (s.wakeLog now key).filterMap PopEvent.delivery? := by
  obtain ⟨hws, -, -⟩ := @Waiters.serve_eq_serveLog s.isLive now key (s.waiters.queue key) s.lists
  have hfit : ∀ p ∈ Waiters.serveLog s.isLive now (s.waiters.queue key) (s.lists.items key),
      p.2.Fits (s.isLive p.1.conn) (p.1.deadline.any (· ≤ now)) :=
    fun p hp => Waiters.fate_of_mem_serveLog hp
  unfold wake
  rw [applyWakeups_outbox _ _ ?live]
  · simp only [Waiters.onPush_fst, hws, wakeLog, List.filterMap_map, List.map_filterMap]
    congr 1
    apply List.filterMap_congr
    rintro ⟨b, f⟩ hp
    have hf := hfit _ hp
    cases f <;> simp_all [Fate.wakeup?, Fate.Fits, Departure.delivery?, PopEvent.delivery?,
      Wakeup.delivery]
  · -- every block a wake answers has an open connection
    intro w hw
    simp only [Waiters.onPush_fst, hws, List.mem_filterMap] at hw
    obtain ⟨⟨b, f⟩, hp, hw⟩ := hw
    have hf := hfit _ hp
    cases f <;> simp_all [Fate.wakeup?, Fate.Fits, Wakeup.delivery, isLive] <;> (subst hw; simpa using hf.1)

/-- A timer queues the null reply of the block it takes off, if its connection is open. -/
theorem expireBlock_outbox (id : Nat) :
    (s.expireBlock key id).outbox = s.outbox ++ (s.expireLog now key id).filterMap PopEvent.delivery? := by
  have hfst := Waiters.expire_fst s.waiters key id
  unfold expireBlock expireLog
  cases hf : (s.waiters.queue key).find? (·.id = id) with
  | none =>
    rw [hf] at hfst
    rcases he : s.waiters.expire key id with ⟨_ | c, w⟩
    · simp
    · simp [he] at hfst
  | some b =>
    rw [hf] at hfst
    rcases he : s.waiters.expire key id with ⟨_ | c, w⟩
    · simp [he] at hfst
    · simp only [he, Option.map_some] at hfst
      obtain rfl := Option.some.inj hfst.symm
      by_cases hl : b.conn ∈ s.live <;>
        simp [deliver, isLive, hl, Departure.delivery?, PopEvent.delivery?]

theorem queue_block (t : Option Nat) (c : ConnId) (k : String) :
    (s.block now key c t).waiters.queue k =
      if key = k then s.waiters.queue key ++
        [{ id := s.waiters.nextId, conn := c, deadline := t.bind (Clock.later? now) }]
      else s.waiters.queue k :=
  Waiters.queue_block s.waiters key c _ k

theorem expireBlock_waiters (id : Nat) :
    (s.expireBlock key id).waiters = (s.waiters.expire key id).2 := by
  unfold expireBlock
  split
  · rename_i h
    simp [h]
  · rename_i h
    rw [Waiters.expire_snd_of_fst s.waiters (congrArg Prod.fst h)]

theorem queue_expireBlock (id : Nat) (k : String) :
    (s.expireBlock key id).waiters.queue k =
      if key = k then (s.waiters.queue key).filter (·.id ≠ id) else s.waiters.queue k := by
  rw [← Waiters.queue_expire, expireBlock_waiters]

@[simp] theorem expireBlock_lists (id : Nat) : (s.expireBlock key id).lists = s.lists :=
  (expireBlock_data s key id).2.1

@[simp] theorem expireBlock_timers (id : Nat) : (s.expireBlock key id).timers = s.timers := by
  unfold expireBlock
  split <;> simp

@[simp] theorem expireBlock_live (id : Nat) : (s.expireBlock key id).live = s.live := by
  unfold expireBlock
  split <;> simp

@[simp] theorem nextId_expireBlock (id : Nat) :
    (s.expireBlock key id).waiters.nextId = s.waiters.nextId := by
  rw [expireBlock_waiters, Waiters.nextId_expire]

/-! ## What an action does to the blocked pops -/

/-- The events of an action: a push's wake, or a blocking pop that finds its list empty outside a
replay and parks. -/
def actLog (s : Server) (now : Instant) (q : Request) : List PopEvent :=
  match q.action, q.args with
  | .rpush, key :: items@(_ :: _) =>
    ({ s with lists := (s.lists.rpush key items).2 }.record q.toValue).wakeLog now key
  | .lpush, key :: items@(_ :: _) =>
    ({ s with lists := (s.lists.lpush key items).2 }.record q.toValue).wakeLog now key
  | .blpop, args =>
    match parseBLPop args with
    | .error _ => []
    | .ok (key, timeout) =>
      match s.lists.lpop key with
      | (some _, _) => []
      | (none, _) =>
        if s.replaying then []
        else [.parked key (s.waiters.block key q.origin (timeout.bind (Clock.later? now))).1 now]
  | _, _ => []

/-- What an action does to the lists and the blocked pops, with its events: it leaves both alone,
takes items from the front of one list, adds items to one list and serves that key's blocked
pops, or finds its list empty and parks its connection. Only parking suspends. -/
inductive ActEffect (s : Server) (now : Instant) (q : Request) :
    Outcome → Server → List PopEvent → Prop where
  | quiet {v : Value} {s' : Server} (hk : KeepsBlocking s s') (hl : s'.lists = s.lists) :
      ActEffect s now q (.completed v) s' []
  | pop {v : Value} {s' : Server} (key : String) (n : Nat) (hk : KeepsBlocking s s')
      (hl : ∀ k, s'.lists.items k = if key = k then (s.lists.items key).drop n else s.lists.items k) :
      ActEffect s now q (.completed v) s' []
  | push {v : Value} (key : String) (l : Lists) (ev : Value)
      (hl : ∀ k, key ≠ k → l.items k = s.lists.items k) :
      ActEffect s now q (.completed v) (({ s with lists := l }.record ev).wake now key)
        (({ s with lists := l }.record ev).wakeLog now key)
  | park (key : String) (timeout : Option Nat) (he : s.lists.items key = [])
      (hr : s.replaying = false) :
      ActEffect s now q .suspended (s.block now key q.origin timeout)
        [.parked key (s.waiters.block key q.origin (timeout.bind (Clock.later? now))).1 now]

/-- An action that always completes and keeps the lists and the blocked pops has no events. -/
theorem ActEffect.of_quiet {s : Server} {now : Instant} {q : Request}
    (h : ∀ o s', s.act now q = .ok (o, s') →
      ∃ v, o = .completed v ∧ KeepsBlocking s s' ∧ s'.lists = s.lists)
    (hlog : s.actLog now q = []) :
    ActEffect s now q (s.perform now q).1 (s.perform now q).2 (s.actLog now q) := by
  rw [hlog]
  unfold perform
  rcases hact : s.act now q with e | ⟨o, s'⟩
  · exact .quiet (.refl s) rfl
  · obtain ⟨v, rfl, hk, hl⟩ := h o s' hact
    exact .quiet hk hl

theorem push_effect (front : Bool) (s : Server) (now : Instant) {q : Request}
    (hq : q.action = if front then .lpush else .rpush) :
    ActEffect s now q (s.perform now q).1 (s.perform now q).2 (s.actLog now q) := by
  obtain ⟨origin, a, args⟩ := q
  dsimp only at hq
  subst hq
  rcases args with _ | ⟨key, _ | ⟨item, rest⟩⟩
  · cases front <;> exact .quiet (.refl s) rfl
  · cases front <;> exact .quiet (.refl s) rfl
  · cases front
    · exact .push key _ _ fun k hk => by rw [Lists.items_insert, if_neg hk]
    · exact .push key _ _ fun k hk => by rw [Lists.items_insert, if_neg hk]

theorem lpop_effect (s : Server) (now : Instant) {q : Request} (hq : q.action = .lpop) :
    ActEffect s now q (s.perform now q).1 (s.perform now q).2 (s.actLog now q) := by
  have hlog : s.actLog now q = [] := by
    obtain ⟨origin, a, args⟩ := q
    dsimp only at hq
    subst hq
    rcases args with _ | ⟨_, _ | ⟨_, _⟩⟩ <;> rfl
  rw [hlog]
  cases hp : parseLPop q.args with
  | error e => simp [perform, act, hq, Server.lpop, hp]; exact .quiet (.refl s) rfl
  | ok v =>
    obtain ⟨key, count⟩ := v
    obtain ⟨o, s', hs, -, hw, -, hl, hr⟩ := s.lpop_spec now hp
    have hperf : s.perform now q = (o, s') := by simp [perform, act, hq, hs]
    -- LPOP completes, and recording touches nothing of the blocked pops
    obtain ⟨v, rfl⟩ : ∃ v, o = .completed v := by
      simp only [Server.lpop, hp, bind, Except.bind, pure, Except.pure] at hs
      exact ⟨_, (Prod.mk.inj (Except.ok.inj hs)).1.symm⟩
    have hk : KeepsBlocking s s' := by
      simp only [Server.lpop, hp, bind, Except.bind, pure, Except.pure, Except.ok.injEq,
        Prod.mk.injEq] at hs
      obtain ⟨-, rfl⟩ := hs
      refine ⟨hw, ?_, ?_, ?_, ?_⟩ <;> split_ifs <;> rfl
    rw [hperf]
    exact .pop key _ hk hl

theorem blpop_effect (s : Server) (now : Instant) {q : Request} (hq : q.action = .blpop) :
    ActEffect s now q (s.perform now q).1 (s.perform now q).2 (s.actLog now q) := by
  obtain ⟨origin, a, args⟩ := q
  dsimp only at hq
  subst hq
  rcases hp : parseBLPop args with e | ⟨key, timeout⟩
  · simp only [perform, act, Server.blpop, actLog, hp, bind, Except.bind]
    exact .quiet (.refl s) rfl
  rcases hl : s.lists.lpop key with ⟨_ | v, l⟩
  · have he : s.lists.items key = [] := by
      simpa [Lists.lpop_fst] using congrArg Prod.fst hl
    cases hr : s.replaying
    · simp only [perform, act, Server.blpop, actLog, hp, hl, hr, bind, Except.bind, pure,
        Except.pure, Bool.false_eq_true, if_false]
      exact .park key timeout he hr
    · simp only [perform, act, Server.blpop, actLog, hp, hl, hr, bind, Except.bind, pure,
        Except.pure, if_true]
      exact .quiet (.refl s) rfl
  · -- the pop takes the first item at once
    simp only [perform, act, Server.blpop, actLog, hp, hl, bind, Except.bind, pure, Except.pure]
    refine .pop key 1 ⟨rfl, rfl, rfl, rfl, rfl⟩ fun k => ?_
    show l.items k = _
    rw [← Lists.items_lpop, hl]

/-- What every action does to the lists and the blocked pops. -/
theorem perform_effect (s : Server) (now : Instant) (q : Request) :
    ActEffect s now q (s.perform now q).1 (s.perform now q).2 (s.actLog now q) := by
  obtain ⟨origin, a, args⟩ := q
  cases a
  case rpush => exact push_effect false s now rfl
  case lpush => exact push_effect true s now rfl
  case lpop => exact lpop_effect s now rfl
  case blpop => exact blpop_effect s now rfl
  -- every other action keeps the lists and the blocked pops
  all_goals
    refine ActEffect.of_quiet (fun o s' h => ?_) rfl
    simp only [act, ping, echo, Server.set, Server.get, Server.incr, lrange, llen, info, replconf,
      psync, bind, Except.bind, pure, Except.pure] at h
    repeat' split at h
    all_goals cases h
    all_goals exact ⟨_, rfl, ⟨rfl, rfl, rfl, rfl, rfl⟩, rfl⟩

/-! ## What a request does to the blocked pops -/

/-- The events of running queued actions in order, as EXEC does. -/
def replayLog (now : Instant) : List Request → Server → List PopEvent
  | [], _ => []
  | q :: qs, s => s.actLog now q ++ replayLog now qs (s.perform now q).2

/-- The events of MULTI, EXEC, DISCARD or an action: only EXEC's replay and an action have any. -/
def controlLog (s : Server) (now : Instant) (origin : ConnId) (args : List String) :
    Verb → List PopEvent
  | .exec =>
    if !args.isEmpty then []
    else
      match s.transactions.exec? origin with
      | none => []
      | some (queued, transactions) =>
        replayLog now queued { s with transactions, replaying := true }
  | .action a => s.actLog now { origin, action := a, args }
  | _ => []

/-- The events of answering a request frame: none for a refused or a queued request. -/
def executeLog (s : Server) (now : Instant) (origin : ConnId) (frame : Value) : List PopEvent :=
  match Command.ofFrame origin frame with
  | .error _ => []
  | .ok c =>
    if !c.hasArity then []
    else
      match s.transactions.enqueue? c with
      | some _ => []
      | none => s.controlLog now c.origin c.args c.verb

section Induction

/-! A relation between a server, the events of some work and the server after it, that holds of
every action's effect and of every change of the transaction queues, and that composes, holds of
every request with its events. -/

variable {R : Server → List PopEvent → Server → Prop}
  (quiet : ∀ {s s' : Server}, KeepsBlocking s s' → s'.lists = s.lists → R s [] s')
  (trans : ∀ {s₁ s₂ s₃ : Server} {L₁ L₂ : List PopEvent}, R s₁ L₁ s₂ → R s₂ L₂ s₃ →
    R s₁ (L₁ ++ L₂) s₃)
  (act : ∀ {s s' : Server} {now : Instant} {q : Request} {o : Outcome} {L : List PopEvent},
    ActEffect s now q o s' L → R s L s')
include quiet trans act

theorem replay_induction (now : Instant) : ∀ (qs : List Request) (s : Server),
    R s (replayLog now qs s) (replay now qs s).2
  | [], s => quiet (.refl s) rfl
  | q :: qs, s => trans (act (perform_effect s now q)) (replay_induction now qs (s.perform now q).2)

theorem run_induction (s : Server) (now : Instant) (c : Command) :
    R s (s.controlLog now c.origin c.args c.verb) (s.run now c).2 := by
  obtain ⟨origin, verb, args⟩ := c
  cases verb with
  | action a => exact act (perform_effect s now { origin, action := a, args })
  | multi =>
    cases ha : args.isEmpty
    · simp only [run, control, controlLog, ha, Bool.false_eq_true, if_false]
      exact quiet (.refl s) rfl
    · simp only [run, control, controlLog, ha, if_true]
      exact quiet ⟨rfl, rfl, rfl, rfl, rfl⟩ rfl
  | discard =>
    cases ha : args.isEmpty
    · simp only [run, control, controlLog, ha, Bool.not_false, if_true]
      exact quiet (.refl s) rfl
    · cases hd : s.transactions.discard? origin
      · simp only [run, control, controlLog, ha, hd, Bool.not_true, Bool.false_eq_true, if_false]
        exact quiet (.refl s) rfl
      · simp only [run, control, controlLog, ha, hd, Bool.not_true, Bool.false_eq_true, if_false]
        exact quiet ⟨rfl, rfl, rfl, rfl, rfl⟩ rfl
  | exec =>
    cases ha : args.isEmpty
    · simp only [run, control, controlLog, ha, Bool.not_false, if_true]
      exact quiet (.refl s) rfl
    · cases hx : s.transactions.exec? origin with
      | none =>
        simp only [run, control, controlLog, ha, hx, Bool.not_true, Bool.false_eq_true, if_false]
        exact quiet (.refl s) rfl
      | some p =>
        obtain ⟨queued, transactions⟩ := p
        simp only [run, control, controlLog, ha, hx, Bool.not_true, Bool.false_eq_true, if_false]
        -- the queue is replayed with the flag set, which is cleared afterwards
        have h := trans (trans (@quiet s { s with transactions, replaying := true }
          ⟨rfl, rfl, rfl, rfl, rfl⟩ rfl) (replay_induction quiet trans act now queued _))
          (@quiet _ { (replay now queued { s with transactions, replaying := true }).2 with
            replaying := false } ⟨rfl, rfl, rfl, rfl, rfl⟩ rfl)
        simpa using h

/-- Every request relates the server before it, its events and the server after it. -/
theorem execute_induction (s : Server) (now : Instant) (origin : ConnId) (frame : Value) :
    R s (s.executeLog now origin frame) (s.execute now origin frame).2 := by
  cases hc : Command.ofFrame origin frame with
  | error e =>
    simp only [execute, executeLog, hc]
    exact quiet (.refl s) rfl
  | ok c =>
    cases ha : c.hasArity
    · simp only [execute, executeLog, hc, ha, Bool.not_false, if_true]
      exact quiet (.refl s) rfl
    · cases hq : s.transactions.enqueue? c
      · simp only [execute, executeLog, hc, ha, hq, Bool.not_true, Bool.false_eq_true, if_false]
        exact run_induction quiet trans act s now c
      · simp only [execute, executeLog, hc, ha, hq, Bool.not_true, Bool.false_eq_true, if_false]
        exact quiet ⟨rfl, rfl, rfl, rfl, rfl⟩ rfl

end Induction

/-! ## Runs -/

/-- What happens to a server from outside: a request frame from a connection at an instant, a
connection opening or closing, or the timers due at an instant firing. -/
inductive Op where
  | execute (now : Instant) (origin : ConnId) (frame : Value)
  | opened
  | closed (conn : ConnId)
  | timers (now : Instant)

/-- The server after an operation. -/
def step (s : Server) : Op → Server
  | .execute now origin frame => (s.execute now origin frame).2
  | .opened => s.connectionOpened.2
  | .closed c => s.connectionClosed c
  | .timers now => (s.runTimers now).2

/-- The events of firing timer tasks in order at `now`: a block's timeout takes it off its queue. -/
def fireLog (now : Instant) : List TimerTask → Server → List PopEvent
  | [], _ => []
  | t :: ts, s =>
    (match t with
      | .blockTimeout key id => s.expireLog now key id
      | .reconnectMaster => []) ++ fireLog now ts (s.fire t)

/-- The events of an operation. -/
def stepLog (s : Server) : Op → List PopEvent
  | .execute now origin frame => s.executeLog now origin frame
  | .opened | .closed _ => []
  | .timers now => fireLog now (s.dueTimers now).1 (s.dueTimers now).2

/-- The server after a run of operations. -/
def runOps (s : Server) : List Op → Server
  | [] => s
  | op :: ops => (s.step op).runOps ops

/-- The events of a run of operations, in order. -/
def history (s : Server) : List Op → List PopEvent
  | [] => []
  | op :: ops => s.stepLog op ++ (s.step op).history ops

/-! ## A pop waits only on an empty list -/

/-- Every key has no data or no waiting pop. -/
def WaitsOnEmpty (s : Server) : Prop :=
  ∀ key, s.lists.items key = [] ∨ s.waiters.queue key = []

/-- The invariant survives a step that adds data to no key and adds waiting pops only to keys
left with no data. -/
theorem WaitsOnEmpty.of_shrink {s s' : Server} (h : s.WaitsOnEmpty)
    (hl : ∀ k, s.lists.items k = [] → s'.lists.items k = [])
    (hq : ∀ k, s'.waiters.queue k ≠ [] → s.waiters.queue k ≠ [] ∨ s'.lists.items k = []) :
    s'.WaitsOnEmpty := by
  intro k
  by_cases hk : s'.lists.items k = []
  · exact .inl hk
  · right
    by_contra hne
    rcases hq k hne with hq | hq
    · rcases h k with h | h
      · exact hk (hl k h)
      · exact hq h
    · exact hk hq

theorem WaitsOnEmpty.congr {s s' : Server} (h : s.WaitsOnEmpty) (hl : s'.lists = s.lists)
    (hw : s'.waiters = s.waiters) : s'.WaitsOnEmpty := by
  intro k
  rw [hl, hw]
  exact h k

theorem WaitsOnEmpty.of_keeps {s s' : Server} (h : s.WaitsOnEmpty) (hk : KeepsBlocking s s')
    (hl : s'.lists = s.lists) : s'.WaitsOnEmpty :=
  h.of_shrink (fun k hk' => by rwa [hl]) (fun k hne => .inl (by rwa [hk.waiters] at hne))

/-- Step lemma: every action keeps the invariant. A push may leave data on its key only once
its wake has served every waiting pop there. -/
theorem ActEffect.waitsOnEmpty {s s' : Server} {now : Instant} {q : Request} {o : Outcome}
    {L : List PopEvent} (he : ActEffect s now q o s' L) (h : s.WaitsOnEmpty) : s'.WaitsOnEmpty := by
  cases he with
  | quiet hk hl => exact h.of_keeps hk hl
  | pop key n hk hl =>
    refine h.of_shrink (fun k hk' => ?_) (fun k hne => .inl (by rwa [hk.waiters] at hne))
    rw [hl k]
    split <;> simp_all
  | push key l ev hl =>
    intro k
    by_cases hk : key = k
    · subst hk
      exact wake_settles _ now key
    · obtain ⟨hi, hq⟩ := wake_of_ne ({ s with lists := l }.record ev) now key hk
      rw [hi, hq]
      simpa [hl k hk] using h k
  | park key timeout he hr =>
    refine h.of_shrink (fun k hk => hk) (fun k hne => ?_)
    rw [queue_block] at hne
    by_cases hk : key = k
    · subst hk
      exact .inr he
    · rw [if_neg hk] at hne
      exact .inl hne

theorem execute_waitsOnEmpty (s : Server) (now : Instant) (origin : ConnId) (frame : Value)
    (h : s.WaitsOnEmpty) : (s.execute now origin frame).2.WaitsOnEmpty :=
  execute_induction (R := fun s _ s' => s.WaitsOnEmpty → s'.WaitsOnEmpty)
    (fun hk hl h => h.of_keeps hk hl) (fun h₁ h₂ h => h₂ (h₁ h))
    (fun he h => he.waitsOnEmpty h) s now origin frame h

theorem fire_waitsOnEmpty (s : Server) (t : TimerTask) (h : s.WaitsOnEmpty) :
    (s.fire t).WaitsOnEmpty := by
  cases t with
  | blockTimeout key id =>
    refine h.of_shrink (fun k hk => by simpa [fire] using hk) (fun k hne => .inl ?_)
    simp only [fire, queue_expireBlock] at hne
    split at hne
    · subst key
      intro h0
      exact hne (by simp [h0])
    · exact hne
  | reconnectMaster => exact h.of_keeps ⟨rfl, rfl, rfl, rfl, rfl⟩ rfl

theorem runTimers_waitsOnEmpty (s : Server) (now : Instant) (h : s.WaitsOnEmpty) :
    (s.runTimers now).2.WaitsOnEmpty := by
  have hd : (s.dueTimers now).2.WaitsOnEmpty := h.congr rfl rfl
  simp only [runTimers]
  -- the due tasks fire one after another
  generalize (s.dueTimers now).1 = tasks
  generalize (s.dueTimers now).2 = s₁ at hd
  induction tasks generalizing s₁ with
  | nil => exact hd
  | cons t ts ih => exact ih _ (fire_waitsOnEmpty s₁ t hd)

/-- Run lemma: every run of operations keeps the invariant. -/
theorem runOps_waitsOnEmpty : ∀ (ops : List Op) (s : Server), s.WaitsOnEmpty →
    (s.runOps ops).WaitsOnEmpty
  | [], _, h => h
  | op :: ops, s, h => by
    refine runOps_waitsOnEmpty ops _ ?_
    cases op with
    | execute now origin frame => exact execute_waitsOnEmpty s now origin frame h
    | opened | closed c => exact h.congr rfl rfl
    | timers now => exact runTimers_waitsOnEmpty s now h

theorem new_waitsOnEmpty (role : Role) (port : UInt16) : (Server.new role port).WaitsOnEmpty :=
  fun _ => .inl (by simp [Server.new, Lists.items])

/-- In every state a fresh server reaches, through requests from any connections, connections
opening and closing and timers firing at any instants, a key whose list holds data has no pop
waiting on it. -/
theorem waiting_only_on_empty_lists (role : Role) (port : UInt16) (ops : List Op) (key : String)
    (h : 0 < ((Server.new role port).runOps ops).lists.llen key) :
    ((Server.new role port).runOps ops).waiters.waiting key = 0 := by
  rcases runOps_waitsOnEmpty ops _ (new_waitsOnEmpty role port) key with he | he
  · simp [Lists.llen, he] at h
  · simp [Waiters.waiting, he]

/-- A fresh master after one RPUSH holds data, and nothing waits on it. -/
theorem pushed_list_has_no_waiting_pop :
    let s := (Server.new .master 6379).runOps [.execute 0 1 (Value.command ["RPUSH", "k", "v"])]
    0 < s.lists.llen "k" ∧ s.waiters.waiting "k" = 0 := by
  intro s
  have hq : ({ origin := 1, action := .rpush, args := ["k", "v"] } : Request).toValue =
      Value.command ["RPUSH", "k", "v"] := Request.toValue_of_keyword (by decide) 1 ["k", "v"]
  have hidle : (Server.new .master 6379).transactions.isActive 1 = false := by
    simp [Server.new, Transactions.isActive]
  -- the push appends `v` and wakes a key no pop waits on
  have hs : s = ({ Server.new .master 6379 with
      lists := ((Server.new .master 6379).lists.rpush "k" ["v"]).2 }.record
        (Value.command ["RPUSH", "k", "v"])).wake 0 "k" := by
    show ((Server.new .master 6379).execute 0 1 (Value.command ["RPUSH", "k", "v"])).2 = _
    rw [← hq, execute_request hidle (by simp [Command.hasArity, Request.toCommand, Verb.arity])]
    simp [perform, act, push]
  have hllen : 0 < s.lists.llen "k" := by
    rw [hs, Lists.llen, (wake_of_idle (fun _ => by simp [Server.new, Waiters.queue]) 0 "k").2.1,
      record_lists]
    simp only [Lists.items_rpush, if_true, List.length_append]
    simp
  exact ⟨hllen, waiting_only_on_empty_lists .master 6379 _ "k" hllen⟩

end Server

end KvServer
