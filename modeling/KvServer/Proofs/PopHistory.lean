import Mathlib
import KvServer.Proofs.BlockedPops

/-!
# Every blocked pop is answered once, in its turn

The history of a run (`Server.history`) records every block parked and every block leaving its
queue. `Server.PopHistory s₀ h s` says what that history `h`, started from `s₀`, tells of the
server `s` it led to: the blocks still waiting are exactly those registered and not yet gone, the
replies queued are exactly those of the departures, no block leaves twice, each leaves with the fate
its deadline and connection call for, and a push serves a block only after every older block of its
key has gone. Every step keeps it: a quiet step, a push's wake and a timer take blocks off
(`PopHistory.depart`), and a blocking pop parks one (`PopHistory.park`).

From a fresh server this gives the two statements of the module: a blocked pop gets at most one
reply, an item strictly before its deadline or null at or after it, and a block with no deadline
has no timer (`Server.blocked_pop_answered_once`); and the blocks of a key are served in the order
they were registered, from the front of the list (`Server.pops_served_in_turn`).
-/

namespace KvServer

/-! ## Reading the history -/

namespace PopEvent

/-- The key and block an event parks. -/
def parked? : PopEvent → Option (String × Block)
  | .parked key b _ => some (key, b)
  | .departed _ => none

/-- The departure an event records. -/
def departure? : PopEvent → Option Departure
  | .parked .. => none
  | .departed d => some d

/-- The blocks a history parks, with their keys, in order. -/
def parks (h : List PopEvent) : List (String × Block) :=
  h.filterMap parked?

/-- The departures of a history, in order. -/
def departures (h : List PopEvent) : List Departure :=
  h.filterMap departure?

@[simp] theorem parks_append (h₁ h₂ : List PopEvent) : parks (h₁ ++ h₂) = parks h₁ ++ parks h₂ :=
  List.filterMap_append

@[simp] theorem departures_append (h₁ h₂ : List PopEvent) :
    departures (h₁ ++ h₂) = departures h₁ ++ departures h₂ :=
  List.filterMap_append

@[simp] theorem parks_parked (key : String) (b : Block) (t : Instant) :
    parks [.parked key b t] = [(key, b)] := rfl

@[simp] theorem departures_parked (key : String) (b : Block) (t : Instant) :
    departures [.parked key b t] = [] := rfl

theorem mem_departures {h : List PopEvent} {d : Departure} :
    d ∈ departures h ↔ .departed d ∈ h := by
  simp only [departures, List.mem_filterMap]
  constructor
  · rintro ⟨e, he, hd⟩
    cases e with
    | parked => cases hd
    | departed d' => cases hd; exact he
  · exact fun h => ⟨_, h, rfl⟩

/-- A departure of the history stands at some index of it. -/
theorem exists_index_of_departure {h : List PopEvent} {d : Departure} (hd : d ∈ departures h) :
    ∃ j < h.length, h[j]? = some (.departed d) := by
  obtain ⟨j, hj⟩ := List.mem_iff_getElem?.1 (mem_departures.1 hd)
  exact ⟨j, (List.getElem?_eq_some_iff.1 hj).1, hj⟩

end PopEvent

open PopEvent

/-- The fate of a departure agrees with the block's deadline and connection: a pop is served only
while its connection is open and strictly before its deadline, answered null only at or after
its deadline, and dropped only when its connection has closed. -/
def Departure.Sound (d : Departure) : Prop :=
  match d.fate with
  | .served _ => d.live = true ∧ ∀ D, d.block.deadline = some D → d.time < D
  | .timedOut => d.live = true ∧ ∃ D, d.block.deadline = some D ∧ D ≤ d.time
  | .expired => ∃ D, d.block.deadline = some D ∧ D ≤ d.time
  | .dropped => d.live = false

/-- A block a push reaches leaves with a sound fate. -/
theorem Departure.sound_of_fits {key : String} {b : Block} {f : Fate} {live : Bool} {now : Instant}
    (hf : f.Fits live (b.deadline.any (· ≤ now))) : Departure.Sound ⟨key, b, f, live, now⟩ := by
  cases f <;> cases hb : b.deadline <;> simp_all [Fate.Fits, Departure.Sound]

namespace Waiters

/-- A timer for block `id` of `key` firing at `T` agrees with the queues: if that block still
waits, it waits on `key` with deadline `T`. -/
def TimerAgrees (w : Waiters) (key : String) (id : Nat) (T : Instant) : Prop :=
  ∀ k b, b ∈ w.queue k → b.id = id → k = key ∧ b.deadline = some T

/-- Taking blocks off the queues keeps a timer's agreement. -/
theorem TimerAgrees.mono {w w' : Waiters} {key : String} {id : Nat} {T : Instant}
    (h : w.TimerAgrees key id T) (hsub : ∀ k, (w'.queue k).Sublist (w.queue k)) :
    w'.TimerAgrees key id T :=
  fun k b hb hid => h k b ((hsub k).subset hb) hid

end Waiters

/-- A timer put into the queue is there, beside every timer that was. -/
theorem TimerQueue.mem_insert {α : Type} (u t : Timer α) :
    ∀ ts : List (Timer α), t ∈ TimerQueue.insert u ts ↔ t = u ∨ t ∈ ts
  | [] => by simp [TimerQueue.insert]
  | v :: vs => by
    unfold TimerQueue.insert
    split
    · exact List.mem_cons
    · rw [List.mem_cons, mem_insert u t vs, List.mem_cons]
      tauto

/-! ## Queues in the order of their ids -/

section Sorted

variable {q : List Block}

/-- In a queue sorted by id, a block below the one at `p` stands before it. -/
theorem exists_index_of_id_lt (hq : q.Pairwise (·.id < ·.id)) {b : Block} (hb : b ∈ q) {p : Nat}
    (hp : p < q.length) (hlt : b.id < q[p].id) : ∃ m < p, q[m]? = some b := by
  obtain ⟨m, hm⟩ := List.mem_iff_getElem?.1 hb
  obtain ⟨hml, rfl⟩ := List.getElem?_eq_some_iff.1 hm
  refine ⟨m, ?_, hm⟩
  by_contra hge
  rcases Nat.lt_or_eq_of_le (Nat.le_of_not_lt hge) with hpm | rfl
  · exact absurd (List.pairwise_iff_getElem.1 hq p m hp hml hpm) (by omega)
  · omega

/-- A block of a sorted queue is left after the first `n` exactly when no block among them has
its id. -/
theorem mem_drop_iff_of_sorted (hq : q.Pairwise (·.id < ·.id)) (n : Nat) (b : Block) :
    b ∈ q.drop n ↔ b ∈ q ∧ ∀ b' ∈ q.take n, b'.id ≠ b.id := by
  have hsplit := hq
  rw [← List.take_append_drop n q, List.pairwise_append] at hsplit
  constructor
  · intro hb
    exact ⟨List.mem_of_mem_drop hb, fun b' hb' => Nat.ne_of_lt (hsplit.2.2 b' hb' b hb)⟩
  · rintro ⟨hb, hne⟩
    rw [← List.take_append_drop n q, List.mem_append] at hb
    exact hb.resolve_left fun ht => hne b ht rfl

theorem nodup_ids_of_sorted (hq : q.Pairwise (·.id < ·.id)) : (q.map (·.id)).Nodup :=
  List.pairwise_map.2 (hq.imp Nat.ne_of_lt)

end Sorted

namespace Server

/-! ## The invariant -/

/-- Block `b` waits on `key` in `s₀` or is parked there by an event of `h`. -/
def Registered (s₀ : Server) (h : List PopEvent) (key : String) (b : Block) : Prop :=
  b ∈ s₀.waiters.queue key ∨ (key, b) ∈ parks h

/-- The blocked pops of `s` are in good order: each queue holds its blocks by increasing id, every
id is below the next one to be given and names one block, and every block timeout names an id
already given and agrees with the queues. -/
structure Orderly (s : Server) : Prop where
  sorted : ∀ key, (s.waiters.queue key).Pairwise (·.id < ·.id)
  below : ∀ key, ∀ b ∈ s.waiters.queue key, b.id < s.waiters.nextId
  unique : ∀ k₁ k₂ b₁ b₂, b₁ ∈ s.waiters.queue k₁ → b₂ ∈ s.waiters.queue k₂ → b₁.id = b₂.id →
    k₁ = k₂ ∧ b₁ = b₂
  timers : ∀ t ∈ s.timers.timers, ∀ key id, t.task = .blockTimeout key id →
    id < s.waiters.nextId ∧ s.waiters.TimerAgrees key id t.deadline

/-- What the history `h` of the blocked pops, started from `s₀`, says of the server `s` it led to.
Blocks are numbered in the order they are registered, the blocks waiting are those registered and
not gone, each queued reply is a departure's, no block leaves twice, every departure is sound, and
a served block left only after every older block of its key. -/
structure PopHistory (s₀ : Server) (h : List PopEvent) (s : Server) : Prop where
  sorted : ∀ key, (s.waiters.queue key).Pairwise (·.id < ·.id)
  timers : ∀ t ∈ s.timers.timers, ∀ key id, t.task = .blockTimeout key id →
    id < s.waiters.nextId ∧ s.waiters.TimerAgrees key id t.deadline
  outbox : s.outbox = s₀.outbox ++ h.filterMap PopEvent.delivery?
  below : ∀ k b, s₀.Registered h k b → b.id < s.waiters.nextId
  unique : ∀ k₁ k₂ b₁ b₂, s₀.Registered h k₁ b₁ → s₀.Registered h k₂ b₂ → b₁.id = b₂.id →
    k₁ = k₂ ∧ b₁ = b₂
  parksSorted : (parks h).Pairwise (·.2.id < ·.2.id)
  waiting : ∀ k b, b ∈ s.waiters.queue k ↔
    s₀.Registered h k b ∧ ∀ d ∈ departures h, d.block.id ≠ b.id
  departed : ∀ d ∈ departures h, s₀.Registered h d.key d.block
  once : ((departures h).map (·.block.id)).Nodup
  sound : ∀ d ∈ departures h, d.Sound
  inTurn : ∀ (i : Nat) (d₂ : Departure) (v₂ : String), h[i]? = some (.departed d₂) →
    d₂.fate = .served v₂ →
    ∀ b₁, s₀.Registered h d₂.key b₁ → b₁.id < d₂.block.id →
      ∃ j < i, ∃ d₁, h[j]? = some (.departed d₁) ∧ d₁.block.id = b₁.id

/-- The departures of a wake: the blocks serving reaches, in queue order, each with its fate. -/
theorem departures_wakeLog (s : Server) (now : Instant) (key : String) :
    departures (s.wakeLog now key) =
      (Waiters.serveLog s.isLive now (s.waiters.queue key) (s.lists.items key)).map
        fun p => ⟨key, p.1, p.2, s.isLive p.1.conn, now⟩ := by
  simp [wakeLog, departures, List.filterMap_map, departure?, Function.comp_def]

namespace PopHistory

variable {s₀ s s' : Server} {h L : List PopEvent}

/-- Run lemma, base: an orderly server is where its empty history leads. -/
theorem start (hs : s.Orderly) : s.PopHistory [] s where
  sorted := hs.sorted
  timers := hs.timers
  outbox := by simp
  below k b hb := hs.below k b (by simpa [Registered, parks] using hb)
  unique k₁ k₂ b₁ b₂ h₁ h₂ := hs.unique k₁ k₂ b₁ b₂ (by simpa [Registered, parks] using h₁)
    (by simpa [Registered, parks] using h₂)
  parksSorted := by simp [parks]
  waiting k b := by simp [Registered, parks, departures]
  departed := by simp [departures]
  once := by simp [departures]
  sound := by simp [departures]
  inTurn := by simp

theorem lt_nextId (ht : s₀.PopHistory h s) {k : String} {b : Block} (hb : b ∈ s.waiters.queue k) :
    b.id < s.waiters.nextId :=
  ht.below k b ((ht.waiting k b).1 hb).1

/-- A departed block's id is below the next one to be given. -/
theorem departed_lt_nextId (ht : s₀.PopHistory h s) {d : Departure} (hd : d ∈ departures h) :
    d.block.id < s.waiters.nextId :=
  ht.below _ _ (ht.departed d hd)

/-- Blocks waiting on two keys with one id are one block on one key. -/
theorem waiting_unique (ht : s₀.PopHistory h s) {k₁ k₂ : String} {b₁ b₂ : Block}
    (h₁ : b₁ ∈ s.waiters.queue k₁) (h₂ : b₂ ∈ s.waiters.queue k₂) (hid : b₁.id = b₂.id) :
    k₁ = k₂ ∧ b₁ = b₂ :=
  ht.unique k₁ k₂ b₁ b₂ ((ht.waiting k₁ b₁).1 h₁).1 ((ht.waiting k₂ b₂).1 h₂).1 hid

/-- The server a history leads to is orderly. -/
theorem orderly (ht : s₀.PopHistory h s) : s.Orderly where
  sorted := ht.sorted
  below _ _ hb := ht.lt_nextId hb
  unique _ _ _ _ h₁ h₂ hid := ht.waiting_unique h₁ h₂ hid
  timers := ht.timers

/-- A step that keeps the blocked pops and the replies and only drops timers keeps the invariant. -/
theorem of_timers_sub (ht : s₀.PopHistory h s) (hw : s'.waiters = s.waiters)
    (htm : ∀ t ∈ s'.timers.timers, t ∈ s.timers.timers) (ho : s'.outbox = s.outbox) :
    s₀.PopHistory h s' where
  sorted := hw ▸ ht.sorted
  timers t ht' := hw ▸ ht.timers t (htm t ht')
  outbox := ho ▸ ht.outbox
  below := hw ▸ ht.below
  unique := ht.unique
  parksSorted := ht.parksSorted
  waiting := hw ▸ ht.waiting
  departed := ht.departed
  once := ht.once
  sound := ht.sound
  inTurn := ht.inTurn

theorem congr (ht : s₀.PopHistory h s) (hw : s'.waiters = s.waiters) (htm : s'.timers = s.timers)
    (ho : s'.outbox = s.outbox) : s₀.PopHistory h s' :=
  ht.of_timers_sub hw (fun _ h => htm ▸ h) ho

/-! ## Blocks leaving -/

/-- Step lemma for blocks leaving. A step that parks nothing, takes off the queues exactly the
blocks of its departures, each of them waiting, leaving once and soundly, serves a block only
after the older blocks of its queue have left, and queues exactly their replies, keeps the
invariant. -/
theorem depart (ht : s₀.PopHistory h s) (hp : parks L = [])
    (hsub : ∀ k, (s'.waiters.queue k).Sublist (s.waiters.queue k))
    (hq : ∀ k b, b ∈ s'.waiters.queue k ↔
      b ∈ s.waiters.queue k ∧ ∀ d ∈ departures L, d.block.id ≠ b.id)
    (hd : ∀ d ∈ departures L, d.block ∈ s.waiters.queue d.key ∧ d.Sound)
    (hnd : ((departures L).map (·.block.id)).Nodup)
    (hturn : ∀ (p : Nat) (d₂ : Departure) (v₂ : String), L[p]? = some (.departed d₂) →
      d₂.fate = .served v₂ → ∀ b₁ ∈ s.waiters.queue d₂.key, b₁.id < d₂.block.id →
        ∃ m < p, ∃ d₁, L[m]? = some (.departed d₁) ∧ d₁.block.id = b₁.id)
    (hout : s'.outbox = s.outbox ++ L.filterMap PopEvent.delivery?)
    (hnext : s'.waiters.nextId = s.waiters.nextId) (htm : s'.timers = s.timers) :
    s₀.PopHistory (h ++ L) s' := by
  have hreg : ∀ k b, s₀.Registered (h ++ L) k b ↔ s₀.Registered h k b := by
    simp [Registered, hp]
  -- the blocks leaving were waiting: registered, and not gone before
  have hleave : ∀ d ∈ departures L, s₀.Registered h d.key d.block ∧
      ∀ d' ∈ departures h, d'.block.id ≠ d.block.id :=
    fun d hdL => (ht.waiting _ _).1 (hd d hdL).1
  refine
    { sorted := fun k => (ht.sorted k).sublist (hsub k)
      timers := fun t hmem key id htask => ?_
      outbox := by rw [hout, ht.outbox, List.filterMap_append, List.append_assoc]
      below := fun k b hb => hnext ▸ ht.below k b ((hreg k b).1 hb)
      unique := fun k₁ k₂ b₁ b₂ h₁ h₂ =>
        ht.unique k₁ k₂ b₁ b₂ ((hreg _ _).1 h₁) ((hreg _ _).1 h₂)
      parksSorted := by simpa [hp] using ht.parksSorted
      waiting := fun k b => ?_
      departed := fun d hdm => ?_
      once := ?_
      sound := fun d hdm => ?_
      inTurn := ?_ }
  · rw [htm] at hmem
    obtain ⟨hlt, hagree⟩ := ht.timers t hmem key id htask
    exact ⟨hnext ▸ hlt, hagree.mono hsub⟩
  · rw [hq, ht.waiting, hreg, departures_append]
    simp only [List.mem_append, or_imp, forall_and, and_assoc]
  · rw [departures_append, List.mem_append] at hdm
    rcases hdm with hdm | hdm
    · exact (hreg _ _).2 (ht.departed d hdm)
    · exact (hreg _ _).2 (hleave d hdm).1
  · rw [departures_append, List.map_append, List.nodup_append]
    refine ⟨ht.once, hnd, ?_⟩
    simp only [List.mem_map]
    rintro _ ⟨d', hd', rfl⟩ _ ⟨d, hdL, rfl⟩
    exact (hleave d hdL).2 d' hd'
  · rw [departures_append, List.mem_append] at hdm
    exact hdm.elim (ht.sound d) fun hdL => (hd d hdL).2
  · intro i d₂ v₂ hi hf b₁ hr hlt
    rw [hreg] at hr
    by_cases hih : i < h.length
    · rw [List.getElem?_append_left hih] at hi
      obtain ⟨j, hj, d₁, hd₁, hid⟩ := ht.inTurn i d₂ v₂ hi hf b₁ hr hlt
      exact ⟨j, hj, d₁, by rw [List.getElem?_append_left (by omega)]; exact hd₁, hid⟩
    rw [List.getElem?_append_right (by omega)] at hi
    by_cases hgone : ∃ d ∈ departures h, d.block.id = b₁.id
    · -- `b₁` left before the step
      obtain ⟨d₁, hd₁, hid⟩ := hgone
      obtain ⟨j, hj, hjd⟩ := exists_index_of_departure hd₁
      exact ⟨j, by omega, d₁, by rw [List.getElem?_append_left hj]; exact hjd, hid⟩
    · -- `b₁` still waited, so the step took it off first
      push Not at hgone
      obtain ⟨m, hm, d₁, hd₁, hid⟩ :=
        hturn _ d₂ v₂ hi hf b₁ ((ht.waiting _ _).2 ⟨hr, hgone⟩) hlt
      refine ⟨h.length + m, by omega, d₁, ?_, hid⟩
      rw [List.getElem?_append_right (by omega)]
      simpa using hd₁

/-- Step lemma: a push's wake keeps the invariant. Its departures are the front of the key's
queue, in order. -/
theorem wake (ht : s₀.PopHistory h s) (now : Instant) (key : String) :
    s₀.PopHistory (h ++ s.wakeLog now key) (s.wake now key) := by
  set q := s.waiters.queue key with hqdef
  set S := Waiters.serveLog s.isLive now q (s.lists.items key) with hS
  have hfront : S.map Prod.fst = q.take S.length := Waiters.serveLog_map_fst q _
  have hfront? : ∀ p, (S[p]?).map Prod.fst = (q.take S.length)[p]? := fun p => by
    rw [← List.getElem?_map, hfront]
  have hrest : (s.wake now key).waiters.queue key = q.drop S.length := by
    rw [queue_wake, if_pos rfl]
    exact (@Waiters.serve_eq_serveLog s.isLive now key q s.lists).2.1
  have hw : s.wakeLog now key = S.map fun p => .departed ⟨key, p.1, p.2, s.isLive p.1.conn, now⟩ :=
    rfl
  have hdeps := departures_wakeLog s now key
  have hblocks : (departures (s.wakeLog now key)).map (·.block) = q.take S.length := by
    rw [hdeps, List.map_map]
    exact hfront
  have hmemq : ∀ d ∈ departures (s.wakeLog now key), d.key = key ∧ d.block ∈ q := by
    intro d hd
    refine ⟨?_, List.mem_of_mem_take (hblocks ▸ List.mem_map_of_mem hd)⟩
    rw [hdeps, List.mem_map] at hd
    obtain ⟨_, -, rfl⟩ := hd
    rfl
  apply ht.depart (by simp [hw, parks, parked?])
  · intro k
    by_cases hk : key = k
    · subst hk
      rw [hrest]
      exact List.drop_sublist _ _
    · rw [queue_wake, if_neg hk]
  · intro k b
    by_cases hk : key = k
    · subst hk
      rw [hrest, mem_drop_iff_of_sorted (ht.sorted key), ← hblocks, List.forall_mem_map]
    · rw [queue_wake, if_neg hk]
      -- a block of another key shares no id with the blocks leaving `key`
      refine ⟨fun hb => ⟨hb, fun d hd hid => hk ?_⟩, And.left⟩
      obtain ⟨hkey, hdq⟩ := hmemq d hd
      exact (ht.waiting_unique hdq hb hid).1
  · intro d hd
    refine ⟨(hmemq d hd).1 ▸ (hmemq d hd).2, ?_⟩
    rw [hdeps, List.mem_map] at hd
    obtain ⟨⟨b, f⟩, hbf, rfl⟩ := hd
    exact Departure.sound_of_fits (Waiters.fate_of_mem_serveLog hbf)
  · have hids : (departures (s.wakeLog now key)).map (·.block.id) =
        ((departures (s.wakeLog now key)).map (·.block)).map (·.id) := by
      rw [List.map_map]
      rfl
    rw [hids, hblocks]
    exact nodup_ids_of_sorted ((ht.sorted key).sublist (List.take_sublist _ _))
  · intro p d₂ v₂ hp hf b₁ hb₁ hlt
    rw [hw, List.getElem?_map, Option.map_eq_some_iff] at hp
    obtain ⟨⟨b₂, f⟩, hx, hxd⟩ := hp
    cases hxd
    have hpn : p < S.length := (List.getElem?_eq_some_iff.1 hx).1
    -- `b₂` stands at `p` in the queue, and `b₁`, older, before it
    have hqp : q[p]? = some b₂ := by
      have := hfront? p
      rw [hx, List.getElem?_take, if_pos hpn] at this
      exact this.symm
    obtain ⟨hpq, hqp'⟩ := List.getElem?_eq_some_iff.1 hqp
    obtain ⟨m, hm, hbm⟩ := exists_index_of_id_lt (ht.sorted key) hb₁ hpq (by rw [hqp']; exact hlt)
    have hmS : (S[m]?).map Prod.fst = some b₁ := by
      rw [hfront? m, List.getElem?_take, if_pos (by omega)]
      exact hbm
    obtain ⟨⟨b, f'⟩, hy, rfl⟩ := Option.map_eq_some_iff.1 hmS
    exact ⟨m, hm, _, by rw [hw, List.getElem?_map, hy]; rfl, rfl⟩
  · exact wake_outbox s now key
  · exact nextId_wake s now key
  · exact wake_timers s now key

theorem expireBlock_sublist (s : Server) (key : String) (id : Nat) (k : String) :
    ((s.expireBlock key id).waiters.queue k).Sublist (s.waiters.queue k) := by
  rw [queue_expireBlock]
  split
  · subst key
    exact List.filter_sublist
  · exact List.Sublist.refl _

/-- Step lemma: a block timeout due at `now`, agreeing with the queues at a deadline `T ≤ now`,
keeps the invariant. The block, if it still waits, leaves expired, its deadline come; if it has
left already, the timer does nothing. -/
theorem expire (ht : s₀.PopHistory h s) {now T : Instant} {key : String} {id : Nat}
    (hT : T ≤ now) (ha : s.waiters.TimerAgrees key id T) :
    s₀.PopHistory (h ++ s.expireLog now key id) (s.expireBlock key id) := by
  cases hf : (s.waiters.queue key).find? (·.id = id) with
  | none =>
    have hlog : s.expireLog now key id = [] := by simp [expireLog, hf]
    have hsame : s.expireBlock key id = s := by
      have hfst := Waiters.expire_fst s.waiters key id
      rw [hf] at hfst
      unfold expireBlock
      rcases he : s.waiters.expire key id with ⟨_ | c, w⟩
      · rfl
      · simp [he] at hfst
    rw [hlog, hsame, List.append_nil]
    exact ht
  | some b =>
    have hb := List.mem_of_find?_eq_some hf
    have hbid : b.id = id := by simpa using List.find?_some hf
    have hlog : s.expireLog now key id = [.departed ⟨key, b, .expired, s.isLive b.conn, now⟩] := by
      simp [expireLog, hf]
    have hdeps : departures (s.expireLog now key id) =
        [⟨key, b, .expired, s.isLive b.conn, now⟩] := by
      rw [hlog]
      rfl
    apply ht.depart (by rw [hlog]; rfl) (expireBlock_sublist s key id)
    · intro k b'
      rw [queue_expireBlock, hdeps]
      by_cases hk : key = k
      · subst hk
        simp [hbid, ne_comm]
      · -- a block of another key does not have the timer's id
        rw [if_neg hk]
        refine ⟨fun hb' => ⟨hb', ?_⟩, And.left⟩
        simp only [List.mem_singleton, forall_eq, hbid]
        exact fun hid => hk (ha k b' hb' hid.symm).1.symm
    · rw [hdeps]
      simp only [List.mem_singleton, forall_eq]
      exact ⟨hb, ⟨T, (ha key b hb hbid).2, hT⟩⟩
    · rw [hdeps]
      exact List.nodup_singleton _
    · intro p d₂ v₂ hp hf₂
      rw [hlog, List.getElem?_singleton] at hp
      split at hp
      · cases hp
        cases hf₂
      · cases hp
    · exact expireBlock_outbox s now key id
    · simp
    · simp

/-! ## Blocks parking -/

/-- Step lemma: a blocking pop parking on `key` keeps the invariant. Its block takes the next id,
goes to the tail of the queue, and has a timer exactly when it has a deadline. -/
theorem park (ht : s₀.PopHistory h s) (now : Instant) (key : String) (c : ConnId)
    (timeout : Option Nat) :
    s₀.PopHistory
      (h ++ [.parked key (s.waiters.block key c (timeout.bind (Clock.later? now))).1 now])
      (s.block now key c timeout) := by
  obtain ⟨D, hD⟩ : ∃ D, timeout.bind (Clock.later? now) = D := ⟨_, rfl⟩
  set b : Block := { id := s.waiters.nextId, conn := c, deadline := D } with hb
  have hfst : (s.waiters.block key c (timeout.bind (Clock.later? now))).1 = b := by
    rw [Waiters.block_fst, hD]
  rw [hfst]
  have hmem : ∀ k b', b' ∈ (s.block now key c timeout).waiters.queue k ↔
      b' ∈ s.waiters.queue k ∨ (k = key ∧ b' = b) := by
    intro k b'
    rw [queue_block, hD]
    split
    · subst key
      simp [b]
    · simp_all [eq_comm]
  have hreg : ∀ k b', s₀.Registered (h ++ [.parked key b now]) k b' ↔
      s₀.Registered h k b' ∨ (k = key ∧ b' = b) := by
    intro k b'
    simp [Registered, or_assoc]
  have htimers : ∀ t ∈ (s.block now key c timeout).timers.timers, t ∈ s.timers.timers ∨
      ∃ T, D = some T ∧ t = ⟨T, s.timers.nextSeq, .blockTimeout key b.id⟩ := by
    intro t hmem
    simp only [block, hD] at hmem
    cases D with
    | none => exact .inl hmem
    | some T =>
      simp only [TimerQueue.registerAt, TimerQueue.mem_insert] at hmem
      exact hmem.symm.imp id fun h => ⟨T, rfl, h⟩
  -- every block registered so far has an id below the new one
  have hold : ∀ k b', s₀.Registered h k b' → b'.id < b.id := fun k b' hr => ht.below k b' hr
  have hgone : ∀ d ∈ departures h, d.block.id ≠ b.id :=
    fun d hd => Nat.ne_of_lt (ht.departed_lt_nextId hd)
  refine
    { sorted := fun k => ?_
      timers := fun t hmem' key' id htask => ?_
      outbox := by simp [ht.outbox, PopEvent.delivery?]
      below := fun k b' hr => ?_
      unique := fun k₁ k₂ b₁ b₂ h₁ h₂ hid => ?_
      parksSorted := ?_
      waiting := fun k b' => ?_
      departed := fun d hd => ?_
      once := by simpa using ht.once
      sound := by simpa using ht.sound
      inTurn := ?_ }
  · rw [queue_block, hD]
    split
    · subst key
      refine List.pairwise_append.2 ⟨ht.sorted k, List.pairwise_singleton _ _, ?_⟩
      simp only [List.mem_singleton, forall_eq]
      exact fun a ha => ht.lt_nextId ha
    · exact ht.sorted k
  · rw [block_waiters_nextId]
    rcases htimers t hmem' with hmem' | ⟨T, rfl, rfl⟩
    · -- an older timer names an older id than the new block's
      obtain ⟨hlt, hagree⟩ := ht.timers t hmem' key' id htask
      refine ⟨by omega, fun k b' hb' hid => ?_⟩
      rcases (hmem k b').1 hb' with hb' | ⟨-, rfl⟩
      · exact hagree k b' hb' hid
      · exact absurd hid (by simp [b]; omega)
    · -- the new timer names the new block, which has its deadline
      obtain ⟨rfl, rfl⟩ := TimerTask.blockTimeout.inj htask
      refine ⟨by simp [b], fun k b' hb' hid => ?_⟩
      rcases (hmem k b').1 hb' with hb' | ⟨rfl, rfl⟩
      · exact absurd hid (Nat.ne_of_lt (ht.lt_nextId hb'))
      · exact ⟨rfl, rfl⟩
  · rw [block_waiters_nextId]
    rcases (hreg k b').1 hr with hr | ⟨-, rfl⟩
    · exact Nat.lt_succ_of_lt (ht.below k b' hr)
    · exact Nat.lt_succ_self _
  · rcases (hreg _ _).1 h₁ with hr₁ | ⟨rfl, rfl⟩ <;> rcases (hreg _ _).1 h₂ with hr₂ | ⟨rfl, rfl⟩
    · exact ht.unique k₁ k₂ b₁ b₂ hr₁ hr₂ hid
    · exact absurd hid (Nat.ne_of_lt (hold _ _ hr₁))
    · exact absurd hid.symm (Nat.ne_of_lt (hold _ _ hr₂))
    · exact ⟨rfl, rfl⟩
  · rw [parks_append, parks_parked]
    refine List.pairwise_append.2 ⟨ht.parksSorted, List.pairwise_singleton _ _, ?_⟩
    simp only [List.mem_singleton, forall_eq]
    exact fun p hp => hold p.1 p.2 (.inr hp)
  · rw [hmem, hreg, departures_append, departures_parked, List.append_nil, ht.waiting]
    constructor
    · rintro (⟨hr, hnd⟩ | ⟨rfl, rfl⟩)
      · exact ⟨.inl hr, hnd⟩
      · exact ⟨.inr ⟨rfl, rfl⟩, hgone⟩
    · rintro ⟨hr | ⟨rfl, rfl⟩, hnd⟩
      · exact .inl ⟨hr, hnd⟩
      · exact .inr ⟨rfl, rfl⟩
  · rw [departures_append, departures_parked, List.append_nil] at hd
    exact (hreg _ _).2 (.inl (ht.departed d hd))
  · intro i d₂ v₂ hi hf b₁ hr hlt
    -- the new event parks, so the served block left within `h`
    have hih : i < h.length := by
      by_contra hge
      rw [List.getElem?_append_right (by omega), List.getElem?_singleton] at hi
      split at hi <;> cases hi
    rw [List.getElem?_append_left hih] at hi
    have hd₂ : d₂ ∈ departures h := mem_departures.2 (List.mem_of_getElem? hi)
    rcases (hreg _ _).1 hr with hr | ⟨-, rfl⟩
    · obtain ⟨j, hj, d₁, hd₁, hid⟩ := ht.inTurn i d₂ v₂ hi hf b₁ hr hlt
      exact ⟨j, hj, d₁, by rw [List.getElem?_append_left (by omega)]; exact hd₁, hid⟩
    · exact absurd hlt (Nat.not_lt_of_gt (ht.departed_lt_nextId hd₂))

/-! ## Whole requests and runs -/

/-- Step lemma: every action's effect keeps the invariant. -/
theorem act (ht : s₀.PopHistory h s) {now : Instant} {q : Request} {o : Outcome}
    (he : ActEffect s now q o s' L) : s₀.PopHistory (h ++ L) s' := by
  cases he with
  | quiet hk _ => simpa using ht.congr hk.waiters hk.timers hk.outbox
  | pop _ _ hk _ => simpa using ht.congr hk.waiters hk.timers hk.outbox
  | push key l ev _ =>
    have hr : s₀.PopHistory h ({ s with lists := l }.record ev) := ht.congr rfl rfl rfl
    exact hr.wake now key
  | park key timeout _ _ => exact ht.park now key q.origin timeout

theorem execute (ht : s₀.PopHistory h s) (now : Instant) (origin : ConnId) (frame : Value) :
    s₀.PopHistory (h ++ s.executeLog now origin frame) (s.execute now origin frame).2 :=
  execute_induction (R := fun s L s' => ∀ h, s₀.PopHistory h s → s₀.PopHistory (h ++ L) s')
    (fun hk _ h ht => by simpa using ht.congr hk.waiters hk.timers hk.outbox)
    (fun h₁ h₂ h ht => by simpa using h₂ _ (h₁ h ht))
    (fun he h ht => ht.act he) s now origin frame h ht

/-- Taking the due tasks keeps the invariant, and every due block timeout agrees with the queues
at a deadline no later than `now`. -/
theorem dueTimers (ht : s₀.PopHistory h s) (now : Instant) :
    s₀.PopHistory h (s.dueTimers now).2 ∧
      ∀ t ∈ (s.dueTimers now).1, ∀ key id, t = .blockTimeout key id →
        ∃ T ≤ now, s.waiters.TimerAgrees key id T := by
  refine ⟨ht.of_timers_sub rfl (fun t h => (List.dropWhile_sublist _).subset h) rfl, ?_⟩
  rintro _ hmem key id rfl
  simp only [Server.dueTimers, TimerQueue.tick, List.mem_map] at hmem
  obtain ⟨t, htw, htask⟩ := hmem
  refine ⟨t.deadline, by simpa using List.mem_takeWhile_imp htw, ?_⟩
  exact (ht.timers t ((List.takeWhile_sublist _).subset htw) key id htask).2

/-- Firing due tasks in order keeps the invariant: each block timeout still agrees with the
queues when its turn comes, since firing only takes blocks off. -/
theorem fireAll (now : Instant) : ∀ (tasks : List TimerTask) {s : Server} {h : List PopEvent},
    s₀.PopHistory h s →
    (∀ t ∈ tasks, ∀ key id, t = .blockTimeout key id → ∃ T ≤ now, s.waiters.TimerAgrees key id T) →
    s₀.PopHistory (h ++ fireLog now tasks s) (tasks.foldl Server.fire s)
  | [], s, h, ht, _ => by simpa [fireLog] using ht
  | .blockTimeout key id :: ts, s, h, ht, hdue => by
    obtain ⟨T, hT, ha⟩ := hdue _ List.mem_cons_self key id rfl
    have hrest := fireAll now ts (ht.expire hT ha) fun t ht' key' id' he =>
      (hdue t (List.mem_cons_of_mem _ ht') key' id' he).imp fun _ ⟨hT', ha'⟩ =>
        ⟨hT', ha'.mono (expireBlock_sublist s key id)⟩
    simpa [fireLog, Server.fire, List.append_assoc] using hrest
  | .reconnectMaster :: ts, s, h, ht, hdue => by
    have hfire : s₀.PopHistory h (s.fire .reconnectMaster) := ht.congr rfl rfl rfl
    have hrest := fireAll now ts hfire fun t ht' => hdue t (List.mem_cons_of_mem _ ht')
    simpa [fireLog] using hrest

/-- Step lemma: every operation keeps the invariant, extending the history by its events. -/
theorem step (ht : s₀.PopHistory h s) : ∀ op, s₀.PopHistory (h ++ s.stepLog op) (s.step op)
  | .execute now origin frame => ht.execute now origin frame
  | .opened => by
    have ho : s₀.PopHistory h s.connectionOpened.2 := ht.congr rfl rfl rfl
    simpa [stepLog, Server.step] using ho
  | .closed c => by
    have hc : s₀.PopHistory h (s.connectionClosed c) := ht.congr rfl rfl rfl
    simpa [stepLog, Server.step] using hc
  | .timers now => by
    obtain ⟨hd, hdue⟩ := ht.dueTimers now
    exact hd.fireAll now _ hdue

/-- Run lemma: a run of operations extends the history by its events. -/
theorem run : ∀ (ops : List Op) {s : Server} {h : List PopEvent},
    s₀.PopHistory h s → s₀.PopHistory (h ++ s.history ops) (s.runOps ops)
  | [], s, h, ht => by simpa [history, Server.runOps] using ht
  | op :: ops, s, h, ht => by
    simpa [history, Server.runOps, List.append_assoc] using run ops (ht.step op)

end PopHistory

theorem new_orderly (role : Role) (port : UInt16) : (Server.new role port).Orderly := by
  have hq : ∀ k, (Server.new role port).waiters.queue k = [] := fun _ => by
    simp [Server.new, Waiters.queue]
  exact ⟨by simp [hq], by simp [hq], by simp [hq], by simp [Server.new]⟩

theorem registered_new {role : Role} {port : UInt16} {h : List PopEvent} {k : String} {b : Block} :
    (Server.new role port).Registered h k b ↔ (k, b) ∈ parks h := by
  simp [Registered, Server.new, Waiters.queue]

/-- The history of a fresh server's run describes the server it leads to. -/
theorem history_new (role : Role) (port : UInt16) (ops : List Op) :
    (Server.new role port).PopHistory ((Server.new role port).history ops)
      ((Server.new role port).runOps ops) := by
  simpa using PopHistory.run ops (PopHistory.start (new_orderly role port))

/-! ## Each blocked pop is answered once -/

/-- In every run of a fresh server, through requests from any connections, connections opening
and closing, and timers firing at any instants, the replies queued are exactly those of the
blocked pops leaving their queues, and no block leaves twice: each blocked pop gets at most one
reply. Every block that leaves was parked by a suspended pop, and leaves soundly: served with an
item (its reply the key and the item) only while its connection is open and strictly before its
deadline, answered null only at or after its deadline, by a wake that finds it overdue or by its
timer. A waiting block with no deadline has no timer. -/
theorem blocked_pop_answered_once (role : Role) (port : UInt16) (ops : List Op) :
    ((Server.new role port).runOps ops).outbox =
        ((Server.new role port).history ops).filterMap PopEvent.delivery? ∧
      ((departures ((Server.new role port).history ops)).map (·.block.id)).Nodup ∧
      (∀ d ∈ departures ((Server.new role port).history ops),
        (d.key, d.block) ∈ parks ((Server.new role port).history ops) ∧ d.Sound) ∧
      ∀ k b, b ∈ ((Server.new role port).runOps ops).waiters.queue k → b.deadline = none →
        ∀ t ∈ ((Server.new role port).runOps ops).timers.timers, t.task ≠ .blockTimeout k b.id := by
  have ht := history_new role port ops
  refine ⟨by simpa [Server.new] using ht.outbox, ht.once,
    fun d hd => ⟨registered_new.1 (ht.departed d hd), ht.sound d hd⟩, ?_⟩
  intro k b hb hnone t hmem htask
  -- the timer would fire at the block's deadline, which it does not have
  have hagree := (ht.timers t hmem k b.id htask).2 k b hb rfl
  rw [hnone] at hagree
  simp at hagree

/-! ## Blocked pops are served in turn -/

/-- Blocks are numbered in the order they are parked. -/
theorem PopHistory.id_lt_of_parked_before {s₀ s : Server} {h : List PopEvent}
    (ht : s₀.PopHistory h s) {i₁ i₂ : Nat} {k₁ k₂ : String} {b₁ b₂ : Block} {t₁ t₂ : Instant}
    (h₁ : h[i₁]? = some (.parked k₁ b₁ t₁)) (h₂ : h[i₂]? = some (.parked k₂ b₂ t₂))
    (hlt : i₁ < i₂) : b₁.id < b₂.id := by
  obtain ⟨hi₁, he₁⟩ := List.getElem?_eq_some_iff.1 h₁
  obtain ⟨hi₂, he₂⟩ := List.getElem?_eq_some_iff.1 h₂
  have hp :=
    List.pairwise_iff_getElem.1 (List.pairwise_filterMap.1 ht.parksSorted) i₁ i₂ hi₁ hi₂ hlt
  rw [he₁, he₂] at hp
  exact hp (k₁, b₁) rfl (k₂, b₂) rfl

/-- In every run of a fresh server, blocked pops on one key are served first come, first served:
whenever a push serves a block `b₂` with data, every block parked on the same key before it has
already left, soundly: served earlier, answered null at or after its deadline, expired by its
timer, or dropped because its connection had closed. Within one wake the blocks leave from the
front of the queue, and those served take the first items of the list, in order. -/
theorem pops_served_in_turn (role : Role) (port : UInt16) (ops : List Op) :
    (∀ (i₁ i₂ j : Nat) (key : String) (b₁ b₂ : Block) (t₁ t₂ : Instant) (d₂ : Departure)
        (v : String),
      ((Server.new role port).history ops)[i₁]? = some (.parked key b₁ t₁) →
      ((Server.new role port).history ops)[i₂]? = some (.parked key b₂ t₂) → i₁ < i₂ →
      ((Server.new role port).history ops)[j]? = some (.departed d₂) → d₂.block = b₂ →
      d₂.fate = .served v →
      ∃ j₁ < j, ∃ d₁, ((Server.new role port).history ops)[j₁]? = some (.departed d₁) ∧
        d₁.key = key ∧ d₁.block = b₁ ∧ d₁.Sound) ∧
    ∀ (s : Server) (now : Instant) (key : String),
      (departures (s.wakeLog now key)).map (·.block) <+: s.waiters.queue key ∧
        (departures (s.wakeLog now key)).filterMap (·.fate.value?) <+: s.lists.items key := by
  refine ⟨fun i₁ i₂ j key b₁ b₂ t₁ t₂ d₂ v h₁ h₂ hlt hj hb hf => ?_, fun s now key => ?_⟩
  · have ht := history_new role port ops
    have hpark : ∀ {i : Nat} {k : String} {b : Block} {t : Instant},
        ((Server.new role port).history ops)[i]? = some (.parked k b t) →
        (Server.new role port).Registered ((Server.new role port).history ops) k b := fun hi =>
      registered_new.2 (List.mem_filterMap.2 ⟨_, List.mem_of_getElem? hi, rfl⟩)
    have hd₂ := mem_departures.2 (List.mem_of_getElem? hj)
    -- `b₂` is registered on `key` only, so it left its queue there
    have hkey : d₂.key = key := (ht.unique _ _ _ _ (ht.departed d₂ hd₂) (hpark h₂) (by rw [hb])).1
    obtain ⟨j₁, hj₁, d₁, hd₁, hid⟩ := ht.inTurn j d₂ v hj hf b₁ (hkey ▸ hpark h₁)
      (hb ▸ ht.id_lt_of_parked_before h₁ h₂ hlt)
    have hd₁' := mem_departures.2 (List.mem_of_getElem? hd₁)
    obtain ⟨rfl, rfl⟩ := ht.unique _ _ _ _ (ht.departed d₁ hd₁') (hpark h₁) hid
    exact ⟨j₁, hj₁, d₁, hd₁, rfl, rfl, ht.sound d₁ hd₁'⟩
  · have hfront := @Waiters.serveLog_map_fst s.isLive now (s.waiters.queue key) (s.lists.items key)
    rw [departures_wakeLog, List.map_map, List.filterMap_map]
    exact ⟨hfront ▸ List.take_prefix _ _, Waiters.serveLog_values _ _⟩

end Server

end KvServer
