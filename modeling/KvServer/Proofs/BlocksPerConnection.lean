import Mathlib
import KvServer.Proofs.PopHistory

/-!
# Pending blocks, connection by connection

A client connection that runs a blocking pop and finds no data waits for one reply; the server
holds either its block or, once a push or a timer has taken the block off, the reply queued for
it. `Server.Slot` says where a connection stands: idle with nothing pending, or suspended with
exactly one block waiting, or suspended with exactly one reply on its way.

A request from another connection keeps every connection's standing (`Server.Passes`): it parks
no block for it, and takes its block off only by queueing its one reply (`Server.execute_passes`).
A request from the connection itself parks one block for it exactly when it suspends
(`Server.execute_own`).
-/

namespace KvServer

namespace Server

open PopEvent

/-! ## Blocks and replies of one connection -/

/-- No block waits for connection `c`. -/
def NoBlock (s : Server) (c : ConnId) : Prop :=
  ∀ k b, b ∈ s.waiters.queue k → b.conn ≠ c

/-- Exactly one block waits for connection `c`. -/
def OneBlock (s : Server) (c : ConnId) : Prop :=
  ∃ k b, b ∈ s.waiters.queue k ∧ b.conn = c ∧
    ∀ k' b', b' ∈ s.waiters.queue k' → b'.conn = c → k' = k ∧ b' = b

/-- At most one block waits for connection `c`. -/
def AtMostOneBlock (s : Server) (c : ConnId) : Prop :=
  ∀ k₁ k₂ b₁ b₂, b₁ ∈ s.waiters.queue k₁ → b₂ ∈ s.waiters.queue k₂ → b₁.conn = c → b₂.conn = c →
    k₁ = k₂ ∧ b₁ = b₂

/-- How many replies are queued for connection `c`. -/
def replies (s : Server) (c : ConnId) : Nat :=
  s.outbox.countP (·.conn = c)

theorem NoBlock.atMostOne {s : Server} {c : ConnId} (h : s.NoBlock c) : s.AtMostOneBlock c :=
  fun k _ b _ hb _ hc _ => absurd hc (h k b hb)

theorem OneBlock.atMostOne {s : Server} {c : ConnId} (h : s.OneBlock c) : s.AtMostOneBlock c := by
  obtain ⟨k, b, -, -, huniq⟩ := h
  intro k₁ k₂ b₁ b₂ h₁ h₂ hc₁ hc₂
  obtain ⟨rfl, rfl⟩ := huniq k₁ b₁ h₁ hc₁
  obtain ⟨rfl, rfl⟩ := huniq k₂ b₂ h₂ hc₂
  exact ⟨rfl, rfl⟩

theorem NoBlock.not_oneBlock {s : Server} {c : ConnId} (h : s.NoBlock c) : ¬ s.OneBlock c :=
  fun ⟨k, b, hb, hc, _⟩ => h k b hb hc

/-- A connection has no block or one, when it has at most one. -/
theorem AtMostOneBlock.noBlock_or_oneBlock {s : Server} {c : ConnId} (h : s.AtMostOneBlock c) :
    s.NoBlock c ∨ s.OneBlock c := by
  by_cases hn : s.NoBlock c
  · exact .inl hn
  · right
    simp only [NoBlock, not_forall, not_not] at hn
    obtain ⟨k, b, hb, hc⟩ := hn
    exact ⟨k, b, hb, hc, fun k' b' hb' hc' => h k' k b' b hb' hb hc' hc⟩

/-- Where connection `c` stands, `n` counting the replies for it queued or in hand: not
suspended with nothing pending, or suspended with one block waiting, or suspended with one reply
on its way. -/
def Slot (s : Server) (c : ConnId) (suspended : Bool) (n : Nat) : Prop :=
  (suspended = false ∧ s.NoBlock c ∧ n = 0) ∨ (suspended = true ∧ s.OneBlock c ∧ n = 0) ∨
    (suspended = true ∧ s.NoBlock c ∧ n = 1)

theorem Slot.atMostOne {s : Server} {c : ConnId} {sus : Bool} {n : Nat} (h : s.Slot c sus n) :
    s.AtMostOneBlock c := by
  rcases h with ⟨-, h, -⟩ | ⟨-, h, -⟩ | ⟨-, h, -⟩
  · exact h.atMostOne
  · exact h.atMostOne
  · exact h.atMostOne

/-- How a step that does not run connection `c` treats it: it parks no block for `c`, and it
keeps where `c` stands, whatever replies for `c` are in hand. -/
structure Passes (c : ConnId) (s s' : Server) : Prop where
  shrinks : ∀ k b, b ∈ s'.waiters.queue k → b.conn = c → b ∈ s.waiters.queue k
  slot : ∀ sus n, s.Slot c sus (n + s.replies c) → s'.Slot c sus (n + s'.replies c)

theorem Passes.refl (c : ConnId) (s : Server) : Passes c s s :=
  ⟨fun _ _ hb _ => hb, fun _ _ h => h⟩

theorem Passes.trans {c : ConnId} {s₁ s₂ s₃ : Server} (h₁ : Passes c s₁ s₂) (h₂ : Passes c s₂ s₃) :
    Passes c s₁ s₃ :=
  ⟨fun k b hb hc => h₁.shrinks k b (h₂.shrinks k b hb hc) hc,
    fun sus n h => h₂.slot sus n (h₁.slot sus n h)⟩

/-- A step that keeps the blocked pops and the replies passes every connection. -/
theorem Passes.of_eq {c : ConnId} {s s' : Server} (hw : s'.waiters = s.waiters)
    (ho : s'.outbox = s.outbox) : Passes c s s' where
  shrinks _ _ hb _ := hw ▸ hb
  slot sus n h := by
    simpa only [Slot, NoBlock, OneBlock, replies, hw, ho] using h

theorem Passes.atMostOne {c : ConnId} {s s' : Server} (hp : Passes c s s')
    (h : s.AtMostOneBlock c) : s'.AtMostOneBlock c :=
  fun k₁ k₂ b₁ b₂ h₁ h₂ hc₁ hc₂ =>
    h k₁ k₂ b₁ b₂ (hp.shrinks k₁ b₁ h₁ hc₁) (hp.shrinks k₂ b₂ h₂ hc₂) hc₁ hc₂

/-! ## What a history does to one connection -/

/-- The replies a history queues for `c` are those of its departures of `c`'s blocks while `c`
was open. -/
theorem countP_deliveries (c : ConnId) : ∀ (h : List PopEvent), (∀ d ∈ departures h, d.Sound) →
    (h.filterMap PopEvent.delivery?).countP (·.conn = c) =
      (departures h).countP fun d => d.block.conn = c ∧ d.live = true
  | [], _ => rfl
  | .parked .. :: h, hs => by
    simpa [departures, departure?, PopEvent.delivery?, List.filterMap_cons] using
      countP_deliveries c h hs
  | .departed d :: h, hs => by
    have hrest := countP_deliveries c h fun d' hd' =>
      hs d' (by simp_all [departures, departure?])
    have hd : d.Sound := hs d (by simp [departures, departure?])
    obtain ⟨key, b, f, live, t⟩ := d
    simp only [departures] at hrest
    cases f <;> cases live <;>
      simp_all [Departure.delivery?, Departure.Sound, PopEvent.delivery?, departures, departure?,
        List.countP_cons]

/-- At most one departure of a history takes a given block off. -/
theorem countP_departures_le_one {s₀ s : Server} {h : List PopEvent} (ht : s₀.PopHistory h s)
    {p : Departure → Prop} [DecidablePred p] {i : Nat}
    (hp : ∀ d ∈ departures h, p d → d.block.id = i) :
    (departures h).countP p ≤ 1 := by
  have hle : (departures h).countP p ≤ ((departures h).map (·.block.id)).count i := by
    rw [List.count, List.countP_map]
    exact List.countP_mono_left fun d hd hpd => by simpa using hp d hd (by simpa using hpd)
  exact hle.trans (List.nodup_iff_count_le_one.1 ht.once i)

section History

variable {s s' : Server} {h : List PopEvent} {c : ConnId}

/-- A history that parks nothing for `c` leaves `c` only blocks it had. -/
theorem PopHistory.shrinks (ht : s.PopHistory h s') (hp : ∀ p ∈ parks h, p.2.conn ≠ c) :
    ∀ k b, b ∈ s'.waiters.queue k → b.conn = c → b ∈ s.waiters.queue k := by
  intro k b hb hc
  rcases ((ht.waiting k b).1 hb).1 with hb | hb
  · exact hb
  · exact absurd hc (hp _ hb)

/-- The blocks of `c` that a history takes off are blocks `c` had. -/
theorem PopHistory.departed_mem (ht : s.PopHistory h s') (hp : ∀ p ∈ parks h, p.2.conn ≠ c)
    {d : Departure} (hd : d ∈ departures h) (hc : d.block.conn = c) :
    d.block ∈ s.waiters.queue d.key := by
  rcases ht.departed d hd with hb | hb
  · exact hb
  · exact absurd hc (hp _ hb)

/-- The replies for `c` after a history are those before it and one for each departure of a block
of `c` while `c` was open. -/
theorem PopHistory.replies_eq (ht : s.PopHistory h s') :
    s'.replies c = s.replies c + (departures h).countP fun d => d.block.conn = c ∧ d.live = true := by
  rw [replies, replies, ht.outbox, List.countP_append, countP_deliveries c h ht.sound]

/-- A history that parks nothing for a connection with no block takes nothing of it off and
queues nothing for it. -/
theorem PopHistory.noBlock (ht : s.PopHistory h s') (hp : ∀ p ∈ parks h, p.2.conn ≠ c)
    (hn : s.NoBlock c) : s'.NoBlock c ∧ s'.replies c = s.replies c := by
  refine ⟨fun k b hb hc => hn k b (ht.shrinks hp k b hb hc) hc, ?_⟩
  rw [ht.replies_eq, List.countP_eq_zero.2, Nat.add_zero]
  intro d hd hc
  have hc' : d.block.conn = c := by simpa using (of_decide_eq_true hc).1
  exact hn _ _ (ht.departed_mem hp hd hc') hc'

/-- Step lemma for one connection: a history that parks nothing for `c`, while `c` is open,
passes `c`. Its block either stays, or leaves once with its one reply. -/
theorem PopHistory.passes (ht : s.PopHistory h s') (hp : ∀ p ∈ parks h, p.2.conn ≠ c)
    (hlive : ∀ d ∈ departures h, d.block.conn = c → d.live = true) : Passes c s s' := by
  have hshrink := ht.shrinks hp
  -- the replies queued for `c` are one per departure of a block of `c`
  have hrep : s'.replies c = s.replies c +
      (departures h).countP fun d => d.block.conn = c := by
    rw [ht.replies_eq]
    congr 1
    exact List.countP_congr fun d hd => by simpa using fun hc => hlive d hd hc
  refine ⟨hshrink, fun sus n hslot => ?_⟩
  rcases hslot with ⟨hs, hn, h0⟩ | ⟨hs, ⟨k, b, hb, hbc, huniq⟩, h0⟩ | ⟨hs, hn, h1⟩
  · -- nothing of `c` waits, so nothing of `c` leaves
    obtain ⟨hn', hr⟩ := ht.noBlock hp hn
    exact .inl ⟨hs, hn', by omega⟩
  · -- the one block of `c` either stays or leaves with its reply
    have hall : ∀ d ∈ departures h, d.block.conn = c → d.block.id = b.id := by
      intro d hd hc
      rw [(huniq _ _ (ht.departed_mem hp hd hc) hc).2]
    have hle := countP_departures_le_one ht (p := fun d => d.block.conn = c) (i := b.id)
      fun d hd hc => hall d hd (by simpa using hc)
    by_cases hgone : ∃ d ∈ departures h, d.block.conn = c
    · obtain ⟨d, hd, hdc⟩ := hgone
      have hone : (departures h).countP (fun d => d.block.conn = c) = 1 :=
        le_antisymm hle (List.countP_pos_iff.2 ⟨d, hd, by simpa using hdc⟩)
      refine .inr (.inr ⟨hs, fun k' b' hb' hc' => ?_, by omega⟩)
      -- the block of `c` has left, and nothing else of `c` waits
      obtain ⟨rfl, rfl⟩ := huniq k' b' (hshrink k' b' hb' hc') hc'
      exact ((ht.waiting k' b').1 hb').2 d hd (hall d hd hdc)
    · push Not at hgone
      have hzero : (departures h).countP (fun d => d.block.conn = c) = 0 :=
        List.countP_eq_zero.2 fun d hd hc => hgone d hd (by simpa using hc)
      -- no departure has the block's id, so it still waits
      have hstay : b ∈ s'.waiters.queue k := by
        refine (ht.waiting k b).2 ⟨.inl hb, fun d hd hid => ?_⟩
        obtain ⟨-, hdb⟩ := ht.unique _ _ _ _ (ht.departed d hd) (.inl hb) hid
        exact hgone d hd (hdb ▸ hbc)
      exact .inr (.inl ⟨hs, ⟨k, b, hstay, hbc, fun k' b' hb' hc' =>
        huniq k' b' (hshrink k' b' hb' hc') hc'⟩, by omega⟩)
  · obtain ⟨hn', hr⟩ := ht.noBlock hp hn
    exact .inr (.inr ⟨hs, hn', by omega⟩)

end History

/-! ## What a request parks -/

@[simp] theorem parks_wakeLog (s : Server) (now : Instant) (key : String) :
    parks (s.wakeLog now key) = [] := by
  simp [wakeLog, parks, parked?]

/-- During a replay no action parks. -/
theorem parks_actLog (s : Server) (now : Instant) (q : Request) (hr : s.replaying = true) :
    parks (s.actLog now q) = [] := by
  unfold actLog
  repeat' split
  all_goals first | exact parks_wakeLog _ _ _ | simp_all [parks]

theorem parks_replayLog (now : Instant) : ∀ (qs : List Request) (s : Server),
    s.replaying = true → parks (replayLog now qs s) = []
  | [], _, _ => rfl
  | q :: qs, s, hr => by
    rw [replayLog, parks_append, parks_actLog s now q hr,
      parks_replayLog now qs _ ((perform_keeps s now q).2.trans hr)]
    rfl

/-- An action suspends exactly when it parks, and then it does nothing else. -/
theorem ActEffect.suspends {s s' : Server} {now : Instant} {q : Request} {o : Outcome}
    {L : List PopEvent} (he : ActEffect s now q o s' L) :
    (o = .suspended ∧ ∃ key timeout,
        L = [.parked key (s.waiters.block key q.origin (timeout.bind (Clock.later? now))).1 now] ∧
        s' = s.block now key q.origin timeout) ∨
      (o ≠ .suspended ∧ parks L = []) := by
  cases he with
  | quiet => exact .inr ⟨nofun, rfl⟩
  | pop => exact .inr ⟨nofun, rfl⟩
  | push key l ev => exact .inr ⟨nofun, parks_wakeLog _ _ _⟩
  | park key timeout => exact .inl ⟨rfl, key, timeout, rfl, rfl⟩

/-- A request suspends exactly when it parks one block, for its own connection, and nothing
else happens then; otherwise it parks nothing. -/
theorem execute_parks (s : Server) (now : Instant) (origin : ConnId) (frame : Value) :
    ((s.execute now origin frame).1 = .suspended ∧ ∃ key timeout,
        s.executeLog now origin frame =
          [.parked key (s.waiters.block key origin (timeout.bind (Clock.later? now))).1 now] ∧
        (s.execute now origin frame).2 = s.block now key origin timeout) ∨
      ((s.execute now origin frame).1 ≠ .suspended ∧ parks (s.executeLog now origin frame) = []) := by
  cases hc : Command.ofFrame origin frame with
  | error e => exact .inr ⟨by simp [execute, hc], by simp [executeLog, hc, parks]⟩
  | ok c =>
    have ho : c.origin = origin := Command.ofFrame_origin hc
    cases ha : c.hasArity
    · exact .inr ⟨by simp [execute, hc, ha], by simp [executeLog, hc, ha, parks]⟩
    cases hq : s.transactions.enqueue? c
    swap
    · exact .inr ⟨by simp [execute, hc, ha, hq], by simp [executeLog, hc, ha, hq, parks]⟩
    obtain ⟨origin', verb, args⟩ := c
    dsimp only at ho
    subst ho
    have hrun : s.execute now origin' frame = s.run now ⟨origin', verb, args⟩ := by
      simp [execute, hc, ha, hq]
    have hlog : s.executeLog now origin' frame = s.controlLog now origin' args verb := by
      simp [executeLog, hc, ha, hq]
    rw [hrun, hlog]
    cases verb with
    | action a => exact (perform_effect s now ⟨origin', a, args⟩).suspends
    | exec =>
      -- EXEC completes, and its replay parks nothing
      right
      cases he : args.isEmpty
      · simp [run, control, controlLog, he, parks]
      cases hx : s.transactions.exec? origin' with
      | none => simp [run, control, controlLog, he, hx, parks]
      | some p =>
        obtain ⟨queued, transactions⟩ := p
        refine ⟨by simp [run, control, he, hx], ?_⟩
        simp only [controlLog, he, hx, Bool.not_true, Bool.false_eq_true, if_false]
        exact parks_replayLog now queued _ rfl
    | multi =>
      right
      cases he : args.isEmpty <;> simp [run, control, controlLog, he, parks]
    | discard =>
      right
      cases he : args.isEmpty
      · simp [run, control, controlLog, he, parks]
      cases hd : s.transactions.discard? origin' <;> simp [run, control, controlLog, he, hd, parks]

/-! ## What a request leaves alone -/

@[simp] theorem deliver_nextConn (s : Server) (c : ConnId) (v : Value) (b : Bool) :
    (s.deliver c v b).nextConn = s.nextConn := by
  unfold deliver
  split <;> rfl

@[simp] theorem applyWakeups_nextConn : ∀ (ws : List Wakeup) (s : Server),
    (s.applyWakeups ws).nextConn = s.nextConn
  | [], _ => rfl
  | .served c key v :: ws, s => by simp [applyWakeups, applyWakeups_nextConn ws, record]
  | .timedOut c :: ws, s => by simp [applyWakeups, applyWakeups_nextConn ws]

@[simp] theorem nextConn_wake (s : Server) (now : Instant) (key : String) :
    (s.wake now key).nextConn = s.nextConn := by
  simp [wake]

/-- An action keeps the open connections and the next connection id, and each block it takes off
leaves with its connection's standing at the time. -/
theorem ActEffect.live {s s' : Server} {now : Instant} {q : Request} {o : Outcome}
    {L : List PopEvent} (he : ActEffect s now q o s' L) :
    s'.live = s.live ∧ s'.nextConn = s.nextConn ∧
      ∀ d ∈ departures L, d.live = s.isLive d.block.conn := by
  cases he with
  | quiet hk => exact ⟨hk.live, hk.nextConn, by simp [departures]⟩
  | pop _ _ hk => exact ⟨hk.live, hk.nextConn, by simp [departures]⟩
  | push key l ev =>
    refine ⟨wake_live _ now key, nextConn_wake _ now key, fun d hd => ?_⟩
    rw [departures_wakeLog, List.mem_map] at hd
    obtain ⟨_, -, rfl⟩ := hd
    rfl
  | park => exact ⟨rfl, rfl, by simp⟩

/-- A request keeps the open connections and the next connection id, and each block it takes off
leaves with its connection's standing. -/
theorem execute_live (s : Server) (now : Instant) (origin : ConnId) (frame : Value) :
    (s.execute now origin frame).2.live = s.live ∧
      (s.execute now origin frame).2.nextConn = s.nextConn ∧
      ∀ d ∈ departures (s.executeLog now origin frame), d.live = s.isLive d.block.conn :=
  execute_induction (R := fun s L s' => s'.live = s.live ∧ s'.nextConn = s.nextConn ∧
      ∀ d ∈ departures L, d.live = s.isLive d.block.conn)
    (fun hk _ => ⟨hk.live, hk.nextConn, by simp [departures]⟩)
    (fun h₁ h₂ => ⟨h₂.1.trans h₁.1, h₂.2.1.trans h₁.2.1, fun d hd => by
      rw [departures_append, List.mem_append] at hd
      rcases hd with hd | hd
      · exact h₁.2.2 d hd
      · rw [h₂.2.2 d hd]
        simp only [isLive, h₁.1]⟩)
    (fun he => he.live) s now origin frame

/-! ## What a request does to each connection -/

section Execute

variable {s : Server} (now : Instant) (origin : ConnId) (frame : Value)

theorem execute_history (hs : s.Orderly) :
    s.PopHistory (s.executeLog now origin frame) (s.execute now origin frame).2 := by
  simpa using (PopHistory.start hs).execute now origin frame

/-- A request parks blocks for its own connection only. -/
theorem parks_executeLog : ∀ p ∈ parks (s.executeLog now origin frame), p.2.conn = origin := by
  rcases execute_parks s now origin frame with ⟨-, key, timeout, hL, -⟩ | ⟨-, hL⟩
  · rw [hL]
    simp
  · simp [hL]

/-- A request from another connection passes every open connection. -/
theorem execute_passes (hs : s.Orderly) {c : ConnId} (hc : c ≠ origin) (hl : s.isLive c = true) :
    Passes c s (s.execute now origin frame).2 :=
  (execute_history now origin frame hs).passes
    (fun p hp hpc => hc (hpc ▸ parks_executeLog now origin frame p hp))
    (fun d hd hdc => by rw [(execute_live s now origin frame).2.2 d hd, hdc, hl])

/-- A request from another connection parks nothing for `c`, open or closed. -/
theorem execute_shrinks (hs : s.Orderly) {c : ConnId} (hc : c ≠ origin) :
    ∀ k b, b ∈ (s.execute now origin frame).2.waiters.queue k → b.conn = c →
      b ∈ s.waiters.queue k :=
  (execute_history now origin frame hs).shrinks
    fun p hp hpc => hc (hpc ▸ parks_executeLog now origin frame p hp)

/-- Parking a connection with no block leaves it exactly one. -/
theorem block_oneBlock {c : ConnId} (hn : s.NoBlock c) (key : String) (timeout : Option Nat) :
    (s.block now key c timeout).OneBlock c := by
  refine ⟨key, ⟨s.waiters.nextId, c, timeout.bind (Clock.later? now)⟩, ?_, rfl, ?_⟩
  · rw [queue_block, if_pos rfl]
    simp
  · intro k b hb hbc
    rw [queue_block] at hb
    split at hb
    · subst key
      rcases List.mem_append.1 hb with hb | hb
      · exact absurd hbc (hn k b hb)
      · exact ⟨rfl, List.mem_singleton.1 hb⟩
    · exact absurd hbc (hn k b hb)

/-- A request from a connection with no block suspends it exactly when it leaves it one block,
and queues no reply for it. -/
theorem execute_own (hs : s.Orderly) (hn : s.NoBlock origin) :
    (s.execute now origin frame).2.replies origin = s.replies origin ∧
      ((s.execute now origin frame).1 = .suspended →
        (s.execute now origin frame).2.OneBlock origin) ∧
      ((s.execute now origin frame).1 ≠ .suspended →
        (s.execute now origin frame).2.NoBlock origin) := by
  rcases execute_parks s now origin frame with ⟨hsus, key, timeout, -, hs'⟩ | ⟨hsus, hL⟩
  · rw [hs']
    exact ⟨rfl, fun _ => block_oneBlock now hn key timeout, fun h => absurd hsus h⟩
  · obtain ⟨hn', hr⟩ := (execute_history now origin frame hs).noBlock (by simp [hL]) hn
    exact ⟨hr, fun h => absurd h hsus, fun _ => hn'⟩

end Execute

/-! ## A block's timer -/

@[simp] theorem parks_expireLog (s : Server) (now : Instant) (key : String) (id : Nat) :
    parks (s.expireLog now key id) = [] := by
  simp [expireLog, parks, parked?]

end Server

end KvServer
