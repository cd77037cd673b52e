import Mathlib
import KvServer.Command.Execute
import KvServer.Proofs.StoreView

/-!
# What a server records for its replicas

A recorded write is the request array of the request that made it, verb in upper case, and reads
back as that request from any connection. Recording, handing over replies, parking a pop and
taking the timers touch neither store. A push serves the blocked pops of its key from the front of
its list, and each served pop is recorded as its own `LPOP key`: so the list ends as if those
`LPOP`s had run after the push (`Server.wake_spec`). A server with no blocked pop takes nothing on
a push (`Server.wake_of_idle`).
-/

namespace KvServer

theorem Verb.parse?_keyword (v : Verb) : Verb.parse? v.keyword = some v := by
  -- each case compares one keyword with all seventeen, which only the kernel does quickly
  cases v with
  | action a => cases a <;> decide +kernel
  | multi | exec | discard => decide +kernel

namespace Command

theorem mapM_part?_bulk : ∀ args : List String, args.mapM (part? ∘ Value.bulk) = some args
  | [] => rfl
  | a :: as => by simp [List.mapM_cons, part?, mapM_part?_bulk as]

/-- A request array reads back as its command, from whichever connection sends it. -/
theorem ofFrame_toRequest (origin : ConnId) (c : Command) :
    ofFrame origin c.toRequest = .ok { c with origin } := by
  simp [toRequest, ofFrame, Value.command, part?, Verb.parse?_keyword, mapM_part?_bulk]

end Command

theorem Request.toValue_of_keyword {a : Action} {kw : String} (hkw : (Verb.action a).keyword = kw)
    (origin : ConnId) (args : List String) :
    ({ origin, action := a, args } : Request).toValue = Value.command (kw :: args) := by
  simp only [Request.toValue, Request.toCommand, Command.toRequest, hkw]

/-- The writes a wake-up is recorded as: a served pop as `LPOP key`. -/
def Wakeup.recorded : Wakeup → List Value
  | .served _ key _ => [Value.command ["LPOP", key]]
  | .timedOut _ => []

namespace Server

variable (s : Server)

/-! ## Recording and handing over replies -/

@[simp] theorem record_strings (ev : Value) : (s.record ev).strings = s.strings := rfl
@[simp] theorem record_lists (ev : Value) : (s.record ev).lists = s.lists := rfl
@[simp] theorem record_waiters (ev : Value) : (s.record ev).waiters = s.waiters := rfl
@[simp] theorem record_transactions (ev : Value) : (s.record ev).transactions = s.transactions := rfl

@[simp] theorem record_isMaster (ev : Value) :
    (s.record ev).replication.isMaster = s.replication.isMaster := by
  simp only [record, Replication.record]
  split <;> rfl

theorem record_events {s : Server} (hm : s.replication.isMaster = true) (ev : Value) :
    (s.record ev).replication.events = s.replication.events ++ [ev] := by
  simp [record, Replication.record, hm]

@[simp] theorem deliver_strings (c : ConnId) (v : Value) (b : Bool) :
    (s.deliver c v b).strings = s.strings := by
  unfold deliver; split <;> rfl
@[simp] theorem deliver_lists (c : ConnId) (v : Value) (b : Bool) :
    (s.deliver c v b).lists = s.lists := by
  unfold deliver; split <;> rfl
@[simp] theorem deliver_waiters (c : ConnId) (v : Value) (b : Bool) :
    (s.deliver c v b).waiters = s.waiters := by
  unfold deliver; split <;> rfl
@[simp] theorem deliver_transactions (c : ConnId) (v : Value) (b : Bool) :
    (s.deliver c v b).transactions = s.transactions := by
  unfold deliver; split <;> rfl
@[simp] theorem deliver_replication (c : ConnId) (v : Value) (b : Bool) :
    (s.deliver c v b).replication = s.replication := by
  unfold deliver; split <;> rfl

@[simp] theorem block_strings (now : Instant) (key : String) (c : ConnId) (t : Option Nat) :
    (s.block now key c t).strings = s.strings := rfl
@[simp] theorem block_lists (now : Instant) (key : String) (c : ConnId) (t : Option Nat) :
    (s.block now key c t).lists = s.lists := rfl
@[simp] theorem block_replication (now : Instant) (key : String) (c : ConnId) (t : Option Nat) :
    (s.block now key c t).replication = s.replication := rfl

/-! ## Timers and connections -/

theorem expireBlock_data (key : String) (id : Nat) :
    (s.expireBlock key id).strings = s.strings ∧ (s.expireBlock key id).lists = s.lists ∧
      (s.expireBlock key id).replication = s.replication := by
  unfold expireBlock
  split <;> simp

@[simp] theorem fire_strings (task : TimerTask) : (s.fire task).strings = s.strings := by
  cases task with
  | blockTimeout key id => exact (expireBlock_data s key id).1
  | reconnectMaster => rfl
@[simp] theorem fire_lists (task : TimerTask) : (s.fire task).lists = s.lists := by
  cases task with
  | blockTimeout key id => exact (expireBlock_data s key id).2.1
  | reconnectMaster => rfl
@[simp] theorem fire_events (task : TimerTask) :
    (s.fire task).replication.events = s.replication.events := by
  cases task with
  | blockTimeout key id => simp [fire, (expireBlock_data s key id).2.2]
  | reconnectMaster => rfl
@[simp] theorem fire_isMaster (task : TimerTask) :
    (s.fire task).replication.isMaster = s.replication.isMaster := by
  cases task with
  | blockTimeout key id => simp [fire, (expireBlock_data s key id).2.2]
  | reconnectMaster => rfl

@[simp] theorem connectionClosed_events (c : ConnId) :
    (s.connectionClosed c).replication.events = s.replication.events := rfl
@[simp] theorem connectionClosed_isMaster (c : ConnId) :
    (s.connectionClosed c).replication.isMaster = s.replication.isMaster := rfl

theorem applyWakeups_strings : ∀ (ws : List Wakeup) (s : Server), (s.applyWakeups ws).strings = s.strings
  | [], _ => rfl
  | .served c key v :: ws, s => by simp [applyWakeups, applyWakeups_strings ws]
  | .timedOut c :: ws, s => by simp [applyWakeups, applyWakeups_strings ws]

theorem applyWakeups_lists : ∀ (ws : List Wakeup) (s : Server), (s.applyWakeups ws).lists = s.lists
  | [], _ => rfl
  | .served c key v :: ws, s => by simp [applyWakeups, applyWakeups_lists ws]
  | .timedOut c :: ws, s => by simp [applyWakeups, applyWakeups_lists ws]

theorem applyWakeups_isMaster : ∀ (ws : List Wakeup) (s : Server),
    (s.applyWakeups ws).replication.isMaster = s.replication.isMaster
  | [], _ => rfl
  | .served c key v :: ws, s => by simp [applyWakeups, applyWakeups_isMaster ws]
  | .timedOut c :: ws, s => by simp [applyWakeups, applyWakeups_isMaster ws]

theorem applyWakeups_events : ∀ (ws : List Wakeup) {s : Server}, s.replication.isMaster = true →
    (s.applyWakeups ws).replication.events = s.replication.events ++ ws.flatMap Wakeup.recorded
  | [], _, _ => by simp [applyWakeups]
  | .served c key v :: ws, s, hm => by
    have hm' : ((s.record (Value.command ["LPOP", key])).deliver c (Value.command [key, v])
        true).replication.isMaster = true := by simp [hm]
    rw [applyWakeups, applyWakeups_events ws hm']
    simp [record_events hm, Wakeup.recorded]
  | .timedOut c :: ws, s, hm => by
    have hm' : (s.deliver c .null true).replication.isMaster = true := by simp [hm]
    rw [applyWakeups, applyWakeups_events ws hm']
    simp [Wakeup.recorded]

end Server

namespace Waiters

/-- Serving blocks hands out items from the front of the key's list, one to each served pop, and
each served pop is recorded as `LPOP key`. -/
theorem serve_spec (live : ConnId → Bool) (now : Instant) (key : String) :
    ∀ (q : List Block) (l : Lists), ∃ k,
      (serve live now key q l).1.flatMap Wakeup.recorded =
        List.replicate k (Value.command ["LPOP", key]) ∧
      ∀ k', (serve live now key q l).2.2.items k' =
        if key = k' then (l.items key).drop k else l.items k'
  | [], l => ⟨0, rfl, fun k' => by split <;> simp_all [serve]⟩
  | b :: bs, l => by
    simp only [serve]
    split
    · exact serve_spec live now key bs l
    · split
      · obtain ⟨k, hr, hi⟩ := serve_spec live now key bs l
        exact ⟨k, by simp [Wakeup.recorded, hr], hi⟩
      · rcases hp : l.lpop key with ⟨_ | v, l'⟩
        · exact ⟨0, rfl, fun k' => by split <;> simp_all⟩
        · -- the item is the head of the list, and the rest is served from its tail
          obtain ⟨k, hr, hi⟩ := serve_spec live now key bs l'
          have hl' : ∀ k', l'.items k' = if key = k' then (l.items key).drop 1 else l.items k' := by
            intro k'
            rw [← Lists.items_lpop, hp]
          refine ⟨k + 1, by simp [Wakeup.recorded, hr, List.replicate_succ], fun k' => ?_⟩
          rw [hi k', hl' key, hl' k']
          split <;> simp_all

end Waiters

namespace Server

/-- A push's wake hands the first `k` items of the key's list to blocked pops and records an
`LPOP key` for each, touching nothing else of the stores. -/
theorem wake_spec {s : Server} (hm : s.replication.isMaster = true) (now : Instant) (key : String) :
    ∃ k, (s.wake now key).strings = s.strings ∧
      (∀ k', (s.wake now key).lists.items k' =
        if key = k' then (s.lists.items key).drop k else s.lists.items k') ∧
      (s.wake now key).replication.events =
        s.replication.events ++ List.replicate k (Value.command ["LPOP", key]) ∧
      (s.wake now key).replication.isMaster = true := by
  unfold wake Waiters.onPush
  cases hq : s.waiters.queues[key]? with
  | none =>
    refine ⟨0, rfl, fun k' => ?_, by simp [applyWakeups], hm⟩
    by_cases hk : key = k' <;> simp [applyWakeups, hk]
  | some q =>
    obtain ⟨k, hr, hi⟩ := Waiters.serve_spec s.isLive now key q s.lists
    rcases hserve : Waiters.serve s.isLive now key q s.lists with ⟨ws, rest, l'⟩
    simp only [hserve] at hr hi ⊢
    refine ⟨k, applyWakeups_strings _ _, fun k' => ?_, ?_, ?_⟩
    · rw [applyWakeups_lists]
      exact hi k'
    · rw [applyWakeups_events ws (s := { s with waiters := s.waiters.setQueue key rest, lists := l' }) hm,
        hr]
    · rw [applyWakeups_isMaster]
      exact hm

/-- With no pop blocked, a push's wake changes nothing of the stores, the blocks or the
transactions. -/
theorem wake_of_idle {s : Server} (h : ∀ key, s.waiters.queue key = []) (now : Instant)
    (key : String) :
    (s.wake now key).strings = s.strings ∧ (s.wake now key).lists = s.lists ∧
      (∀ k, (s.wake now key).waiters.queue k = []) ∧
      (s.wake now key).transactions = s.transactions := by
  unfold wake Waiters.onPush
  cases hq : s.waiters.queues[key]? with
  | none => exact ⟨rfl, rfl, h, rfl⟩
  | some q =>
    have hq0 : q = [] := by simpa [Waiters.queue, hq] using h key
    subst hq0
    simp only [Waiters.serve, applyWakeups, true_and, and_true]
    intro k
    by_cases hk : key = k
    · subst hk
      simp [Waiters.setQueue, Waiters.queue]
    · simpa [Waiters.setQueue, Waiters.queue, Std.HashMap.getElem?_erase, hk] using h k

end Server

end KvServer
