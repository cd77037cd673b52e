import Mathlib
import KvServer.Proofs.BlockedPops

/-!
# How a push serves its key's queue

A push to a key serves the pops waiting on it from the head of the queue, in one pass: a pop
whose connection is closed is dropped, one whose deadline has come times out, and every other
live one takes the next item of the list. `Waiters.serveLog` records what the pass does to each
pop it reaches; the lemmas beside its equations say where the pass stops (`serveLog_stops`) and
what the registry holds afterwards (`queues_onPush`).

`Waiters.onPush_scans_from_head` puts these together: the pops reached are a prefix of the queue
whose fates follow from liveness and deadline alone, the served wake-ups carry the front of the
list in order, the pass stops only at the end of the queue or at a waiting pop once the list is
empty, and the key leaves the registry exactly when no pop is left on it.
-/

namespace KvServer

/-- The item a wake-up hands to its pop, if it serves one. -/
def Wakeup.item? : Wakeup → Option String
  | .served _ _ v => some v
  | .timedOut _ => none

namespace Waiters

variable {live : ConnId → Bool} {now : Instant}

/-- The served wake-ups carry the items the served fates took. -/
theorem filterMap_item?_wakeups (key : String) (log : List (Block × Fate)) :
    (log.filterMap fun p => p.2.wakeup? key p.1).filterMap Wakeup.item? =
      log.filterMap (·.2.value?) := by
  rw [List.filterMap_filterMap]
  congr 1
  funext p
  obtain ⟨b, f⟩ := p
  cases f <;> rfl

theorem serveLog_of_closed {b : Block} (h : live b.conn = false) (bs : List Block)
    (items : List String) :
    serveLog live now (b :: bs) items = (b, .dropped) :: serveLog live now bs items := by
  simp [serveLog, h]

theorem serveLog_of_due {b : Block} (h : live b.conn = true)
    (hd : b.deadline.any (· ≤ now) = true)
    (bs : List Block) (items : List String) :
    serveLog live now (b :: bs) items = (b, .timedOut) :: serveLog live now bs items := by
  simp [serveLog, h, hd]

theorem serveLog_of_starved {b : Block} (h : live b.conn = true)
    (hd : b.deadline.any (· ≤ now) = false) (bs : List Block) :
    serveLog live now (b :: bs) [] = [] := by
  simp [serveLog, h, hd]

theorem serveLog_of_served {b : Block} (h : live b.conn = true)
    (hd : b.deadline.any (· ≤ now) = false) (bs : List Block) (v : String) (vs : List String) :
    serveLog live now (b :: bs) (v :: vs) = (b, .served v) :: serveLog live now bs vs := by
  simp [serveLog, h, hd]

/-- Serving stops before the end of the queue only at a live block whose deadline has not come,
once every item of the list is handed out. -/
theorem serveLog_stops : ∀ (q : List Block) (items : List String),
    (serveLog live now q items).length < q.length →
      ∃ b bs, q.drop (serveLog live now q items).length = b :: bs ∧ live b.conn = true ∧
        b.deadline.any (· ≤ now) = false ∧
        (serveLog live now q items).filterMap (·.2.value?) = items
  | [], _, h => absurd h (Nat.not_lt_zero _)
  | b :: bs, items, h => by
    cases hl : live b.conn with
    | false =>
      rw [serveLog_of_closed hl] at h ⊢
      simpa [Fate.value?] using serveLog_stops bs items (by simpa using h)
    | true =>
      cases hd : b.deadline.any (· ≤ now) with
      | true =>
        rw [serveLog_of_due hl hd] at h ⊢
        simpa [Fate.value?] using serveLog_stops bs items (by simpa using h)
      | false =>
        cases items with
        | nil =>
          rw [serveLog_of_starved hl hd]
          exact ⟨b, bs, rfl, hl, hd, rfl⟩
        | cons v vs =>
          rw [serveLog_of_served hl hd] at h ⊢
          simpa [Fate.value?] using serveLog_stops bs vs (by simpa using h)

/-- A push leaves the registry with the blocks its serving did not reach, and no entry for the
key once none is left. -/
theorem queues_onPush (w : Waiters) (l : Lists) (key : String) (k : String) :
    (w.onPush l key live now).2.1.queues[k]? =
      if key = k then
        (if (serve live now key (w.queue key) l).2.1 = [] then none
          else some (serve live now key (w.queue key) l).2.1)
      else w.queues[k]? := by
  unfold onPush
  cases hq : w.queues[key]? with
  | none =>
    have h0 : w.queue key = [] := by simp [queue, hq]
    by_cases hk : key = k
    · subst hk
      simp [h0, serve, hq]
    · simp [hk]
  | some q =>
    have hq' : w.queue key = q := by simp [queue, hq]
    simp only [setQueue, hq']
    by_cases hk : key = k
    · subst hk
      rw [if_pos rfl]
      split_ifs <;> simp
    · rw [if_neg hk]
      split_ifs <;> simp [Std.HashMap.getElem?_erase, Std.HashMap.getElem?_insert, hk]

/-- A push serves the waiting pops of its key from the head of the queue. A pop whose connection
is closed is dropped with no wake-up and takes no item; a live one whose deadline has come times
out; every other live one is served the next item of the list. Serving stops when the queue runs
out, or at a live pop whose deadline has not come once the list is empty: that pop and all after
it stay queued, in order. The list loses exactly the items the served pops carry, from its front
and in order, no other list changes, and the key stays in the registry exactly when pops are left
on it. -/
theorem onPush_scans_from_head (w : Waiters) (l : Lists) (key : String) (live : ConnId → Bool)
    (now : Instant) :
    ∃ (log : List (Block × Fate)) (rest : List Block),
      w.queue key = log.map Prod.fst ++ rest ∧
      (∀ p ∈ log, p.2.Fits (live p.1.conn) (p.1.deadline.any (· ≤ now))) ∧
      (w.onPush l key live now).1 = log.filterMap (fun p => p.2.wakeup? key p.1) ∧
      l.items key =
        (w.onPush l key live now).1.filterMap Wakeup.item? ++
          (w.onPush l key live now).2.2.items key ∧
      (rest = [] ∨ ∃ b bs, rest = b :: bs ∧ live b.conn = true ∧
        b.deadline.any (· ≤ now) = false ∧ (w.onPush l key live now).2.2.items key = []) ∧
      (∀ k, (w.onPush l key live now).2.1.queues[k]? =
        if key = k then (if rest = [] then none else some rest) else w.queues[k]?) ∧
      (∀ k, key ≠ k → (w.onPush l key live now).2.2.items k = l.items k) := by
  obtain ⟨hws, hrest, hitems⟩ := @serve_eq_serveLog live now key (w.queue key) l
  refine ⟨serveLog live now (w.queue key) (l.items key),
    (w.queue key).drop (serveLog live now (w.queue key) (l.items key)).length,
    ?_, fun p hp => fate_of_mem_serveLog hp, by rw [onPush_fst, hws], ?_, ?_, ?_, ?_⟩
  · rw [serveLog_map_fst, List.take_append_drop]
  · rw [onPush_fst, hws, filterMap_item?_wakeups, onPush_lists, hitems key, if_pos rfl]
    exact (List.prefix_iff_eq_append.1 (serveLog_values _ _)).symm
  · by_cases hlen : (serveLog live now (w.queue key) (l.items key)).length < (w.queue key).length
    · -- serving stopped at a pop that waits on, with every item handed out
      obtain ⟨b, bs, hdrop, hl, hd, hv⟩ := serveLog_stops _ _ hlen
      refine .inr ⟨b, bs, hdrop, hl, hd, ?_⟩
      rw [onPush_lists, hitems key, if_pos rfl, hv, List.drop_length]
    · exact .inl (List.drop_eq_nil_of_le (by omega))
  · intro k
    rw [queues_onPush, hrest]
  · intro k hk
    rw [onPush_lists, hitems k, if_neg hk]

end Waiters

end KvServer
