import Mathlib
import KvServer.Proofs.MasterLink

/-!
# The timer queue is a stable priority queue

The queue keeps its timers sorted by deadline and registration number, inserting each new one
behind every timer that comes out before it, and a tick takes the longest run of due timers from
the front. `Agenda` states what that should give without any order: the timers registered and
not yet taken, in the order they were registered, a tick taking the due ones, sorted by deadline
with ties kept in registration order, and leaving the rest.

`TimerQueue.Refines` ties a queue to an agenda: the same timers, the queue's sorted, the agenda's
numbered in registration order. Registration and ticks keep it (`Refines.call`), so any run of
calls does (`refines_calls`), and an agenda loses nothing and takes nothing twice
(`Agenda.calls_conserve`). `TimerQueue.calls_follow_agenda` collects these for runs from empty.
-/

namespace KvServer

variable {α : Type}

/-- Whether `t` comes due no later than `u` and, when both come due together, was registered no
later. -/
def Timer.dueFirst (t u : Timer α) : Bool :=
  decide (t.deadline < u.deadline) || (decide (t.deadline = u.deadline) && decide (t.seq ≤ u.seq))

namespace Timer

theorem before_iff (t u : Timer α) :
    t.before u = true ↔
      t.deadline < u.deadline ∨ (t.deadline = u.deadline ∧ t.seq < u.seq) := by
  simp [before]

theorem dueFirst_iff (t u : Timer α) :
    t.dueFirst u = true ↔
      t.deadline < u.deadline ∨ (t.deadline = u.deadline ∧ t.seq ≤ u.seq) := by
  simp [dueFirst]

theorem before_trans {t u v : Timer α} (h₁ : t.before u = true) (h₂ : u.before v = true) :
    t.before v = true := by
  rw [before_iff] at h₁ h₂ ⊢
  simp only [Instant] at h₁ h₂ ⊢
  omega

/-- Of two timers with different registration numbers, one comes out before the other. -/
theorem before_of_not_before {t u : Timer α} (hseq : u.seq ≠ t.seq) (h : t.before u = false) :
    u.before t = true := by
  rw [← Bool.not_eq_true, before_iff] at h
  rw [before_iff]
  simp only [Instant] at h ⊢
  omega

end Timer

namespace TimerQueue

/-- Inserting a timer registered after every timer of a sorted list keeps it sorted. -/
theorem pairwise_insert (t : Timer α) : ∀ ts : List (Timer α),
    ts.Pairwise (fun u v => u.before v = true) → (∀ u ∈ ts, u.seq < t.seq) →
      (insert t ts).Pairwise (fun u v => u.before v = true)
  | [], _, _ => List.pairwise_singleton _ t
  | u :: us, hs, hseq => by
    rw [List.pairwise_cons] at hs
    unfold insert
    split
    · rename_i htu
      refine List.pairwise_cons.2 ⟨fun v hv => ?_, List.pairwise_cons.2 hs⟩
      rcases List.mem_cons.1 hv with rfl | hv
      · exact htu
      · exact Timer.before_trans htu (hs.1 v hv)
    · rename_i htu
      have hut : u.before t = true :=
        Timer.before_of_not_before (by have := hseq u (by simp); omega) (by simpa using htu)
      refine List.pairwise_cons.2
        ⟨fun v hv => ?_, pairwise_insert t us hs.2 (fun v hv => hseq v (by simp [hv]))⟩
      rcases List.mem_cons.1 ((perm_insert t us).mem_iff.1 hv) with rfl | hv
      · exact hut
      · exact hs.1 v hv

/-- A call on a timer queue. -/
inductive Call (α : Type) where
  | registerAt (deadline : Instant) (task : α)
  | registerTimeout (now : Instant) (delay : Nat) (task : α)
  | tick (now : Instant)

/-- Makes a call: the tasks it returns, only a tick returning any, and the queue after it. -/
def call (q : TimerQueue α) : Call α → List α × TimerQueue α
  | .registerAt deadline task => ([], q.registerAt deadline task)
  | .registerTimeout now delay task => ([], q.registerTimeout now delay task)
  | .tick now => q.tick now

/-- Makes the calls in order: what each returns, and the queue after the last. -/
def calls (q : TimerQueue α) : List (Call α) → List (List α) × TimerQueue α
  | [] => ([], q)
  | c :: cs => ((q.call c).1 :: ((q.call c).2.calls cs).1, ((q.call c).2.calls cs).2)

end TimerQueue

/-- The timers registered and not yet taken, in the order they were registered, with the number
the next registration gets. -/
structure Agenda (α : Type) where
  pending : List (Timer α) := []
  nextSeq : Nat := 0

namespace Agenda

/-- Registers `task` to come due at `deadline`, after every timer registered before it. -/
def register (a : Agenda α) (deadline : Instant) (task : α) : Agenda α :=
  { pending := a.pending ++ [{ deadline, seq := a.nextSeq, task }], nextSeq := a.nextSeq + 1 }

/-- Takes the timers due at `now`, earliest deadline first and, among equal deadlines, in the
order they were registered; every other timer stays. -/
def tick (a : Agenda α) (now : Instant) : List (Timer α) × Agenda α :=
  ((a.pending.filter (·.deadline ≤ now)).mergeSort Timer.dueFirst,
    { a with pending := a.pending.filter fun t => !decide (t.deadline ≤ now) })

/-- Makes a call: the timers it takes, and the agenda after it. -/
def call (a : Agenda α) : TimerQueue.Call α → List (Timer α) × Agenda α
  | .registerAt deadline task => ([], a.register deadline task)
  | .registerTimeout now delay task => ([], a.register (now + delay) task)
  | .tick now => a.tick now

/-- Makes the calls in order: what each takes, and the agenda after the last. -/
def calls (a : Agenda α) : List (TimerQueue.Call α) → List (List (Timer α)) × Agenda α
  | [] => ([], a)
  | c :: cs => ((a.call c).1 :: ((a.call c).2.calls cs).1, ((a.call c).2.calls cs).2)

/-- A call on the agenda takes nothing twice and loses nothing: the timers taken before, those it
takes and those left pending are, by registration number, every registration so far. -/
theorem call_conserves {done : List (Timer α)} {a : Agenda α}
    (h : ((done ++ a.pending).map (·.seq)).Perm (List.range a.nextSeq)) (c : TimerQueue.Call α) :
    ((done ++ (a.call c).1 ++ (a.call c).2.pending).map (·.seq)).Perm
      (List.range (a.call c).2.nextSeq) := by
  cases c with
  | registerAt deadline task | registerTimeout now delay task =>
    -- the new timer takes the next number
    simpa [call, register, List.range_succ] using h.append_right [a.nextSeq]
  | tick now =>
    -- the timers taken and those left are the pending ones, split by the deadline
    have hsplit : ((a.tick now).1 ++ (a.tick now).2.pending).Perm a.pending :=
      ((List.mergeSort_perm _ _).append_right _).trans (List.filter_append_perm _ _)
    rw [List.append_assoc]
    exact ((hsplit.append_left done).map _).trans h

/-- Run lemma: across any calls nothing is taken twice and nothing is lost. -/
theorem calls_conserve :
    ∀ (cs : List (TimerQueue.Call α)) {done : List (Timer α)} {a : Agenda α},
    ((done ++ a.pending).map (·.seq)).Perm (List.range a.nextSeq) →
      ((done ++ (a.calls cs).1.flatten ++ (a.calls cs).2.pending).map (·.seq)).Perm
        (List.range (a.calls cs).2.nextSeq)
  | [], _, _, h => by simpa [calls] using h
  | c :: cs, _, _, h => by
    have h' := calls_conserve cs (call_conserves h c)
    simpa [calls, List.append_assoc] using h'

end Agenda

namespace TimerQueue

/-- The queue `q` holds what the agenda `a` has pending: the same timers, sorted by deadline and
registration number, while the agenda keeps them in registration order, numbered below the next
number, which both share. -/
structure Refines (q : TimerQueue α) (a : Agenda α) : Prop where
  perm : q.timers.Perm a.pending
  sorted : q.timers.Pairwise fun t u => t.before u = true
  ordered : a.pending.Pairwise fun t u => t.seq < u.seq
  fresh : ∀ t ∈ a.pending, t.seq < a.nextSeq
  nextSeq : q.nextSeq = a.nextSeq

theorem refines_empty : Refines ({} : TimerQueue α) {} :=
  ⟨List.Perm.refl _, List.Pairwise.nil, List.Pairwise.nil, fun _ h => absurd h List.not_mem_nil,
    rfl⟩

/-- On a list where a predicate, once false, stays false, taking while it holds takes exactly
the elements where it holds. -/
theorem takeWhile_eq_filter {β : Type} {p : β → Bool} : ∀ {l : List β},
    l.Pairwise (fun x y => p y = true → p x = true) → l.takeWhile p = l.filter p
  | [], _ => rfl
  | x :: xs, h => by
    rw [List.pairwise_cons] at h
    by_cases hx : p x = true
    · rw [List.takeWhile_cons_of_pos hx, List.filter_cons_of_pos hx, takeWhile_eq_filter h.2]
    · rw [List.takeWhile_cons_of_neg hx, List.filter_cons_of_neg hx, eq_comm,
        List.filter_eq_nil_iff]
      exact fun y hy hpy => hx (h.1 y hy hpy)

/-- On such a list, dropping while the predicate holds keeps exactly the elements where it
fails. -/
theorem dropWhile_eq_filter {β : Type} {p : β → Bool} : ∀ {l : List β},
    l.Pairwise (fun x y => p y = true → p x = true) → l.dropWhile p = l.filter (fun x => !p x)
  | [], _ => rfl
  | x :: xs, h => by
    rw [List.pairwise_cons] at h
    by_cases hx : p x = true
    · rw [List.dropWhile_cons_of_pos hx, List.filter_cons_of_neg (by simp [hx]),
        dropWhile_eq_filter h.2]
    · rw [List.dropWhile_cons_of_neg hx, List.filter_cons_of_pos (by simpa using hx),
        List.filter_eq_self.2]
      intro y hy
      simpa using fun hpy => hx (h.1 y hy hpy)

namespace Refines

variable {q : TimerQueue α} {a : Agenda α}

/-- Registering a timer on both sides keeps them in step. -/
theorem registerAt (h : Refines q a) (deadline : Instant) (task : α) :
    Refines (q.registerAt deadline task) (a.register deadline task) := by
  have hfresh : ∀ u ∈ q.timers, u.seq < a.nextSeq := fun u hu => h.fresh u (h.perm.mem_iff.1 hu)
  refine ⟨?_, ?_, ?_, ?_, ?_⟩
  · show (insert { deadline, seq := q.nextSeq, task } q.timers).Perm
      (a.pending ++ [{ deadline, seq := a.nextSeq, task }])
    rw [h.nextSeq]
    exact (perm_insert _ _).trans ((h.perm.cons _).trans (List.perm_append_singleton _ _).symm)
  · exact pairwise_insert _ _ h.sorted (by simpa [h.nextSeq] using hfresh)
  · exact List.pairwise_append.2 ⟨h.ordered, List.pairwise_singleton _ _,
      fun t ht u hu => by simpa [List.mem_singleton.1 hu] using h.fresh t ht⟩
  · intro t ht
    rcases List.mem_append.1 ht with ht | ht
    · exact Nat.lt_succ_of_lt (h.fresh t ht)
    · simp [List.mem_singleton.1 ht, Agenda.register]
  · simp [TimerQueue.registerAt, Agenda.register, h.nextSeq]

/-- Two pending timers with the same registration number are the same timer. -/
theorem eq_of_seq_eq (h : Refines q a) {t u : Timer α} (ht : t ∈ a.pending)
    (hu : u ∈ a.pending)
    (hs : t.seq = u.seq) : t = u := by
  have hnodup : (a.pending.map (·.seq)).Nodup :=
    (List.pairwise_map.2 h.ordered).imp (fun hlt => Nat.ne_of_lt hlt)
  exact List.inj_on_of_nodup_map hnodup ht hu hs

/-- The pending timers that pass a test, as the queue holds them, are the agenda's sorted by
deadline and registration number. -/
theorem filter_eq_mergeSort (h : Refines q a) (p : Timer α → Bool) :
    q.timers.filter p = (a.pending.filter p).mergeSort Timer.dueFirst := by
  apply @List.Perm.eq_of_pairwise _ (fun t u => t.dueFirst u = true)
  · -- timers due together in either order share deadline and registration number
    intro t u ht hu htu hut
    rw [Timer.dueFirst_iff] at htu hut
    have ht' : t ∈ a.pending := h.perm.mem_iff.1 (List.mem_filter.1 ht).1
    have hu' : u ∈ a.pending := (List.mem_filter.1 (List.mem_mergeSort.1 hu)).1
    exact h.eq_of_seq_eq ht' hu' (by simp only [Instant] at htu hut; omega)
  · refine (h.sorted.filter p).imp fun htu => ?_
    rw [Timer.before_iff] at htu
    rw [Timer.dueFirst_iff]
    simp only [Instant] at *
    omega
  · apply List.pairwise_mergeSort
    · intro t u v htu huv
      rw [Timer.dueFirst_iff] at *
      simp only [Instant] at *
      omega
    · intro t u
      rw [Bool.or_eq_true, Timer.dueFirst_iff, Timer.dueFirst_iff]
      simp only [Instant]
      omega
  · exact (h.perm.filter p).trans (List.mergeSort_perm _ _).symm

/-- A tick on both sides takes the same timers, and keeps them in step. -/
theorem tick (h : Refines q a) (now : Instant) :
    (q.tick now).1 = (a.tick now).1.map (·.task) ∧ Refines (q.tick now).2 (a.tick now).2 := by
  -- the queue is sorted by deadline, so the timers due at `now` are the ones it starts with
  have hmono : q.timers.Pairwise fun t u =>
      decide (u.deadline ≤ now) = true → decide (t.deadline ≤ now) = true :=
    h.sorted.imp fun htu hu => by
      rw [Timer.before_iff] at htu
      simp only [decide_eq_true_eq, Instant] at *
      omega
  refine ⟨?_, ⟨?_, ?_, ?_, ?_, ?_⟩⟩
  · simp only [TimerQueue.tick, Agenda.tick, takeWhile_eq_filter hmono, h.filter_eq_mergeSort]
  · simp only [TimerQueue.tick, Agenda.tick, dropWhile_eq_filter hmono]
    exact h.perm.filter _
  · simp only [TimerQueue.tick, dropWhile_eq_filter hmono]
    exact h.sorted.filter _
  · exact h.ordered.filter _
  · intro t ht
    exact h.fresh t (List.mem_filter.1 ht).1
  · exact h.nextSeq

/-- The queue's next deadline is the least deadline the agenda has pending, none when nothing
is. -/
theorem nextDeadline_eq (h : Refines q a) :
    q.nextDeadline = (a.pending.map (·.deadline)).min? := by
  unfold nextDeadline
  cases hq : q.timers with
  | nil =>
    have hp : a.pending = [] := (List.Perm.nil_eq (hq ▸ h.perm)).symm
    simp [hp]
  | cons t ts =>
    -- the head of the queue is pending and comes out before every other pending timer
    have hsorted := hq ▸ h.sorted
    symm
    rw [List.head?_cons, Option.map_some, List.min?_eq_some_iff]
    refine ⟨List.mem_map_of_mem (h.perm.mem_iff.1 (by simp [hq])), fun d hd => ?_⟩
    obtain ⟨u, hu, rfl⟩ := List.mem_map.1 hd
    rcases List.mem_cons.1 (hq ▸ h.perm.mem_iff.2 hu) with rfl | hu'
    · exact Nat.le_refl _
    · have htu := (List.pairwise_cons.1 hsorted).1 u hu'
      rw [Timer.before_iff] at htu
      simp only [Instant] at htu ⊢
      omega

/-- Step lemma: every call on both sides returns the same tasks and keeps them in step. -/
theorem call (h : Refines q a) (c : Call α) :
    (q.call c).1 = (a.call c).1.map (·.task) ∧ Refines (q.call c).2 (a.call c).2 := by
  cases c with
  | registerAt deadline task => exact ⟨rfl, h.registerAt deadline task⟩
  | registerTimeout now delay task => exact ⟨rfl, h.registerAt (now + delay) task⟩
  | tick now => exact h.tick now

end Refines

/-- Run lemma: any calls on both sides return the same tasks and keep them in step. -/
theorem refines_calls :
    ∀ (cs : List (Call α)) {q : TimerQueue α} {a : Agenda α}, Refines q a →
    (q.calls cs).1 = (a.calls cs).1.map (·.map (·.task)) ∧ Refines (q.calls cs).2 (a.calls cs).2
  | [], _, _, h => ⟨rfl, h⟩
  | c :: cs, _, _, h => by
    obtain ⟨hc, h'⟩ := h.call c
    obtain ⟨hcs, h''⟩ := refines_calls cs h'
    exact ⟨by simp only [TimerQueue.calls, Agenda.calls, List.map_cons, hc, hcs], h''⟩

/-- The timer queue is a stable priority queue. Run any registrations, at a deadline or after a
delay, and ticks at any instants, in any order, from an empty queue and from an empty agenda of
pending timers kept in registration order: every tick returns the tasks of the pending timers due
at its instant, earliest deadline first and, among equal deadlines, in the order they were
registered; the queue holds exactly the timers left pending; its next deadline is the least
pending deadline, none when nothing is pending; and every timer registered has been returned by
exactly one tick or is still pending. -/
theorem calls_follow_agenda (cs : List (Call α)) :
    (({} : TimerQueue α).calls cs).1 = (({} : Agenda α).calls cs).1.map (·.map (·.task)) ∧
      (({} : TimerQueue α).calls cs).2.timers.Perm (({} : Agenda α).calls cs).2.pending ∧
      (({} : TimerQueue α).calls cs).2.nextDeadline =
        ((({} : Agenda α).calls cs).2.pending.map (·.deadline)).min? ∧
      (((({} : Agenda α).calls cs).1.flatten ++ (({} : Agenda α).calls cs).2.pending).map
        (·.seq)).Perm (List.range (({} : Agenda α).calls cs).2.nextSeq) := by
  obtain ⟨hout, hrun⟩ := refines_calls cs refines_empty
  have hcons := @Agenda.calls_conserve α cs [] {} (List.Perm.refl _)
  exact ⟨hout, hrun.perm, hrun.nextDeadline_eq, by simpa using hcons⟩

example : (({} : TimerQueue Nat).calls
    [.registerAt 5 0, .registerAt 3 1, .registerTimeout 1 2 2, .tick 4, .tick 2, .tick 10]).1 =
      [[], [], [], [1, 2], [], [0]] := by decide

end TimerQueue

end KvServer
