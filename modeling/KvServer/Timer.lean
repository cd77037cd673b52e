import KvServer.Clock

/-!
# Timer queue

Tasks registered to come due at a deadline. Ticking at an instant takes every task whose deadline
is at or before it, earliest deadline first and, among equal deadlines, in the order they were
registered; every other task stays queued. Timers are never cancelled: a task whose cause has
gone must do nothing when it comes due.

The queue is kept sorted by deadline and then by registration number.
-/

namespace KvServer

/-- A registered task, with its deadline and registration number. -/
structure Timer (α : Type) where
  deadline : Instant
  seq : Nat
  task : α
  deriving Inhabited

/-- Whether `t` comes out before `u`. -/
def Timer.before (t u : Timer α) : Bool :=
  t.deadline < u.deadline ∨ (t.deadline = u.deadline ∧ t.seq < u.seq)

/-- A queue of timers. -/
structure TimerQueue (α : Type) where
  /-- The timers, in the order they come out. -/
  timers : List (Timer α) := []
  /-- The registration number of the next timer. -/
  nextSeq : Nat := 0
  deriving Inhabited

namespace TimerQueue

variable {α : Type}

/-- Puts `t` into a sorted list of timers, behind every timer that comes out before it. -/
def insert (t : Timer α) : List (Timer α) → List (Timer α)
  | [] => [t]
  | u :: us => if t.before u then t :: u :: us else u :: insert t us

/-- Registers `task` to come due at `deadline`. -/
def registerAt (q : TimerQueue α) (deadline : Instant) (task : α) : TimerQueue α :=
  { timers := insert { deadline, seq := q.nextSeq, task } q.timers, nextSeq := q.nextSeq + 1 }

/-- Registers `task` to come due `delay` nanoseconds after `now`. -/
def registerTimeout (q : TimerQueue α) (now : Instant) (delay : Nat) (task : α) : TimerQueue α :=
  q.registerAt (now + delay) task

/-- Takes every task due at `now`, in the order they come out. -/
def tick (q : TimerQueue α) (now : Instant) : List α × TimerQueue α :=
  let due := q.timers.takeWhile (·.deadline ≤ now)
  (due.map (·.task), { q with timers := q.timers.dropWhile (·.deadline ≤ now) })

/-- The earliest deadline still queued. -/
def nextDeadline (q : TimerQueue α) : Option Instant :=
  q.timers.head?.map (·.deadline)

/-- How many tasks are queued. -/
def size (q : TimerQueue α) : Nat :=
  q.timers.length

end TimerQueue

end KvServer
