import Mathlib
import KvServer.Command.Execute

/-!
# Refused requests change nothing

Every handler builds its reply from texts, integers, null and arrays, so an error reply only
comes from a refusal: a frame that is no command, too few elements for the verb, or a handler
that refuses its arguments or the value it finds (a SET option, an INCR on a text that is no
integer or on the largest one, an LPOP count, a BLPOP timeout, a PSYNC offset, EXEC or DISCARD
outside a transaction). A refusal answers the error of its cause and hands back the server it was
given. `Server.execute_error_keeps_state` puts the two together.
-/

namespace KvServer

namespace Server

theorem getD_map_bulk_ne_error (o : Option String) (m : String) :
    (o.map Value.bulk).getD .null ≠ .error m := by
  cases o <;> simp

/-- An action that is not refused never replies with an error. -/
theorem act_reply_ne_error {s s' : Server} {now : Instant} {q : Request} {o : Outcome}
    (h : s.act now q = .ok (o, s')) (m : String) : o ≠ .completed (.error m) := by
  rintro rfl
  obtain ⟨origin, a, args⟩ := q
  -- every leaf of every handler that does not refuse builds its reply from another constructor
  cases a <;>
    simp only [act, ping, echo, Server.set, Server.get, Server.incr, push, Server.lrange, llen,
      Server.lpop, Server.blpop, info, replconf, psync, bind, Except.bind, pure, Except.pure] at h <;>
    repeat' split at h
  all_goals simp [Value.ok, Value.command, getD_map_bulk_ne_error] at h

/-- MULTI, EXEC and DISCARD answer `OK` or an array when they are not refused, and an action
answers what it answers. -/
theorem control_reply_ne_error {s s' : Server} {now : Instant} {origin : ConnId}
    {args : List String} {v : Verb} {o : Outcome} (h : s.control now origin args v = .ok (o, s'))
    (m : String) : o ≠ .completed (.error m) := by
  cases v with
  | action a => exact act_reply_ne_error h m
  | multi | exec | discard =>
    rintro rfl
    simp only [control] at h
    repeat' split at h
    all_goals simp [Value.ok] at h

/-- A command that is run and answered with an error was refused: the server is unchanged and
the error is the reply of the cause. -/
theorem run_error_keeps_state {s : Server} {now : Instant} {c : Command} {m : String}
    (h : (s.run now c).1 = .completed (.error m)) :
    (s.run now c).2 = s ∧ ∃ e : CommandError, (s.run now c).1 = .completed e.reply := by
  unfold run at h ⊢
  split at h
  · rename_i r hr
    obtain ⟨o, s'⟩ := r
    exact absurd h (control_reply_ne_error hr m)
  · rename_i e _
    exact ⟨rfl, e, rfl⟩

/-- **A request answered with an error leaves the server as it was.** Whatever the server, the
connection and the frame, an error reply comes from a refusal, the reply of its cause, and the
server afterwards is the server before: both stores with their entries not yet dropped, the
blocked pops, the timers, the transaction queues, the replication record and replicas, the
replies waiting, the open connections and the replaying flag. -/
theorem execute_error_keeps_state (s : Server) (now : Instant) (origin : ConnId) (frame : Value)
    (m : String) (h : (s.execute now origin frame).1 = .completed (.error m)) :
    (s.execute now origin frame).2 = s ∧
      ∃ e : CommandError, (s.execute now origin frame).1 = .completed e.reply := by
  cases hf : Command.ofFrame origin frame with
  | error e =>
    simp only [execute, hf, true_and]
    exact ⟨e, rfl⟩
  | ok c =>
    by_cases ha : c.hasArity
    · rcases hq : s.transactions.enqueue? c with _ | t
      · simp only [execute, hf, ha, hq, Bool.not_true, Bool.false_eq_true, if_false] at h ⊢
        exact run_error_keeps_state h
      · -- inside a transaction the request is queued and answered `QUEUED`, no error
        simp [execute, hf, ha, hq] at h
    · simp only [execute, hf, ha, Bool.not_false, if_true, true_and]
      exact ⟨_, rfl⟩

/-- SET with a key and no value is refused, and the server stays as it was. -/
theorem set_without_value_keeps_state :
    let s := Server.new .master 6379
    let f := Value.command ["SET", "k"]
    (s.execute 0 1 f).1 = .completed (.error "ERR wrong number of arguments for 'set' command") ∧
      (s.execute 0 1 f).2 = s ∧ ∃ e : CommandError, (s.execute 0 1 f).1 = .completed e.reply := by
  intro s f
  have h : (s.execute 0 1 f).1 =
      .completed (.error "ERR wrong number of arguments for 'set' command") := rfl
  exact ⟨h, execute_error_keeps_state s 0 1 f _ h⟩

end Server

end KvServer
