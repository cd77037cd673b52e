import Mathlib
import KvServer.Proofs.HandlerReplies

/-!
# Every reply is a frame

A server answers a request frame with a value the wire format carries, so that a reader of the reply
stream recovers each reply whole and in order. Two things are needed: the server within the limits
of the types it stands for (`Server.WithinLimits`: held texts fit bulk texts, counts fit 64 bits),
and a frame whose texts fit bulk texts, as every frame a reader accepts does but for simple texts.

One frame breaks this: a first item that is a text holding a carriage return and a line feed is
refused as an unknown verb, and the error quotes the text as it came, line break included; a reader
takes the error to end there. `Server.execute_reply_wellFormed_iff` states both halves.
-/

namespace KvServer

open Value

/-! ## Request frames -/

/-- A request frame whose texts all fit a bulk text, in an array of fewer than `2 ^ 64` items as
every array the decoder reads is; a frame that is no array is refused anyway. -/
def Value.FitsRequest : Value → Prop
  | .array items => items.length < 2 ^ 64 ∧
      ∀ v ∈ items, ∀ t, Command.part? v = some t → t.utf8ByteSize ≤ Wire.maxBulkLength
  | _ => True

/-- The frame's first item is a text holding a carriage return followed by a line feed. -/
def Value.HeadBreaksLine : Value → Prop
  | .array (first :: _) => ∃ t, Command.part? first = some t ∧ [13, 10] <:+: utf8 t
  | _ => False

namespace Command

theorem mapM_part?_spec : ∀ (rest : List Value) (args : List String), rest.mapM part? = some args →
    args.length = rest.length ∧ ∀ a ∈ args, ∃ v ∈ rest, part? v = some a
  | [], args, h => by
    simp only [List.mapM_nil, pure, Option.some.injEq] at h
    simp [← h]
  | v :: vs, args, h => by
    simp only [List.mapM_cons, bind, Option.bind_eq_some_iff, pure, Option.some.injEq] at h
    obtain ⟨a, ha, as, has, rfl⟩ := h
    obtain ⟨hlen, hmem⟩ := mapM_part?_spec vs as has
    refine ⟨by simp [hlen], ?_⟩
    rintro b (_ | ⟨_, hb⟩)
    · exact ⟨v, by simp, ha⟩
    · obtain ⟨w, hw, hwb⟩ := hmem b hb
      exact ⟨w, by simp [hw], hwb⟩

/-- The arguments of a command read from a frame that fits are fewer than `2 ^ 64` texts, each
fitting a bulk text. -/
theorem ofFrame_fits {c : ConnId} {f : Value} {cmd : Command} (hf : f.FitsRequest)
    (h : ofFrame c f = .ok cmd) :
    cmd.args.length < 2 ^ 64 ∧ ∀ a ∈ cmd.args, a.utf8ByteSize ≤ Wire.maxBulkLength := by
  unfold ofFrame at h
  split at h
  · rename_i first rest
    obtain ⟨hl, ht⟩ := hf
    split at h
    · simp at h
    · split at h
      · simp at h
      · split at h
        · simp at h
        · rename_i args hargs
          simp only [Except.ok.injEq] at h
          subst h
          obtain ⟨hlen, hmem⟩ := mapM_part?_spec rest args hargs
          refine ⟨?_, fun a ha => ?_⟩
          · simp only [List.length_cons] at hl
            dsimp only
            omega
          obtain ⟨v, hv, hva⟩ := hmem a ha
          exact ht v (by simp [hv]) a hva
  · simp at h

/-- A frame is refused as an unknown verb holding a line break exactly when its first item is a
text holding one: a text naming a verb holds none. -/
theorem headBreaksLine_iff (c : ConnId) : ∀ f : Value,
    f.HeadBreaksLine ↔ ∃ name, ofFrame c f = .error (.unknownCommand name) ∧ [13, 10] <:+: utf8 name
  | .array (first :: rest) => by
    unfold Value.HeadBreaksLine ofFrame
    rcases hp : part? first with _ | t
    · simp [hp]
    · rcases hv : Verb.parse? t with _ | v
      · simp [hp, hv]
      · -- a known verb holds no line break, and its frame is read or refused for another cause
        have hcr := crlf_not_infix_of_cr_not_mem_toList (Verb.cr_not_mem_of_parse? hv)
        simp only [hp, hv, Option.some.injEq, exists_eq_left', hcr, false_iff, not_exists, not_and]
        intro name h
        split at h <;> simp at h
  | .array [] | .simple _ | .error _ | .integer _ | .bulk _ | .null => by
    simp [Value.HeadBreaksLine, ofFrame]

end Command

theorem Request.length_le_costs (qs : List Request) : qs.length ≤ costs qs := by
  induction qs with
  | nil => simp [costs]
  | cons q qs ih =>
    simp only [costs, List.map_cons, List.sum_cons, List.length_cons, cost] at ih ⊢
    omega

namespace Server

/-- A server within the limits of the original's types: every text it holds or has queued fits a
bulk text, no list holds `2 ^ 64` items even with everything a transaction queue may push, the
replica count and the offset fit 64 bits, and a replica's master host name has at most `2 ^ 28`
bytes. -/
structure WithinLimits (s : Server) : Prop where
  strings : ∀ (key : String) (e : Entry), s.strings.entries[key]? = some e →
    e.value.utf8ByteSize ≤ Wire.maxBulkLength
  items : ∀ key, ∀ x ∈ s.lists.items key, x.utf8ByteSize ≤ Wire.maxBulkLength
  queued : ∀ (c : ConnId) (qs : List Request), s.transactions.queues[c]? = some qs →
    ∀ q ∈ qs, q.Fits
  lists : ∀ key, (s.lists.items key).length < 2 ^ 64
  room : ∀ (c : ConnId) (qs : List Request), s.transactions.queues[c]? = some qs →
    ∀ key, (s.lists.items key).length + Request.costs qs < 2 ^ 64
  replicas : s.replication.replicas.length < 2 ^ 64
  offset : s.replication.offset < 2 ^ 64
  host : ∀ m, s.replication.role = .replica m → m.host.utf8ByteSize ≤ 2 ^ 28

theorem WithinLimits.bounded {s : Server} (h : s.WithinLimits) : s.Bounded 0 where
  strings := h.strings
  items := h.items
  lists key := h.lists key
  replicas := lt_of_lt_of_le h.replicas (by norm_num)
  offset := by simpa using lt_of_lt_of_le h.offset (by norm_num)
  host := h.host

/-- A transaction queue of a server within the limits leaves it bounded for the whole queue. -/
theorem WithinLimits.bounded_queue {s : Server} (h : s.WithinLimits) {c : ConnId}
    {qs : List Request} (hq : s.transactions.queues[c]? = some qs) : s.Bounded (Request.costs qs) := by
  have hc : Request.costs qs < 2 ^ 64 := by
    have := h.room c qs hq ""
    omega
  exact {
    strings := h.strings
    items := h.items
    lists := h.room c qs hq
    replicas := calc
      s.replication.replicas.length + Request.costs qs < 2 ^ 64 + 2 ^ 64 := Nat.add_lt_add h.replicas hc
      _ ≤ 2 ^ 128 := by norm_num
    offset := calc
      s.replication.offset + Request.costs qs * 2 ^ 128 < 2 ^ 64 + 2 ^ 64 * 2 ^ 128 :=
        Nat.add_lt_add_of_lt_of_le h.offset (Nat.mul_le_mul_right _ hc.le)
      _ ≤ 2 ^ 256 := by norm_num
    host := h.host }

/-- What a command's result must be for its reply to be well formed: a refusal quotes nothing the
client sent, and a reply given now is well formed. -/
def Answers : Except CommandError (Outcome × Server) → Prop
  | .error e => ¬ e.Quotes
  | .ok (o, _) => ∀ v, o = .completed v → v.WellFormed

theorem Answers.refuse {e : CommandError} (h : ¬ e.Quotes) : Answers (.error e) := h

theorem Answers.reply {s' : Server} {v : Value} (hv : v.WellFormed) :
    Answers (.ok (.completed v, s')) := by
  rintro _ ⟨⟩
  exact hv

/-- EXEC answers the array of what running its queue directly answers. -/
theorem exec_answers {s : Server} (hs : s.WithinLimits) (now : Instant) (origin : ConnId) :
    Answers (match s.transactions.exec? origin with
      | none => .error .execWithoutMulti
      | some (queued, transactions) =>
        let (replies, s) := replay now queued { s with transactions, replaying := true }
        .ok (.completed (.array replies), { s with replaying := false })) := by
  rcases hx : s.transactions.exec? origin with _ | ⟨queued, t⟩
  · exact .refuse id
  · have hq : s.transactions.queues[origin]? = some queued := by
      simp only [Transactions.exec?, Option.map_eq_some_iff, Prod.mk.injEq] at hx
      obtain ⟨q', hq', rfl, -⟩ := hx
      exact hq'
    have hr := replay_eq_runDirect now t queued s
    simp only [withQueues] at hr
    simp only [hr]
    have hlen : queued.length < 2 ^ 64 := by
      have := hs.room origin queued hq ""
      have := Request.length_le_costs queued
      omega
    exact .reply (wellFormed_array (by rw [length_runDirect]; exact hlen)
      (runDirect_flat now queued s 0 (by simpa using hs.bounded_queue hq) (hs.queued origin queued hq)))

/-- MULTI, EXEC, DISCARD and every action, with arguments that fit, answer well formed values or
refuse without quoting the client. -/
theorem control_answers {s : Server} (hs : s.WithinLimits) (now : Instant) (origin : ConnId)
    {args : List String} (hn : args.length < 2 ^ 64)
    (ha : ∀ a ∈ args, a.utf8ByteSize ≤ Wire.maxBulkLength) :
    ∀ verb, Answers (s.control now origin args verb)
  | .action a => by
    have h : Replies s ⟨origin, a, args⟩ (s.act now ⟨origin, a, args⟩) :=
      act_replies hs.bounded ha hn
    show Answers (s.act now ⟨origin, a, args⟩)
    rcases hact : s.act now ⟨origin, a, args⟩ with e | ⟨o, s'⟩ <;> rw [hact] at h
    · exact .refuse h
    · exact fun v hv => (h.1 v hv).1
  | .multi => by
    simp only [control]
    split
    · exact .reply flat_ok.1
    · exact .refuse id
  | .exec => by
    simp only [control]
    split
    · exact .refuse id
    · exact exec_answers hs now origin
  | .discard => by
    simp only [control]
    split
    · exact .refuse id
    · split
      · exact .refuse id
      · exact .reply flat_ok.1

/-- Running a command whose arguments fit answers with a well formed value. -/
theorem run_wellFormed {s : Server} (hs : s.WithinLimits) {cmd : Command}
    (hn : cmd.args.length < 2 ^ 64) (ha : ∀ a ∈ cmd.args, a.utf8ByteSize ≤ Wire.maxBulkLength)
    (now : Instant) {v : Value} (hv : (s.run now cmd).1 = .completed v) : v.WellFormed := by
  have h := control_answers hs now cmd.origin hn ha cmd.verb
  unfold run at hv
  rcases hc : s.control now cmd.origin cmd.args cmd.verb with e | ⟨o, s'⟩ <;> rw [hc] at h hv
  · simp only [Outcome.completed.injEq] at hv
    subst hv
    exact CommandError.reply_wellFormed h
  · exact h v hv

/-- A command read from a frame that fits is answered with a well formed value, whether it is
refused for its arity, queued or run. -/
theorem execute_wellFormed_of_ok {s : Server} (hs : s.WithinLimits) {f : Value} (hf : f.FitsRequest)
    {c : ConnId} {cmd : Command} (hof : Command.ofFrame c f = .ok cmd) (now : Instant) {v : Value}
    (hv : (s.execute now c f).1 = .completed v) : v.WellFormed := by
  obtain ⟨hn, ha⟩ := Command.ofFrame_fits hf hof
  unfold execute at hv
  rw [hof] at hv
  dsimp only at hv
  split at hv
  · simp only [Outcome.completed.injEq] at hv
    subst hv
    exact CommandError.reply_wellFormed id
  · split at hv
    · simp only [Outcome.completed.injEq] at hv
      subst hv
      exact (flat_simple (crlf_not_infix_of_cr_not_mem (by decide))).1
    · exact run_wellFormed hs hn ha now hv

/-- A server within its limits answers every request frame whose texts fit a bulk text with a well
formed value, EXEC's array included, except when the frame's first item is a text holding a
carriage return and a line feed: that frame is refused as an unknown verb, and the error quotes the
text as it came. -/
theorem execute_reply_wellFormed_iff {s : Server} (hs : s.WithinLimits) {f : Value}
    (hf : f.FitsRequest) (now : Instant) (c : ConnId) {v : Value}
    (hv : (s.execute now c f).1 = .completed v) : v.WellFormed ↔ ¬ f.HeadBreaksLine := by
  rw [Command.headBreaksLine_iff c]
  rcases hof : Command.ofFrame c f with e | cmd
  · -- a refused frame is answered with its error
    simp only [execute, hof, Outcome.completed.injEq] at hv
    subst hv
    cases e with
    | unknownCommand name =>
      simp [CommandError.reply_unknownCommand_wellFormed_iff]
    | _ => simpa using CommandError.reply_wellFormed id
  · simpa using execute_wellFormed_of_ok hs hf hof now hv

theorem ping_reply_wellFormed :
    (Value.simple "PONG").WellFormed ↔ ¬ (Value.command ["PING"]).HeadBreaksLine := by
  have hs : (Server.new .master 6379).WithinLimits := by
    refine ⟨?_, ?_, ?_, ?_, ?_, ?_, ?_, ?_⟩ <;> simp [Server.new, Replication.new, Lists.items]
  have hf : (Value.command ["PING"]).FitsRequest := by
    simp only [Value.FitsRequest, Value.command, List.map_cons, List.map_nil]
    refine ⟨by simp, ?_⟩
    simp only [List.mem_singleton, forall_eq, Command.part?, Option.some.injEq, forall_eq']
    decide
  have hkw : (Verb.action .ping).keyword = "PING" := by decide +kernel
  have hof : Command.ofFrame 1 (Value.command ["PING"]) = .ok ⟨1, .action .ping, []⟩ := by
    have := Command.ofFrame_toRequest 1 ⟨1, .action .ping, []⟩
    rwa [Command.toRequest, hkw] at this
  have hv : ((Server.new .master 6379).execute 0 1 (Value.command ["PING"])).1 =
      .completed (.simple "PONG") := by
    simp [execute, hof, Command.hasArity, Verb.arity, Transactions.enqueue?, Server.new, run,
      control, act, ping]
  exact execute_reply_wellFormed_iff hs hf 0 1 hv

/-- A first item holding a line break is quoted as it came, so its error is no frame: a reader
would take the error to end at the line break. -/
theorem unknown_verb_with_line_break_reply :
    (Server.new .master 6379).execute 0 1 (Value.command ["a\r\nb"]) =
        (.completed (.error "ERR unknown command 'a\r\nb'"), Server.new .master 6379) ∧
      ¬ (Value.error "ERR unknown command 'a\r\nb'").WellFormed := by
  have hv : Verb.parse? "a\r\nb" = none := by decide +kernel
  have hof : Command.ofFrame 1 (Value.command ["a\r\nb"]) = .error (.unknownCommand "a\r\nb") := by
    simp only [Command.ofFrame, Value.command, List.map_cons, List.map_nil, Command.part?, hv]
  have hmsg : (CommandError.unknownCommand "a\r\nb").reply = .error "ERR unknown command 'a\r\nb'" := by
    show Value.error ("ERR " ++ CommandError.message (.unknownCommand "a\r\nb")) = _
    rw [show "ERR " ++ CommandError.message (.unknownCommand "a\r\nb") = "ERR unknown command 'a\r\nb'" by
      decide +kernel]
  refine ⟨?_, ?_⟩
  · rw [execute, hof]
    dsimp only
    rw [hmsg]
  · rw [wellFormed_error_iff, not_not]
    decide +kernel

end Server

end KvServer
