import Mathlib
import KvServer.Proofs.Bookkeeping

/-!
# The link to the master: the handshake, then the stream

A replica's link to its master speaks first. It sends `PING`, and each time the master's reply is
accepted it sends the next request of the handshake: `REPLCONF listening-port`, `REPLCONF capa
psync2`, `PSYNC ? -1`. The reply to the last one marks the link up, and every frame after it is
one of the master's writes, applied on the spot and never answered.

`Handshake.after port k` is the handshake once `k` replies are accepted, and
`Server.afterGreeting` the server once the link has read its frames: as it was through the
handshake, marked up at the fourth reply, then running the writes in order. `Connection.Greeted`
says that a link stands where the frames it read put it. `Greeted.handle` is the step of one
frame (the next request sent, the link marked up, or a write run), `processWith_accepted` the run
over the frames of a buffer, and `runEvents_greeted` the run over chunks of bytes cut anywhere,
with `Wire.arrivals` naming the frames each chunk completes. `runEvents_rejects` is the run in
which a reply is refused: the link reports it and takes nothing after it. There a chunk either
completes the refused reply or ends before it (`Wire.holds_all_or_some`).
-/

namespace KvServer

open Value Wire

/-! ## The handshake after `k` accepted replies -/

/-- The stage once `k` replies are accepted. -/
def Stage.ofAccepted : Nat → Stage
  | 0 => .ping
  | 1 => .listeningPort
  | 2 => .capabilities
  | 3 => .psync
  | _ => .done

/-- Whether a reply of the master answers the request of the stage: its text is the one the
stage expects, and it is no error. -/
def Stage.acceptsReply (stage : Stage) (reply : Value) : Bool :=
  Handshake.accepts stage (reply.text?.getD "") && !reply.isError

/-- Whether frames read after `k` accepted replies are each accepted in turn; a frame after the
fourth reply is one of the master's writes and always passes. -/
def Stage.acceptsFrom : Nat → List Value → Bool
  | _, [] => true
  | k, f :: fs => (decide (4 ≤ k) || (ofAccepted k).acceptsReply f) && acceptsFrom (k + 1) fs

namespace Stage

theorem ofAccepted_of_le {k : Nat} (hk : 4 ≤ k) : ofAccepted k = .done := by
  obtain ⟨j, rfl⟩ := Nat.exists_eq_add_of_le' hk
  rfl

theorem acceptsFrom_append (k : Nat) (xs ys : List Value) :
    acceptsFrom k (xs ++ ys) = (acceptsFrom k xs && acceptsFrom (k + xs.length) ys) := by
  induction xs generalizing k with
  | nil => simp [acceptsFrom]
  | cons x xs ih =>
    simp only [List.cons_append, acceptsFrom, ih, Bool.and_assoc, List.length_cons]
    rw [Nat.add_right_comm, Nat.add_assoc]

theorem acceptsFrom_of_le {k : Nat} (hk : 4 ≤ k) (xs : List Value) : acceptsFrom k xs = true := by
  induction xs generalizing k with
  | nil => rfl
  | cons x xs ih => simp [acceptsFrom, hk, ih (Nat.le_succ_of_le hk)]

/-- Frames that a stream of accepted frames starts with, after the frames `xs`, are accepted from
where `xs` leaves the handshake. -/
theorem acceptsFrom_of_append {xs ys zs : List Value} (h : acceptsFrom 0 (xs ++ ys ++ zs) = true) :
    acceptsFrom xs.length ys = true := by
  simp only [acceptsFrom_append, Bool.and_eq_true, Nat.zero_add] at h
  exact h.1.2

end Stage

namespace Handshake

/-- The requests of the handshake, in order. -/
def requests (port : UInt16) : List Value :=
  [Value.command ["PING"], Value.command ["REPLCONF", "listening-port", Decimal.ofNat port.toNat],
    Value.command ["REPLCONF", "capa", "psync2"], Value.command ["PSYNC", "?", "-1"]]

/-- The handshake once `k` replies are accepted: the request of its stage outstanding, and none
once all four are in. -/
def after (port : UInt16) (k : Nat) : Handshake :=
  { stage := Stage.ofAccepted k, requestSent := decide (k < 4), port }

variable {port : UInt16}

theorem start_new (port : UInt16) : (new port).start = (Value.command ["PING"], after port 0) :=
  rfl

theorem after_of_le {k : Nat} (hk : 4 ≤ k) : after port k = after port 4 := by
  simp only [after, Stage.ofAccepted_of_le hk, Stage.ofAccepted_of_le (le_refl 4)]
  simp
  omega

theorem isDone_after (port : UInt16) (k : Nat) : (after port k).isDone = decide (4 ≤ k) := by
  obtain _ | _ | _ | _ | k := k <;> rfl

theorem isDone_after_of_lt {k : Nat} (hk : k < 4) : (after port k).isDone = false := by
  simp only [isDone_after, decide_eq_false_iff_not, not_le]
  exact hk

theorem requestSent_after_of_lt {k : Nat} (hk : k < 4) : (after port k).requestSent = true := by
  simp [after, hk]

theorem next_after (port : UInt16) (k : Nat) :
    (after port k).next = (Stage.ofAccepted (k + 1), (requests port)[k + 1]?) := by
  obtain _ | _ | _ | _ | k := k <;> rfl

/-- An accepted reply moves the handshake on by one and gives the next request, none after the
fourth. -/
theorem onReply_after_accepts {k : Nat} {reply : Value} (hk : k < 4)
    (hr : (Stage.ofAccepted k).acceptsReply reply = true) :
    (after port k).onReply reply = (.ok (requests port)[k + 1]?, after port (k + 1)) := by
  have hstage : (after port k).stage = Stage.ofAccepted k := rfl
  simp only [Stage.acceptsReply, Bool.and_eq_true, Bool.not_eq_eq_eq_not, Bool.not_true] at hr
  simp only [onReply, requestSent_after_of_lt hk, isDone_after_of_lt hk, hstage, hr, next_after, Bool.not_true, Bool.or_false,
    Bool.false_eq_true, if_false]
  -- a request is outstanding after the reply exactly when one is left to send
  have hsome : (requests port)[k + 1]?.isSome = decide (k + 1 < 4) := by
    rw [Bool.eq_iff_iff]
    simp [requests]
    omega
  rw [hsome]
  rfl

/-- A refused reply fails the handshake, naming the stage, and sends it back to the start. -/
theorem onReply_after_rejects {k : Nat} {reply : Value} (hk : k < 4)
    (hr : (Stage.ofAccepted k).acceptsReply reply = false) :
    (after port k).onReply reply =
      (.error (.unexpectedReply (Stage.ofAccepted k) (Text.trimEnd reply.render)),
        (after port k).reset) := by
  have hstage : (after port k).stage = Stage.ofAccepted k := rfl
  have hbad : (!accepts (Stage.ofAccepted k) (reply.text?.getD "") || reply.isError) = true := by
    cases ha : accepts (Stage.ofAccepted k) (reply.text?.getD "")
    · rfl
    · simpa [Stage.acceptsReply, ha] using hr
  simp only [onReply, requestSent_after_of_lt hk, isDone_after_of_lt hk, hstage, hbad]
  rfl

end Handshake

/-! ## The server as the link reads -/

namespace Server

/-- The server once its link `id` to the master has read the frames `got`, each with the instant
it was read at: the four replies of the handshake leave it as it was until the last one marks
the link up, and every later frame is one of the master's writes, applied at its instant. -/
def afterGreeting (s : Server) (id : ConnId) (got : List (Value × Instant)) : Server :=
  if got.length < 4 then s
  else ({ s with replication := { s.replication with masterLinkUp := true } } : Server).replicate id
    (got.drop 4)

variable {s : Server} {id : ConnId} {got : List (Value × Instant)}

theorem afterGreeting_of_lt (h : got.length < 4) : s.afterGreeting id got = s :=
  if_pos h

theorem afterGreeting_fourth (h : got.length = 3) (x : Value × Instant) :
    s.afterGreeting id (got ++ [x]) =
      { s with replication := { s.replication with masterLinkUp := true } } := by
  have hd : (got ++ [x]).drop 4 = [] := List.drop_eq_nil_of_le (by simp [h])
  simp [afterGreeting, h, hd, replicate]

theorem afterGreeting_write (h : 4 ≤ got.length) (f : Value) (t : Instant) :
    s.afterGreeting id (got ++ [(f, t)]) = ((s.afterGreeting id got).execute t id f).2 := by
  have h' : ¬ (got ++ [(f, t)]).length < 4 := by simp; omega
  rw [afterGreeting, if_neg h', afterGreeting, if_neg (not_lt.2 h),
    List.drop_append_of_le_length h, replicate_append]
  rfl

/-- The master's writes leave the link's state as it is. -/
theorem replicate_masterLinkUp (s : Server) (xs : List (Value × Instant)) :
    (s.replicate id xs).replication.masterLinkUp = s.replication.masterLinkUp := by
  induction xs generalizing s with
  | nil => rfl
  | cons x xs ih =>
    obtain ⟨f, t⟩ := x
    rw [replicate, ih]
    exact (execute_attaches s t id f).masterLinkUp

theorem afterGreeting_masterLinkUp (h : 4 ≤ got.length) :
    (s.afterGreeting id got).replication.masterLinkUp = true := by
  rw [afterGreeting, if_neg (not_lt.2 h), replicate_masterLinkUp]

end Server

/-! ## One frame at a time -/

namespace Connection

variable {port : UInt16} {id : ConnId} {got : List (Value × Instant)} {c : Connection}

/-- A frame that stops processing with an error ends it there. -/
theorem processWith_frame_fails {now : Instant} {fuel : Nat} {c d : Connection} {s t : Server}
    {f : Value} {rest : List UInt8} {e : ConnectionError} (hs : c.suspended = false)
    (hf : f.WellFormed) (hin : c.inbound = { bytes := f.encode ++ rest })
    (hh : ({ c with inbound := { bytes := rest } }).handle s now f = (some e, d, t)) :
    processWith now (fuel + 1) c s = (some e, d, t) := by
  have hread : Wire.read c.inbound.unread = .done f rest := by
    rw [hin, Buffer.unread_ofBytes, read_encode hf]
  have hsuf : rest <:+ c.inbound.unread := by
    rw [hin, Buffer.unread_ofBytes]
    exact List.suffix_append _ _
  simp only [hs] at hh
  simp only [processWith, hs, Bool.false_eq_true, if_false, Buffer.decode_mark_of_done hread,
    Buffer.commit_advance_mark hsuf, hh]

/-- The link `c` to the master, announcing port `port`, stands where reading the frames `got`
puts it: it is link `id`, its handshake is past as many replies, it waits for nothing, and it has
written the requests of the handshake up to the one after the last reply read, and nothing
else. -/
structure Greeted (port : UInt16) (id : ConnId) (got : List (Value × Instant)) (c : Connection) :
    Prop where
  conn : c.id = id
  role : c.role = .replicaLink (Handshake.after port got.length)
  suspended : c.suspended = false
  outbound : c.outbound.bytes =
    ((Handshake.requests port).take (min got.length 3 + 1)).flatMap encode

/-- A new link has read nothing and written `PING`. -/
theorem greeted_replicaLink (id : ConnId) (peer : String) (port : UInt16) :
    Greeted port id [] (replicaLink id peer port) where
  conn := rfl
  role := rfl
  suspended := rfl
  outbound := by simp [replicaLink, Handshake.start_new, send, Buffer.append, Handshake.requests]

theorem Greeted.withInbound (h : Greeted port id got c) (b : Buffer) :
    Greeted port id got { c with inbound := b } :=
  ⟨h.conn, h.role, h.suspended, h.outbound⟩

/-- An accepted reply before the third sends the next request and leaves the server as it is. -/
theorem Greeted.handle_request (h : Greeted port id got c) (h3 : got.length < 3) {f : Value}
    (hf : (Stage.ofAccepted got.length).acceptsReply f = true) (s : Server) (t : Instant) :
    ∃ c', c.handle s t f = (none, c', s) ∧ Greeted port id (got ++ [(f, t)]) c' ∧
      c'.inbound = c.inbound := by
  have hlen : (got ++ [(f, t)]).length = got.length + 1 := by simp
  have hi : got.length + 1 < (Handshake.requests port).length := by
    simp [Handshake.requests]
    omega
  have hreq := List.getElem?_eq_getElem hi
  have hr : (Handshake.after port got.length).onReply f =
      (.ok (Handshake.requests port)[got.length + 1]?, Handshake.after port (got.length + 1)) :=
    Handshake.onReply_after_accepts (by omega) hf
  refine ⟨({ c with role := .replicaLink (Handshake.after port (got.length + 1)) }).send
    (Handshake.requests port)[got.length + 1], ?_, ⟨h.conn, by simp [send, hlen], h.suspended, ?_⟩,
    rfl⟩
  · simp only [Connection.handle, h.role, Handshake.isDone_after_of_lt (show got.length < 4 by omega),
      hr, hreq, Bool.false_eq_true, if_false]
  · -- the request joins those written before it
    have hmin : min (got ++ [(f, t)]).length 3 + 1 = got.length + 1 + 1 := by
      rw [hlen]
      omega
    have hmin' : min got.length 3 = got.length := by omega
    simp only [send, Buffer.append, h.outbound, hmin, hmin', List.take_add_one, hreq,
      Option.toList_some, List.flatMap_append, List.flatMap_singleton]

/-- The fourth accepted reply sends nothing more and marks the link up. -/
theorem Greeted.handle_fourth (h : Greeted port id got c) (h3 : got.length = 3) {f : Value}
    (hf : (Stage.ofAccepted got.length).acceptsReply f = true) (s : Server) (t : Instant) :
    ∃ c', c.handle s t f =
        (none, c', { s with replication := { s.replication with masterLinkUp := true } }) ∧
      Greeted port id (got ++ [(f, t)]) c' ∧ c'.inbound = c.inbound := by
  have hlen : (got ++ [(f, t)]).length = got.length + 1 := by simp
  have hreq : (Handshake.requests port)[got.length + 1]? = none := by
    rw [h3]
    rfl
  have hr : (Handshake.after port got.length).onReply f =
      (.ok (Handshake.requests port)[got.length + 1]?, Handshake.after port (got.length + 1)) :=
    Handshake.onReply_after_accepts (by omega) hf
  refine ⟨{ c with role := .replicaLink (Handshake.after port (got.length + 1)) }, ?_,
    ⟨h.conn, by simp [hlen], h.suspended, ?_⟩, rfl⟩
  · simp only [Connection.handle, h.role, Handshake.isDone_after_of_lt (show got.length < 4 by omega),
      hr, hreq, Bool.false_eq_true, if_false]
  · simp [h.outbound, hlen, h3]

/-- Once the handshake is done, a frame is one of the master's writes: it is run, and nothing is
written back. -/
theorem Greeted.handle_write (h : Greeted port id got c) (hge : 4 ≤ got.length) (f : Value)
    (s : Server) (t : Instant) :
    c.handle s t f = (none, c, (s.execute t id f).2) ∧ Greeted port id (got ++ [(f, t)]) c := by
  have hlen : (got ++ [(f, t)]).length = got.length + 1 := by simp
  have hd : (Handshake.after port got.length).isDone = true := by
    simp [Handshake.isDone_after, hge]
  refine ⟨?_, ⟨h.conn, ?_, h.suspended, ?_⟩⟩
  · simp only [Connection.handle, h.role, hd, if_true, h.conn]
  · rw [h.role, hlen, Handshake.after_of_le hge,
      Handshake.after_of_le (show 4 ≤ got.length + 1 by omega)]
  · rw [h.outbound, hlen]
    congr 3
    omega

/-- Step lemma: a reply the handshake accepts, or any frame once it is done, is handled without
error, takes the link to where one more frame puts it, and takes the server from where the frames
read put it to where one more puts it. -/
theorem Greeted.handle (h : Greeted port id got c) {f : Value}
    (hf : got.length < 4 → (Stage.ofAccepted got.length).acceptsReply f = true) (s₀ : Server)
    (t : Instant) :
    ∃ c', c.handle (s₀.afterGreeting id got) t f =
        (none, c', s₀.afterGreeting id (got ++ [(f, t)])) ∧
      Greeted port id (got ++ [(f, t)]) c' ∧ c'.inbound = c.inbound := by
  have hlen : (got ++ [(f, t)]).length = got.length + 1 := by simp
  -- the frame is a reply before the fourth, the fourth, or one of the master's writes
  rcases Nat.lt_or_ge got.length 3 with h3 | h3
  · rw [Server.afterGreeting_of_lt (by omega), Server.afterGreeting_of_lt (by rw [hlen]; omega)]
    exact h.handle_request h3 (hf (by omega)) s₀ t
  rcases Nat.lt_or_ge got.length 4 with h4 | h4
  · have h3' : got.length = 3 := by omega
    rw [Server.afterGreeting_of_lt h4, Server.afterGreeting_fourth h3']
    exact h.handle_fourth h3' (hf h4) s₀ t
  · obtain ⟨hh, h'⟩ := h.handle_write h4 f (s₀.afterGreeting id got) t
    rw [Server.afterGreeting_write h4]
    exact ⟨c, hh, h', rfl⟩

/-- A reply the handshake refuses fails it: the link reports which stage refused what, goes back
to the start of its handshake, writes nothing and leaves the server as it is. -/
theorem Greeted.handle_rejects (h : Greeted port id got c) (hk : got.length < 4) {f : Value}
    (hf : (Stage.ofAccepted got.length).acceptsReply f = false) (s : Server) (t : Instant) :
    c.handle s t f =
      (some (.handshake (.unexpectedReply (Stage.ofAccepted got.length) (Text.trimEnd f.render))),
        { c with role := .replicaLink (Handshake.after port got.length).reset }, s) := by
  simp only [Connection.handle, h.role, Handshake.isDone_after_of_lt hk,
    Handshake.onReply_after_rejects hk hf,
    Bool.false_eq_true, if_false]

/-- The frames at the front of a buffer, each accepted in turn, are taken one by one: processing
goes on from the link and the server those frames lead to, with the bytes behind them. -/
theorem processWith_accepted (s₀ : Server) (now : Instant) (fs : List Value) :
    ∀ (fuel : Nat) {got : List (Value × Instant)} {c : Connection} {rest : List UInt8},
      Greeted port id got c → Stage.acceptsFrom got.length fs = true →
      (∀ f ∈ fs, f.WellFormed) → c.inbound = { bytes := fs.flatMap encode ++ rest } →
      ∃ c', Greeted port id (got ++ fs.map (·, now)) c' ∧ c'.inbound = { bytes := rest } ∧
        processWith now (fuel + fs.length) c (s₀.afterGreeting id got) =
          processWith now fuel c' (s₀.afterGreeting id (got ++ fs.map (·, now))) := by
  induction fs with
  | nil =>
    intro fuel got c rest h _ _ hin
    exact ⟨c, by simpa using h, by simpa using hin, by simp⟩
  | cons f fs ih =>
    intro fuel got c rest h hacc hwf hin
    simp only [Stage.acceptsFrom, Bool.and_eq_true, Bool.or_eq_true, decide_eq_true_eq] at hacc
    have hf : got.length < 4 → (Stage.ofAccepted got.length).acceptsReply f = true :=
      fun hk => hacc.1.resolve_left (by omega)
    -- the frame is taken off the buffer and handled, then the rest is read from where it leaves
    obtain ⟨c₁, hh, h₁, hin₁⟩ :=
      (h.withInbound { bytes := fs.flatMap encode ++ rest }).handle hf s₀ now
    have hlen₁ : (got ++ [(f, now)]).length = got.length + 1 := by simp
    obtain ⟨c', h', hin', hrun⟩ := ih fuel h₁ (by rw [hlen₁]; exact hacc.2)
      (fun g hg => hwf g (List.mem_cons_of_mem f hg)) hin₁
    have hgot : got ++ [(f, now)] ++ fs.map (·, now) = got ++ (f :: fs).map (·, now) := by simp
    rw [hgot] at h' hrun
    refine ⟨c', h', hin', ?_⟩
    have hfuel : fuel + (f :: fs).length = fuel + fs.length + 1 := by
      simp only [List.length_cons]
      omega
    rw [hfuel, processWith_frame h.suspended (hwf f (List.mem_cons_self ..))
      (by rw [hin, List.flatMap_cons, List.append_assoc]) hh, hrun]

/-- Processing a buffer that holds frames each accepted in turn, then bytes with no complete
frame, takes every one of those frames, without error, and keeps those bytes. -/
theorem Greeted.processInbound (h : Greeted port id got c) {fs : List Value} {X : List UInt8}
    (hin : c.inbound = { bytes := fs.flatMap encode ++ X }) (hX : (Wire.read X).decided = false)
    (hwf : ∀ f ∈ fs, f.WellFormed) (hacc : Stage.acceptsFrom got.length fs = true)
    (s₀ : Server) (now : Instant) :
    ∃ c', c.processInbound (s₀.afterGreeting id got) now =
        (none, c', s₀.afterGreeting id (got ++ fs.map (·, now))) ∧
      Greeted port id (got ++ fs.map (·, now)) c' ∧ c'.inbound = { bytes := X } := by
  -- each frame takes at least one byte, so the buffer's length is fuel enough
  have hlen : fs.length ≤ c.inbound.len := by
    have := length_le_flatMap_encode fs
    simp only [hin, Buffer.len, List.length_append]
    omega
  obtain ⟨c', h', hin', hrun⟩ := processWith_accepted s₀ now fs (c.inbound.len - fs.length + 1) h
    hacc hwf hin
  refine ⟨c', ?_, h', hin'⟩
  have hfuel : c.inbound.len + 1 = c.inbound.len - fs.length + 1 + fs.length := by omega
  rw [Connection.processInbound, hfuel, hrun, processWith_incomplete h'.suspended hX hin', ← hin']

/-- Bytes arriving after `held` are taken up to their last complete frame when the link accepts
those frames; it keeps the bytes after them. -/
theorem Greeted.receive (h : Greeted port id got c) {held bs X : List UInt8} {fs : List Value}
    (hin : c.inbound = { bytes := held }) (hX : held ++ bs = fs.flatMap encode ++ X)
    (hXd : (Wire.read X).decided = false) (hwf : ∀ f ∈ fs, f.WellFormed)
    (hacc : Stage.acceptsFrom got.length fs = true) (s₀ : Server) (t : Instant) :
    ∃ c', c.onEvent (s₀.afterGreeting id got) (.receive bs t) =
        (none, c', s₀.afterGreeting id (got ++ fs.map (·, t))) ∧
      Greeted port id (got ++ fs.map (·, t)) c' ∧ c'.inbound = { bytes := X } := by
  have hin' : ({ c with inbound := c.inbound.append bs } : Connection).inbound =
      { bytes := fs.flatMap encode ++ X } := by
    simp only [hin, Buffer.append, hX]
  exact (h.withInbound _).processInbound hin' hXd hwf hacc s₀ t

/-- A buffer that holds frames accepted in turn and then one the handshake refuses fails the
handshake at that frame: the link reports it, has written the requests up to the refused reply's,
and leaves the server as it was. -/
theorem Greeted.rejects (h : Greeted port id got c) {acc : List Value} {bad : Value}
    {rest : List UInt8} (hk : got.length + acc.length < 4)
    (hacc : Stage.acceptsFrom got.length acc = true)
    (hbad : (Stage.ofAccepted (got.length + acc.length)).acceptsReply bad = false)
    (hwf : ∀ f ∈ acc ++ [bad], f.WellFormed)
    (hin : c.inbound = { bytes := (acc ++ [bad]).flatMap encode ++ rest }) (s₀ : Server)
    (now : Instant) :
    ∃ c', c.processInbound s₀ now =
        (some (.handshake (.unexpectedReply (Stage.ofAccepted (got.length + acc.length))
          (Text.trimEnd bad.render))), c', s₀) ∧
      c'.outbound.bytes =
        ((Handshake.requests port).take (got.length + acc.length + 1)).flatMap encode := by
  have hlen : acc.length < c.inbound.len := by
    have := length_le_flatMap_encode (acc ++ [bad])
    simp only [hin, Buffer.len, List.length_append, List.length_singleton] at this ⊢
    omega
  have hin₁ : c.inbound = { bytes := acc.flatMap encode ++ (bad.encode ++ rest) } := by
    simp [hin]
  obtain ⟨c', h', hin', hrun⟩ := processWith_accepted s₀ now acc (c.inbound.len - acc.length + 1) h
    hacc (fun f hf => hwf f (by simp [hf])) hin₁
  have hlen' : (got ++ acc.map (·, now)).length = got.length + acc.length := by simp
  -- the refused reply is the frame after the accepted ones
  have hh := (h'.withInbound { bytes := rest }).handle_rejects (by rw [hlen']; exact hk)
    (by rw [hlen']; exact hbad) s₀ now
  rw [hlen'] at hh
  refine ⟨{ c' with
      inbound := { bytes := rest }
      role := .replicaLink (Handshake.after port (got.length + acc.length)).reset }, ?_, ?_⟩
  · have hfuel : c.inbound.len + 1 = c.inbound.len - acc.length + 1 + acc.length := by omega
    rw [Server.afterGreeting_of_lt (show got.length < 4 by omega),
      Server.afterGreeting_of_lt (by rw [hlen']; exact hk)] at hrun
    rw [Connection.processInbound, hfuel, hrun]
    exact processWith_frame_fails h'.suspended (hwf bad (by simp)) hin' hh
  · rw [h'.outbound, hlen']
    congr 3
    omega

end Connection

/-! ## Chunks of bytes -/

namespace ClientEvent

/-- Chunks of bytes arriving one after the other, each at its instant. -/
def reads (chunks : List (List UInt8 × Instant)) : List ClientEvent :=
  chunks.map fun chunk => .receive chunk.1 chunk.2

end ClientEvent

namespace Wire

/-- The frames that chunks of bytes complete after the bytes `held`, each with the instant of the
chunk that completes it, and the bytes after the last complete frame. -/
def arrivals (held : List UInt8) : List (List UInt8 × Instant) → List (Value × Instant) × List UInt8
  | [] => ([], held)
  | (bs, t) :: chunks =>
    let cut := frames (held ++ bs)
    let later := arrivals cut.2.2 chunks
    (cut.1.map (·, t) ++ later.1, later.2)

/-- Reading a stream of frames `F` followed by bytes `T` that hold no complete frame, the frames
`got` are read, the bytes `held` after them are kept, and the bytes `ahead` are still to come. -/
structure Reading (F : List Value) (T : List UInt8) (got : List Value) (held ahead : List UInt8) :
    Prop where
  unframed : (read held).decided = false
  stream : ∃ later, got ++ later = F ∧ held ++ ahead = later.flatMap encode ++ T

namespace Reading

variable {F : List Value} {T : List UInt8} {got : List Value} {held ahead : List UInt8}

theorem begins (h : Reading F T got held ahead) : got <+: F := by
  obtain ⟨later, hfr, -⟩ := h.stream
  exact ⟨later, hfr⟩

/-- A chunk brings the frames it completes, well formed, and the bytes after them. -/
theorem chunk (hF : ∀ f ∈ F, f.WellFormed) (hT : (read T).decided = false) {bs : List UInt8}
    (h : Reading F T got held (bs ++ ahead)) :
    held ++ bs = (frames (held ++ bs)).1.flatMap encode ++ (frames (held ++ bs)).2.2 ∧
      (∀ f ∈ (frames (held ++ bs)).1, f.WellFormed) ∧
      Reading F T (got ++ (frames (held ++ bs)).1) (frames (held ++ bs)).2.2 ahead := by
  obtain ⟨later, hfr, hstr⟩ := h.stream
  have hlater : ∀ f ∈ later, f.WellFormed := fun f hf => hF f (hfr ▸ by simp [hf])
  obtain ⟨F₁, F₂, X', rfl, hframes, hX, hY, hX'⟩ :=
    frames_of_prefix hT hlater (show (held ++ bs) ++ ahead = _ by rw [List.append_assoc, hstr])
  rw [hframes]
  exact ⟨hX, fun f hf => hlater f (by simp [hf]), hX', F₂, by rw [← hfr, List.append_assoc], hY⟩

/-- Once the whole stream has arrived, every frame of it is read and the bytes after them are
kept. -/
theorem settled (hF : ∀ f ∈ F, f.WellFormed) (h : Reading F T got held []) :
    got = F ∧ held = T := by
  obtain ⟨later, hfr, hstr⟩ := h.stream
  rw [List.append_nil] at hstr
  cases later with
  | nil => exact ⟨by simpa using hfr, by simpa using hstr⟩
  | cons f fs =>
    -- a whole frame after the last complete one would have been read
    have hf : f.WellFormed := hF f (hfr ▸ by simp)
    have hread := h.unframed
    rw [hstr, List.flatMap_cons, List.append_assoc, read_encode hf] at hread
    exact absurd hread (by simp)

end Reading

/-- Bytes that start a stream of well formed frames followed by any bytes either hold all those
frames, or hold some of them whole and then bytes with no complete frame, frames being left. -/
theorem holds_all_or_some {later : List Value} (hwf : ∀ f ∈ later, f.WellFormed)
    {X Y rest : List UInt8} (h : X ++ Y = later.flatMap encode ++ rest) :
    (∃ Z, X = later.flatMap encode ++ Z) ∨
      ∃ F₁ F₂ X', later = F₁ ++ F₂ ∧ F₂ ≠ [] ∧ X = F₁.flatMap encode ++ X' ∧
        (read X').decided = false ∧ X' ++ Y = F₂.flatMap encode ++ rest := by
  rcases List.append_eq_append_iff.1 h with ⟨a', hL, hY⟩ | ⟨Z, hX, -⟩
  · -- `X` stops inside the frames: read it as a stream of them with nothing after
    obtain ⟨F₁, F₂, X', hsplit, -, hX, hY', hX'⟩ := frames_of_prefix (T := [])
      (by simp [read, readValue]) hwf (show X ++ a' = later.flatMap encode ++ [] by
        rw [hL, List.append_nil])
    by_cases hF₂ : F₂ = []
    · subst hF₂
      simp only [List.flatMap_nil, List.append_nil, List.append_eq_nil_iff] at hY'
      exact .inl ⟨[], by rw [hX, hsplit, hY'.1]; simp⟩
    · refine .inr ⟨F₁, F₂, X', hsplit, hF₂, hX, hX', ?_⟩
      rw [hY, ← List.append_assoc, hY', List.append_nil]
  · exact .inl ⟨Z, hX⟩

end Wire

namespace Connection

variable {port : UInt16} {id : ConnId}

/-- Run lemma: over chunks bringing the next bytes of a stream whose frames are accepted in turn,
the link meets no error, takes each frame as it is completed, and stands where the frames read
put it, as does the server. -/
theorem runEvents_greeted (s₀ : Server) {F : List Value} {T : List UInt8}
    (hF : ∀ f ∈ F, f.WellFormed) (hT : (Wire.read T).decided = false)
    (hacc : Stage.acceptsFrom 0 F = true) (chunks : List (List UInt8 × Instant)) :
    ∀ {got : List (Value × Instant)} {c : Connection} {held ahead : List UInt8},
      Greeted port id got c → c.inbound = { bytes := held } →
      Reading F T (got.map (·.1)) held (chunks.flatMap (·.1) ++ ahead) →
      ∃ c', c.runEvents (ClientEvent.reads chunks) (s₀.afterGreeting id got) =
          (none, c', s₀.afterGreeting id (got ++ (arrivals held chunks).1)) ∧
        Greeted port id (got ++ (arrivals held chunks).1) c' ∧
        c'.inbound = { bytes := (arrivals held chunks).2 } ∧
        Reading F T ((got ++ (arrivals held chunks).1).map (·.1)) (arrivals held chunks).2 ahead := by
  induction chunks with
  | nil =>
    intro got c held ahead h hin hr
    exact ⟨c, by simp [ClientEvent.reads, runEvents, arrivals], by simpa [arrivals] using h, hin,
      by simpa [arrivals] using hr⟩
  | cons chunk chunks ih =>
    intro got c held ahead h hin hr
    obtain ⟨bs, t⟩ := chunk
    rw [List.flatMap_cons, List.append_assoc] at hr
    obtain ⟨hX, hwf, hr'⟩ := hr.chunk hF hT
    -- the frames this chunk completes are accepted, being part of the stream
    have hacc' : Stage.acceptsFrom got.length (frames (held ++ bs)).1 = true := by
      obtain ⟨rest, hrest⟩ := hr'.begins
      have hall : Stage.acceptsFrom 0 (got.map (·.1) ++ (frames (held ++ bs)).1 ++ rest) = true :=
        hrest ▸ hacc
      simpa using Stage.acceptsFrom_of_append hall
    obtain ⟨c₁, hev, h₁, hin₁⟩ := h.receive hin hX hr'.unframed hwf hacc' s₀ t
    have hmap : (got ++ (frames (held ++ bs)).1.map (·, t)).map (·.1) =
        got.map (·.1) ++ (frames (held ++ bs)).1 := by
      simp [Function.comp_def]
    obtain ⟨c', hrun, h', hin', hr''⟩ := ih h₁ hin₁ (hmap ▸ hr')
    have hgot : got ++ (frames (held ++ bs)).1.map (·, t) ++
        (arrivals (frames (held ++ bs)).2.2 chunks).1 =
        got ++ (arrivals held ((bs, t) :: chunks)).1 := by
      simp [arrivals]
    rw [hgot] at hrun h' hr''
    refine ⟨c', ?_, h', hin', hr''⟩
    simp only [ClientEvent.reads, List.map_cons, runEvents, hev]
    exact hrun

/-- What is left of a stream ending in `z`, after frames `xs` and when something is left, is the
rest of the stream before `z`, then `z`. -/
theorem eq_concat_of_append_eq {xs ys zs : List Value} {z : Value} (h : xs ++ ys = zs ++ [z])
    (hy : ys ≠ []) : ∃ ys', ys = ys' ++ [z] ∧ xs ++ ys' = zs := by
  obtain ⟨ys', y, rfl⟩ := (List.eq_nil_or_concat ys).resolve_left hy
  rw [List.concat_eq_append, ← List.append_assoc] at h
  obtain ⟨hxs, hyz⟩ := List.append_inj' h rfl
  rw [List.singleton_inj] at hyz
  exact ⟨ys', by rw [hyz, List.concat_eq_append], hxs⟩

/-- Run lemma of a refused handshake: over chunks bringing replies accepted in turn, then one the
handshake refuses, then any bytes, the link reports the failure at the refused reply, has written
the requests up to its stage, and leaves the server as it was. -/
theorem runEvents_rejects (s₀ : Server) {acc : List Value} {bad : Value} {rest : List UInt8}
    (hlen : acc.length < 4) (hacc : Stage.acceptsFrom 0 acc = true)
    (hbad : (Stage.ofAccepted acc.length).acceptsReply bad = false)
    (hwf : ∀ f ∈ acc ++ [bad], f.WellFormed) (chunks : List (List UInt8 × Instant)) :
    ∀ {got : List (Value × Instant)} {c : Connection} {held : List UInt8},
      Greeted port id got c → c.inbound = { bytes := held } → (Wire.read held).decided = false →
      (∃ later, later ≠ [] ∧ got.map (·.1) ++ later = acc ++ [bad] ∧
        held ++ chunks.flatMap (·.1) = later.flatMap encode ++ rest) →
      ∃ c', c.runEvents (ClientEvent.reads chunks) s₀ =
          (some (.handshake (.unexpectedReply (Stage.ofAccepted acc.length)
            (Text.trimEnd bad.render))), c', s₀) ∧
        c'.outbound.bytes = ((Handshake.requests port).take (acc.length + 1)).flatMap encode := by
  induction chunks with
  | nil =>
    -- with no more bytes to come a whole frame would be held, and it would have been read
    intro got c held h hin hheld hex
    obtain ⟨later, hne, hfr, hstr⟩ := hex
    obtain ⟨f, fs, rfl⟩ := List.exists_cons_of_ne_nil hne
    have hf : f.WellFormed := hwf f (hfr ▸ by simp)
    rw [List.flatMap_nil, List.append_nil, List.flatMap_cons, List.append_assoc] at hstr
    rw [hstr, read_encode hf] at hheld
    exact absurd hheld (by simp)
  | cons chunk chunks ih =>
    intro got c held h hin hheld hex
    obtain ⟨later, hne, hfr, hstr⟩ := hex
    obtain ⟨bs, t⟩ := chunk
    obtain ⟨acc₂, hlater, hacc₂⟩ := eq_concat_of_append_eq hfr hne
    have hgot : got.length + acc₂.length = acc.length := by
      rw [← hacc₂]
      simp
    have hlaterwf : ∀ f ∈ later, f.WellFormed := fun f hf => hwf f (hfr ▸ by simp [hf])
    rw [List.flatMap_cons, ← List.append_assoc] at hstr
    dsimp only at hstr
    rcases holds_all_or_some hlaterwf hstr with ⟨Z, hZ⟩ | ⟨F₁, F₂, X', hsplit, hF₂, hX, hX', hY⟩
    · -- the chunk completes the refused reply: processing fails there
      have hin' : ({ c with inbound := c.inbound.append bs } : Connection).inbound =
          { bytes := (acc₂ ++ [bad]).flatMap encode ++ Z } := by
        simp only [hin, Buffer.append, hZ, hlater]
      have hacc' : Stage.acceptsFrom got.length acc₂ = true := by
        have hall : Stage.acceptsFrom 0 (got.map (·.1) ++ acc₂ ++ []) = true := by
          rw [List.append_nil, hacc₂]
          exact hacc
        simpa using Stage.acceptsFrom_of_append hall
      obtain ⟨c', hp, hout⟩ := (h.withInbound _).rejects (by omega) hacc' (by rw [hgot]; exact hbad)
        (by rw [← hlater]; exact hlaterwf) hin' s₀ t
      rw [hgot] at hp hout
      refine ⟨c', ?_, hout⟩
      simp only [ClientEvent.reads, List.map_cons, runEvents, onEvent, hp]
    · -- the chunk ends before the refused reply does: the frames it completes are accepted
      have hfr' : got.map (·.1) ++ F₁ ++ F₂ = acc ++ [bad] := by
        rw [List.append_assoc, ← hsplit]
        exact hfr
      obtain ⟨F₂', -, hF₂'⟩ := eq_concat_of_append_eq hfr' hF₂
      have hacc₁ : Stage.acceptsFrom got.length F₁ = true := by
        have hall : Stage.acceptsFrom 0 (got.map (·.1) ++ F₁ ++ F₂') = true := hF₂' ▸ hacc
        simpa using Stage.acceptsFrom_of_append hall
      have hlen₁ : (got ++ F₁.map (·, t)).length < 4 := by
        have := congrArg List.length hF₂'
        simp only [List.length_append, List.length_map] at this ⊢
        omega
      obtain ⟨c₁, hev, h₁, hin₁⟩ := h.receive hin hX hX'
        (fun f hf => hlaterwf f (hsplit ▸ by simp [hf])) hacc₁ s₀ t
      rw [Server.afterGreeting_of_lt (by omega), Server.afterGreeting_of_lt hlen₁] at hev
      have hfr₁ : (got ++ F₁.map (·, t)).map (·.1) ++ F₂ = acc ++ [bad] := by
        rw [← hfr, hsplit]
        simp [Function.comp_def]
      obtain ⟨c', hrun, hout⟩ := ih h₁ hin₁ hX' ⟨F₂, hF₂, hfr₁, hY⟩
      refine ⟨c', ?_, hout⟩
      simp only [ClientEvent.reads, List.map_cons, runEvents, hev]
      exact hrun

/-- The link a replica opens to its master speaks the handshake, then takes the master's stream in
silence, however the bytes are cut into chunks, each processed as it arrives.

When the master answers the four requests with replies the handshake accepts and then sends the
frames `E` (and the bytes `T`, holding no complete frame), the link meets no error. It has written
the requests of the handshake, each only once the reply before it was read, and nothing else: no
frame of `E` is answered. The server is as it was until the fourth reply, which marks the link
up; after it, the server has run the frames of `E` read so far, each once and in order, at the
instant of the chunk that completed it, be it the chunk of the fourth reply. The frames read are
the start of the stream, and all of it once every chunk has arrived.

When a reply is refused instead, the link reports the failed handshake at that stage, has written
the requests up to the refused reply's, and leaves the server as it was: no frame after the
refused one is taken. -/
theorem replica_link_handshake_then_stream (id : ConnId) (peer : String) (port : UInt16)
    (s : Server) :
    (∀ (r₁ r₂ r₃ r₄ : Value) (E : List Value) (T : List UInt8)
        (chunks : List (List UInt8 × Instant)) (ahead : List UInt8),
      Stage.ping.acceptsReply r₁ = true → Stage.listeningPort.acceptsReply r₂ = true →
      Stage.capabilities.acceptsReply r₃ = true → Stage.psync.acceptsReply r₄ = true →
      (∀ f ∈ [r₁, r₂, r₃, r₄] ++ E, f.WellFormed) → (Wire.read T).decided = false →
      chunks.flatMap (·.1) ++ ahead = ([r₁, r₂, r₃, r₄] ++ E).flatMap encode ++ T →
      let run := (replicaLink id peer port).runEvents (ClientEvent.reads chunks) s
      let got := (arrivals [] chunks).1
      run.1 = none ∧
        run.2.1.outbound.bytes =
          ((Handshake.requests port).take (min got.length 3 + 1)).flatMap encode ∧
        run.2.2 = s.afterGreeting id got ∧
        (4 ≤ got.length → run.2.2.replication.masterLinkUp = true) ∧
        run.2.1.inbound.bytes = (arrivals [] chunks).2 ∧
        got.map (·.1) <+: [r₁, r₂, r₃, r₄] ++ E ∧
        (ahead = [] → got.map (·.1) = [r₁, r₂, r₃, r₄] ++ E ∧ run.2.1.inbound.bytes = T)) ∧
    ∀ (acc : List Value) (bad : Value) (rest : List UInt8) (chunks : List (List UInt8 × Instant)),
      acc.length < 4 → Stage.acceptsFrom 0 acc = true →
      (Stage.ofAccepted acc.length).acceptsReply bad = false →
      (∀ f ∈ acc ++ [bad], f.WellFormed) →
      chunks.flatMap (·.1) = (acc ++ [bad]).flatMap encode ++ rest →
      let run := (replicaLink id peer port).runEvents (ClientEvent.reads chunks) s
      run.1 = some (.handshake (.unexpectedReply (Stage.ofAccepted acc.length)
          (Text.trimEnd bad.render))) ∧
        run.2.2 = s ∧
        run.2.1.outbound.bytes = ((Handshake.requests port).take (acc.length + 1)).flatMap encode := by
  have h₀ := greeted_replicaLink id peer port
  have hs : s.afterGreeting id [] = s := Server.afterGreeting_of_lt (by simp)
  refine ⟨?_, ?_⟩
  · intro r₁ r₂ r₃ r₄ E T chunks ahead h₁ h₂ h₃ h₄ hwf hT hstream
    -- the four replies are accepted in turn, and what follows them is not the handshake's
    have hacc : Stage.acceptsFrom 0 ([r₁, r₂, r₃, r₄] ++ E) = true := by
      simp [Stage.acceptsFrom, Stage.ofAccepted, h₁, h₂, h₃, h₄, Stage.acceptsFrom_of_le]
    have hr₀ : Reading ([r₁, r₂, r₃, r₄] ++ E) T (([] : List (Value × Instant)).map (·.1)) []
        (chunks.flatMap (·.1) ++ ahead) := ⟨rfl, _, rfl, hstream⟩
    obtain ⟨c', hrun, hg, hin, hr⟩ := runEvents_greeted s hwf hT hacc chunks h₀ rfl hr₀
    rw [hs, List.nil_append] at hrun
    rw [List.nil_append] at hg hr
    simp only [hrun]
    refine ⟨trivial, hg.outbound, trivial, Server.afterGreeting_masterLinkUp, by rw [hin], hr.begins,
      fun hahead => ?_⟩
    subst hahead
    obtain ⟨hall, hT'⟩ := hr.settled hwf
    exact ⟨hall, by rw [hin, hT']⟩
  · intro acc bad rest chunks hlen hacc hbad hwf hstream
    obtain ⟨c', hrun, hout⟩ := runEvents_rejects s hlen hacc hbad hwf chunks h₀ rfl rfl
      ⟨acc ++ [bad], by simp, rfl, hstream⟩
    simp only [hrun]
    exact ⟨trivial, trivial, hout⟩

/-- A replica on port 6380 whose master answers the handshake and sends one write, the bytes cut
inside the fourth reply so that its end and the write arrive together; and one whose master
refuses the second request, a write following in the same read. -/
theorem replica_link_handshake_then_stream_split_reply :
    let s := Server.new (.replica ⟨"127.0.0.1", 6379⟩) 6380
    let r₁ := Value.simple "PONG"
    let r₂ := Value.ok
    let r₃ := Value.ok
    let r₄ := Value.simple "FULLRESYNC 8371b4fb1155b71f4a04d3e1bc3e18c4a990aeeb 0"
    let E := [Value.command ["SET", "k", "v"]]
    let bytes := ([r₁, r₂, r₃, r₄] ++ E).flatMap encode
    let chunks : List (List UInt8 × Instant) := [(bytes.take 20, 0), (bytes.drop 20, 1)]
    let bad := Value.error "ERR refused"
    let refused : List (List UInt8 × Instant) := [(([r₁, bad] ++ E).flatMap encode, 0)]
    (Stage.ping.acceptsReply r₁ = true ∧ Stage.listeningPort.acceptsReply r₂ = true ∧
      Stage.capabilities.acceptsReply r₃ = true ∧ Stage.psync.acceptsReply r₄ = true ∧
      (∀ f ∈ [r₁, r₂, r₃, r₄] ++ E, f.WellFormed) ∧ (Wire.read []).decided = false ∧
      chunks.flatMap (·.1) ++ [] = ([r₁, r₂, r₃, r₄] ++ E).flatMap encode ++ [] ∧
      let run := (replicaLink 1 "127.0.0.1:6379" 6380).runEvents (ClientEvent.reads chunks) s
      let got := (arrivals [] chunks).1
      run.1 = none ∧
        run.2.1.outbound.bytes =
          ((Handshake.requests 6380).take (min got.length 3 + 1)).flatMap encode ∧
        run.2.2 = s.afterGreeting 1 got ∧
        (4 ≤ got.length → run.2.2.replication.masterLinkUp = true) ∧
        run.2.1.inbound.bytes = (arrivals [] chunks).2 ∧
        got.map (·.1) <+: [r₁, r₂, r₃, r₄] ++ E ∧
        (([] : List UInt8) = [] → got.map (·.1) = [r₁, r₂, r₃, r₄] ++ E ∧
          run.2.1.inbound.bytes = [])) ∧
    ([r₁].length < 4 ∧ Stage.acceptsFrom 0 [r₁] = true ∧
      (Stage.ofAccepted [r₁].length).acceptsReply bad = false ∧
      (∀ f ∈ [r₁] ++ [bad], f.WellFormed) ∧
      refused.flatMap (·.1) = ([r₁] ++ [bad]).flatMap encode ++ E.flatMap encode ∧
      let run := (replicaLink 1 "127.0.0.1:6379" 6380).runEvents (ClientEvent.reads refused) s
      run.1 = some (.handshake (.unexpectedReply (Stage.ofAccepted [r₁].length)
          (Text.trimEnd bad.render))) ∧
        run.2.2 = s ∧
        run.2.1.outbound.bytes = ((Handshake.requests 6380).take ([r₁].length + 1)).flatMap encode) := by
  intro s r₁ r₂ r₃ r₄ E bytes chunks bad refused
  have h₁ : Stage.ping.acceptsReply r₁ = true := by decide +kernel
  have h₂ : Stage.listeningPort.acceptsReply r₂ = true := by decide +kernel
  have h₃ : Stage.capabilities.acceptsReply r₃ = true := by decide +kernel
  have h₄ : Stage.psync.acceptsReply r₄ = true := by decide +kernel
  have hwf : ∀ f ∈ [r₁, r₂, r₃, r₄] ++ E, f.WellFormed := by decide +kernel
  have hT : (Wire.read []).decided = false := by decide +kernel
  have hstream : chunks.flatMap (·.1) ++ [] = ([r₁, r₂, r₃, r₄] ++ E).flatMap encode ++ [] := by
    simp [chunks, bytes]
  have hlen : [r₁].length < 4 := by decide
  have hacc : Stage.acceptsFrom 0 [r₁] = true := by decide +kernel
  have hbad : (Stage.ofAccepted [r₁].length).acceptsReply bad = false := by decide +kernel
  have hwf' : ∀ f ∈ [r₁] ++ [bad], f.WellFormed := by decide +kernel
  have hrefused : refused.flatMap (·.1) = ([r₁] ++ [bad]).flatMap encode ++ E.flatMap encode := by
    simp [refused]
  have hthm := replica_link_handshake_then_stream 1 "127.0.0.1:6379" 6380 s
  exact ⟨⟨h₁, h₂, h₃, h₄, hwf, hT, hstream,
      hthm.1 r₁ r₂ r₃ r₄ E [] chunks [] h₁ h₂ h₃ h₄ hwf hT hstream⟩,
    ⟨hlen, hacc, hbad, hwf', hrefused, hthm.2 [r₁] bad (E.flatMap encode) refused hlen hacc hbad hwf'
      hrefused⟩⟩

end Connection

end KvServer
