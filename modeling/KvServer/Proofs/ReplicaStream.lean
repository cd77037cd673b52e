import Mathlib
import KvServer.Proofs.HandlerReplies
import KvServer.Proofs.ReplicaConsistency
import KvServer.Reactor

/-!
# What a replica is sent

A master keeps the writes it records pending until the loop's fan-out, which sends all of them to
every attached replica that has a link and empties the pending list; the offset does not move.
Between two fan-outs the master only adds writes after the pending ones, the offset moving by
their encoded size, and attaches replicas (`Replication.Extends`): every request does so
(`Server.execute_extends`), and so does every run of master steps (`Server.runSteps_records`).

PSYNC answers with the current offset and attaches its connection without touching the pending
writes. So the first fan-out after it sends the new replica the writes that were pending at its
PSYNC as well as those recorded since: its offset plus the bytes it is sent exceeds the master's
offset by the writes that were pending (`Server.fanOut_after_psync`).
-/

namespace KvServer

namespace Replication

/-- What may happen to the replication state between two fan-outs: writes are recorded after the
pending ones, the offset moving by their encoded size, and replicas are attached, each once. -/
structure Extends (r r' : Replication) : Prop where
  records : ∃ ws : List Value, r'.events = r.events ++ ws ∧
    r'.offset = r.offset + (ws.flatMap Value.encode).length
  attached : ∀ c ∈ r.replicas, c ∈ r'.replicas
  nodup : r.replicas.Nodup → r'.replicas.Nodup

namespace Extends

theorem refl (r : Replication) : r.Extends r :=
  ⟨⟨[], by simp, by simp⟩, fun _ h => h, id⟩

/-- A change of the flags only. -/
theorem of_eq {r r' : Replication} (he : r'.events = r.events) (ho : r'.offset = r.offset)
    (hr : r'.replicas = r.replicas) : r.Extends r' :=
  ⟨⟨[], by simp [he], by simp [ho]⟩, fun _ h => hr ▸ h, fun h => hr ▸ h⟩

theorem trans {r₁ r₂ r₃ : Replication} (h₁ : r₁.Extends r₂) (h₂ : r₂.Extends r₃) :
    r₁.Extends r₃ := by
  obtain ⟨ws₁, he₁, ho₁⟩ := h₁.records
  obtain ⟨ws₂, he₂, ho₂⟩ := h₂.records
  refine ⟨⟨ws₁ ++ ws₂, by rw [he₂, he₁, List.append_assoc], ?_⟩,
    fun c hc => h₂.attached c (h₁.attached c hc), h₂.nodup ∘ h₁.nodup⟩
  rw [ho₂, ho₁, List.flatMap_append, List.length_append, Nat.add_assoc]

/-- With no write recorded, the offset stays. -/
theorem offset_of_events {r r' : Replication} (h : r.Extends r') (he : r'.events = r.events) :
    r'.offset = r.offset := by
  obtain ⟨ws, he', ho⟩ := h.records
  have : ws = [] := by simpa [he] using he'
  simp [ho, this]

end Extends

theorem extends_record (r : Replication) (e : Value) : r.Extends (r.record e) := by
  unfold record
  split
  · exact ⟨⟨[e], rfl, by simp⟩, fun _ h => h, id⟩
  · exact .refl r

theorem extends_foldl_record (r : Replication) (es : List Value) :
    r.Extends (es.foldl record r) := by
  induction es generalizing r with
  | nil => exact .refl r
  | cons e es ih => exact (extends_record r e).trans (ih _)

theorem extends_addReplica (r : Replication) (c : ConnId) : r.Extends (r.addReplica c) := by
  unfold addReplica
  split
  · exact .refl r
  · rename_i hc
    refine ⟨⟨[], by simp, by simp⟩, fun _ h => List.mem_append_left _ h, fun h => ?_⟩
    simp only [List.nodup_append, h, List.nodup_cons, List.not_mem_nil, not_false_eq_true,
      List.nodup_nil, and_self, List.mem_singleton, true_and]
    intro a ha b hb hab
    subst hb hab
    exact hc ha

@[simp] theorem addReplica_events (r : Replication) (c : ConnId) :
    (r.addReplica c).events = r.events := by
  unfold addReplica
  split <;> rfl

theorem mem_addReplica (r : Replication) (c : ConnId) : c ∈ (r.addReplica c).replicas := by
  unfold addReplica
  split
  · assumption
  · simp

end Replication

namespace Server

/-- A handler's result between two fan-outs: a refusal changes nothing, and a success extends the
replication state. -/
def Appends (s : Server) : Except CommandError (Outcome × Server) → Prop
  | .error _ => True
  | .ok (_, s') => s.replication.Extends s'.replication

section Handlers

variable {s : Server} {now : Instant} {q : Request}

theorem Appends.keep {o : Outcome} {s' : Server} (h : s'.replication = s.replication) :
    s.Appends (.ok (o, s')) := by
  show s.replication.Extends s'.replication
  rw [h]
  exact .refl _

theorem Appends.record {o : Outcome} {s' : Server} (h : s'.replication = s.replication)
    (e : Value) : s.Appends (.ok (o, s'.record e)) := by
  show s.replication.Extends (s'.replication.record e)
  rw [h]
  exact Replication.extends_record _ _

theorem ping_appends : s.Appends (s.ping now q) := by
  unfold ping
  split
  · exact .keep rfl
  · exact .keep rfl
  · trivial

theorem echo_appends : s.Appends (s.echo now q) := by
  unfold echo
  split
  · exact .keep rfl
  · trivial

theorem set_appends : s.Appends (s.set now q) := by
  unfold Server.set
  rcases parseSet q.args with e | ⟨key, value, ttl⟩
  · trivial
  · dsimp only [bind, Except.bind, pure, Except.pure]
    exact .record (by rfl) _

theorem get_appends : s.Appends (s.get now q) := by
  unfold Server.get
  split
  · exact .keep rfl
  · trivial

theorem incr_appends : s.Appends (s.incr now q) := by
  unfold Server.incr
  split
  · split
    · exact .record (by rfl) _
    · trivial
  · trivial

theorem push_appends (front : Bool) : s.Appends (s.push front now q) := by
  unfold push
  split
  · rename_i key head tail _
    rcases (if front then s.lists.lpush key (head :: tail) else s.lists.rpush key (head :: tail))
      with ⟨len, L⟩
    dsimp only
    -- the push records the request, and its wake one `LPOP key` per item it hands out
    obtain ⟨k, -, -, -, hrep⟩ := Server.wake_grows ({ s with lists := L }.record q.toValue) now key
    show s.replication.Extends (({ s with lists := L }.record q.toValue).wake now key).replication
    rw [hrep]
    exact (Replication.extends_record _ _).trans (Replication.extends_foldl_record _ _)
  · trivial

theorem lrange_appends : s.Appends (s.lrange now q) := by
  unfold Server.lrange
  rcases parseLRange q.args with e | ⟨key, start, stop⟩
  · trivial
  · exact .keep rfl

theorem llen_appends : s.Appends (s.llen now q) := by
  unfold llen
  split
  · exact .keep rfl
  · trivial

theorem lpop_appends : s.Appends (s.lpop now q) := by
  unfold Server.lpop
  rcases parseLPop q.args with e | ⟨key, count⟩
  · trivial
  · dsimp only [bind, Except.bind, pure, Except.pure]
    split_ifs
    · exact .record (by rfl) _
    · exact .keep (by rfl)

theorem blpop_appends : s.Appends (s.blpop now q) := by
  unfold Server.blpop
  rcases parseBLPop q.args with e | ⟨key, timeout⟩
  · trivial
  · dsimp only [bind, Except.bind, pure, Except.pure]
    split
    · exact .record (by rfl) _
    · split
      · exact .keep (by rfl)
      · exact .keep (block_replication _ _ _ _ _)

theorem info_appends : s.Appends (s.info now q) := .keep rfl

theorem replconf_appends : s.Appends (s.replconf now q) := by
  unfold replconf
  split
  · exact .keep rfl
  · trivial

theorem psync_appends : s.Appends (s.psync now q) := by
  unfold psync
  split
  · split
    · trivial
    · exact Replication.extends_addReplica _ _
  · trivial

theorem act_appends : s.Appends (s.act now q) := by
  unfold act
  split
  · exact ping_appends
  · exact echo_appends
  · exact set_appends
  · exact get_appends
  · exact incr_appends
  · exact push_appends false
  · exact push_appends true
  · exact lrange_appends
  · exact llen_appends
  · exact lpop_appends
  · exact blpop_appends
  · exact info_appends
  · exact replconf_appends
  · exact psync_appends

end Handlers

theorem perform_extends (s : Server) (now : Instant) (q : Request) :
    s.replication.Extends (s.perform now q).2.replication := by
  unfold perform
  have h : s.Appends (s.act now q) := act_appends
  split
  · rename_i o s' hs
    rw [hs] at h
    exact h
  · exact .refl _

theorem replay_extends (now : Instant) : ∀ (qs : List Request) (s : Server),
    s.replication.Extends (replay now qs s).2.replication
  | [], s => .refl _
  | q :: qs, s => by
    rcases hp : s.perform now q with ⟨o, s₁⟩
    rcases hr : replay now qs s₁ with ⟨vs, s₂⟩
    have h₁ := perform_extends s now q
    have h₂ := replay_extends now qs s₁
    rw [hp] at h₁
    rw [hr] at h₂
    simp only [replay, hp, hr]
    exact h₁.trans h₂

theorem control_appends (s : Server) (now : Instant) (origin : ConnId) (args : List String) :
    ∀ v : Verb, s.Appends (s.control now origin args v)
  | .multi => by
    simp only [control]
    split
    · exact .keep rfl
    · trivial
  | .exec => by
    simp only [control]
    split
    · trivial
    · split
      · trivial
      · -- EXEC replays the queue from the state that forgot it
        rename_i queued ts _
        rcases hr : replay now queued { s with transactions := ts, replaying := true } with
          ⟨replies, s₂⟩
        have h := replay_extends now queued { s with transactions := ts, replaying := true }
        rw [hr] at h
        exact h
  | .discard => by
    simp only [control]
    split
    · trivial
    · split
      · trivial
      · exact .keep rfl
  | .action _ => act_appends

theorem run_extends (s : Server) (now : Instant) (c : Command) :
    s.replication.Extends (s.run now c).2.replication := by
  unfold run
  have h := control_appends s now c.origin c.args c.verb
  split
  · rename_i o s' hc
    rw [hc] at h
    exact h
  · exact .refl _

/-- Whatever request arrives, the server only records writes after the pending ones and attaches
replicas. -/
theorem execute_extends (s : Server) (now : Instant) (origin : ConnId) (frame : Value) :
    s.replication.Extends (s.execute now origin frame).2.replication := by
  unfold execute
  split
  · exact .refl _
  · split
    · exact .refl _
    · split
      · exact .refl _
      · exact run_extends s now _

theorem fire_extends (s : Server) : ∀ task : TimerTask, s.replication.Extends (s.fire task).replication
  | .blockTimeout key id => by
    show s.replication.Extends (s.expireBlock key id).replication
    rw [(expireBlock_data s key id).2.2]
    exact .refl _
  | .reconnectMaster => .of_eq rfl rfl rfl

/-- Along any run of master steps, the pending writes grow by exactly the writes the run records,
and the offset by their encoded size. -/
theorem runSteps_records : ∀ (steps : List MasterStep) (s : Server),
    (s.runSteps steps).1.replication.events =
        s.replication.events ++ (s.runSteps steps).2.map Prod.fst ∧
      (s.runSteps steps).1.replication.offset =
        s.replication.offset + (((s.runSteps steps).2.map Prod.fst).flatMap Value.encode).length
  | [], s => by simp [runSteps]
  | .execute now c f :: steps, s => by
    obtain ⟨ws, he, ho⟩ := (execute_extends s now c f).records
    obtain ⟨he', ho'⟩ := runSteps_records steps (s.execute now c f).2
    have hdrop : (s.execute now c f).2.replication.events.drop s.replication.events.length = ws := by
      rw [he, List.drop_left]
    simp only [runSteps, hdrop, List.map_append, List.map_map]
    constructor
    · rw [he', he]
      simp [Function.comp_def]
    · rw [ho', ho]
      simp [Function.comp_def, List.flatMap_append]
      omega
  | .opened :: steps, s => runSteps_records steps _
  | .closed _ :: steps, s => runSteps_records steps _
  | .fire task :: steps, s => by
    obtain ⟨he, ho⟩ := runSteps_records steps (s.fire task)
    rw [fire_events] at he
    rw [(fire_extends s task).offset_of_events (fire_events s task)] at ho
    exact ⟨he, ho⟩

/-- Along any run of master steps the replicas stay without repeats, and one stays attached unless
its connection closes. -/
theorem runSteps_replicas (c : ConnId) : ∀ (steps : List MasterStep) (s : Server),
    (s.replication.replicas.Nodup → (s.runSteps steps).1.replication.replicas.Nodup) ∧
      (c ∈ s.replication.replicas → MasterStep.closed c ∉ steps →
        c ∈ (s.runSteps steps).1.replication.replicas)
  | [], s => ⟨id, fun h _ => h⟩
  | .execute now d f :: steps, s => by
    have h := execute_extends s now d f
    have ih := runSteps_replicas c steps (s.execute now d f).2
    exact ⟨ih.1 ∘ h.nodup, fun hc hs => ih.2 (h.attached c hc) (fun h' => hs (.tail _ h'))⟩
  | .opened :: steps, s => by
    have ih := runSteps_replicas c steps s.connectionOpened.2
    exact ⟨ih.1, fun hc hs => ih.2 hc (fun h' => hs (.tail _ h'))⟩
  | .closed d :: steps, s => by
    have ih := runSteps_replicas c steps (s.connectionClosed d)
    refine ⟨fun h => ih.1 (h.filter _), fun hc hs => ih.2 ?_ (fun h' => hs (.tail _ h'))⟩
    have hd : c ≠ d := by
      rintro rfl
      exact hs (.head _)
    simp [connectionClosed, Replication.removeReplica, hc, hd]
  | .fire task :: steps, s => by
    have h := fire_extends s task
    have ih := runSteps_replicas c steps (s.fire task)
    exact ⟨ih.1 ∘ h.nodup, fun hc hs => ih.2 (h.attached c hc) (fun h' => hs (.tail _ h'))⟩

end Server

/-! ## The fan-out -/

namespace Link

/-- The bytes on their way to the peer: written to the socket and not read yet, then those still
buffered. -/
def stream (l : Link) : List UInt8 :=
  l.sock.outgoing.bytes ++ l.conn.outbound.bytes

end Link

namespace Connection

theorem foldl_send (vs : List Value) : ∀ c : Connection,
    (vs.foldl send c).id = c.id ∧
      (vs.foldl send c).outbound.bytes = c.outbound.bytes ++ vs.flatMap Value.encode := by
  induction vs with
  | nil => simp
  | cons v vs ih =>
    intro c
    obtain ⟨h₁, h₂⟩ := ih (c.send v)
    rw [List.foldl_cons, h₁, h₂]
    simp [send, Buffer.append]

/-- Flushing moves bytes from the outbound buffer to the socket, keeping what is on its way. -/
theorem flush_stream {c c' : Connection} {p p' : Net.Pipe} (h : c.flush p = .ok (c', p')) :
    c'.id = c.id ∧ p'.bytes ++ c'.outbound.bytes = p.bytes ++ c.outbound.bytes := by
  unfold flush at h
  split at h
  · obtain ⟨rfl, rfl⟩ := Prod.mk.inj (Except.ok.inj h)
    exact ⟨rfl, rfl⟩
  · split at h
    · cases h
    · rename_i n p₁ hw
      obtain ⟨rfl, rfl⟩ := Prod.mk.inj (Except.ok.inj h)
      unfold Net.Pipe.write at hw
      split at hw
      · cases hw
      · obtain ⟨rfl, rfl⟩ := Prod.mk.inj (Option.some.inj hw)
        simp [Net.Pipe.put, Buffer.consume]

end Connection

namespace Reactor

theorem id_of_link? {r : Reactor} {id : ConnId} {l : Link} (h : r.link? id = some l) :
    l.conn.id = id := by
  have := List.find?_some h
  simpa using this

theorem link?_modifyLink (r : Reactor) {id : ConnId} {f : Link → Link}
    (hf : ∀ l, l.conn.id = id → (f l).conn.id = id) (id' : ConnId) :
    (r.modifyLink id f).link? id' = if id = id' then (r.link? id').map f else r.link? id' := by
  simp only [link?, modifyLink]
  generalize r.links = L
  induction L with
  | nil => simp
  | cons l L ih =>
    simp only [List.map_cons]
    by_cases hl : l.conn.id = id
    · have hg : (if (l.conn.id == id) = true then f l else l) = f l := by simp [hl]
      rw [hg]
      by_cases h' : id = id'
      · subst h'
        rw [List.find?_cons_of_pos (by simp [hf l hl]), if_pos rfl,
          List.find?_cons_of_pos (by simp [hl])]
        rfl
      · rw [List.find?_cons_of_neg (by simp [hf l hl, h']), ih, if_neg h', if_neg h',
          List.find?_cons_of_neg (by simp [hl, h'])]
    · have hg : (if (l.conn.id == id) = true then f l else l) = l := by simp [hl]
      rw [hg]
      by_cases h' : l.conn.id = id'
      · have hne : id ≠ id' := fun h => hl (h'.trans h.symm)
        rw [List.find?_cons_of_pos (by simp [h']), if_neg hne, List.find?_cons_of_pos (by simp [h'])]
      · rw [List.find?_cons_of_neg (by simp [h']), ih, List.find?_cons_of_neg (by simp [h'])]


/-- Flushing a link moves bytes onto its socket, or marks the link to close: what is on its way to
any peer stays, and so does the server. -/
theorem flushLink_stream (r : Reactor) (id c : ConnId) :
    ((r.flushLink id).link? c).map Link.stream = (r.link? c).map Link.stream ∧
      (r.flushLink id).server = r.server := by
  unfold flushLink
  split
  · exact ⟨rfl, rfl⟩
  · rename_i l hl
    have hid := id_of_link? hl
    split
    · rename_i c' p' hflush
      obtain ⟨hc', hbytes⟩ := Connection.flush_stream hflush
      have hf : ∀ l' : Link, l'.conn.id = id →
          ({ conn := c', sock := { l'.sock with outgoing := p' } } : Link).conn.id = id :=
        fun _ _ => hc'.trans hid
      refine ⟨?_, rfl⟩
      rw [link?_modifyLink r hf c]
      split
      · rename_i h
        subst h
        rw [hl]
        simp [Link.stream, hbytes]
      · rfl
    · have hf : ∀ l' : Link, l'.conn.id = id →
          ({ l' with conn := { l'.conn with wantClose := true } } : Link).conn.id = id :=
        fun _ h => h
      refine ⟨?_, rfl⟩
      unfold markClose
      rw [link?_modifyLink r hf c]
      split
      · rw [Option.map_map]
        rfl
      · rfl

/-- One visit of the fan-out: the events go onto the replica's link, if it has one, and the link
is flushed. Only that link's stream grows, by the events' bytes, and the server stays. -/
theorem visit_stream (r : Reactor) (events : List Value) (id c : ConnId) :
    let r' := match r.link? id with
      | none => r
      | some _ =>
        (r.modifyLink id fun l => { l with conn := events.foldl Connection.send l.conn }).flushLink id
    (r'.link? c).map Link.stream =
        ((r.link? c).map Link.stream).map (· ++ if id = c then events.flatMap Value.encode else []) ∧
      r'.server = r.server := by
  dsimp only
  rcases hl : r.link? id with _ | l
  · refine ⟨?_, rfl⟩
    by_cases hid : id = c
    · subst hid
      simp [hl]
    · simp [hid, Function.comp_def]
  · have hid := id_of_link? hl
    have hf : ∀ l' : Link, l'.conn.id = id →
        ({ l' with conn := events.foldl Connection.send l'.conn } : Link).conn.id = id :=
      fun l' h => (Connection.foldl_send events l'.conn).1.trans h
    obtain ⟨hs₁, hs₂⟩ := flushLink_stream (r.modifyLink id fun l =>
      { l with conn := events.foldl Connection.send l.conn }) id c
    refine ⟨?_, hs₂⟩
    rw [hs₁, link?_modifyLink r hf c]
    split
    · rename_i h
      subst h
      rw [hl]
      simp [Link.stream, (Connection.foldl_send events l.conn).2]
    · simp [Function.comp_def]

theorem foldl_server {g : Reactor → ConnId → Reactor} (hg : ∀ r id, (g r id).server = r.server) :
    ∀ (ids : List ConnId) (r : Reactor), (ids.foldl g r).server = r.server
  | [], _ => rfl
  | id :: ids, r => (foldl_server hg ids (g r id)).trans (hg r id)

/-- Visits of distinct replicas, each appending `bs` to the stream of `c` when it visits `c` only,
append `bs` once if `c` is among them. -/
theorem foldl_stream {g : Reactor → ConnId → Reactor} {c : ConnId} {bs : List UInt8}
    (hg : ∀ r id, ((g r id).link? c).map Link.stream =
      ((r.link? c).map Link.stream).map (· ++ if id = c then bs else [])) :
    ∀ (ids : List ConnId) (r : Reactor), ids.Nodup →
      ((ids.foldl g r).link? c).map Link.stream =
        ((r.link? c).map Link.stream).map (· ++ if c ∈ ids then bs else [])
  | [], r, _ => by simp [Function.comp_def]
  | id :: ids, r, hnd => by
    rw [List.foldl_cons, foldl_stream hg ids (g r id) (List.nodup_cons.1 hnd).2, hg, Option.map_map]
    congr 1
    funext t
    -- `c` is visited once: at `id`, or among the rest
    by_cases hid : id = c
    · subst hid
      simp [(List.nodup_cons.1 hnd).1]
    · simp [hid, Ne.symm hid]

/-- The fan-out sends every pending write, in order and once, to each attached replica that has a
link; nothing else on its way to any peer changes. -/
theorem fanOut_stream (r : Reactor) (hnodup : r.server.replication.replicas.Nodup) (c : ConnId) :
    (r.fanOut.link? c).map Link.stream = ((r.link? c).map Link.stream).map (· ++
      if c ∈ r.server.replication.replicas then r.server.replication.events.flatMap Value.encode
      else []) := by
  unfold fanOut
  split
  · rename_i he
    simp [List.isEmpty_iff.1 he, Function.comp_def]
  · exact foldl_stream (fun r₁ id => (visit_stream r₁ r.server.replication.events id c).1) _ _ hnodup

/-- The fan-out empties the pending writes and keeps the offset. -/
theorem fanOut_records (r : Reactor) :
    r.fanOut.server.replication.events = [] ∧
      r.fanOut.server.replication.offset = r.server.replication.offset := by
  unfold fanOut
  split
  · rename_i he
    exact ⟨List.isEmpty_iff.1 he, rfl⟩
  · -- the visits leave the server as the drain left it
    have hs := foldl_server (fun r₁ id => (visit_stream r₁ r.server.replication.events id 0).2)
      r.server.replication.replicas
      { r with server := { r.server with replication := { r.server.replication with events := [] } } }
    exact ⟨congrArg (·.replication.events) hs, congrArg (·.replication.offset) hs⟩

end Reactor

/-! ## A replica attached by PSYNC -/

namespace Server

/-- PSYNC from a connection in no transaction answers with a full resynchronisation at the current
offset and attaches the connection, recording nothing. -/
theorem execute_psync {s : Server} {c : ConnId} (hidle : s.transactions.isActive c = false)
    (now : Instant) (id : String) {off : String} (hoff : (Decimal.parseInt64? off).isSome) :
    s.execute now c (Value.command ["PSYNC", id, off]) =
      (.completed (.simple ("FULLRESYNC " ++ replicationId ++ " " ++ Decimal.ofNat s.replication.offset)),
        { s with replication := s.replication.addReplica c }) := by
  have hq : ({ origin := c, action := .psync, args := [id, off] } : Request).toValue =
      Value.command ["PSYNC", id, off] := Request.toValue_of_keyword (by decide) c [id, off]
  rw [← hq, execute_request hidle (by simp [Command.hasArity, Request.toCommand, Verb.arity])]
  obtain ⟨n, hn⟩ := Option.isSome_iff_exists.1 hoff
  simp [perform, act, psync, hn]

/-- A connection's PSYNC answers `FULLRESYNC` with the offset `O` of that moment. Whatever the
master then runs, as long as the connection stays open, the next fan-out sends it the writes that
were still pending at its PSYNC followed by every write recorded since, each once and in order,
and empties the pending list. So `O` plus the bytes it is sent exceeds the master's offset by the
bytes of the writes that were pending. -/
theorem fanOut_after_psync {s : Server} {c : ConnId} (hidle : s.transactions.isActive c = false)
    (hnodup : s.replication.replicas.Nodup) (now : Instant) (id : String) {off : String}
    (hoff : (Decimal.parseInt64? off).isSome) {steps : List MasterStep}
    (hstay : MasterStep.closed c ∉ steps) {r : Reactor}
    (hr : r.server = ((s.execute now c (Value.command ["PSYNC", id, off])).2.runSteps steps).1) :
    let run := (s.execute now c (Value.command ["PSYNC", id, off])).2.runSteps steps
    let sent := s.replication.events ++ run.2.map Prod.fst
    (s.execute now c (Value.command ["PSYNC", id, off])).1 =
        .completed (.simple ("FULLRESYNC " ++ replicationId ++ " " ++
          Decimal.ofNat s.replication.offset)) ∧
      (r.fanOut.link? c).map Link.stream =
        ((r.link? c).map Link.stream).map (· ++ sent.flatMap Value.encode) ∧
      r.fanOut.server.replication.events = [] ∧
      s.replication.offset + (sent.flatMap Value.encode).length =
        r.fanOut.server.replication.offset + (s.replication.events.flatMap Value.encode).length := by
  intro run sent
  have hx := execute_psync hidle now id hoff
  -- PSYNC attaches `c` and records nothing
  have hrep : (s.execute now c (Value.command ["PSYNC", id, off])).2.replication =
      s.replication.addReplica c := by
    rw [hx]
  obtain ⟨he, ho⟩ := runSteps_records steps (s.execute now c (Value.command ["PSYNC", id, off])).2
  obtain ⟨hnd, hat⟩ := runSteps_replicas c steps (s.execute now c (Value.command ["PSYNC", id, off])).2
  rw [hrep, Replication.addReplica_events] at he
  rw [hrep, Replication.addReplica_offset] at ho
  rw [hrep] at hnd hat
  have hc : c ∈ r.server.replication.replicas := by
    rw [hr]
    exact hat (Replication.mem_addReplica _ c) hstay
  have hnd' : r.server.replication.replicas.Nodup := by
    rw [hr]
    exact hnd ((Replication.extends_addReplica s.replication c).nodup hnodup)
  have hev : r.server.replication.events = sent := by
    rw [hr]
    exact he
  refine ⟨by rw [hx], ?_, (Reactor.fanOut_records r).1, ?_⟩
  · rw [Reactor.fanOut_stream r hnd' c, if_pos hc, hev]
  · rw [(Reactor.fanOut_records r).2, hr, ho]
    simp only [sent, run, List.flatMap_append, List.length_append]
    omega


/-- A fresh master after one SET from connection 1, in no transaction: the write is pending and
counted in the offset, and no replica is attached. -/
theorem set_on_fresh_master :
    let s := ((Server.new .master 6379).execute 0 1 (Value.command ["SET", "k", "v"])).2
    s.transactions.isActive 1 = false ∧
      s.replication =
        { role := .master
          offset := 27
          events := [Value.command ["SET", "k", "v"]] } := by
  intro s
  have hnew : (Server.new .master 6379).transactions.isActive 1 = false := by
    simp [Server.new, Transactions.isActive]
  have hs : s = ({ Server.new .master 6379 with
      strings := (Server.new .master 6379).strings.set 0 "k" "v" none }).record
        (Value.command ["SET", "k", "v"]) := execute_set hnew 0 "k" "v"
  have hlen : (Value.command ["SET", "k", "v"]).encode.length = 27 := by decide +kernel
  rw [hs]
  exact ⟨hnew, by simp [Server.record, Replication.record, Replication.isMaster, Server.new,
    Replication.new, hlen]⟩

/-- A client of a fresh master sends SET and then PSYNC: the fan-out after them sends it the SET,
which was still pending at its PSYNC. -/
theorem psync_after_set_fanOut :
    let s := ((Server.new .master 6379).execute 0 1 (Value.command ["SET", "k", "v"])).2
    let psync := Value.command ["PSYNC", "?", "-1"]
    let run := (s.execute 0 1 psync).2.runSteps []
    let r : Reactor := { server := run.1, links := [{ conn := Connection.new 1 "127.0.0.1:40001" }] }
    let sent := s.replication.events ++ run.2.map Prod.fst
    (s.execute 0 1 psync).1 =
        .completed (.simple ("FULLRESYNC " ++ replicationId ++ " " ++
          Decimal.ofNat s.replication.offset)) ∧
      (r.fanOut.link? 1).map Link.stream =
        ((r.link? 1).map Link.stream).map (· ++ sent.flatMap Value.encode) ∧
      r.fanOut.server.replication.events = [] ∧
      s.replication.offset + (sent.flatMap Value.encode).length =
        r.fanOut.server.replication.offset + (s.replication.events.flatMap Value.encode).length := by
  intro s psync run r sent
  obtain ⟨hidle, hrepl⟩ := set_on_fresh_master
  have hnodup : s.replication.replicas.Nodup := by
    rw [hrepl]
    exact List.nodup_nil
  exact fanOut_after_psync hidle hnodup 0 "?" (by decide) (by simp) rfl

/-- The sync point does not cover the writes still pending. A client that sends SET and then PSYNC
in one read is answered `FULLRESYNC` at offset 27, which counts the SET, and the fan-out after
them sends it the SET all the same: 27 plus the 27 bytes it is sent exceeds the master's offset. -/
theorem replica_sent_write_before_its_sync :
    let s := ((Server.new .master 6379).execute 0 1 (Value.command ["SET", "k", "v"])).2
    let s' := s.execute 0 1 (Value.command ["PSYNC", "?", "-1"])
    let r : Reactor := { server := s'.2, links := [{ conn := Connection.new 1 "127.0.0.1:40001" }] }
    s'.1 = .completed (.simple ("FULLRESYNC " ++ replicationId ++ " 27")) ∧
      (r.fanOut.link? 1).map Link.stream = some (Value.command ["SET", "k", "v"]).encode ∧
      r.fanOut.server.replication.offset = 27 := by
  intro s s' r
  obtain ⟨hidle, hrepl⟩ := set_on_fresh_master
  have hx : s' = _ := execute_psync hidle 0 "?" (show (Decimal.parseInt64? "-1").isSome by decide)
  have hr : r.server.replication =
      { role := .master
        offset := 27
        replicas := [1]
        events := [Value.command ["SET", "k", "v"]] } := by
    show s'.2.replication = _
    rw [hx]
    show s.replication.addReplica 1 = _
    rw [hrepl]
    rfl
  have hlink : r.link? 1 = some { conn := Connection.new 1 "127.0.0.1:40001" } := rfl
  refine ⟨?_, ?_, ?_⟩
  · have h27 : " " ++ Decimal.ofNat 27 = " 27" := by decide +kernel
    rw [hx, hrepl]
    simp only [String.append_assoc, h27]
  · rw [Reactor.fanOut_stream r (by rw [hr]; simp) 1, hlink, hr]
    simp [Link.stream, Connection.new]
  · rw [(Reactor.fanOut_records r).2, hr]

end Server

end KvServer
