import Mathlib
import KvServer.Proofs.BlocksPerConnection
import KvServer.Proofs.Pipelining

/-!
# Running the requests of one connection

A server is tidy (`Server.Tidy`) when its blocked pops are in good order and every block and every
queued reply belongs to a connection already opened, each reply resuming its connection. Running
requests from connection `o` keeps it tidy, keeps the open connections, passes every other open
connection and parks nothing for any other (`Server.RunsFor`); firing the due timers does the same
for every connection (`Server.runTimers_runsFor`).

On the connection's side, processing its buffered frames (`Connection.processWith`) runs requests
of that connection only, keeps its id, its kind and its close mark, and takes at least one byte from
its buffer whenever it touches the server (`Connection.processWith_processed`). A client that was
not waiting and had no block is left waiting exactly when one block carries its id, and no reply
was queued for it (`Connection.processWith_own`). A link to the master past its handshake applies
every whole frame as the master's writes, answers none and never waits
(`Connection.processWith_master`).
-/

namespace KvServer

namespace Server

open PopEvent

/-! ## Tidy servers -/

/-- Each reply a history queues is a departure's: it goes to the departed block's connection and
resumes it. -/
theorem mem_deliveries {h : List PopEvent} {x : Delivery}
    (hx : x ∈ h.filterMap PopEvent.delivery?) :
    ∃ d ∈ departures h, x.conn = d.block.conn ∧ x.resumes = true := by
  obtain ⟨e, he, hd⟩ := List.mem_filterMap.1 hx
  cases e with
  | parked => cases hd
  | departed d =>
    refine ⟨d, mem_departures.2 he, ?_⟩
    simp only [PopEvent.delivery?, Departure.delivery?] at hd
    split at hd
    · split at hd <;> cases hd <;> exact ⟨rfl, rfl⟩
    · cases hd

/-- The blocked pops are in good order, every queued reply resumes its connection, and every block
and every reply belongs to a connection already opened. -/
structure Tidy (s : Server) : Prop where
  orderly : s.Orderly
  outbox : ∀ d ∈ s.outbox, d.resumes = true ∧ d.conn < s.nextConn
  blocks : ∀ k b, b ∈ s.waiters.queue k → b.conn < s.nextConn

/-- Good order reads the blocked pops and the timers only. -/
theorem Orderly.congr {s s' : Server} (hs : s.Orderly) (hw : s'.waiters = s.waiters)
    (ht : s'.timers = s.timers) : s'.Orderly := by
  obtain ⟨hsorted, hbelow, hunique, htimers⟩ := hs
  exact ⟨hw ▸ hsorted, hw ▸ hbelow, hw ▸ hunique, hw ▸ ht ▸ htimers⟩

/-- Tidiness reads the blocked pops, the timers, the replies and the next id only. -/
theorem Tidy.congr {s s' : Server} (hs : s.Tidy) (hw : s'.waiters = s.waiters)
    (ht : s'.timers = s.timers) (ho : s'.outbox = s.outbox) (hn : s'.nextConn = s.nextConn) :
    s'.Tidy where
  orderly := hs.orderly.congr hw ht
  outbox := ho ▸ hn ▸ hs.outbox
  blocks := hw ▸ hn ▸ hs.blocks

theorem Tidy.of_keeps {s s' : Server} (hs : s.Tidy) (hk : KeepsBlocking s s') : s'.Tidy :=
  hs.congr hk.waiters hk.timers hk.outbox hk.nextConn

/-- A history that parks blocks only for connections already opened, and opens none, keeps the
server tidy. -/
theorem PopHistory.tidy {s s' : Server} {h : List PopEvent} (ht : s.PopHistory h s')
    (hs : s.Tidy) (hn : s'.nextConn = s.nextConn) (hp : ∀ p ∈ parks h, p.2.conn < s.nextConn) :
    s'.Tidy := by
  -- every block the history knows of, waiting at the start or parked by it, is below the next id
  have hreg : ∀ k b, s.Registered h k b → b.conn < s.nextConn := by
    rintro k b (hb | hb)
    · exact hs.blocks k b hb
    · exact hp _ hb
  refine ⟨ht.orderly, fun x hx => ?_, fun k b hb => hn ▸ hreg k b ((ht.waiting k b).1 hb).1⟩
  rw [ht.outbox, List.mem_append] at hx
  rcases hx with hx | hx
  · exact hn ▸ hs.outbox x hx
  · obtain ⟨d, hd, hconn, hres⟩ := mem_deliveries hx
    exact ⟨hres, hn ▸ hconn ▸ hreg _ _ (ht.departed d hd)⟩

/-! ## Running the requests of one connection -/

/-- What running requests from connection `o` keeps: the server stays tidy, keeps its open
connections and the next id, passes every other open connection and parks nothing for any other
connection, open or not. -/
structure RunsFor (o : ConnId) (s s' : Server) : Prop where
  tidy : s'.Tidy
  live : s'.live = s.live
  nextConn : s'.nextConn = s.nextConn
  passes : ∀ c, c ≠ o → s.isLive c = true → Passes c s s'
  shrinks : ∀ c, c ≠ o → ∀ k b, b ∈ s'.waiters.queue k → b.conn = c → b ∈ s.waiters.queue k

namespace RunsFor

variable {o : ConnId} {s₁ s₂ s₃ : Server}

/-- A step that keeps the blocked pops, the replies and the connections runs for anyone. -/
theorem of_keeps (hs : s₁.Tidy) (hk : KeepsBlocking s₁ s₂) : RunsFor o s₁ s₂ where
  tidy := hs.of_keeps hk
  live := hk.live
  nextConn := hk.nextConn
  passes _ _ _ := Passes.of_eq hk.waiters hk.outbox
  shrinks _ _ _ _ hb _ := hk.waiters ▸ hb

theorem refl (hs : s₁.Tidy) : RunsFor o s₁ s₁ :=
  of_keeps hs (KeepsBlocking.refl s₁)

theorem trans (h₁ : RunsFor o s₁ s₂) (h₂ : RunsFor o s₂ s₃) : RunsFor o s₁ s₃ where
  tidy := h₂.tidy
  live := h₂.live.trans h₁.live
  nextConn := h₂.nextConn.trans h₁.nextConn
  passes c hc hl := (h₁.passes c hc hl).trans
    (h₂.passes c hc (by simpa only [isLive, h₁.live] using hl))
  shrinks c hc k b hb hbc := h₁.shrinks c hc k b (h₂.shrinks c hc k b hb hbc) hbc

/-- The last server of a run may be replaced by one that agrees with it on all that counts. -/
theorem keeps (h : RunsFor o s₁ s₂) (hk : KeepsBlocking s₂ s₃) : RunsFor o s₁ s₃ :=
  h.trans (of_keeps h.tidy hk)

end RunsFor

/-- A request runs for its own connection, once that connection has been opened. -/
theorem execute_runsFor {s : Server} (hs : s.Tidy) (now : Instant) {origin : ConnId}
    (ho : origin < s.nextConn) (frame : Value) :
    RunsFor origin s (s.execute now origin frame).2 where
  tidy := (execute_history now origin frame hs.orderly).tidy hs
    (execute_live s now origin frame).2.1
    fun p hp => (parks_executeLog now origin frame p hp).symm ▸ ho
  live := (execute_live s now origin frame).1
  nextConn := (execute_live s now origin frame).2.1
  passes _ hc hl := execute_passes now origin frame hs.orderly hc hl
  shrinks _ hc := execute_shrinks now origin frame hs.orderly hc

/-! ## Firing the due timers -/

@[simp] theorem nextConn_expireBlock (s : Server) (key : String) (id : Nat) :
    (s.expireBlock key id).nextConn = s.nextConn := by
  unfold expireBlock
  split <;> simp

theorem foldl_fire_live : ∀ (tasks : List TimerTask) (s : Server),
    (tasks.foldl fire s).live = s.live ∧ (tasks.foldl fire s).nextConn = s.nextConn
  | [], _ => ⟨rfl, rfl⟩
  | .blockTimeout key id :: ts, s => by
    simpa [fire] using foldl_fire_live ts (s.expireBlock key id)
  | .reconnectMaster :: ts, s => by
    simpa [fire] using foldl_fire_live ts (s.fire .reconnectMaster)

@[simp] theorem parks_fireLog (now : Instant) : ∀ (tasks : List TimerTask) (s : Server),
    parks (fireLog now tasks s) = []
  | [], _ => rfl
  | .blockTimeout key id :: ts, s => by simp [fireLog, parks_fireLog now ts]
  | .reconnectMaster :: ts, s => by
    rw [fireLog, List.nil_append, parks_fireLog now ts]

/-- A block a timer takes off leaves with its connection's standing when the timers started. -/
theorem fireLog_live (now : Instant) : ∀ (tasks : List TimerTask) (s : Server),
    ∀ d ∈ departures (fireLog now tasks s), d.live = s.isLive d.block.conn
  | [], _ => by simp [fireLog, departures]
  | .blockTimeout key id :: ts, s => by
    intro d hd
    simp only [fireLog, departures_append, List.mem_append] at hd
    rcases hd with hd | hd
    · simp only [expireLog, departures, List.filterMap_map, Option.toList] at hd
      cases hf : (s.waiters.queue key).find? (·.id = id) <;> simp_all [departure?]
    · rw [fireLog_live now ts _ d hd]
      simp [isLive, fire]
  | .reconnectMaster :: ts, s => by
    intro d hd
    simp only [fireLog, List.nil_append] at hd
    rw [fireLog_live now ts _ d hd]
    rfl

/-- Firing the due timers runs no connection's requests: it keeps the server tidy and passes
every open connection, a block it takes off leaving with its one reply. -/
theorem runTimers_runsFor {s : Server} (hs : s.Tidy) (now : Instant) (o : ConnId) :
    RunsFor o s (s.runTimers now).2 := by
  have ht : s.PopHistory (s.stepLog (.timers now)) (s.runTimers now).2 := by
    have h := (PopHistory.start hs.orderly).step (.timers now)
    rwa [List.nil_append] at h
  have hparks : parks (s.stepLog (.timers now)) = [] := parks_fireLog now _ _
  obtain ⟨hlive, hnext⟩ := foldl_fire_live (s.dueTimers now).1 (s.dueTimers now).2
  refine ⟨ht.tidy hs hnext (by simp [hparks]), hlive, hnext, fun c _ hl => ?_,
    fun c _ => ht.shrinks (by simp [hparks])⟩
  refine ht.passes (by simp [hparks]) fun d hd hdc => ?_
  rw [fireLog_live now _ _ d hd, hdc]
  exact hl

end Server

/-! ## Bytes a frame takes -/

namespace Buffer

/-- Decoding from the mark moves the cursor only. -/
theorem len_decode_mark (b : Buffer) : b.mark.decode.2.len = b.len := by
  unfold decode
  split <;> rfl

/-- A frame decoded from the mark and committed leaves fewer bytes than there were. -/
theorem len_commit_lt {b b' : Buffer} {v : Value} (h : b.mark.decode = (.ok (.frame v), b')) :
    b'.commit.len < b.len := by
  cases hr : Wire.read b.unread with
  | done v' r =>
    rw [decode_mark_of_done hr, Prod.mk.injEq] at h
    obtain ⟨-, rfl⟩ := h
    have hsuf : r <:+ b.unread := by
      simpa [hr, Wire.Step.rest] using Wire.read_rest_suffix b.unread
    rw [commit_advance_mark hsuf]
    calc r.length < b.unread.length := Wire.length_lt_of_read_done hr
      _ ≤ b.len := unread_length_le b
  | incomplete r =>
    rw [decode_mark_of_incomplete hr] at h
    cases h
  | failed e r =>
    rw [decode_mark_of_failed hr] at h
    cases h

end Buffer

/-- A measure that never grows, and drops unless some view of the state is kept, does so over two
steps as well. -/
theorem lt_or_eq_trans {β : Type} {a b c : Nat} {x y z : β} (hb : b ≤ a) (hab : b < a ∨ y = x)
    (hc : c ≤ b) (hbc : c < b ∨ z = y) : c < a ∨ z = x := by
  rcases hab with h₁ | rfl
  · exact .inl (lt_of_le_of_lt hc h₁)
  · rcases hbc with h₂ | rfl
    · exact .inl (lt_of_lt_of_le h₂ hb)
    · exact .inr rfl

/-! ## Processing a connection's frames -/

namespace Connection

/-- `c'` stands where `c` does: the same id, kind and suspension, and marked to close if `c` was.
Only its buffers, its handshake and a new close mark may differ. -/
structure Alike (c c' : Connection) : Prop where
  id : c'.id = c.id
  isReplicaLink : c'.isReplicaLink = c.isReplicaLink
  suspended : c'.suspended = c.suspended
  wantClose : c.wantClose = true → c'.wantClose = true

theorem Alike.refl (c : Connection) : Alike c c := ⟨rfl, rfl, rfl, fun h => h⟩

theorem Alike.trans {c₁ c₂ c₃ : Connection} (h₁ : Alike c₁ c₂) (h₂ : Alike c₂ c₃) : Alike c₁ c₃ :=
  ⟨h₂.id.trans h₁.id, h₂.isReplicaLink.trans h₁.isReplicaLink, h₂.suspended.trans h₁.suspended,
    fun h => h₂.wantClose (h₁.wantClose h)⟩

theorem alike_send (c : Connection) (v : Value) : Alike c (c.send v) := ⟨rfl, rfl, rfl, fun h => h⟩

theorem alike_close (c : Connection) : Alike c { c with wantClose := true } :=
  ⟨rfl, rfl, rfl, fun _ => rfl⟩

theorem alike_read (c : Connection) (p : Net.Pipe) : Alike c (c.read p).2.1 :=
  ⟨rfl, rfl, rfl, fun h => by simp [read, h]⟩

/-- Flushing writes from the outbound buffer only. -/
theorem flush_alike {c c' : Connection} {p p' : Net.Pipe} (h : c.flush p = .ok (c', p')) :
    Alike c c' := by
  unfold flush at h
  split at h
  · cases h
    exact Alike.refl c
  · split at h
    · cases h
    · cases h
      exact ⟨rfl, rfl, rfl, fun h => h⟩

/-- What processing the frames of connection `c` did, leaving `c'` and taking the server from `s`
to `s'`: it ran requests of `c` only, kept the connection's id, kind and close mark, and took
bytes from its buffer, at least one whenever it touched the server. -/
structure Processed (c c' : Connection) (s s' : Server) : Prop where
  runs : s.RunsFor c.id s'
  id : c'.id = c.id
  isReplicaLink : c'.isReplicaLink = c.isReplicaLink
  wantClose : c'.wantClose = c.wantClose
  len_le : c'.inbound.len ≤ c.inbound.len
  progress : c'.inbound.len < c.inbound.len ∨ s' = s

namespace Processed

variable {c₁ c₂ c₃ : Connection} {s₁ s₂ s₃ : Server}

/-- Stopping with the bytes kept and the server untouched. -/
theorem idle (hs : s₁.Tidy) (hid : c₂.id = c₁.id) (hk : c₂.isReplicaLink = c₁.isReplicaLink)
    (hw : c₂.wantClose = c₁.wantClose) (hlen : c₂.inbound.len = c₁.inbound.len) :
    Processed c₁ c₂ s₁ s₁ :=
  ⟨.refl hs, hid, hk, hw, hlen.le, .inr rfl⟩

theorem trans (h₁ : Processed c₁ c₂ s₁ s₂) (h₂ : Processed c₂ c₃ s₂ s₃) :
    Processed c₁ c₃ s₁ s₃ where
  runs := h₁.runs.trans (h₁.id ▸ h₂.runs)
  id := h₂.id.trans h₁.id
  isReplicaLink := h₂.isReplicaLink.trans h₁.isReplicaLink
  wantClose := h₂.wantClose.trans h₁.wantClose
  len_le := h₂.len_le.trans h₁.len_le
  progress := lt_or_eq_trans h₁.len_le h₁.progress h₂.len_le h₂.progress

end Processed

variable {now : Instant}

/-- Handling one frame runs a request of the connection, or drives its handshake, and keeps the
connection's id, kind, close mark and buffered bytes. -/
theorem handle_runs {c c' : Connection} {s s' : Server} {frame : Value}
    {e : Option ConnectionError} (hh : c.handle s now frame = (e, c', s')) (hs : s.Tidy)
    (ho : c.id < s.nextConn) :
    s.RunsFor c.id s' ∧ c'.id = c.id ∧ c'.isReplicaLink = c.isReplicaLink ∧
      c'.wantClose = c.wantClose ∧ c'.inbound = c.inbound := by
  have hx := Server.execute_runsFor hs now ho frame
  unfold handle at hh
  cases hr : c.role with
  | client =>
    rw [hr] at hh
    dsimp only at hh
    split at hh <;>
    · rename_i heq
      rw [heq] at hx
      cases hh
      exact ⟨hx, rfl, by simp [isReplicaLink, send, hr], rfl, rfl⟩
  | replicaLink h =>
    rw [hr] at hh
    dsimp only at hh
    split at hh
    · cases hh
      exact ⟨hx, rfl, rfl, rfl, rfl⟩
    -- the handshake goes on: the server changes at most in its replication flags
    split at hh <;> cases hh
    · exact ⟨.refl hs, rfl, by simp [isReplicaLink, hr], rfl, rfl⟩
    · exact ⟨.refl hs, rfl, by simp [isReplicaLink, send, hr], rfl, rfl⟩
    · exact ⟨.of_keeps hs ⟨rfl, rfl, rfl, rfl, rfl⟩, rfl, by simp [isReplicaLink, hr], rfl, rfl⟩

/-- A waiting connection takes no frame. -/
theorem processWith_suspended (fuel : Nat) {c : Connection} (s : Server) (hc : c.suspended = true) :
    processWith now fuel c s = (none, c, s) := by
  cases fuel <;> simp [processWith, hc]

/-- Processing runs requests of the connection only, keeps its id, kind and close mark, and
takes at least one byte whenever it touches the server. -/
theorem processWith_processed : ∀ (fuel : Nat) {c c' : Connection} {s s' : Server}
    {e : Option ConnectionError}, processWith now fuel c s = (e, c', s') →
    s.Tidy → c.id < s.nextConn → Processed c c' s s'
  | 0, c, c', s, s', e, hp, hs, _ => by
    cases hp
    exact .idle hs rfl rfl rfl rfl
  | fuel + 1, c, c', s, s', e, hp, hs, ho => by
    rw [processWith] at hp
    split at hp
    · cases hp
      exact .idle hs rfl rfl rfl rfl
    have hlen := Buffer.len_decode_mark c.inbound
    split at hp
    · rename_i inbound hd
      cases hp
      rw [hd] at hlen
      exact .idle hs rfl rfl rfl hlen
    · rename_i inbound hd
      cases hp
      rw [hd] at hlen
      exact .idle hs rfl rfl rfl hlen
    · -- a frame: its bytes are committed, so whatever handling does, a byte has gone
      rename_i v inbound hd
      have hlt := Buffer.len_commit_lt hd
      dsimp only at hp
      split at hp
      all_goals
        rename_i c₂ s₂ hh
        obtain ⟨hrun, hid, hk, hw, hin⟩ := handle_runs hh hs ho
        have hstep : Processed c c₂ s s₂ :=
          ⟨hrun, hid, hk, hw, by rw [hin]; exact hlt.le, .inl (by rw [hin]; exact hlt)⟩
      · exact hstep.trans (processWith_processed fuel hp hstep.runs.tidy
          (by rw [hstep.id, hstep.runs.nextConn]; exact ho))
      · cases hp
        exact hstep

/-- A client that is not waiting and has no block, once its frames are processed, waits exactly
when one block carries its id, and nothing was queued for it. -/
theorem processWith_own : ∀ (fuel : Nat) {c c' : Connection} {s s' : Server}
    {e : Option ConnectionError}, processWith now fuel c s = (e, c', s') →
    c.isReplicaLink = false → c.suspended = false → s.Tidy → c.id < s.nextConn →
    s.NoBlock c.id →
    (c'.suspended = true ∧ s'.OneBlock c.id ∨ c'.suspended = false ∧ s'.NoBlock c.id) ∧
      s'.replies c.id = s.replies c.id
  | 0, c, c', s, s', e, hp, _, hsus, _, _, hn => by
    cases hp
    exact ⟨.inr ⟨hsus, hn⟩, rfl⟩
  | fuel + 1, c, c', s, s', e, hp, hkind, hsus, hs, ho, hn => by
    have hclient : c.role = .client := by
      unfold isReplicaLink at hkind
      split at hkind
      · cases hkind
      · assumption
    rw [processWith, if_neg (by simp [hsus])] at hp
    split at hp
    · cases hp
      exact ⟨.inr ⟨hsus, hn⟩, rfl⟩
    · cases hp
      exact ⟨.inr ⟨hsus, hn⟩, rfl⟩
    rename_i v inbound hd
    obtain ⟨hrep, hone, hno⟩ := Server.execute_own now c.id v hs.orderly hn
    have hx := Server.execute_runsFor hs now ho v
    -- the frame is handled as the client's request
    simp only [handle, hclient] at hp
    rcases he : s.execute now c.id v with ⟨reply | _, s₂⟩
    all_goals
      rw [he] at hrep hone hno hx hp
      dsimp only at hp
    · -- answered: the connection goes on with no block
      have ih := processWith_own fuel hp rfl hsus hx.tidy
        (by rw [hx.nextConn]; exact ho) (hno (by simp))
      exact ⟨ih.1, ih.2.trans hrep⟩
    · -- suspended: one block waits for it, and it takes nothing more
      rw [processWith_suspended fuel s₂ rfl] at hp
      cases hp
      exact ⟨.inl ⟨rfl, hone rfl⟩, hrep⟩

/-- A link to the master past its handshake, not waiting, whose inbound buffer holds the bytes of
well formed frames and then bytes that hold no complete frame, applies those frames in order as
the master's writes and answers none of them; it keeps only the trailing bytes. -/
theorem processWith_master {h : Handshake} (hd : h.isDone = true) :
    ∀ (fs : List Value) (fuel : Nat) (c : Connection) (s : Server) (tail : List UInt8),
      fs.length < fuel → c.role = .replicaLink h → c.suspended = false →
      (∀ f ∈ fs, f.WellFormed) → (Wire.read tail).decided = false →
      c.inbound = { bytes := fs.flatMap Value.encode ++ tail } →
      processWith now fuel c s =
        (none, { c with inbound := { bytes := tail } }, s.replicate c.id (fs.map (·, now)))
  | [], fuel + 1, c, s, tail, _, _, hs, _, ht, hin => by
    rw [processWith_incomplete hs ht (by rw [hin, List.flatMap_nil, List.nil_append])]
    rfl
  | f :: fs, fuel + 1, c, s, tail, hfuel, hc, hs, hwf, ht, hin => by
    have hf := hwf f (List.mem_cons_self ..)
    have hin' : c.inbound = { bytes := f.encode ++ (fs.flatMap Value.encode ++ tail) } := by
      rw [hin, List.flatMap_cons, List.append_assoc]
    -- the frame is applied at once, unanswered, and the link goes on with the rest
    let c₁ : Connection := { c with inbound := { bytes := fs.flatMap Value.encode ++ tail } }
    have hh : c₁.handle s now f = (none, c₁, (s.execute now c.id f).2) := by
      simp only [c₁, handle, hc, hd, if_true]
    have hlen : fs.length < fuel := by
      simp only [List.length_cons] at hfuel
      omega
    rw [processWith_frame hs hf hin' hh]
    exact processWith_master hd fs fuel c₁ _ tail hlen hc hs
      (fun g hg => hwf g (List.mem_cons_of_mem f hg)) ht rfl
  | _, 0, _, _, _, hl, _, _, _, _, _ => absurd hl (Nat.not_lt_zero _)

end Connection

end KvServer
