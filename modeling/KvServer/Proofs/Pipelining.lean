import Mathlib
import KvServer.Connection
import KvServer.Proofs.Chunking

/-!
# Pipelined requests on a client connection

A client may send many requests without waiting for the replies. The connection answers the
complete frames of its inbound buffer one after the other, in order; a request that must wait for
a deferred reply suspends the connection, and the frames behind it are answered only after that
reply, in order again. So the replies leave in the order the requests came, however the bytes
were cut into chunks.

The frame-level view of a client is `Requests`: the frames answered with their replies, the one
waiting, those received and not yet run, and the bytes after the last complete frame. A client
connection refines it event by event (`Tracks.onEvent`), and `client_pipeline` states what a whole
run shows: every complete frame run exactly once and in order, the replies written in request
order, and the bytes after the last complete frame left buffered, so that a peer closing at a frame
boundary is a clean close and one closing inside a frame is reported.
-/

namespace KvServer

open Value Wire

theorem Value.length_le_flatMap_encode : ∀ fs : List Value, fs.length ≤ (fs.flatMap encode).length
  | [] => le_rfl
  | f :: fs => by
    have := List.length_pos_iff.2 (encode_ne_nil f)
    have := length_le_flatMap_encode fs
    simp only [List.flatMap_cons, List.length_append, List.length_cons]
    omega

namespace Server

/-- Runs frames from connection `id` in order until one waits for a deferred reply: each frame
answered with its reply, the frame that waits with those behind it, and the server afterwards. -/
def serve (s : Server) (now : Instant) (id : ConnId) :
    List Value → List (Value × Value) × Option (Value × List Value) × Server
  | [] => ([], none, s)
  | f :: fs =>
    match s.execute now id f with
    | (.completed r, s') =>
      let (ps, w, s'') := s'.serve now id fs
      ((f, r) :: ps, w, s'')
    | (.suspended, s') => ([], some (f, fs), s')

/-- The frames answered, the one that waits and those behind it are the frames given. -/
theorem serve_frames (s : Server) (now : Instant) (id : ConnId) : ∀ fs : List Value,
    (s.serve now id fs).1.map (·.1) ++ ((s.serve now id fs).2.1.map (·.1)).toList ++
      ((s.serve now id fs).2.1.map (·.2)).getD [] = fs
  | [] => rfl
  | f :: fs => by
    cases hx : s.execute now id f with
    | mk o s' =>
      cases o with
      | completed r =>
        have ih := serve_frames s' now id fs
        simp only [serve, hx, List.map_cons, List.cons_append]
        rw [ih]
      | suspended => simp [serve, hx]

end Server

namespace Connection

theorem outbound_append_append (c : Connection) (xs ys : List UInt8) :
    (c.outbound.append xs).append ys = c.outbound.append (xs ++ ys) := by
  simp [Buffer.append]

/-- A connection that is not waiting, whose inbound buffer holds bytes with no complete frame,
keeps them and stops. -/
theorem processWith_incomplete {now : Instant} {fuel : Nat} {c : Connection} {s : Server}
    {tail : List UInt8} (hs : c.suspended = false) (ht : (Wire.read tail).decided = false)
    (hin : c.inbound = { bytes := tail }) :
    processWith now (fuel + 1) c s = (none, { c with inbound := { bytes := tail } }, s) := by
  obtain ⟨r, hr⟩ : ∃ r, Wire.read tail = .incomplete r := by
    cases h : Wire.read tail <;> simp_all
  have hread : Wire.read c.inbound.unread = .incomplete r := by
    rw [hin, Buffer.unread_ofBytes, hr]
  simp only [processWith, hs, Bool.false_eq_true, if_false, Buffer.decode_mark_of_incomplete hread,
    Buffer.reset_advance_mark]
  cases c
  simp_all [Buffer.mark]

/-- A connection that is not waiting, whose inbound buffer starts with a well formed frame, takes
the frame off the buffer and handles it; when handling it fails nothing, it goes on from there. -/
theorem processWith_frame {now : Instant} {fuel : Nat} {c d : Connection} {s t : Server}
    {f : Value} {rest : List UInt8} (hs : c.suspended = false) (hf : f.WellFormed)
    (hin : c.inbound = { bytes := f.encode ++ rest })
    (hh : ({ c with inbound := { bytes := rest } }).handle s now f = (none, d, t)) :
    processWith now (fuel + 1) c s = processWith now fuel d t := by
  have hread : Wire.read c.inbound.unread = .done f rest := by
    rw [hin, Buffer.unread_ofBytes, read_encode hf]
  have hsuf : rest <:+ c.inbound.unread := by
    rw [hin, Buffer.unread_ofBytes]
    exact List.suffix_append _ _
  simp only [hs] at hh
  simp only [processWith, hs, Bool.false_eq_true, if_false, Buffer.decode_mark_of_done hread,
    Buffer.commit_advance_mark hsuf, hh]

/-- A client connection that is not waiting, whose inbound buffer holds the bytes of well formed
frames and then bytes that hold no complete frame, runs those frames in order until one waits: it
writes their replies, waits if one does, and keeps the bytes of the frames behind it. -/
theorem processWith_client {now : Instant} : ∀ (fs : List Value) (fuel : Nat) (c : Connection)
    (s : Server) (tail : List UInt8), fs.length < fuel → c.role = .client → c.suspended = false →
    (∀ f ∈ fs, f.WellFormed) → (Wire.read tail).decided = false →
    c.inbound = { bytes := fs.flatMap encode ++ tail } →
    processWith now fuel c s =
      (none, { c with
        outbound := c.outbound.append (((s.serve now c.id fs).1.map (·.2)).flatMap encode)
        suspended := (s.serve now c.id fs).2.1.isSome
        inbound := { bytes := (((s.serve now c.id fs).2.1.map (·.2)).getD []).flatMap encode ++ tail } },
        (s.serve now c.id fs).2.2)
  | [], fuel + 1, c, s, tail, _, _, hs, _, ht, hin => by
    rw [processWith_incomplete hs ht (by rw [hin, List.flatMap_nil, List.nil_append])]
    cases c
    simp_all [Server.serve, Buffer.append]
  | f :: fs, fuel + 1, c, s, tail, hfuel, hc, hs, hwf, ht, hin => by
    have hf := hwf f (List.mem_cons_self ..)
    have hin' : c.inbound = { bytes := f.encode ++ (fs.flatMap encode ++ tail) } := by
      rw [hin, List.flatMap_cons, List.append_assoc]
    -- the frame is answered or waits; the frames behind it are taken in the first case only
    let c₁ : Connection := { c with inbound := { bytes := fs.flatMap encode ++ tail } }
    cases hx : s.execute now c.id f with
    | mk o s' =>
      cases o with
      | completed r =>
        have hh : c₁.handle s now f = (none, c₁.send r, s') := by
          simp only [c₁, handle, hc, hx]
        rw [processWith_frame hs hf hin' hh]
        refine (processWith_client fs fuel (c₁.send r) s' tail ?_ hc hs
          (fun g hg => hwf g (List.mem_cons_of_mem f hg)) ht rfl).trans ?_
        · simp at hfuel
          omega
        · simp [c₁, Server.serve, hx, send, outbound_append_append]
      | suspended =>
        have hh : c₁.handle s now f = (none, { c₁ with suspended := true }, s') := by
          simp only [c₁, handle, hc, hx]
        rw [processWith_frame hs hf hin' hh]
        cases fuel <;> simp [c₁, processWith, Server.serve, hx, Buffer.append]
  | _, 0, _, _, _, h, _, _, _, _, _ => absurd h (Nat.not_lt_zero _)

theorem processInbound_client {now : Instant} {fs : List Value} {c : Connection} (s : Server)
    {tail : List UInt8} (hc : c.role = .client) (hs : c.suspended = false)
    (hwf : ∀ f ∈ fs, f.WellFormed) (ht : (Wire.read tail).decided = false)
    (hin : c.inbound = { bytes := fs.flatMap encode ++ tail }) :
    c.processInbound s now =
      (none, { c with
        outbound := c.outbound.append (((s.serve now c.id fs).1.map (·.2)).flatMap encode)
        suspended := (s.serve now c.id fs).2.1.isSome
        inbound := { bytes := (((s.serve now c.id fs).2.1.map (·.2)).getD []).flatMap encode ++ tail } },
        (s.serve now c.id fs).2.2) := by
  -- each frame takes at least one byte, so the buffer's length is fuel enough
  have hlen := length_le_flatMap_encode fs
  apply processWith_client fs _ c s tail _ hc hs hwf ht hin
  simp only [hin, Buffer.len, List.length_append]
  omega

/-- A waiting client connection leaves what arrives in its inbound buffer. -/
theorem processInbound_suspended {c : Connection} (s : Server) (now : Instant)
    (hs : c.suspended = true) : c.processInbound s now = (none, c, s) := by
  simp [processInbound, processWith, hs]

end Connection

namespace Wire

/-- Bytes that start a stream of well formed frames followed by bytes holding no complete frame
hold the first of those frames whole, and then bytes holding no complete frame. -/
theorem frames_of_prefix {T : List UInt8} (hT : (read T).decided = false) :
    ∀ {F : List Value}, (∀ f ∈ F, f.WellFormed) → ∀ {X Y : List UInt8},
      X ++ Y = F.flatMap encode ++ T →
      ∃ F₁ F₂ X', F = F₁ ++ F₂ ∧ frames X = (F₁, none, X') ∧ X = F₁.flatMap encode ++ X' ∧
        X' ++ Y = F₂.flatMap encode ++ T ∧ (read X').decided = false
  | [], _, X, Y, h => by
    rw [List.flatMap_nil, List.nil_append] at h
    -- a decided read of `X` would decide the read of `T` that `X` starts
    have hX : (read X).decided = false := by
      by_contra hd
      have hext := read_extend (Bool.eq_true_of_not_eq_false hd) Y
      rw [h] at hext
      cases hr : read X <;> simp_all [Step.append]
    obtain ⟨r, hr⟩ : ∃ r, read X = .incomplete r := by
      cases h' : read X <;> simp_all
    exact ⟨[], [], X, rfl, frames_of_incomplete hr, rfl, h, hX⟩
  | f :: F, hF, X, Y, h => by
    have hf := hF f (List.mem_cons_self ..)
    have hstream : X ++ Y = f.encode ++ (F.flatMap encode ++ T) := by
      rw [h, List.flatMap_cons, List.append_assoc]
    cases hr : read X with
    | incomplete r =>
      exact ⟨[], f :: F, X, rfl, frames_of_incomplete hr, rfl, h, by simp [hr]⟩
    | done v r =>
      have hext := read_extend (show (read X).decided by simp [hr]) Y
      rw [hstream, read_encode hf, hr] at hext
      simp only [Step.append, Step.done.injEq] at hext
      obtain ⟨rfl, hrest⟩ := hext
      have hX : X = f.encode ++ r := by
        have hXY : X ++ Y = (f.encode ++ r) ++ Y := by rw [hstream, List.append_assoc, hrest]
        exact List.append_cancel_right hXY
      obtain ⟨F₁, F₂, X', hsplit, hfr, hr', hY, hX'⟩ :=
        frames_of_prefix hT (fun g hg => hF g (List.mem_cons_of_mem f hg)) hrest.symm
      refine ⟨f :: F₁, F₂, X', by rw [hsplit, List.cons_append], ?_, ?_, hY, hX'⟩
      · rw [frames_of_done hr, hfr]
      · rw [hX, hr', List.flatMap_cons, List.append_assoc]
    | failed e r =>
      have hext := read_extend (show (read X).decided by simp [hr]) Y
      rw [hstream, read_encode hf, hr] at hext
      simp [Step.append] at hext

end Wire

/-- What happens at a client connection: bytes arrive from the peer, the reply it waits for is
handed to it, or the rest of the server moves on (other connections, timers). -/
inductive ClientEvent where
  | receive (bytes : List UInt8) (now : Instant)
  | resume (reply : Value) (now : Instant)
  | elsewhere (change : Server → Server)

namespace ClientEvent

/-- The bytes the events bring, in order. -/
def received : List ClientEvent → List UInt8
  | [] => []
  | .receive bs _ :: evs => bs ++ received evs
  | .resume .. :: evs | .elsewhere _ :: evs => received evs

theorem received_cons (ev : ClientEvent) (evs : List ClientEvent) :
    received (ev :: evs) = received [ev] ++ received evs := by
  cases ev <;> simp [received]

end ClientEvent

namespace Connection

/-- Arriving bytes are appended and answered; the reply a waiting connection waits for resumes
it; a change elsewhere touches only the server. -/
def onEvent (c : Connection) (s : Server) : ClientEvent → Option ConnectionError × Connection × Server
  | .receive bs now => { c with inbound := c.inbound.append bs }.processInbound s now
  | .resume reply now => if c.suspended then c.resume reply s now else (none, c, s)
  | .elsewhere change => (none, c, change s)

/-- Runs events in order, stopping at the first error. -/
def runEvents : List ClientEvent → Connection → Server → Option ConnectionError × Connection × Server
  | [], c, s => (none, c, s)
  | ev :: evs, c, s =>
    match c.onEvent s ev with
    | (none, c, s) => runEvents evs c s
    | (some e, c, s) => (some e, c, s)

end Connection

/-- A client's requests frame by frame: the frames answered with their replies, the frame waiting
for a deferred reply, the complete frames received behind it, and the bytes received after the
last complete frame. -/
structure Requests where
  answered : List (Value × Value) := []
  waiting : Option Value := none
  queued : List Value := []
  unframed : List UInt8 := []

namespace Requests

/-- Runs the queued frames until one waits. -/
def serve (q : Requests) (id : ConnId) (now : Instant) (s : Server) : Requests × Server :=
  let (ps, w, s) := s.serve now id q.queued
  ({ q with answered := q.answered ++ ps, waiting := w.map (·.1), queued := (w.map (·.2)).getD [] },
    s)

/-- The complete frames of arriving bytes are queued, and run unless a frame waits; a deferred
reply answers the waiting frame and the queued frames run. -/
def onEvent (id : ConnId) (q : Requests) (s : Server) : ClientEvent → Requests × Server
  | .receive bs now =>
    let q := { q with queued := q.queued ++ (frames (q.unframed ++ bs)).1
                      unframed := (frames (q.unframed ++ bs)).2.2 }
    if q.waiting.isSome then (q, s) else q.serve id now s
  | .resume reply now =>
    match q.waiting with
    | some f => { q with answered := q.answered ++ [(f, reply)], waiting := none }.serve id now s
    | none => (q, s)
  | .elsewhere change => (q, change s)

def runEvents (id : ConnId) : List ClientEvent → Requests → Server → Requests × Server
  | [], q, s => (q, s)
  | ev :: evs, q, s => runEvents id evs (q.onEvent id s ev).1 (q.onEvent id s ev).2

end Requests

namespace Requests

/-- After the queued frames run, frames stay queued only behind one that waits. -/
theorem serve_idle (q : Requests) (id : ConnId) (now : Instant) (s : Server)
    (h : (q.serve id now s).1.waiting = none) : (q.serve id now s).1.queued = [] := by
  cases hw : (s.serve now id q.queued).2.1 <;> simp_all [serve]

/-- Frames are queued only behind a frame that waits. -/
theorem onEvent_idle (id : ConnId) (q : Requests) (s : Server) (ev : ClientEvent)
    (h : q.waiting = none → q.queued = []) :
    (q.onEvent id s ev).1.waiting = none → (q.onEvent id s ev).1.queued = [] := by
  cases ev with
  | receive bs now =>
    cases hw : q.waiting with
    | none =>
      simp only [onEvent, hw, Option.isSome_none, Bool.false_eq_true, if_false]
      exact serve_idle _ id now s
    | some f => simp [onEvent, hw]
  | resume reply now =>
    cases hw : q.waiting with
    | none => simpa [onEvent, hw] using h
    | some f =>
      simp only [onEvent, hw]
      exact serve_idle _ id now s
  | elsewhere change => exact h

theorem runEvents_idle (id : ConnId) : ∀ (evs : List ClientEvent) (q : Requests) (s : Server),
    (q.waiting = none → q.queued = []) →
    (runEvents id evs q s).1.waiting = none → (runEvents id evs q s).1.queued = []
  | [], _, _, h => h
  | ev :: evs, q, s, h => runEvents_idle id evs _ _ (onEvent_idle id q s ev h)

end Requests

/-- A client connection `c` shows the frame-level state `q` of connection `id` reading a stream of
frames `F` followed by the bytes `T`, of which `ahead` are still to arrive, having written `out`
before. -/
structure Tracks (F : List Value) (T out : List UInt8) (id : ConnId) (c : Connection) (q : Requests)
    (ahead : List UInt8) : Prop where
  conn : c.id = id
  client : c.role = .client
  inbound : c.inbound = { bytes := q.queued.flatMap encode ++ q.unframed }
  outbound : c.outbound.bytes = out ++ (q.answered.map (·.2)).flatMap encode
  suspended : c.suspended = q.waiting.isSome
  unframed : (Wire.read q.unframed).decided = false
  stream : ∃ later, q.answered.map (·.1) ++ q.waiting.toList ++ q.queued ++ later = F ∧
    q.unframed ++ ahead = later.flatMap encode ++ T

namespace Tracks

variable {F : List Value} {T out : List UInt8} {id : ConnId} {c : Connection} {q : Requests}
  {ahead : List UInt8}

theorem wellFormed_queued (hF : ∀ f ∈ F, f.WellFormed) (h : Tracks F T out id c q ahead) :
    ∀ f ∈ q.queued, f.WellFormed := by
  obtain ⟨later, hfr, -⟩ := h.stream
  intro f hf
  exact hF f (hfr ▸ by simp [hf])

/-- A connection that waits for nothing answers its queued frames as the frame-level run does. -/
theorem serve (hF : ∀ f ∈ F, f.WellFormed) (h : Tracks F T out id c q ahead)
    (hw : q.waiting = none) (s : Server) (now : Instant) :
    (c.processInbound s now).1 = none ∧ (c.processInbound s now).2.2 = (q.serve id now s).2 ∧
      Tracks F T out id (c.processInbound s now).2.1 (q.serve id now s).1 ahead := by
  obtain rfl := h.conn
  have hs : c.suspended = false := by simp [h.suspended, hw]
  rw [Connection.processInbound_client s h.client hs (h.wellFormed_queued hF) h.unframed h.inbound]
  obtain ⟨later, hfr, hstr⟩ := h.stream
  have hframes := Server.serve_frames s now c.id q.queued
  refine ⟨rfl, rfl, ⟨rfl, h.client, rfl, ?_, by simp [Requests.serve], h.unframed, later, ?_, hstr⟩⟩
  · simp [Requests.serve, Buffer.append, h.outbound]
  · rw [← hfr, hw]
    simp only [Requests.serve, List.map_append, Option.toList_none, List.append_nil]
    generalize s.serve now c.id q.queued = r at hframes ⊢
    rw [← hframes]
    simp only [List.append_assoc]

/-- Arriving bytes queue the frames they complete. -/
theorem append (hF : ∀ f ∈ F, f.WellFormed) (hT : (read T).decided = false) {bs : List UInt8}
    (h : Tracks F T out id c q (bs ++ ahead)) :
    Tracks F T out id { c with inbound := c.inbound.append bs }
      { q with queued := q.queued ++ (frames (q.unframed ++ bs)).1
               unframed := (frames (q.unframed ++ bs)).2.2 } ahead := by
  obtain ⟨later, hfr, hstr⟩ := h.stream
  have hlater : ∀ f ∈ later, f.WellFormed := fun f hf => hF f (hfr ▸ by simp [hf])
  obtain ⟨F₁, F₂, X', rfl, hframes, hX, hY, hX'⟩ :=
    frames_of_prefix hT hlater (show (q.unframed ++ bs) ++ ahead = _ by rw [List.append_assoc, hstr])
  rw [hframes]
  refine ⟨h.conn, h.client, ?_, h.outbound, h.suspended, hX', F₂, ?_, hY⟩
  · simp only [h.inbound, Buffer.append, List.flatMap_append, List.append_assoc, hX]
  · rw [← hfr]
    simp

/-- The reply a connection waits for is written as the reply of the waiting frame. -/
theorem resume {f : Value} (h : Tracks F T out id c q ahead) (hw : q.waiting = some f)
    (reply : Value) :
    Tracks F T out id { c.send reply with suspended := false }
      { q with answered := q.answered ++ [(f, reply)], waiting := none } ahead := by
  obtain ⟨later, hfr, hstr⟩ := h.stream
  refine ⟨h.conn, h.client, h.inbound, ?_, rfl, h.unframed, later, ?_, hstr⟩
  · simp [Connection.send, Buffer.append, h.outbound]
  · rw [← hfr, hw]
    simp

/-- Step lemma: each event keeps the connection free of errors, on the server of the frame-level
run, and showing its state. -/
theorem onEvent (hF : ∀ f ∈ F, f.WellFormed) (hT : (read T).decided = false) {ev : ClientEvent}
    (h : Tracks F T out id c q (ClientEvent.received [ev] ++ ahead)) (s : Server) :
    (c.onEvent s ev).1 = none ∧ (c.onEvent s ev).2.2 = (q.onEvent id s ev).2 ∧
      Tracks F T out id (c.onEvent s ev).2.1 (q.onEvent id s ev).1 ahead := by
  cases ev with
  | receive bs now =>
    simp only [ClientEvent.received, List.append_nil] at h
    have happ := h.append hF hT
    cases hw : q.waiting with
    | none =>
      simp only [Connection.onEvent, Requests.onEvent, hw, Option.isSome_none, Bool.false_eq_true,
        if_false]
      exact happ.serve hF hw s now
    | some f =>
      have hs : ({ c with inbound := c.inbound.append bs } : Connection).suspended = true := by
        simp [h.suspended, hw]
      rw [hw] at happ
      simp only [Connection.onEvent, Connection.processInbound_suspended s now hs,
        Requests.onEvent, hw, Option.isSome_some, if_true]
      exact ⟨trivial, trivial, happ⟩
  | resume reply now =>
    simp only [ClientEvent.received, List.nil_append] at h
    cases hw : q.waiting with
    | none =>
      have hs : c.suspended = false := by simp [h.suspended, hw]
      simp only [Connection.onEvent, hs, Bool.false_eq_true, if_false, Requests.onEvent, hw]
      exact ⟨trivial, trivial, h⟩
    | some f =>
      have hs : c.suspended = true := by simp [h.suspended, hw]
      simp only [Connection.onEvent, hs, if_true, Connection.resume, Requests.onEvent, hw]
      exact (h.resume hw reply).serve hF rfl s now
  | elsewhere change =>
    simp only [ClientEvent.received, List.nil_append] at h
    exact ⟨rfl, rfl, h⟩

/-- Run lemma: over any run of events bringing the next bytes of the stream, the connection meets
no error, runs the server as the frame-level run does, and shows its state. -/
theorem runEvents (hF : ∀ f ∈ F, f.WellFormed) (hT : (read T).decided = false) :
    ∀ (evs : List ClientEvent) {c : Connection} {q : Requests} {ahead : List UInt8} (s : Server),
      Tracks F T out id c q (ClientEvent.received evs ++ ahead) →
      (c.runEvents evs s).1 = none ∧ (c.runEvents evs s).2.2 = (Requests.runEvents id evs q s).2 ∧
        Tracks F T out id (c.runEvents evs s).2.1 (Requests.runEvents id evs q s).1 ahead
  | [], _, _, _, _, h => ⟨rfl, rfl, h⟩
  | ev :: evs, c, q, ahead, s, h => by
    rw [ClientEvent.received_cons, List.append_assoc] at h
    obtain ⟨he, hs, h'⟩ := h.onEvent hF hT s
    rcases hc : c.onEvent s ev with ⟨e, c', s'⟩
    rw [hc] at he hs h'
    simp only at he hs h'
    subst he
    simp only [Connection.runEvents, hc, Requests.runEvents, ← hs]
    exact runEvents hF hT evs s' h'

/-- Once the whole stream has arrived, its frames are those answered, the one waiting and those
queued behind it, and the bytes after them are `T`. -/
theorem settled (hF : ∀ f ∈ F, f.WellFormed) (h : Tracks F T out id c q []) :
    q.answered.map (·.1) ++ q.waiting.toList ++ q.queued = F ∧ q.unframed = T := by
  obtain ⟨later, hfr, hstr⟩ := h.stream
  rw [List.append_nil] at hstr
  cases later with
  | nil => exact ⟨by simpa using hfr, hstr⟩
  | cons f fs =>
    -- a whole frame after the last complete one would have been read
    have hf : f.WellFormed := hF f (hfr ▸ by simp)
    have hread := h.unframed
    rw [hstr, List.flatMap_cons, List.append_assoc, read_encode hf] at hread
    exact absurd hread (by simp)

end Tracks

/-- A client connection reading a stream of well formed frames `F` followed by bytes `T` that hold
no complete frame, in any chunks, with each deferred reply handed over as it comes and the server
changed in between by anything else, runs exactly as the frame-level run of `Requests`: it meets no
error, leaves the server that run leaves, and shows its state, so each frame is run once and in
order, none behind a waiting frame before its reply, and the replies are written in request order.
Once the whole stream has arrived, every frame has been answered, waits or is queued behind the one
that waits, and a connection waiting for nothing holds just `T`: the peer closing then is a clean
close at a frame boundary and is reported as an unexpected end inside a frame. -/
theorem client_pipeline {F : List Value} {T : List UInt8} (hF : ∀ f ∈ F, f.WellFormed)
    (hT : (Wire.read T).decided = false) {events : List ClientEvent} {ahead : List UInt8}
    (hD : ClientEvent.received events ++ ahead = F.flatMap encode ++ T) {c : Connection}
    (hc : c.role = .client) (hin : c.inbound = {}) (hs : c.suspended = false) (s : Server) :
    let run := c.runEvents events s
    let ref := Requests.runEvents c.id events {} s
    run.1 = none ∧ run.2.2 = ref.2 ∧ Tracks F T c.outbound.bytes c.id run.2.1 ref.1 ahead ∧
      (ref.1.waiting = none → ref.1.queued = []) ∧
      (ahead = [] → ref.1.answered.map (·.1) ++ ref.1.waiting.toList ++ ref.1.queued = F ∧
        (run.2.1.suspended = false → run.2.1.inbound.bytes = T ∧
          { run.2.1 with eof := true }.checkEof =
            if T = [] then .error .closed else .error (.unexpectedEof T.length))) := by
  intro run ref
  have h₀ : Tracks F T c.outbound.bytes c.id c {} (ClientEvent.received events ++ ahead) :=
    ⟨rfl, hc, hin, by simp, hs, rfl, F, by simp, hD⟩
  obtain ⟨he, hsrv, h⟩ : run.1 = none ∧ run.2.2 = ref.2 ∧
      Tracks F T c.outbound.bytes c.id run.2.1 ref.1 ahead :=
    Tracks.runEvents hF hT events s h₀
  have hidle : ref.1.waiting = none → ref.1.queued = [] :=
    Requests.runEvents_idle c.id events {} s (fun _ => rfl)
  refine ⟨he, hsrv, h, hidle, ?_⟩
  rintro rfl
  obtain ⟨hframes, hT'⟩ := h.settled hF
  refine ⟨hframes, fun hsus => ?_⟩
  -- waiting for nothing, no frame is queued, so the inbound buffer holds only `T`
  have hw : ref.1.waiting = none := by
    rw [h.suspended] at hsus
    simpa using hsus
  have hq : ref.1.queued = [] := hidle hw
  have hbytes : run.2.1.inbound.bytes = T := by rw [h.inbound, hq, hT']; rfl
  refine ⟨hbytes, ?_⟩
  cases T with
  | nil => simp [Connection.checkEof, Buffer.isEmpty, hbytes]
  | cons b bs => simp [Connection.checkEof, Buffer.isEmpty, Buffer.len, hbytes, hsus]

/-- Two pipelined requests, the first cut after its fifth byte. -/
theorem client_pipeline_two_chunks :
    let F := [Value.command ["PING"], Value.command ["ECHO", "hi"]]
    let events := [ClientEvent.receive ((F.flatMap encode).take 5) 0,
      ClientEvent.receive ((F.flatMap encode).drop 5) 0]
    let c := Connection.new 1 "peer"
    let run := c.runEvents events (Server.new .master 6379)
    let ref := Requests.runEvents c.id events {} (Server.new .master 6379)
    (∀ f ∈ F, f.WellFormed) ∧ (Wire.read []).decided = false ∧
      ClientEvent.received events ++ [] = F.flatMap encode ++ [] ∧ c.role = .client ∧
      c.inbound = {} ∧ c.suspended = false ∧
      (run.1 = none ∧ run.2.2 = ref.2 ∧ Tracks F [] c.outbound.bytes c.id run.2.1 ref.1 [] ∧
        (ref.1.waiting = none → ref.1.queued = []) ∧
        (([] : List UInt8) = [] →
          ref.1.answered.map (·.1) ++ ref.1.waiting.toList ++ ref.1.queued = F ∧
          (run.2.1.suspended = false → run.2.1.inbound.bytes = [] ∧
            { run.2.1 with eof := true }.checkEof =
              if ([] : List UInt8) = [] then .error .closed
              else .error (.unexpectedEof ([] : List UInt8).length)))) := by
  intro F events c run ref
  have hF : ∀ f ∈ F, f.WellFormed := by decide
  have hT : (Wire.read []).decided = false := rfl
  have hD : ClientEvent.received events ++ [] = F.flatMap encode ++ [] := by
    simp [events, ClientEvent.received]
  have hc : c.role = .client := rfl
  have hin : c.inbound = {} := rfl
  have hs : c.suspended = false := rfl
  exact ⟨hF, hT, hD, hc, hin, hs, client_pipeline hF hT hD hc hin hs (Server.new .master 6379)⟩

end KvServer

