import Mathlib
import KvServer.Proofs.ReplyShapes
import KvServer.Proofs.Transactions

/-!
# What each handler replies

Each action refuses with an error that quotes nothing the client sent, or replies with a flat value:
a well formed value that holds no array inside an array. The reply is built from the stores, the
request and the replication state, so this holds while they stay within bounds.
`Server.Bounded k` says that every text the server holds fits a bulk text, that no list reaches
`2 ^ 64` items, and that the replica count and the offset stay far below what INFO can report, all
even after requests of total cost `k` have run. `Server.GrowsBy` says what one request may change of
them, and `Server.Bounded.step` that a request keeps the bounds while spending its cost.

`Server.act_replies` gathers the handlers, and `Server.runDirect_flat` follows a queue run one
request after another, as EXEC runs a transaction.
-/

namespace KvServer

open Value

/-! ## Recording and serving -/

namespace Replication

@[simp] theorem record_role (r : Replication) (e : Value) : (r.record e).role = r.role := by
  unfold record
  split <;> rfl

@[simp] theorem record_replicas (r : Replication) (e : Value) : (r.record e).replicas = r.replicas := by
  unfold record
  split <;> rfl

theorem record_offset_le (r : Replication) (e : Value) :
    (r.record e).offset ≤ r.offset + e.encode.length := by
  unfold record
  split <;> simp

@[simp] theorem foldl_record_role (r : Replication) (es : List Value) :
    (es.foldl record r).role = r.role := by
  induction es generalizing r with
  | nil => rfl
  | cons e es ih => simp [ih]

@[simp] theorem foldl_record_replicas (r : Replication) (es : List Value) :
    (es.foldl record r).replicas = r.replicas := by
  induction es generalizing r with
  | nil => rfl
  | cons e es ih => simp [ih]

/-- Recording events one after another moves the offset by at most their encoded sizes. -/
theorem foldl_record_offset_le (r : Replication) (es : List Value) :
    (es.foldl record r).offset ≤ r.offset + (es.map fun e => e.encode.length).sum := by
  induction es generalizing r with
  | nil => simp
  | cons e es ih =>
    have h₁ := ih (r.record e)
    have h₂ := record_offset_le r e
    simp only [List.foldl_cons, List.map_cons, List.sum_cons]
    omega

@[simp] theorem addReplica_role (r : Replication) (c : ConnId) : (r.addReplica c).role = r.role := by
  unfold addReplica
  split <;> rfl

@[simp] theorem addReplica_offset (r : Replication) (c : ConnId) :
    (r.addReplica c).offset = r.offset := by
  unfold addReplica
  split <;> rfl

theorem length_replicas_addReplica_le (r : Replication) (c : ConnId) :
    (r.addReplica c).replicas.length ≤ r.replicas.length + 1 := by
  unfold addReplica
  split <;> simp

end Replication

namespace Waiters

/-- Serving blocked pops records no more pops than the key's list has items. -/
theorem length_recorded_serve_le (live : ConnId → Bool) (now : Instant) (key : String) :
    ∀ (q : List Block) (l : Lists),
      ((serve live now key q l).1.flatMap Wakeup.recorded).length ≤ (l.items key).length
  | [], l => by simp [serve]
  | b :: bs, l => by
    simp only [serve]
    split
    · exact length_recorded_serve_le live now key bs l
    · split
      · simpa [Wakeup.recorded] using length_recorded_serve_le live now key bs l
      · rcases hp : l.lpop key with ⟨_ | v, l'⟩
        · simp
        · -- one item leaves the list for this pop, the rest are served from what remains
          have hne : l.items key ≠ [] := by
            intro hnil
            have := Lists.lpop_fst l key
            simp [hp, hnil] at this
          have hl' : (l'.items key).length = (l.items key).length - 1 := by
            rw [← show (l.lpop key).2 = l' by rw [hp], Lists.items_lpop]
            simp
          have ih := length_recorded_serve_le live now key bs l'
          have hpos := List.length_pos_of_ne_nil hne
          simp only [List.flatMap_cons, Wakeup.recorded, List.length_append,
            List.length_singleton] at ih ⊢
          omega

end Waiters

namespace Server

theorem applyWakeups_replication : ∀ (ws : List Wakeup) (s : Server),
    (s.applyWakeups ws).replication = (ws.flatMap Wakeup.recorded).foldl Replication.record s.replication
  | [], _ => rfl
  | .served c key v :: ws, s => by
    simp [applyWakeups, applyWakeups_replication ws, Wakeup.recorded, record]
  | .timedOut c :: ws, s => by
    simp [applyWakeups, applyWakeups_replication ws, Wakeup.recorded]

/-- A push's wake hands at most the key's items to blocked pops, whatever the server's role, and
records one `LPOP key` for each. -/
theorem wake_grows (s : Server) (now : Instant) (key : String) :
    ∃ k ≤ (s.lists.items key).length, (s.wake now key).strings = s.strings ∧
      (∀ k', (s.wake now key).lists.items k' =
        if key = k' then (s.lists.items key).drop k else s.lists.items k') ∧
      (s.wake now key).replication =
        (List.replicate k (Value.command ["LPOP", key])).foldl Replication.record s.replication := by
  unfold wake Waiters.onPush
  cases hq : s.waiters.queues[key]? with
  | none =>
    refine ⟨0, Nat.zero_le _, rfl, fun k' => ?_, rfl⟩
    by_cases hk : key = k' <;> simp [applyWakeups, hk]
  | some q =>
    obtain ⟨k, hr, hi⟩ := Waiters.serve_spec s.isLive now key q s.lists
    have hle := Waiters.length_recorded_serve_le s.isLive now key q s.lists
    rcases hserve : Waiters.serve s.isLive now key q s.lists with ⟨ws, rest, l'⟩
    simp only [hserve] at hr hi hle ⊢
    refine ⟨k, by simpa [hr] using hle, applyWakeups_strings _ _, fun k' => ?_, ?_⟩
    · rw [applyWakeups_lists]
      exact hi k'
    · rw [applyWakeups_replication, hr]

end Server

/-! ## What the stores hand out -/

theorem Decimal.parseInt64?_range {t : String} {x : Int} (h : Decimal.parseInt64? t = some x) :
    Decimal.int64Min ≤ x ∧ x ≤ Decimal.int64Max := by
  unfold Decimal.parseInt64? Decimal.parseInt? at h
  have := (Option.filter_eq_some_iff.1 h).2
  simpa using this

namespace Strings

theorem touch_entries {s : Strings} {now : Instant} {key k : String} {e : Entry}
    (h : (s.touch now key).2.entries[k]? = some e) : s.entries[k]? = some e := by
  unfold touch at h
  split at h
  · exact h
  · split at h
    · rw [Std.HashMap.getElem?_erase] at h
      split at h
      · simp at h
      · exact h
    · exact h

theorem touch_fst {s : Strings} {now : Instant} {key : String} {e : Entry}
    (h : (s.touch now key).1 = some e) : s.entries[key]? = some e := by
  unfold touch at h
  split at h
  · simp at h
  · split at h
    · simp at h
    · simp_all

theorem set_entries {s : Strings} {now : Instant} {key value k : String} {ttl : Option Nat}
    {e : Entry} (h : (s.set now key value ttl).entries[k]? = some e) :
    s.entries[k]? = some e ∨ e.value = value := by
  unfold set at h
  rw [Std.HashMap.getElem?_insert] at h
  split at h
  · simp only [Option.some.injEq] at h
    exact .inr (h ▸ rfl)
  · exact .inl h

/-- INCR keeps every entry but the key's, which it binds to a decimal text of at most twenty
bytes. -/
theorem incr_entries {s s' : Strings} {now : Instant} {key k : String} {n : Int} {e : Entry}
    (h : s.incr now key = some (n, s')) (he : s'.entries[k]? = some e) :
    s.entries[k]? = some e ∨ e.value.utf8ByteSize ≤ 20 := by
  unfold incr at h
  rcases ht : s.touch now key with ⟨_ | e₀, s₁⟩ <;> simp only [ht] at h
  · -- an absent or expired key starts again from "1"
    simp only [Option.some.injEq, Prod.mk.injEq] at h
    rw [← h.2] at he
    rcases set_entries he with he | he
    · exact .inl (touch_entries (by rw [ht]; exact he))
    · right
      rw [he]
      decide
  · rcases hx : Decimal.parseInt64? e₀.value with _ | x <;> simp only [hx] at h
    · simp at h
    · split_ifs at h with hlt
      simp only [Option.some.injEq, Prod.mk.injEq] at h
      rw [← h.2, Std.HashMap.getElem?_insert] at he
      split at he
      · simp only [Option.some.injEq] at he
        obtain ⟨hlo, -⟩ := Decimal.parseInt64?_range hx
        right
        rw [← he]
        exact Decimal.utf8ByteSize_ofInt_le (by omega) (by omega)
      · exact .inl (touch_entries (by rw [ht]; exact he))

end Strings

namespace Lists

theorem lrange_sublist (l : Lists) (key : String) (start stop : Int) :
    (l.lrange key start stop).Sublist (l.items key) := by
  unfold lrange
  dsimp only
  split
  · exact List.nil_sublist _
  · exact (List.take_sublist _ _).trans (List.drop_sublist _ _)

theorem items_push (front : Bool) (l : Lists) (key : String) (xs : List String) (k : String) :
    (if front then l.lpush key xs else l.rpush key xs).2.items k =
      if key = k then (if front then xs.reverse ++ l.items key else l.items key ++ xs)
      else l.items k := by
  cases front
  · exact items_rpush l key xs k
  · exact items_lpush l key xs k

theorem mem_items_push {front : Bool} {l : Lists} {key k x : String} {xs : List String}
    (h : x ∈ (if front then l.lpush key xs else l.rpush key xs).2.items k) :
    x ∈ l.items k ∨ x ∈ xs := by
  rw [items_push] at h
  split at h
  · subst k
    split at h <;> simp only [List.mem_append, List.mem_reverse] at h <;> tauto
  · exact .inl h

theorem length_items_push_le (front : Bool) (l : Lists) (key : String) (xs : List String)
    (k : String) :
    ((if front then l.lpush key xs else l.rpush key xs).2.items k).length ≤
      (l.items k).length + xs.length := by
  rw [items_push]
  split
  · subst k
    split <;> simp [Nat.add_comm]
  · exact Nat.le_add_right _ _

end Lists

/-! ## Sizes of recorded writes -/

/-- A request whose arguments all fit a bulk text. -/
def Request.Fits (q : Request) : Prop :=
  ∀ a ∈ q.args, a.utf8ByteSize ≤ Wire.maxBulkLength

/-- A request of fewer than `2 ^ 64` arguments that fit bulk texts is recorded in at most
`2 ^ 100` bytes. -/
theorem Request.length_encode_toValue_le {q : Request} (hq : q.Fits) (hn : q.args.length < 2 ^ 64) :
    q.toValue.encode.length ≤ 2 ^ 100 := by
  have h := length_encode_command_le ((Verb.action q.action).keyword :: q.args)
  have hkw := Verb.utf8ByteSize_keyword_le (.action q.action)
  have hsum : (q.args.map String.utf8ByteSize).sum ≤ q.args.length * Wire.maxBulkLength := by
    simpa using List.sum_le_card_nsmul (q.args.map String.utf8ByteSize) Wire.maxBulkLength
      fun x hx => by
        obtain ⟨a, ha, rfl⟩ := List.mem_map.1 hx
        exact hq a ha
  simp only [List.length_cons, List.map_cons, List.sum_cons] at h
  unfold Wire.maxBulkLength at hsum
  exact le_trans h (by omega)

/-- The `LPOP key` a served pop is recorded as takes at most `2 ^ 31` bytes. -/
theorem length_encode_lpop_le {key : String} (hk : key.utf8ByteSize ≤ Wire.maxBulkLength) :
    (command ["LPOP", key]).encode.length ≤ 2 ^ 31 := by
  have h := length_encode_command_le ["LPOP", key]
  have hl : "LPOP".utf8ByteSize = 4 := by decide
  simp only [List.length_cons, List.length_nil, List.map_cons, List.map_nil, List.sum_cons,
    List.sum_nil] at h
  unfold Wire.maxBulkLength at hk
  omega

/-! ## Bounds a run keeps -/

/-- What a request may add to a server: an item per argument, and a replica or a write. -/
def Request.cost (q : Request) : Nat :=
  q.args.length + 1

/-- What a queue of requests may add, all told. -/
def Request.costs (qs : List Request) : Nat :=
  (qs.map cost).sum

namespace Server

/-- The bounds a server keeps while requests of total cost `k` may still run: every text it holds
fits a bulk text, no list reaches `2 ^ 64` items, and the replica count and the offset stay far
below what INFO can report, all even after `k` more. -/
structure Bounded (k : Nat) (s : Server) : Prop where
  strings : ∀ (key : String) (e : Entry), s.strings.entries[key]? = some e →
    e.value.utf8ByteSize ≤ Wire.maxBulkLength
  items : ∀ key, ∀ x ∈ s.lists.items key, x.utf8ByteSize ≤ Wire.maxBulkLength
  lists : ∀ key, (s.lists.items key).length + k < 2 ^ 64
  replicas : s.replication.replicas.length + k < 2 ^ 128
  offset : s.replication.offset + k * 2 ^ 128 < 2 ^ 256
  host : ∀ m, s.replication.role = .replica m → m.host.utf8ByteSize ≤ 2 ^ 28

theorem Bounded.mono {j k : Nat} {s : Server} (h : s.Bounded k) (hjk : j ≤ k) : s.Bounded j where
  strings := h.strings
  items := h.items
  lists key := by
    have := h.lists key
    omega
  replicas := by
    have := h.replicas
    omega
  offset := lt_of_le_of_lt (Nat.add_le_add_left (Nat.mul_le_mul_right _ hjk) _) h.offset
  host := h.host

/-- What one request may change of the data replies are made of: a stored text is kept, comes
from the request or is a short decimal text; an item is kept or comes from the request; a list
grows by at most the request's arguments; the role stays, at most one replica is added and the
offset grows by at most `2 ^ 128`. -/
structure GrowsBy (q : Request) (s s' : Server) : Prop where
  strings : ∀ (key : String) (e : Entry), s'.strings.entries[key]? = some e →
    s.strings.entries[key]? = some e ∨ e.value ∈ q.args ∨ e.value.utf8ByteSize ≤ 20
  items : ∀ key, ∀ x ∈ s'.lists.items key, x ∈ s.lists.items key ∨ x ∈ q.args
  lists : ∀ key, (s'.lists.items key).length ≤ (s.lists.items key).length + q.args.length
  role : s'.replication.role = s.replication.role
  replicas : s'.replication.replicas.length ≤ s.replication.replicas.length + 1
  offset : s'.replication.offset ≤ s.replication.offset + 2 ^ 128

theorem GrowsBy.refl (q : Request) (s : Server) : GrowsBy q s s where
  strings _ _ h := .inl h
  items _ _ h := .inl h
  lists _ := Nat.le_add_right _ _
  role := rfl
  replicas := Nat.le_succ _
  offset := Nat.le_add_right _ _

/-- One request keeps the bounds, spending its cost. -/
theorem Bounded.step {k : Nat} {q : Request} {s s' : Server} (h : s.Bounded (k + q.cost))
    (hq : q.Fits) (g : GrowsBy q s s') : s'.Bounded k where
  strings key e he := by
    rcases g.strings key e he with h' | h' | h'
    · exact h.strings key e h'
    · exact hq _ h'
    · unfold Wire.maxBulkLength
      omega
  items key x hx := by
    rcases g.items key x hx with h' | h'
    · exact h.items key x h'
    · exact hq x h'
  lists key := by
    have := h.lists key
    have := g.lists key
    unfold Request.cost at *
    omega
  replicas := by
    have := h.replicas
    have := g.replicas
    unfold Request.cost at *
    omega
  offset := calc
    s'.replication.offset + k * 2 ^ 128
      ≤ s.replication.offset + 2 ^ 128 + k * 2 ^ 128 := Nat.add_le_add_right g.offset _
    _ = s.replication.offset + (k + 1) * 2 ^ 128 := by ring
    _ ≤ s.replication.offset + (k + q.cost) * 2 ^ 128 :=
      Nat.add_le_add_left (Nat.mul_le_mul_right _ (by unfold Request.cost; omega)) _
    _ < 2 ^ 256 := h.offset
  host m hm := h.host m (g.role ▸ hm)

/-! ## Handlers -/

/-- A handler's result gives a frame: a refusal quotes nothing the client sent, a reply given now
is flat, and the server grows by what the request may add. -/
def Replies (s : Server) (q : Request) : Except CommandError (Outcome × Server) → Prop
  | .error e => ¬ e.Quotes
  | .ok (o, s') => (∀ v, o = .completed v → v.Flat) ∧ GrowsBy q s s'

section Handlers

variable {s : Server} {now : Instant} {q : Request}

theorem Replies.refuse {e : CommandError} (h : ¬ e.Quotes) : Replies s q (.error e) := h

theorem Replies.reply {s' : Server} {v : Value} (hv : v.Flat) (g : GrowsBy q s s') :
    Replies s q (.ok (.completed v, s')) :=
  ⟨by rintro _ ⟨⟩; exact hv, g⟩

theorem Replies.suspend {s' : Server} (g : GrowsBy q s s') : Replies s q (.ok (.suspended, s')) :=
  ⟨by rintro _ ⟨⟩, g⟩

theorem GrowsBy.of_strings {st : Strings}
    (h : ∀ (key : String) (e : Entry), st.entries[key]? = some e →
      s.strings.entries[key]? = some e ∨ e.value ∈ q.args ∨ e.value.utf8ByteSize ≤ 20) :
    GrowsBy q s { s with strings := st } :=
  { GrowsBy.refl q s with strings := h }

theorem GrowsBy.of_lists {L : Lists} (hi : ∀ key, ∀ x ∈ L.items key, x ∈ s.lists.items key ∨ x ∈ q.args)
    (hl : ∀ key, (L.items key).length ≤ (s.lists.items key).length + q.args.length) :
    GrowsBy q s { s with lists := L } :=
  { GrowsBy.refl q s with items := hi, lists := hl }

/-- Taking items from the front of one list. -/
theorem GrowsBy.of_drop {L : Lists} {key : String} {j : Nat}
    (hL : ∀ k, L.items k = if key = k then (s.lists.items key).drop j else s.lists.items k) :
    GrowsBy q s { s with lists := L } := by
  apply GrowsBy.of_lists
  · intro k x hx
    rw [hL k] at hx
    split at hx
    · subst key
      exact .inl (List.mem_of_mem_drop hx)
    · exact .inl hx
  · intro k
    rw [hL k]
    split
    · subst key
      simp only [List.length_drop]
      omega
    · exact Nat.le_add_right _ _

/-- Recording an event of at most `2 ^ 128` bytes after a change of the stores. -/
theorem GrowsBy.record {s₁ : Server} {e : Value} (g : GrowsBy q s s₁)
    (hr : s₁.replication = s.replication) (he : e.encode.length ≤ 2 ^ 128) :
    GrowsBy q s (s₁.record e) where
  strings := g.strings
  items := g.items
  lists := g.lists
  role := by simp [Server.record, hr]
  replicas := by simp [Server.record, hr]
  offset := by
    have := Replication.record_offset_le s₁.replication e
    simp only [Server.record, hr] at this ⊢
    omega

/-- A push's wake after a change the request allows: the wake only takes items, and records one
`LPOP key` of at most `2 ^ 31` bytes per item it takes, from a list of at most `2 ^ 65`. -/
theorem GrowsBy.wake {s₁ : Server} {key : String} (g : GrowsBy q s s₁)
    (hkey : key.utf8ByteSize ≤ Wire.maxBulkLength) (hlen : (s₁.lists.items key).length ≤ 2 ^ 65)
    (hoff : s₁.replication.offset ≤ s.replication.offset + 2 ^ 100) (now : Instant) :
    GrowsBy q s (s₁.wake now key) := by
  obtain ⟨j, hj, hstr, hli, hrep⟩ := s₁.wake_grows now key
  refine ⟨fun k e he => g.strings k e (hstr ▸ he), fun k x hx => ?_, fun k => ?_, ?_, ?_, ?_⟩
  · rw [hli k] at hx
    split at hx
    · subst k
      exact g.items key x (List.mem_of_mem_drop hx)
    · exact g.items k x hx
  · rw [hli k]
    split
    · subst k
      exact le_trans (by simp) (g.lists key)
    · exact g.lists k
  · rw [hrep, Replication.foldl_record_role]
    exact g.role
  · rw [hrep, Replication.foldl_record_replicas]
    exact g.replicas
  · have hfold := Replication.foldl_record_offset_le s₁.replication
      (List.replicate j (Value.command ["LPOP", key]))
    have hpops : j * (command ["LPOP", key]).encode.length ≤ 2 ^ 65 * 2 ^ 31 :=
      Nat.mul_le_mul (hj.trans hlen) (length_encode_lpop_le hkey)
    simp only [List.map_replicate, List.sum_replicate, smul_eq_mul] at hfold
    rw [hrep]
    omega

theorem parseSet_mem {args : List String} {key value : String} {ttl : Option Nat}
    (h : parseSet args = .ok (key, value, ttl)) : key ∈ args ∧ value ∈ args := by
  unfold parseSet at h
  split at h <;> grind

theorem parseSet_not_quotes {args : List String} {e : CommandError}
    (h : parseSet args = .error e) : ¬ e.Quotes := by
  unfold parseSet at h
  split at h <;> grind [CommandError.Quotes]

theorem parseLRange_not_quotes {args : List String} {e : CommandError}
    (h : parseLRange args = .error e) : ¬ e.Quotes := by
  unfold parseLRange at h
  split at h <;> grind [CommandError.Quotes]

theorem parseLPop_not_quotes {args : List String} {e : CommandError}
    (h : parseLPop args = .error e) : ¬ e.Quotes := by
  unfold parseLPop at h
  split at h <;> grind [CommandError.Quotes]

theorem parseBLPop_mem {args : List String} {key : String} {timeout : Option Nat}
    (h : parseBLPop args = .ok (key, timeout)) : key ∈ args := by
  unfold parseBLPop at h
  split at h <;> grind

theorem parseBLPop_not_quotes {args : List String} {e : CommandError}
    (h : parseBLPop args = .error e) : ¬ e.Quotes := by
  unfold parseBLPop at h
  split at h <;> grind [CommandError.Quotes]

theorem ping_replies (hq : q.Fits) : Replies s q (s.ping now q) := by
  unfold ping
  split
  · exact .reply (flat_simple (crlf_not_infix_of_cr_not_mem (by decide))) (.refl q s)
  · rename_i m hm
    exact .reply (flat_bulk (hq m (by simp [hm]))) (.refl q s)
  · exact .refuse id

theorem echo_replies (hq : q.Fits) : Replies s q (s.echo now q) := by
  unfold echo
  split
  · rename_i m hm
    exact .reply (flat_bulk (hq m (by simp [hm]))) (.refl q s)
  · exact .refuse id

theorem set_replies (hq : q.Fits) (hn : q.args.length < 2 ^ 64) : Replies s q (s.set now q) := by
  unfold Server.set
  rcases hp : parseSet q.args with e | ⟨key, value, ttl⟩
  · exact .refuse (parseSet_not_quotes hp)
  · have hv := (parseSet_mem hp).2
    refine .reply flat_ok (GrowsBy.record (GrowsBy.of_strings fun k e he => ?_) rfl
      (le_trans (Request.length_encode_toValue_le hq hn) (by norm_num)))
    rcases Strings.set_entries he with he | he
    · exact .inl he
    · exact .inr (.inl (he ▸ hv))

theorem get_replies (hb : s.Bounded 0) : Replies s q (s.get now q) := by
  unfold Server.get
  split
  · rename_i key _
    -- GET answers the entry that touching the key leaves alive, and keeps the touched store
    show Replies s q (.ok (.completed ((((s.strings.touch now key).1.map (·.value)).map .bulk).getD .null),
      { s with strings := (s.strings.touch now key).2 }))
    refine .reply ?_ (GrowsBy.of_strings fun k e he => .inl (Strings.touch_entries he))
    rcases ht : (s.strings.touch now key).1 with _ | e
    · exact flat_null
    · exact flat_bulk (hb.strings key e (Strings.touch_fst ht))
  · exact .refuse id

theorem incr_replies (hq : q.Fits) (hn : q.args.length < 2 ^ 64) : Replies s q (s.incr now q) := by
  unfold Server.incr
  split
  · rename_i key _
    rcases hi : s.strings.incr now key with _ | ⟨n, st⟩
    · exact .refuse id
    · refine .reply (flat_integer _) (GrowsBy.record (GrowsBy.of_strings fun k e he => ?_) rfl
        (le_trans (Request.length_encode_toValue_le hq hn) (by norm_num)))
      rcases Strings.incr_entries hi he with he | he
      · exact .inl he
      · exact .inr (.inr he)
  · exact .refuse id

theorem llen_replies : Replies s q (s.llen now q) := by
  unfold llen
  split
  · exact .reply (flat_integer _) (.refl q s)
  · exact .refuse id

theorem lrange_replies (hb : s.Bounded 0) : Replies s q (s.lrange now q) := by
  unfold Server.lrange
  rcases hp : parseLRange q.args with e | ⟨key, start, stop⟩
  · exact .refuse (parseLRange_not_quotes hp)
  · have hsub := s.lists.lrange_sublist key start stop
    exact .reply (flat_command (lt_of_le_of_lt hsub.length_le (hb.lists key))
      fun x hx => hb.items key x (hsub.subset hx)) (.refl q s)

theorem info_replies (hb : s.Bounded 0) : Replies s q (s.info now q) := by
  refine .reply (flat_bulk (s.replication.utf8ByteSize_info_le ?_ ?_ hb.host)) (.refl q s)
  · exact lt_of_lt_of_le hb.replicas (by norm_num)
  · exact lt_of_lt_of_le (by simpa using hb.offset) (by norm_num)

theorem replconf_replies : Replies s q (s.replconf now q) := by
  unfold replconf
  split
  · exact .reply flat_ok (.refl q s)
  · exact .refuse id

theorem psync_replies : Replies s q (s.psync now q) := by
  unfold psync
  split
  · split
    · exact .refuse id
    · refine .reply (flat_simple (crlf_not_infix_of_cr_not_mem ?_))
        { GrowsBy.refl q s with
          role := Replication.addReplica_role _ _
          replicas := Replication.length_replicas_addReplica_le _ _
          offset := by simp }
      have hlit : (13 : UInt8) ∉ utf8 ("FULLRESYNC " ++ replicationId ++ " ") := by decide
      rw [utf8_append, List.mem_append, not_or]
      exact ⟨hlit, cr_not_mem_utf8_ofNat _⟩
  · exact .refuse id

theorem push_replies (front : Bool) (hb : s.Bounded 0) (hq : q.Fits) (hn : q.args.length < 2 ^ 64) :
    Replies s q (s.push front now q) := by
  unfold push
  split
  · rename_i key head tail hargs
    have hkey : key.utf8ByteSize ≤ Wire.maxBulkLength := hq key (by simp [hargs])
    rcases hL : (if front then s.lists.lpush key (head :: tail) else s.lists.rpush key (head :: tail))
      with ⟨len, L⟩
    have hL₂ : (if front then s.lists.lpush key (head :: tail)
        else s.lists.rpush key (head :: tail)).2 = L := by rw [hL]
    -- the pushed list holds old items and arguments, and grew by the arguments
    have hmem : ∀ k, ∀ x ∈ L.items k, x ∈ s.lists.items k ∨ x ∈ q.args := by
      intro k x hx
      rcases Lists.mem_items_push (by rw [hL₂]; exact hx) with h | h
      · exact .inl h
      · exact .inr (by simp [hargs, h])
    have hlen : ∀ k, (L.items k).length ≤ (s.lists.items k).length + q.args.length := by
      intro k
      have := Lists.length_items_push_le front s.lists key (head :: tail) k
      rw [hL₂] at this
      simpa [hargs] using le_trans this (by simp)
    have hrec := Replication.record_offset_le s.replication q.toValue
    have henc := Request.length_encode_toValue_le hq hn
    dsimp only
    refine .reply (flat_integer _) (GrowsBy.wake (GrowsBy.record (GrowsBy.of_lists hmem hlen) rfl
      (le_trans henc (by norm_num))) hkey ?_ (by simp only [record]; omega) now)
    have := hlen key
    have := hb.lists key
    simp only [record]
    omega
  · exact .refuse id

theorem lpop_replies (hb : s.Bounded 0) (hq : q.Fits) (hn : q.args.length < 2 ^ 64) :
    Replies s q (s.lpop now q) := by
  have hrec := le_trans (Request.length_encode_toValue_le hq hn) (by norm_num : 2 ^ 100 ≤ 2 ^ 128)
  unfold Server.lpop
  rcases hp : parseLPop q.args with e | ⟨key, _ | n⟩
  · exact .refuse (parseLPop_not_quotes hp)
  · dsimp only [bind, Except.bind, pure, Except.pure]
    have hL := Lists.items_lpop s.lists key
    have hv := Lists.lpop_fst s.lists key
    rcases hl : s.lists.lpop key with ⟨_ | v, L⟩
    all_goals
      rw [hl] at hL hv
      dsimp only
    · exact .reply flat_null (GrowsBy.of_drop hL)
    · exact .reply (flat_bulk (hb.items key v (List.mem_of_mem_head? hv.symm)))
        (GrowsBy.record (GrowsBy.of_drop hL) rfl hrec)
  · dsimp only [bind, Except.bind, pure, Except.pure]
    have hL := Lists.items_popFront s.lists key n
    -- the items popped are the first ones of the list
    have hsub : (s.lists.popFront key n).1.Sublist (s.lists.items key) := by
      rw [Lists.popFront_fst]
      exact List.take_sublist _ _
    have hflat : (command (s.lists.popFront key n).1).Flat :=
      flat_command (lt_of_le_of_lt hsub.length_le (hb.lists key)) fun x hx => hb.items key x (hsub.subset hx)
    split
    · exact .reply hflat (GrowsBy.record (GrowsBy.of_drop hL) rfl hrec)
    · exact .reply hflat (GrowsBy.of_drop hL)

theorem blpop_replies (hb : s.Bounded 0) (hq : q.Fits) : Replies s q (s.blpop now q) := by
  unfold Server.blpop
  rcases hp : parseBLPop q.args with e | ⟨key, timeout⟩
  · exact .refuse (parseBLPop_not_quotes hp)
  · dsimp only [bind, Except.bind, pure, Except.pure]
    have hkey := hq key (parseBLPop_mem hp)
    have hL := Lists.items_lpop s.lists key
    have hv := Lists.lpop_fst s.lists key
    rcases hl : s.lists.lpop key with ⟨_ | v, L⟩
    all_goals
      rw [hl] at hL hv
      dsimp only
    · split
      · exact .reply flat_null (.refl q s)
      · -- a wait changes only the blocks and the timers
        exact .suspend ⟨fun k e he => .inl (by simpa using he), fun k x hx => .inl (by simpa using hx),
          fun k => by simp, by simp, by simp, by simp⟩
    · refine .reply (flat_command (by simp) ?_)
        (GrowsBy.record (GrowsBy.of_drop hL) rfl (le_trans (length_encode_lpop_le hkey) (by norm_num)))
      simp only [List.mem_cons, List.not_mem_nil, or_false, forall_eq_or_imp, forall_eq]
      exact ⟨hkey, hb.items key v (List.mem_of_mem_head? hv.symm)⟩

/-- Every action replies with a flat value or refuses without quoting the client, and grows the
server by at most what the request may add. -/
theorem act_replies (hb : s.Bounded 0) (hq : q.Fits) (hn : q.args.length < 2 ^ 64) :
    Replies s q (s.act now q) := by
  unfold act
  split
  · exact ping_replies hq
  · exact echo_replies hq
  · exact set_replies hq hn
  · exact get_replies hb
  · exact incr_replies hq hn
  · exact push_replies false hb hq hn
  · exact push_replies true hb hq hn
  · exact lrange_replies hb
  · exact llen_replies
  · exact lpop_replies hb hq hn
  · exact blpop_replies hb hq
  · exact info_replies hb
  · exact replconf_replies
  · exact psync_replies

theorem perform_replies (hb : s.Bounded 0) (hq : q.Fits) (hn : q.args.length < 2 ^ 64) :
    (∀ v, (s.perform now q).1 = .completed v → v.Flat) ∧ GrowsBy q s (s.perform now q).2 := by
  have h : Replies s q (s.act now q) := act_replies hb hq hn
  unfold perform
  rcases ha : s.act now q with e | ⟨o, s'⟩ <;> rw [ha] at h
  · exact ⟨by rintro v ⟨⟩; exact CommandError.reply_flat h, .refl q s⟩
  · exact h

end Handlers

/-! ## EXEC -/

theorem length_runDirect (now : Instant) :
    ∀ (qs : List Request) (s : Server), (runDirect now qs s).1.length = qs.length
  | [], _ => rfl
  | q :: qs, s => by
    simp only [runDirect]
    rcases s.run now q.toCommand with ⟨o, s'⟩
    cases o <;> simp [length_runDirect now qs]

/-- A queue run directly replies with flat values, each request spending its cost of the bounds
while the next runs on the server it leaves. -/
theorem runDirect_flat (now : Instant) : ∀ (qs : List Request) (s : Server) (k : Nat),
    s.Bounded (k + Request.costs qs) → (∀ q ∈ qs, q.Fits) → ∀ v ∈ (runDirect now qs s).1, v.Flat
  | [], _, _, _, _ => by simp [runDirect]
  | q :: qs, s, k, hb, hq => by
    have hq₀ := hq q (by simp)
    have hqs : ∀ q' ∈ qs, q'.Fits := fun q' h' => hq q' (by simp [h'])
    have hb₀ : s.Bounded (k + Request.costs qs + q.cost) := by
      have hk : k + Request.costs (q :: qs) = k + Request.costs qs + q.cost := by
        simp only [Request.costs, List.map_cons, List.sum_cons]
        omega
      exact hk ▸ hb
    have hn : q.args.length < 2 ^ 64 := by
      have := hb₀.lists ""
      unfold Request.cost at this
      omega
    obtain ⟨hv, g⟩ : (∀ v, (s.perform now q).1 = .completed v → v.Flat) ∧
        GrowsBy q s (s.perform now q).2 :=
      perform_replies (hb₀.mono (Nat.zero_le _)) hq₀ hn
    simp only [runDirect, run_toCommand]
    rcases hper : s.perform now q with ⟨o, s'⟩
    rw [hper] at hv g
    intro w hw
    cases o with
    | completed v =>
      rcases List.mem_cons.1 hw with rfl | hw
      · exact hv w rfl
      · exact runDirect_flat now qs s' k (hb₀.step hq₀ g) hqs w hw
    | suspended =>
      rcases List.mem_cons.1 hw with rfl | hw
      · exact flat_null
      · exact runDirect_flat now qs s k (hb₀.mono (Nat.le_add_right _ _)) hqs w hw

end Server

end KvServer
