import Mathlib
import KvServer.Proofs.StoreView

/-!
# Lazy expiry cannot be seen

The string store drops an entry whose time has run out only when its key is next looked at. It
is compared here with an eager map that forgets every entry at the instant it vanishes: the first
instant at or after its creation plus its time to live, and never when that sum is past the
clock's horizon. In the eager map SET replaces the value and the time to live; INCR on an absent
key stores `1` with no time to live, on an integer below the largest one stores its successor and
keeps the entry's creation instant and time to live, and refuses anything else.

`Strings.Agrees s m t` says that the store and the map hold the same live entries at `t`. One call
keeps this at its own instant and answers as the map does (`Strings.call_agrees`), and agreement
at an instant is agreement at every later one (`Strings.Agrees.of_le`), so over calls whose
instants never go back the two answer alike throughout (`Strings.lazy_expiry_unobservable`).
-/

namespace KvServer

namespace Entry

/-- Whether the entry has vanished by `t` in the eager reading: it has a time to live, its creation
plus that time is an instant the clock can represent, and `t` has reached it. -/
def vanished (e : Entry) (t : Instant) : Bool :=
  e.ttl.any fun d => decide (e.createdAt + d < Clock.horizon) && decide (e.createdAt + d ≤ t)

/-- The eager reading of a time to live is the store's. -/
theorem vanished_eq_expired (e : Entry) (t : Instant) : e.vanished t = e.expired t := by
  rcases e with ⟨v, c, _ | d⟩
  · rfl
  · by_cases h : c + d < Clock.horizon <;> simp [vanished, expired, Clock.later?, h]

end Entry

/-- A map from keys to entries that forgets each entry at the instant it vanishes. -/
abbrev EagerMap := String → Option Entry

namespace EagerMap

/-- The map that holds nothing. -/
def empty : EagerMap := fun _ => none

/-- The map at `t`: every entry that has vanished by then is gone. -/
def sweep (m : EagerMap) (t : Instant) : EagerMap :=
  fun k => (m k).filter fun e => !e.vanished t

end EagerMap

namespace Strings

/-! ## Calls -/

/-- A call on the string store. -/
inductive Call where
  | set (key value : String) (ttl : Option Nat)
  | get (key : String)
  | incr (key : String)

/-- What a call on the string store answers. -/
inductive Answer where
  | stored
  | text (v : Option String)
  | count (n : Int)
  | notAnInteger

/-- Runs one call on the store at `now`; a refused INCR leaves the store as it was. -/
def call (s : Strings) (now : Instant) : Call → Answer × Strings
  | .set key value ttl => (.stored, s.set now key value ttl)
  | .get key => let (v, s) := s.get now key; (.text v, s)
  | .incr key =>
    match s.incr now key with
    | some (n, s) => (.count n, s)
    | none => (.notAnInteger, s)

/-- Runs calls one after another, each at its instant. -/
def runCalls (s : Strings) : List (Instant × Call) → List Answer × Strings
  | [] => ([], s)
  | (now, c) :: cs =>
    let (a, s) := s.call now c
    let (as, s) := s.runCalls cs
    (a :: as, s)

end Strings

namespace EagerMap

/-- One call on a map swept at `now`. -/
def step (m : EagerMap) (now : Instant) : Strings.Call → Strings.Answer × EagerMap
  | .set key value ttl => (.stored, Function.update m key (some { value, createdAt := now, ttl }))
  | .get key => (.text ((m key).map (·.value)), m)
  | .incr key =>
    match m key with
    | none => (.count 1, Function.update m key (some { value := "1", createdAt := now, ttl := none }))
    | some e =>
      match Decimal.parseInt64? e.value with
      | some x =>
        if x < Decimal.int64Max then
          (.count (x + 1), Function.update m key (some { e with value := Decimal.ofInt (x + 1) }))
        else (.notAnInteger, m)
      | none => (.notAnInteger, m)

/-- One call at `now`: the entries that have vanished by then go first. -/
def call (m : EagerMap) (now : Instant) (c : Strings.Call) : Strings.Answer × EagerMap :=
  (m.sweep now).step now c

/-- Runs calls one after another, each at its instant. -/
def runCalls (m : EagerMap) : List (Instant × Strings.Call) → List Strings.Answer × EagerMap
  | [] => ([], m)
  | (now, c) :: cs =>
    let (a, m) := m.call now c
    let (as, m) := m.runCalls cs
    (a :: as, m)

theorem sweep_sweep (m : EagerMap) (t : Instant) : (m.sweep t).sweep t = m.sweep t := by
  funext k
  simp only [sweep, Option.filter_filter, Bool.and_self]

end EagerMap

namespace Strings

/-! ## Live entries -/

/-- The entry of `key`, if it is alive at `t`. -/
def liveEntry (s : Strings) (t : Instant) (key : String) : Option Entry :=
  s.entries[key]?.filter fun e => !e.expired t

/-- The store and the eager map hold the same live entries at `t`. -/
def Agrees (s : Strings) (m : EagerMap) (t : Instant) : Prop :=
  ∀ key, s.liveEntry t key = m.sweep t key

/-- What is alive later is what is alive now and has not expired since. -/
theorem filter_expired_of_le (o : Option Entry) {t t' : Instant} (ht : t ≤ t') :
    o.filter (fun e => !e.expired t') = (o.filter fun e => !e.expired t).filter fun e => !e.expired t' := by
  cases o with
  | none => rfl
  | some e =>
    by_cases hx : e.expired t = true
    · simp [Option.filter_some, hx, Entry.expired_of_le hx ht]
    · simp [Option.filter_some, hx]

theorem sweep_eq_filter (m : EagerMap) (t : Instant) (key : String) :
    m.sweep t key = (m key).filter fun e => !e.expired t := by
  simp only [EagerMap.sweep, Entry.vanished_eq_expired]

/-- Agreement at an instant is agreement at every later one. -/
theorem Agrees.of_le {s : Strings} {m : EagerMap} {t t' : Instant} (h : Agrees s m t) (ht : t ≤ t') :
    Agrees s m t' := by
  intro key
  rw [liveEntry, filter_expired_of_le _ ht, ← liveEntry, h key, sweep_eq_filter, sweep_eq_filter,
    ← filter_expired_of_le _ ht]

/-- Forgetting what has vanished changes no live entry. -/
theorem Agrees.sweep {s : Strings} {m : EagerMap} {t : Instant} (h : Agrees s m t) :
    Agrees s (m.sweep t) t := by
  intro key
  rw [EagerMap.sweep_sweep]
  exact h key

theorem liveEntry_insert (s : Strings) (t : Instant) (key k : String) (e : Entry) :
    ({ entries := s.entries.insert key e } : Strings).liveEntry t k =
      if key = k then (some e).filter (fun e => !e.expired t) else s.liveEntry t k := by
  by_cases hk : key = k <;> simp [liveEntry, Std.HashMap.getElem?_insert, hk]

/-- Writing an entry under `key` in both keeps them agreeing. -/
theorem Agrees.insert {s : Strings} {m : EagerMap} {t : Instant} (h : Agrees s m t) (key : String)
    (e : Entry) :
    Agrees { entries := s.entries.insert key e } (Function.update m key (some e)) t := by
  intro k
  rw [liveEntry_insert, sweep_eq_filter]
  by_cases hk : key = k
  · subst hk
    simp
  · rw [if_neg hk, Function.update_of_ne (Ne.symm hk), h k, sweep_eq_filter]

theorem touch_fst_eq (s : Strings) (now : Instant) (key : String) :
    (s.touch now key).1 = s.liveEntry now key := by
  unfold touch liveEntry
  cases s.entries[key]? with
  | none => rfl
  | some e => by_cases hx : e.expired now = true <;> simp [Option.filter_some, hx]

/-- Dropping an entry that has expired changes no live entry. -/
theorem liveEntry_touch (s : Strings) (now : Instant) (key k : String) :
    (s.touch now key).2.liveEntry now k = s.liveEntry now k := by
  unfold touch
  cases he : s.entries[key]? with
  | none => rfl
  | some e =>
    by_cases hx : e.expired now = true
    · simp only [hx, if_true]
      by_cases hk : key = k
      · subst hk
        simp [liveEntry, he, hx, Option.filter_some]
      · simp [liveEntry, Std.HashMap.getElem?_erase, hk]
    · simp [hx]

/-! ## One call, then many -/

theorem runCalls_cons (s : Strings) (now : Instant) (c : Call) (cs : List (Instant × Call)) :
    s.runCalls ((now, c) :: cs) =
      ((s.call now c).1 :: ((s.call now c).2.runCalls cs).1, ((s.call now c).2.runCalls cs).2) :=
  rfl

theorem EagerMap.runCalls_cons (m : EagerMap) (now : Instant) (c : Call) (cs : List (Instant × Call)) :
    m.runCalls ((now, c) :: cs) =
      ((m.call now c).1 :: ((m.call now c).2.runCalls cs).1, ((m.call now c).2.runCalls cs).2) :=
  rfl

/-- One call at `now`, on a store that agrees with the map at an instant not after `now`, answers
as the map does, and the two agree at `now` afterwards. -/
theorem call_agrees {s : Strings} {m : EagerMap} {t now : Instant} (h : Agrees s m t)
    (ht : t ≤ now) (c : Call) :
    (s.call now c).1 = (m.call now c).1 ∧ Agrees (s.call now c).2 (m.call now c).2 now := by
  -- both see the same live entries at `now`, and the map forgets what has vanished first
  have hnow : Agrees s (m.sweep now) now := (h.of_le ht).sweep
  have htouch : ∀ key, Agrees (s.touch now key).2 (m.sweep now) now := fun key k => by
    rw [liveEntry_touch]
    exact hnow k
  cases c with
  | set key value ttl =>
    exact ⟨rfl, hnow.insert key _⟩
  | get key =>
    refine ⟨?_, htouch key⟩
    simp only [call, EagerMap.call, EagerMap.step, Strings.get, touch_fst_eq, hnow key,
      EagerMap.sweep_sweep]
  | incr key =>
    -- the store looks at the entry `touch` finds, the map at its swept entry: the same one
    obtain ⟨o, s', hA⟩ : ∃ o s', s.touch now key = (o, s') := ⟨_, _, rfl⟩
    have hfst : m.sweep now key = o := by
      rw [← EagerMap.sweep_sweep, ← hnow key, ← touch_fst_eq, hA]
    have hs' : Agrees s' (m.sweep now) now := by simpa [hA] using htouch key
    simp only [call, Strings.incr, EagerMap.call, EagerMap.step]
    rw [hA, hfst]
    cases o with
    | none => exact ⟨rfl, hs'.insert key _⟩
    | some e =>
      dsimp only
      cases Decimal.parseInt64? e.value with
      | none => exact ⟨rfl, hnow⟩
      | some x =>
        dsimp only
        by_cases hx : x < Decimal.int64Max
        · rw [if_pos hx, if_pos hx]
          exact ⟨rfl, hs'.insert key _⟩
        · rw [if_neg hx, if_neg hx]
          exact ⟨rfl, hnow⟩

/-- Over calls whose instants never go back, from a store and a map that agree no later than the
first call, the answers are the same, and afterwards the two agree at every instant from the last
call on. -/
theorem runCalls_agree {s : Strings} {m : EagerMap} {t : Instant} (h : Agrees s m t)
    (calls : List (Instant × Call)) (hle : ∀ c ∈ calls, t ≤ c.1)
    (hmono : (calls.map Prod.fst).Pairwise (· ≤ ·)) :
    (s.runCalls calls).1 = (m.runCalls calls).1 ∧
      ∀ t', t ≤ t' → (∀ c ∈ calls, c.1 ≤ t') → Agrees (s.runCalls calls).2 (m.runCalls calls).2 t' := by
  induction calls generalizing s m t with
  | nil => exact ⟨rfl, fun t' ht _ => h.of_le ht⟩
  | cons c cs ih =>
    obtain ⟨now, c⟩ := c
    have hfirst : t ≤ now := hle _ List.mem_cons_self
    rw [List.map_cons, List.pairwise_cons] at hmono
    have hlater : ∀ d ∈ cs, now ≤ d.1 := fun d hd => hmono.1 d.1 (List.mem_map_of_mem hd)
    obtain ⟨ha, hs⟩ := call_agrees h hfirst c
    obtain ⟨has, hend⟩ := ih hs hlater hmono.2
    refine ⟨by rw [runCalls_cons, EagerMap.runCalls_cons, ha, has], fun t' ht hall => ?_⟩
    exact hend t' (hall _ List.mem_cons_self) fun d hd => hall d (List.mem_cons_of_mem _ hd)

/-- **Lazy expiry cannot be seen.** Calls on a fresh string store at instants that never go back
answer exactly as the same calls on an eager map, in which an entry vanishes at the first instant
at or after its creation plus its time to live (never, when that is past the clock's horizon):
SET replaces the value and the time to live, GET reads the live value, and INCR on an absent key
stores `1` with no time to live and answers 1, on an integer `x` below the largest one stores
`x + 1` keeping the creation instant and time to live and answers `x + 1`, and refuses anything
else, leaving the entry as it was. Afterwards the store and the map hold the same live entries at
every instant from the last call on. -/
theorem lazy_expiry_unobservable (calls : List (Instant × Call))
    (hmono : (calls.map Prod.fst).Pairwise (· ≤ ·)) :
    (({} : Strings).runCalls calls).1 = (EagerMap.empty.runCalls calls).1 ∧
      ∀ t, (∀ c ∈ calls, c.1 ≤ t) →
        Agrees (({} : Strings).runCalls calls).2 (EagerMap.empty.runCalls calls).2 t := by
  have hempty : Agrees {} EagerMap.empty 0 := fun key => by
    simp [liveEntry, EagerMap.sweep, EagerMap.empty]
  obtain ⟨ha, hend⟩ := runCalls_agree hempty calls (fun c _ => Nat.zero_le c.1) hmono
  exact ⟨ha, fun t ht => hend t (Nat.zero_le t) ht⟩

/-- A counter written with a time to live, raised, and read back before and after it expires. -/
theorem lazy_expiry_unobservable_counter :
    let calls := [(0, Call.set "n" "41" (some 100)), (50, .incr "n"), (99, .get "n"),
      (100, .get "n"), (100, .incr "n")]
    (calls.map Prod.fst).Pairwise (· ≤ ·) ∧
      (({} : Strings).runCalls calls).1 = (EagerMap.empty.runCalls calls).1 ∧
      ∀ t, (∀ c ∈ calls, c.1 ≤ t) →
        Agrees (({} : Strings).runCalls calls).2 (EagerMap.empty.runCalls calls).2 t :=
  ⟨by decide, lazy_expiry_unobservable _ (by decide)⟩

end Strings

end KvServer
