import Mathlib
import KvServer.Store.Strings
import KvServer.Store.Lists

/-!
# What the stores hold at an instant

The string store is read through `Strings.live`: for each key whose entry is alive at an instant,
its text and the instant it expires at. Lazy expiry does not show there, and what is alive at a
later instant is what is alive now and expires after it, so two stores that agree at one instant
agree at every later one. Each operation of the store keeps this reading or changes the one key it
names in a way that depends only on that reading; `Strings.Agree.incr` says so for INCR, which
keeps the deadline of the entry it changes. The list store is read through `Lists.items`.
-/

namespace KvServer

namespace Entry

/-- The instant the entry expires at, if it ever does. -/
def deadline (e : Entry) : Option Instant :=
  e.ttl.bind (Clock.later? e.createdAt)

theorem expired_eq (e : Entry) (t : Instant) : e.expired t = e.deadline.any (· ≤ t) := by
  rcases e with ⟨v, c, _ | d⟩
  · rfl
  · simp only [expired, deadline, Option.bind_some]
    cases Clock.later? c d <;> simp

theorem expired_of_le {e : Entry} {t t' : Instant} (h : e.expired t = true) (ht : t ≤ t') :
    e.expired t' = true := by
  rw [expired_eq] at h ⊢
  obtain ⟨d, hd, hle⟩ := (Option.any_eq_true _ _).1 h
  have hdt : d ≤ t := by simpa using hle
  exact (Option.any_eq_true _ _).2 ⟨d, hd, by simpa using hdt.trans ht⟩

end Entry

namespace Strings

/-- The text of `key` with the instant it expires at, if its entry is alive at `t`. -/
def live (s : Strings) (t : Instant) (key : String) : Option (String × Option Instant) :=
  s.entries[key]?.bind fun e => if e.expired t then none else some (e.value, e.deadline)

/-- The text a read of `key` finds at `t`. -/
def view (s : Strings) (t : Instant) (key : String) : Option String :=
  (s.live t key).map (·.1)

/-- What is alive later is what is alive now and expires after then. -/
theorem live_of_le (s : Strings) {t t' : Instant} (ht : t ≤ t') (key : String) :
    s.live t' key = (s.live t key).filter fun p => !p.2.any (· ≤ t') := by
  unfold live
  cases s.entries[key]? with
  | none => rfl
  | some e =>
    simp only [Option.bind_some]
    by_cases hnow : e.expired t = true
    · simp [hnow, Entry.expired_of_le hnow ht]
    · simp only [Bool.not_eq_true] at hnow
      rw [hnow, if_neg Bool.false_ne_true, Option.filter_some, Entry.expired_eq]
      cases e.deadline.any (· ≤ t') <;> rfl

/-- Two string stores hold the same live texts, with the same deadlines, at `t`. -/
def Agree (t : Instant) (a b : Strings) : Prop :=
  ∀ key, a.live t key = b.live t key

namespace Agree

variable {t : Instant} {a b c : Strings}

theorem refl (a : Strings) : Agree t a a := fun _ => rfl

theorem symm (h : Agree t a b) : Agree t b a := fun key => (h key).symm

theorem trans (h₁ : Agree t a b) (h₂ : Agree t b c) : Agree t a c :=
  fun key => (h₁ key).trans (h₂ key)

theorem of_le (h : Agree t a b) {t' : Instant} (ht : t ≤ t') : Agree t' a b := by
  intro key
  rw [live_of_le a ht, live_of_le b ht, h key]

/-- Stores that agree at `t` show the same texts at every instant from `t` on. -/
theorem view_eq (h : Agree t a b) {t' : Instant} (ht : t ≤ t') (key : String) :
    a.view t' key = b.view t' key := by
  simp only [view, h.of_le ht key]

end Agree

theorem live_insert (s : Strings) (t : Instant) (key k : String) (e : Entry) :
    ({ entries := s.entries.insert key e } : Strings).live t k =
      if key = k then (if e.expired t then none else some (e.value, e.deadline)) else s.live t k := by
  by_cases hk : key = k <;> simp [live, Std.HashMap.getElem?_insert, hk]

theorem live_set (s : Strings) (now t : Instant) (key k value : String) (ttl : Option Nat) :
    (s.set now key value ttl).live t k =
      if key = k then
        (if ({ value, createdAt := now, ttl } : Entry).expired t then none
         else some (value, ({ value, createdAt := now, ttl } : Entry).deadline))
      else s.live t k :=
  live_insert s t key k _

theorem Agree.insert {t : Instant} {a b : Strings} (h : Agree t a b) (key : String) {ea eb : Entry}
    (he : (if ea.expired t then none else some (ea.value, ea.deadline)) =
      (if eb.expired t then none else some (eb.value, eb.deadline))) :
    Agree t { entries := a.entries.insert key ea } { entries := b.entries.insert key eb } := by
  intro k
  rw [live_insert, live_insert]
  split
  · exact he
  · exact h k

theorem Agree.set {t : Instant} {a b : Strings} (h : Agree t a b) (now : Instant) (key value : String)
    (ttl : Option Nat) : Agree t (a.set now key value ttl) (b.set now key value ttl) :=
  h.insert key rfl

/-! ## Touching a key -/

theorem touch_fst_map (s : Strings) (now : Instant) (key : String) :
    (s.touch now key).1.map (fun e => (e.value, e.deadline)) = s.live now key := by
  unfold touch live
  cases s.entries[key]? with
  | none => rfl
  | some e => by_cases hx : e.expired now = true <;> simp [hx]

theorem not_expired_of_touch {s : Strings} {now : Instant} {key : String} {e : Entry}
    (h : (s.touch now key).1 = some e) : e.expired now = false := by
  unfold touch at h
  cases he : s.entries[key]? with
  | none => simp [he] at h
  | some e' =>
    by_cases hx : e'.expired now = true
    · simp [he, hx] at h
    · simp only [he, hx, if_false, Option.some.injEq, Bool.false_eq_true] at h
      subst h
      simpa using hx

/-- Dropping an entry that has expired changes nothing a reader sees. -/
theorem agree_touch (s : Strings) (now : Instant) (key : String) : Agree now (s.touch now key).2 s := by
  intro k
  unfold touch
  cases he : s.entries[key]? with
  | none => rfl
  | some e =>
    by_cases hx : e.expired now = true
    · simp only [hx, if_true]
      by_cases hk : key = k
      · subst hk
        simp [live, he, hx]
      · simp [live, Std.HashMap.getElem?_erase, hk]
    · simp [hx]

theorem get_fst (s : Strings) (now : Instant) (key : String) :
    (s.get now key).1 = s.view now key := by
  simp only [get, view, ← touch_fst_map, Option.map_map]
  rfl

theorem agree_get (s : Strings) (now : Instant) (key : String) : Agree now (s.get now key).2 s :=
  agree_touch s now key

/-! ## INCR -/

/-- INCR succeeds on one of two agreeing stores exactly when it does on the other, with the same
result, and leaves them agreeing. -/
theorem Agree.incr {now : Instant} {a b : Strings} (h : Agree now a b) (key : String) :
    Option.Rel (fun x y => x.1 = y.1 ∧ Agree now x.2 y.2) (a.incr now key) (b.incr now key) := by
  have hab : Agree now (a.touch now key).2 (b.touch now key).2 :=
    ((agree_touch a now key).trans h).trans (agree_touch b now key).symm
  have hlive : (a.touch now key).1.map (fun e => (e.value, e.deadline)) =
      (b.touch now key).1.map (fun e => (e.value, e.deadline)) := by
    rw [touch_fst_map, touch_fst_map, h key]
  unfold Strings.incr
  rcases hA : a.touch now key with ⟨_ | ea, a'⟩ <;> rcases hB : b.touch now key with ⟨_ | eb, b'⟩ <;>
    simp only [hA, hB] at hab hlive
  · exact Option.Rel.some ⟨rfl, hab.set now key "1" none⟩
  · simp at hlive
  · simp at hlive
  · -- both entries are alive now, with the same text and deadline
    have hxa : ea.expired now = false := not_expired_of_touch (by rw [hA])
    have hxb : eb.expired now = false := not_expired_of_touch (by rw [hB])
    obtain ⟨hv, hd⟩ : ea.value = eb.value ∧ ea.deadline = eb.deadline := by simpa using hlive
    dsimp only
    rw [hv]
    cases Decimal.parseInt64? eb.value with
    | none => exact Option.Rel.none
    | some x =>
      by_cases hx : x < Decimal.int64Max
      · simp only [hx, if_true]
        refine Option.Rel.some ⟨rfl, hab.insert key ?_⟩
        show (if ea.expired now then none else some (_, ea.deadline)) =
          (if eb.expired now then none else some (_, eb.deadline))
        rw [hxa, hxb, hd]
      · simp only [hx, if_false]
        exact Option.Rel.none

end Strings

namespace Lists

theorem items_insert (s : Lists) (key k : String) (l : List String) :
    ({ entries := s.entries.insert key l } : Lists).items k = if key = k then l else s.items k := by
  by_cases hk : key = k <;> simp [items, Std.HashMap.getElem?_insert, hk]

theorem items_rpush (s : Lists) (key : String) (xs : List String) (k : String) :
    (s.rpush key xs).2.items k = if key = k then s.items key ++ xs else s.items k :=
  items_insert s key k _

theorem items_lpush (s : Lists) (key : String) (xs : List String) (k : String) :
    (s.lpush key xs).2.items k = if key = k then xs.reverse ++ s.items key else s.items k :=
  items_insert s key k _

theorem popFront_fst (s : Lists) (key : String) (n : Nat) :
    (s.popFront key n).1 = (s.items key).take n := by
  unfold popFront items
  cases s.entries[key]? <;> simp

theorem items_popFront (s : Lists) (key : String) (n : Nat) (k : String) :
    (s.popFront key n).2.items k = if key = k then (s.items key).drop n else s.items k := by
  unfold popFront
  cases he : s.entries[key]? with
  | none =>
    by_cases hk : key = k
    · subst hk
      simp [items, he]
    · simp [hk]
  | some l =>
    by_cases hk : key = k
    · subst hk
      by_cases hr : l.drop n = [] <;> simp [items, he, hr]
    · by_cases hr : l.drop n = [] <;>
        simp [items, hr, hk, Std.HashMap.getElem?_erase, Std.HashMap.getElem?_insert]

theorem lpop_fst (s : Lists) (key : String) : (s.lpop key).1 = (s.items key).head? := by
  simp only [lpop, popFront_fst, List.head?_take]
  rfl

theorem items_lpop (s : Lists) (key : String) (k : String) :
    (s.lpop key).2.items k = if key = k then (s.items key).drop 1 else s.items k :=
  items_popFront s key 1 k

end Lists

end KvServer
