import Mathlib
import KvServer.Proofs.StoreView
import KvServer.Proofs.HandlerReplies

/-!
# The list store is a map of lists

`Lists.Represents s m` says that the store `s` holds exactly the lists of the map `m` that are not
empty, each under its key, and nothing else: an absent key stands for the empty list, and no key is
bound to an empty list. Each call on the store keeps this relation with the map the call gives on
lists (`Lists.Call.apply`): a push appends at the back, or puts its items at the front one at a
time; a pop takes items from the front; LLEN and LRANGE read. Each call also answers what the map
says (`Lists.Call.Answers`). A push always has items, as the request parser refuses one without
any; a push of nothing would leave an empty list behind.

`Lists.runCalls_refines` follows a whole sequence of calls.
-/

namespace KvServer

namespace Lists

/-- The store holds exactly the lists of `m` that are not empty, each under its key. -/
def Represents (s : Lists) (m : String → List String) : Prop :=
  ∀ k, s.entries[k]? = if m k = [] then none else some (m k)

section Represents

variable {s : Lists} {m : String → List String}

theorem Represents.items_eq (h : s.Represents m) (k : String) : s.items k = m k := by
  unfold items
  rw [h k]
  split <;> simp [*]

/-- No key of the store is bound to an empty list. -/
theorem Represents.ne_nil (h : s.Represents m) {k : String} {l : List String}
    (hk : s.entries[k]? = some l) : l ≠ [] := by
  rw [h k] at hk
  split at hk
  · cases hk
  · rename_i hne
    cases hk
    exact hne

theorem Represents.insert (h : s.Represents m) {key : String} {l : List String} (hl : l ≠ []) :
    ({ entries := s.entries.insert key l } : Lists).Represents (Function.update m key l) := by
  intro k
  by_cases hk : key = k
  · subst hk
    simp [hl]
  · simp [Std.HashMap.getElem?_insert, hk, Function.update_of_ne (Ne.symm hk), h k]

theorem Represents.erase (h : s.Represents m) (key : String) :
    ({ entries := s.entries.erase key } : Lists).Represents (Function.update m key []) := by
  intro k
  by_cases hk : key = k
  · subst hk
    simp
  · simp [Std.HashMap.getElem?_erase, hk, Function.update_of_ne (Ne.symm hk), h k]

/-- Taking `n` items from the front answers the first `n` of the key's list and leaves the rest. -/
theorem Represents.popFront (h : s.Represents m) (key : String) (n : Nat) :
    (s.popFront key n).1 = (m key).take n ∧
      (s.popFront key n).2.Represents (Function.update m key ((m key).drop n)) := by
  refine ⟨by rw [popFront_fst, h.items_eq], ?_⟩
  unfold Lists.popFront
  cases he : s.entries[key]? with
  | none =>
    -- an absent key stands for the empty list, which taking from leaves as it was
    have hnil : m key = [] := by
      have := h key
      rw [he] at this
      split at this
      · assumption
      · cases this
    have hsame : Function.update m key ((m key).drop n) = m := by
      rw [hnil, List.drop_nil, ← hnil, Function.update_eq_self]
    rw [hsame]
    exact h
  | some l =>
    have hl : m key = l := by simpa [items, he] using (h.items_eq key).symm
    subst hl
    dsimp only
    split
    · rename_i hrest
      rw [hrest]
      exact h.erase key
    · exact h.insert ‹_›

end Represents

/-! ## Calls -/

/-- A call on the list store. A push carries the proof that it has items. -/
inductive Call where
  | rpush (key : String) (items : List String) (nonempty : items ≠ [])
  | lpush (key : String) (items : List String) (nonempty : items ≠ [])
  | lpop (key : String)
  | lpopMany (key : String) (count : Nat)
  | llen (key : String)
  | lrange (key : String) (start stop : Int)

/-- What a call on the list store answers. -/
inductive Answer where
  | length (n : Nat)
  | item (x : Option String)
  | items (xs : List String)

/-- Runs one call on the store. -/
def call (s : Lists) : Call → Answer × Lists
  | .rpush key xs _ => let (n, s) := s.rpush key xs; (.length n, s)
  | .lpush key xs _ => let (n, s) := s.lpush key xs; (.length n, s)
  | .lpop key => let (x, s) := s.lpop key; (.item x, s)
  | .lpopMany key n => let (xs, s) := s.popFront key n; (.items xs, s)
  | .llen key => (.length (s.llen key), s)
  | .lrange key start stop => (.items (s.lrange key start stop), s)

/-- Runs calls one after another, answering each. -/
def runCalls (s : Lists) : List Call → List Answer × Lists
  | [] => ([], s)
  | c :: cs =>
    let (a, s) := s.call c
    let (as, s) := s.runCalls cs
    (a :: as, s)

namespace Call

/-- What the call does to a map from keys to lists: a push appends at the back, or puts its
items at the front one at a time; a pop drops items from the front; LLEN and LRANGE change
nothing. -/
def apply (m : String → List String) : Call → (String → List String)
  | .rpush key xs _ => Function.update m key (m key ++ xs)
  | .lpush key xs _ => Function.update m key (xs.foldl (fun l x => x :: l) (m key))
  | .lpop key => Function.update m key ((m key).drop 1)
  | .lpopMany key n => Function.update m key ((m key).drop n)
  | .llen _ | .lrange _ _ _ => m

/-- What the call may answer on a map from keys to lists: a push the new length of the key's
list, LPOP its head, a counted LPOP its first items, LLEN its length, and LRANGE items of it in
their order. -/
def Answers (m : String → List String) : Call → Answer → Prop
  | .rpush key xs _, a => a = .length (m key ++ xs).length
  | .lpush key xs _, a => a = .length (xs.foldl (fun l x => x :: l) (m key)).length
  | .lpop key, a => a = .item (m key).head?
  | .lpopMany key n, a => a = .items ((m key).take n)
  | .llen key, a => a = .length (m key).length
  | .lrange key _ _, a => ∃ xs, a = .items xs ∧ xs.Sublist (m key)

/-- The map after calls one after another. -/
def applyAll (m : String → List String) (calls : List Call) : String → List String :=
  calls.foldl apply m

/-- Pushing items to the front one at a time puts them there in reverse order. -/
theorem apply_lpush (m : String → List String) (key : String) (xs : List String) (h : xs ≠ []) :
    (lpush key xs h).apply m = Function.update m key (xs.reverse ++ m key) := by
  simp only [apply, List.foldl_flip_cons_eq_append']

end Call

/-- `Follows m calls as`: answering `calls` one after another, starting from the map `m`, may give
the answers `as`. -/
inductive Follows : (String → List String) → List Call → List Answer → Prop
  | nil {m : String → List String} : Follows m [] []
  | cons {m : String → List String} {c : Call} {a : Answer} {cs : List Call} {as : List Answer} :
      c.Answers m a → Follows (c.apply m) cs as → Follows m (c :: cs) (a :: as)

/-! ## The store follows the map -/

/-- One call answers what the map answers and keeps the store representing the map the call
gives. -/
theorem call_refines {s : Lists} {m : String → List String} (h : s.Represents m) :
    ∀ c : Call, c.Answers m (s.call c).1 ∧ (s.call c).2.Represents (c.apply m)
  | .rpush key xs hne => by
    refine ⟨by simp [call, Call.Answers, rpush, h.items_eq], ?_⟩
    simp only [call, rpush, Call.apply, h.items_eq]
    exact h.insert (by simp [hne])
  | .lpush key xs hne => by
    rw [Call.apply_lpush]
    refine ⟨by simp [call, Call.Answers, lpush, h.items_eq], ?_⟩
    simp only [call, lpush, h.items_eq]
    exact h.insert (by simp [hne])
  | .lpop key => by
    obtain ⟨hfst, hsnd⟩ := h.popFront key 1
    refine ⟨?_, hsnd⟩
    simp [call, Call.Answers, lpop, hfst, List.head?_take]
  | .lpopMany key n => by
    obtain ⟨hfst, hsnd⟩ := h.popFront key n
    exact ⟨by simp [call, Call.Answers, hfst], hsnd⟩
  | .llen key => ⟨by simp [call, Call.Answers, llen, h.items_eq], h⟩
  | .lrange key start stop =>
    ⟨⟨_, rfl, h.items_eq key ▸ lrange_sublist s key start stop⟩, h⟩

/-- **The list store refines a map of non-empty lists.** From a store that represents a map, a
sequence of calls answers as the map does, call after call: RPUSH appends and answers the new
length, LPUSH puts its items at the front one at a time (so in reverse order) and answers the new
length, a counted LPOP answers the first items (as many as there are, up to the count) and drops
them, LPOP answers the head, LLEN the length (zero for an absent key), and LRANGE items of the list
in their order. Afterwards the store represents the map the calls give, so it never binds a key to
an empty list. -/
theorem runCalls_refines (s : Lists) (m : String → List String) (h : s.Represents m)
    (calls : List Call) :
    Follows m calls (s.runCalls calls).1 ∧ (s.runCalls calls).2.Represents (Call.applyAll m calls) ∧
      ∀ (k : String) (l : List String), (s.runCalls calls).2.entries[k]? = some l → l ≠ [] := by
  -- the run keeps the representation; a store that represents a map binds no empty list
  suffices hrun : Follows m calls (s.runCalls calls).1 ∧
      (s.runCalls calls).2.Represents (Call.applyAll m calls) from
    ⟨hrun.1, hrun.2, fun _ _ hk => hrun.2.ne_nil hk⟩
  induction calls generalizing s m with
  | nil => exact ⟨.nil, h⟩
  | cons c cs ih =>
    obtain ⟨ha, hs⟩ := call_refines h c
    obtain ⟨hf, hr⟩ := ih (s.call c).2 (c.apply m) hs
    exact ⟨.cons ha hf, hr⟩

theorem represents_empty : ({} : Lists).Represents fun _ => [] := by
  intro k
  simp

/-- From the empty store: push two items, pop one, push one to the front, and read. -/
theorem runCalls_refines_from_empty :
    let calls := [Call.rpush "k" ["a", "b"] (by simp), .lpop "k", .lpush "k" ["c"] (by simp),
      .llen "k", .lpopMany "k" 5, .llen "k"]
    ({} : Lists).Represents (fun _ => []) ∧
      Follows (fun _ => []) calls (({} : Lists).runCalls calls).1 ∧
      (({} : Lists).runCalls calls).2.Represents (Call.applyAll (fun _ => []) calls) ∧
      ∀ (k : String) (l : List String), (({} : Lists).runCalls calls).2.entries[k]? = some l → l ≠ [] :=
  ⟨represents_empty, runCalls_refines {} _ represents_empty _⟩

end Lists

end KvServer
