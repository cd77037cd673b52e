import Std.Data.HashMap

/-!
# The list store

Keys bound to lists of texts. A list that becomes empty is removed, so an absent key and an empty
list cannot be told apart. Pushing to the front inserts the items one at a time, so the last
item ends up first. A range is given by two inclusive indexes, a negative one counting from the
end; both are clamped to the list and an empty range selects nothing.
-/

namespace KvServer

/-- The list store. -/
structure Lists where
  entries : Std.HashMap String (List String) := {}
  deriving Inhabited

namespace Lists

/-- The list bound to `key`, empty when there is none. -/
def items (s : Lists) (key : String) : List String :=
  s.entries[key]?.getD []

/-- Appends `xs` to the list of `key`, answering its new length. -/
def rpush (s : Lists) (key : String) (xs : List String) : Nat × Lists :=
  let l := s.items key ++ xs
  (l.length, { entries := s.entries.insert key l })

/-- Pushes `xs` to the front of the list of `key` one at a time, answering its new length. -/
def lpush (s : Lists) (key : String) (xs : List String) : Nat × Lists :=
  let l := xs.reverse ++ s.items key
  (l.length, { entries := s.entries.insert key l })

/-- The length of the list of `key`. -/
def llen (s : Lists) (key : String) : Nat :=
  (s.items key).length

/-- Removes up to `n` items from the front of the list of `key` and answers them in order. -/
def popFront (s : Lists) (key : String) (n : Nat) : List String × Lists :=
  match s.entries[key]? with
  | none => ([], s)
  | some l =>
    let rest := l.drop n
    (l.take n, { entries := if rest = [] then s.entries.erase key else s.entries.insert key rest })

/-- Removes the first item of the list of `key`. -/
def lpop (s : Lists) (key : String) : Option String × Lists :=
  let (xs, s) := s.popFront key 1
  (xs.head?, s)

/-- The inclusive bounds that `start` and `stop` select in a list of length `len`, if any. -/
def normalizeRange (len : Nat) (start stop : Int) : Option (Nat × Nat) :=
  if len = 0 then none
  else
    let n : Int := len
    let first := if start < 0 then max (n + start) 0 else start
    let last := if stop < 0 then max (n + stop) 0 else min stop (n - 1)
    if first ≥ n ∨ first > last then none else some (first.toNat, last.toNat)

/-- The items of the list of `key` from index `start` to index `stop`, both included. -/
def lrange (s : Lists) (key : String) (start stop : Int) : List String :=
  let l := s.items key
  match normalizeRange l.length start stop with
  | none => []
  | some (first, last) => (l.drop first).take (last + 1 - first)

end Lists

end KvServer
