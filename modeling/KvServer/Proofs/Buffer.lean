import KvServer.Wire.Buffer

/-!
# The frame buffer's cursor invariant

The mark is never past the cursor and the cursor never past the end of the data, whatever
operations run: appends, marks, resets, commits, consumes of any size, and reads that may find
too few bytes. So the unread bytes are a true suffix of the data and `remaining` is exact. Along
any run the bytes held are those given at the start and appended since, less the prefix that
commits and consumes dropped: a commit drops everything before the cursor, a consume of `n`
the first `min n len` bytes.

`run_cursor_invariant` states both over every run from a valid buffer.
-/

namespace KvServer

namespace Buffer

/-- The mark is at or before the cursor, and the cursor at or before the end of the data. -/
def Valid (b : Buffer) : Prop :=
  b.marked ≤ b.cursor ∧ b.cursor ≤ b.len

/-- One operation on a buffer. -/
inductive Op where
  | append (more : List UInt8)
  | mark
  | reset
  | commit
  | consume (n : Nat)
  | readByte
  | readLine
  | readExact (n : Nat)

/-- The buffer after an operation; a read that finds too few bytes leaves it as it was. -/
def step (b : Buffer) : Op → Buffer
  | .append more => b.append more
  | .mark => b.mark
  | .reset => b.reset
  | .commit => b.commit
  | .consume n => b.consume n
  | .readByte => (b.readByte.map (·.2)).getD b
  | .readLine => (b.readLine.map (·.2)).getD b
  | .readExact n => (b.readExact n |>.map (·.2)).getD b

/-- The buffer after a run of operations. -/
def run (b : Buffer) (ops : List Op) : Buffer :=
  ops.foldl step b

/-- The bytes an operation appends. -/
def Op.added : Op → List UInt8
  | .append more => more
  | _ => []

/-- How many bytes an operation drops from the front of `b`. -/
def Op.dropped (b : Buffer) : Op → Nat
  | .commit => b.cursor
  | .consume n => min n b.len
  | _ => 0

/-- How many bytes a run drops from the front, counted as each operation runs. -/
def removed : Buffer → List Op → Nat
  | _, [] => 0
  | b, op :: ops => op.dropped b + removed (b.step op) ops

theorem valid_empty : empty.Valid :=
  ⟨Nat.le_refl 0, Nat.zero_le _⟩

theorem splitLine_length :
    ∀ {bs line after : List UInt8}, splitLine bs = some (line, after) →
      line.length + 2 + after.length = bs.length
  | [], _, _, h => by simp [splitLine] at h
  | [_], _, _, h => by simp [splitLine] at h
  | x :: y :: rest, line, after, h => by
    unfold splitLine at h
    split at h
    · simp only [Option.some.injEq, Prod.mk.injEq] at h
      obtain ⟨rfl, rfl⟩ := h
      simp only [List.length_nil, List.length_cons]
      omega
    · obtain ⟨⟨l, a⟩, hs, he⟩ := Option.map_eq_some_iff.mp h
      simp only [Prod.mk.injEq] at he
      obtain ⟨rfl, rfl⟩ := he
      have := splitLine_length hs
      simp only [List.length_cons] at this ⊢
      omega

theorem unread_length (b : Buffer) : b.unread.length = b.bytes.length - b.cursor := by
  simp [unread]

theorem step_valid {b : Buffer} (hb : b.Valid) : ∀ op, (b.step op).Valid
  | .append more => by
    obtain ⟨h1, h2⟩ := hb
    refine ⟨h1, ?_⟩
    simp only [step, append, len, List.length_append] at h2 ⊢
    omega
  | .mark => ⟨Nat.le_refl _, hb.2⟩
  | .reset => ⟨Nat.le_refl _, Nat.le_trans hb.1 hb.2⟩
  | .commit => ⟨Nat.le_refl 0, Nat.zero_le _⟩
  | .consume n => by
    obtain ⟨h1, h2⟩ := hb
    simp only [step, consume, Valid, len, List.length_drop] at h1 h2 ⊢
    omega
  | .readByte => by
    simp only [step, readByte]
    split
    · exact hb
    · rename_i x xs hu
      have hl := unread_length b
      rw [hu, List.length_cons] at hl
      obtain ⟨h1, h2⟩ := hb
      simp only [Option.map_some, Option.getD_some, Valid, advance, len] at h1 h2 ⊢
      omega
  | .readLine => by
    simp only [step, readLine]
    cases hs : splitLine b.unread with
    | none => exact hb
    | some p =>
      obtain ⟨line, after⟩ := p
      have hl := splitLine_length hs
      rw [unread_length] at hl
      obtain ⟨h1, h2⟩ := hb
      simp only [Option.map_some, Option.getD_some, Valid, advance, len] at h1 h2 ⊢
      omega
  | .readExact n => by
    simp only [step, readExact]
    split
    · rename_i hn
      obtain ⟨h1, h2⟩ := hb
      simp only [remaining, len] at hn
      simp only [Option.map_some, Option.getD_some, Valid, advance, len] at h1 h2 ⊢
      omega
    · exact hb

theorem dropped_le {b : Buffer} (hb : b.Valid) : ∀ op : Op, op.dropped b ≤ b.len
  | .append _ | .mark | .reset | .readByte | .readLine | .readExact _ => Nat.zero_le _
  | .commit => hb.2
  | .consume _ => Nat.min_le_right _ _

theorem step_bytes (b : Buffer) : ∀ op, (b.step op).bytes = (b.bytes ++ op.added).drop (op.dropped b)
  | .append more => by simp [step, append, Op.added, Op.dropped]
  | .mark | .reset => by simp [step, mark, reset, Op.added, Op.dropped]
  | .commit => by simp [step, commit, Op.added, Op.dropped]
  | .consume n => by simp [step, consume, Op.added, Op.dropped, len]
  | .readByte => by
    simp only [step, readByte, Op.added, Op.dropped, List.append_nil, List.drop_zero]
    split <;> rfl
  | .readLine => by
    simp only [step, readLine, Op.added, Op.dropped, List.append_nil, List.drop_zero]
    cases splitLine b.unread <;> rfl
  | .readExact n => by
    simp only [step, readExact, Op.added, Op.dropped, List.append_nil, List.drop_zero]
    split <;> rfl

theorem run_valid {b : Buffer} (hb : b.Valid) : ∀ ops, (b.run ops).Valid
  | [] => hb
  | op :: ops => run_valid (step_valid hb op) ops

theorem run_bytes {b : Buffer} (hb : b.Valid) :
    ∀ ops, (b.run ops).bytes = (b.bytes ++ ops.flatMap Op.added).drop (removed b ops)
  | [] => by simp [run, removed]
  | op :: ops => by
    have ih := run_bytes (step_valid hb op) ops
    have hd : op.dropped b ≤ (b.bytes ++ op.added).length := by
      have := dropped_le hb op
      simp only [len] at this
      simp only [List.length_append]
      omega
    change (run (b.step op) ops).bytes = _
    rw [ih, step_bytes, ← List.drop_append_of_le_length hd, List.drop_drop]
    simp [removed, List.flatMap_cons, List.append_assoc]

/-- **The cursor invariant.** From a valid buffer, after any run of operations the mark is at
or before the cursor and the cursor at or before the end, so the bytes after the cursor number
exactly `remaining`; and the bytes held are those there at the start and appended since, less
the prefix that the run's commits and consumes dropped. Every prefix of a run is a run, so this
holds before and after each operation. -/
theorem run_cursor_invariant (b : Buffer) (hb : b.Valid) (ops : List Op) :
    (b.run ops).Valid ∧ (b.run ops).remaining + (b.run ops).cursor = (b.run ops).len ∧
      (b.run ops).bytes = (b.bytes ++ ops.flatMap Op.added).drop (removed b ops) := by
  have hv := run_valid hb ops
  refine ⟨hv, ?_, run_bytes hb ops⟩
  have := hv.2
  simp only [remaining]
  omega

/-- A line read after one append and a commit, from the empty buffer. -/
theorem empty_run_cursor_invariant :
    empty.Valid ∧
      (empty.run [.append [65, 13, 10, 66], .mark, .readLine, .commit, .consume 7]).Valid ∧
      (empty.run [.append [65, 13, 10, 66], .mark, .readLine, .commit, .consume 7]).remaining +
          (empty.run [.append [65, 13, 10, 66], .mark, .readLine, .commit, .consume 7]).cursor =
        (empty.run [.append [65, 13, 10, 66], .mark, .readLine, .commit, .consume 7]).len ∧
      (empty.run [.append [65, 13, 10, 66], .mark, .readLine, .commit, .consume 7]).bytes =
        (empty.bytes ++ [Op.append [65, 13, 10, 66], .mark, .readLine, .commit, .consume 7].flatMap
          Op.added).drop
          (removed empty [.append [65, 13, 10, 66], .mark, .readLine, .commit, .consume 7]) :=
  ⟨valid_empty, run_cursor_invariant empty valid_empty _⟩

end Buffer

end KvServer
