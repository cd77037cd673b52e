import Mathlib
import KvServer.Store.Lists

/-!
# The items LRANGE selects

A range of a list of length `n` is given by two inclusive indexes, a negative one counting from
the end (`fromEnd`). Both are clamped below at zero, and the end of the list bounds the range from
above; an index below `-n` at the end of a range is clamped to the first item rather than
selecting nothing.

`Lists.lrange_selects_slice` says that LRANGE answers, in list order, exactly the items whose
index lies between the two clamped indexes, and that the bounds it computes always lie inside
the list. The indexes are integers with no width, so every input, the extremes of the 64-bit
range included, is covered. The same computation in signed 64-bit arithmetic, each sum checked
(`Lists.normalizeRange64`), never overflows for 64-bit indexes and a length below `2^63`, and
finds the same bounds (`Lists.normalizeRange64_eq`).
-/

namespace KvServer

namespace Lists

/-- Index `i` of a list of length `n`, counted from the end when negative. -/
def fromEnd (n : Nat) (i : Int) : Int :=
  if 0 ≤ i then i else n + i

/-- The items of a list whose index, counted from `k`, lies between `a` and `b`, are a window
of the list. -/
theorem map_fst_filter_zipIdx {α : Type} (a b : Nat) : ∀ (l : List α) (k : Nat),
    ((l.zipIdx k).filter (fun p => a ≤ p.2 ∧ p.2 ≤ b)).map Prod.fst =
      (l.drop (a - k)).take (b + 1 - max a k)
  | [], _ => by simp
  | x :: xs, k => by
    have ih := map_fst_filter_zipIdx a b xs (k + 1)
    simp only [List.zipIdx_cons, List.filter_cons]
    by_cases hin : a ≤ k ∧ k ≤ b
    · rw [if_pos (by simpa using hin), List.map_cons, ih]
      have h1 : a - k = 0 := by omega
      have h2 : a - (k + 1) = 0 := by omega
      have h3 : b + 1 - max a k = (b + 1 - max a (k + 1)) + 1 := by omega
      rw [h1, h2, h3]
      rfl
    · rw [if_neg (by simpa using hin), ih]
      by_cases hak : a ≤ k
      · -- `k` is past the window, and so is every later index
        have h1 : b + 1 - max a k = 0 := by omega
        have h2 : b + 1 - max a (k + 1) = 0 := by omega
        rw [h1, h2, List.take_zero, List.take_zero]
      · have h1 : a - k = (a - (k + 1)) + 1 := by omega
        have h2 : max a k = max a (k + 1) := by omega
        rw [h1, List.drop_succ_cons, h2]

/-- The bounds of a range, from the two indexes clamped at zero: none when the first is past the
list or past the second, and the second is cut at the last item. -/
theorem normalizeRange_eq (len : Nat) (start stop : Int) :
    normalizeRange len start stop =
      if (max 0 (fromEnd len start)).toNat < len ∧
          (max 0 (fromEnd len start)).toNat ≤ (max 0 (fromEnd len stop)).toNat then
        some ((max 0 (fromEnd len start)).toNat, min (max 0 (fromEnd len stop)).toNat (len - 1))
      else none := by
  unfold normalizeRange
  by_cases h0 : len = 0
  · simp [h0]
  · -- the start is the clamped index, and the end is the clamped index cut at the last item
    have hfirst : (if start < 0 then max ((len : Int) + start) 0 else start) =
        max 0 (fromEnd len start) := by
      unfold fromEnd
      split_ifs <;> omega
    have hlast : (if stop < 0 then max ((len : Int) + stop) 0 else min stop ((len : Int) - 1)) =
        min (max 0 (fromEnd len stop)) ((len : Int) - 1) := by
      unfold fromEnd
      split_ifs <;> omega
    simp only [h0, if_false, hfirst, hlast]
    by_cases hc : (max 0 (fromEnd len start)).toNat < len ∧
        (max 0 (fromEnd len start)).toNat ≤ (max 0 (fromEnd len stop)).toNat
    · rw [if_pos hc, if_neg (by omega), Option.some.injEq, Prod.mk.injEq]
      omega
    · rw [if_neg hc, if_pos (by omega)]

example : normalizeRange 5 (-9) (-2) = some (0, 3) ∧ normalizeRange 5 (-2) (-10) = none ∧
    normalizeRange 5 0 (-10) = some (0, 0) := by decide

/-- LRANGE answers the window of the list that its two clamped indexes bound. -/
theorem lrange_eq_window (s : Lists) (key : String) (start stop : Int) :
    s.lrange key start stop =
      ((s.items key).drop (max 0 (fromEnd (s.items key).length start)).toNat).take
        ((max 0 (fromEnd (s.items key).length stop)).toNat + 1 -
          (max 0 (fromEnd (s.items key).length start)).toNat) := by
  simp only [lrange]
  rw [normalizeRange_eq]
  split_ifs with h
  · -- the window ends at the clamped last index or at the end of the list, whichever is first
    rw [eq_comm, List.take_eq_take_iff, List.length_drop]
    omega
  · -- the window starts past the end of the list, or ends before it starts
    rw [eq_comm, List.take_eq_nil_iff, List.drop_eq_nil_iff]
    omega

/-! ## The bounds in signed 64-bit arithmetic -/

theorem int64_toInt_max (a b : Int64) : (max a b).toInt = max a.toInt b.toInt := by
  change (if a ≤ b then b else a).toInt = _
  by_cases h : a.toInt ≤ b.toInt
  · rw [if_pos (Int64.le_iff_toInt_le.2 h)]
    omega
  · rw [if_neg (mt Int64.le_iff_toInt_le.1 h)]
    omega

theorem int64_toInt_min (a b : Int64) : (min a b).toInt = min a.toInt b.toInt := by
  change (if a ≤ b then a else b).toInt = _
  by_cases h : a.toInt ≤ b.toInt
  · rw [if_pos (Int64.le_iff_toInt_le.2 h)]
    omega
  · rw [if_neg (mt Int64.le_iff_toInt_le.1 h)]
    omega

/-- Signed 64-bit addition, none where the exact sum leaves the 64-bit range. -/
def checkedAdd (a b : Int64) : Option Int64 :=
  if -2 ^ 63 ≤ a.toInt + b.toInt ∧ a.toInt + b.toInt < 2 ^ 63 then some (a + b) else none

/-- Signed 64-bit subtraction, none where the exact difference leaves the 64-bit range. -/
def checkedSub (a b : Int64) : Option Int64 :=
  if -2 ^ 63 ≤ a.toInt - b.toInt ∧ a.toInt - b.toInt < 2 ^ 63 then some (a - b) else none

theorem map_checkedAdd {a b : Int64} (h₁ : -2 ^ 63 ≤ a.toInt + b.toInt)
    (h₂ : a.toInt + b.toInt < 2 ^ 63) :
    (checkedAdd a b).map Int64.toInt = some (a.toInt + b.toInt) := by
  rw [checkedAdd, if_pos ⟨h₁, h₂⟩, Option.map_some, Int64.toInt_add]
  exact congrArg some (Int.bmod_eq_of_le (by omega) (by omega))

theorem map_checkedSub {a b : Int64} (h₁ : -2 ^ 63 ≤ a.toInt - b.toInt)
    (h₂ : a.toInt - b.toInt < 2 ^ 63) :
    (checkedSub a b).map Int64.toInt = some (a.toInt - b.toInt) := by
  rw [checkedSub, if_pos ⟨h₁, h₂⟩, Option.map_some, Int64.toInt_sub]
  exact congrArg some (Int.bmod_eq_of_le (by omega) (by omega))

/-- The first index of a range computed in signed 64-bit arithmetic: counted from the end when
negative and then clamped at zero; none where the sum overflows. -/
def rangeStart64 (n start : Int64) : Option Int64 :=
  if start < 0 then (checkedAdd n start).map (max · 0) else some start

/-- The last index of a range computed in signed 64-bit arithmetic: counted from the end when
negative and clamped at zero, otherwise cut at the last item; none where a sum overflows. -/
def rangeStop64 (n stop : Int64) : Option Int64 :=
  if stop < 0 then (checkedAdd n stop).map (max · 0) else (checkedSub n 1).map (min stop)

/-- The bounds of a range as `normalizeRange` finds them, computed on 64-bit integers: the list's
length is taken as one, and the outer `none` is a sum that overflows. -/
def normalizeRange64 (len : Nat) (start stop : Int64) : Option (Option (Nat × Nat)) :=
  if len = 0 then some none
  else do
    let n := Int64.ofNat len
    let first ← rangeStart64 n start
    let last ← rangeStop64 n stop
    return if first ≥ n ∨ first > last then none
      else some (first.toNatClampNeg, last.toNatClampNeg)

theorem map_toInt_max_zero (o : Option Int64) :
    (o.map (max · 0)).map Int64.toInt = (o.map Int64.toInt).map (max · 0) := by
  cases o <;> simp [int64_toInt_max]

theorem map_toInt_min (o : Option Int64) (b : Int64) :
    (o.map (min b)).map Int64.toInt = (o.map Int64.toInt).map (min b.toInt) := by
  cases o <;> simp [int64_toInt_min]

section Width

variable {len : Nat} (hlen : len < 2 ^ 63)
include hlen

/-- The first index, counted from the end of a list shorter than `2^63`, never overflows. -/
theorem rangeStart64_toInt (start : Int64) :
    (rangeStart64 (Int64.ofNat len) start).map Int64.toInt =
      some (if start.toInt < 0 then max (len + start.toInt) 0 else start.toInt) := by
  have hn : (Int64.ofNat len).toInt = len := Int64.toInt_ofNat_of_lt hlen
  have hs := start.le_toInt
  by_cases hneg : start.toInt < 0
  · rw [rangeStart64, if_pos (Int64.lt_iff_toInt_lt.2 hneg), if_pos hneg, map_toInt_max_zero,
      map_checkedAdd (by omega) (by omega), hn]
    rfl
  · rw [rangeStart64, if_neg (mt Int64.lt_iff_toInt_lt.1 hneg), if_neg hneg]
    rfl

/-- The last index, counted from the end of a list shorter than `2^63` or cut at its last item,
never overflows. -/
theorem rangeStop64_toInt (stop : Int64) :
    (rangeStop64 (Int64.ofNat len) stop).map Int64.toInt =
      some (if stop.toInt < 0 then max (len + stop.toInt) 0 else min stop.toInt (len - 1)) := by
  have hn : (Int64.ofNat len).toInt = len := Int64.toInt_ofNat_of_lt hlen
  have hs := stop.le_toInt
  by_cases hneg : stop.toInt < 0
  · rw [rangeStop64, if_pos (Int64.lt_iff_toInt_lt.2 hneg), if_pos hneg, map_toInt_max_zero,
      map_checkedAdd (by omega) (by omega), hn]
    rfl
  · rw [rangeStop64, if_neg (mt Int64.lt_iff_toInt_lt.1 hneg), if_neg hneg, map_toInt_min,
      map_checkedSub (by rw [hn, Int64.toInt_one]; omega) (by rw [hn, Int64.toInt_one]; omega),
      hn]
    rfl

/-- For 64-bit indexes and a list shorter than `2^63`, computing the bounds of a range in signed
64-bit arithmetic forms no sum that overflows, and finds the bounds `normalizeRange` finds. -/
theorem normalizeRange64_eq (start stop : Int64) :
    normalizeRange64 len start stop = some (normalizeRange len start.toInt stop.toInt) := by
  by_cases h0 : len = 0
  · simp [normalizeRange64, normalizeRange, h0]
  obtain ⟨first, hfirst, hf⟩ := Option.map_eq_some_iff.1 (rangeStart64_toInt hlen start)
  obtain ⟨last, hlast, hl⟩ := Option.map_eq_some_iff.1 (rangeStop64_toInt hlen stop)
  have hn : (Int64.ofNat len).toInt = len := Int64.toInt_ofNat_of_lt hlen
  simp only [normalizeRange64, normalizeRange, h0, if_false, hfirst, hlast, Option.pure_def,
    Option.bind_eq_bind, Option.bind_some]
  -- the comparisons and the conversions to `Nat` read the same on the integers the bounds are
  rw [← hf, ← hl]
  simp only [ge_iff_le, gt_iff_lt, Int64.le_iff_toInt_le, Int64.lt_iff_toInt_lt, hn,
    Int64.toNat_toInt]

end Width

example : normalizeRange64 3 Int64.minValue Int64.maxValue = some (some (0, 2)) ∧
    normalizeRange64 5 (-9) (-2) = some (some (0, 3)) := by decide

/-- LRANGE answers, in order, exactly the items whose index lies between the start and the end
index, each counted from the end when negative and clamped at zero; the bounds it computes for a
list of any length are ordered and lie inside the list; and for 64-bit indexes and a list shorter
than `2^63`, the same computation in signed 64-bit arithmetic never overflows and finds the same
bounds. -/
theorem lrange_selects_slice (s : Lists) (key : String) (start stop : Int) :
    s.lrange key start stop =
        ((s.items key).zipIdx.filter fun p =>
          max 0 (fromEnd (s.items key).length start) ≤ p.2 ∧
            p.2 ≤ max 0 (fromEnd (s.items key).length stop)).map Prod.fst ∧
      (∀ len first last, normalizeRange len start stop = some (first, last) →
        first ≤ last ∧ last < len) ∧
      ∀ len, len < 2 ^ 63 → ∀ a b : Int64, a.toInt = start → b.toInt = stop →
        normalizeRange64 len a b = some (normalizeRange len start stop) := by
  refine ⟨?_, ?_, fun len hlen a b ha hb => ha ▸ hb ▸ normalizeRange64_eq hlen a b⟩
  · have hw := map_fst_filter_zipIdx (max 0 (fromEnd (s.items key).length start)).toNat
      (max 0 (fromEnd (s.items key).length stop)).toNat (s.items key) 0
    rw [Nat.sub_zero, Nat.max_zero] at hw
    rw [lrange_eq_window, ← hw]
    -- both bounds are at least zero, so they compare with an index as natural numbers do
    congr 1
    apply List.filter_congr
    intro p _
    simp only [decide_eq_decide]
    omega
  · intro len first last h
    rw [normalizeRange_eq] at h
    split at h
    · simp only [Option.some.injEq, Prod.mk.injEq] at h
      omega
    · cases h

end Lists

end KvServer
