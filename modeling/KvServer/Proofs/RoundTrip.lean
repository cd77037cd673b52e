import Mathlib
import KvServer.Wire.Decode
import KvServer.Proofs.Decimal

/-!
# Writing a value and reading it back

A value is well formed when the wire format can carry it: no simple text or error holds a
carriage return followed by a line feed, no bulk text is longer than the largest bulk length,
no array holds more items than an unsigned 64-bit count can say (no array in memory does), and
arrays nest at most 32 deep. Reading the bytes of a well formed value, whatever follows them,
gives the value back and stops right after it. Every value that reading gives is well formed, so
a value read, written again and read again, comes back unchanged.

`decode_frame_round_trip` states both halves for the frame buffer.
-/

namespace KvServer

namespace Value

mutual
/-- How deeply arrays nest: zero for a value that is no array, one more than the deepest item for
an array. -/
def depth : Value → Nat
  | .array items => depthAll items + 1
  | _ => 0

/-- The greatest depth among values, zero for none. -/
def depthAll : List Value → Nat
  | [] => 0
  | v :: vs => max v.depth (depthAll vs)
end

mutual
/-- Whether every text and count of a value can be written where a reader finds it again. -/
def fits : Value → Bool
  | .simple s | .error s => !decide ([13, 10] <:+: utf8 s)
  | .bulk s => decide (s.utf8ByteSize ≤ Wire.maxBulkLength)
  | .integer _ | .null => true
  | .array items => decide (items.length < 18446744073709551616) && fitsAll items

/-- Whether every value of a list fits. -/
def fitsAll : List Value → Bool
  | [] => true
  | v :: vs => v.fits && fitsAll vs
end

/-- A value the wire format carries: its texts and counts fit, and its arrays nest no deeper than
a reader accepts. -/
def WellFormed (v : Value) : Prop :=
  v.fits = true ∧ v.depth ≤ Wire.maxNesting

instance : DecidablePred WellFormed := fun _ => inferInstanceAs (Decidable (_ ∧ _))

theorem depthAll_le_iff {vs : List Value} {n : Nat} : depthAll vs ≤ n ↔ ∀ v ∈ vs, v.depth ≤ n := by
  induction vs with
  | nil => simp [depthAll]
  | cons v vs ih => simp [depthAll, ih]

theorem fitsAll_iff {vs : List Value} : fitsAll vs = true ↔ ∀ v ∈ vs, v.fits = true := by
  induction vs with
  | nil => simp [fitsAll]
  | cons v vs ih => simp [fitsAll, ih]

/-! ## The bytes of a value -/

theorem utf8_append (s t : String) : utf8 (s ++ t) = utf8 s ++ utf8 t := by
  simp [utf8]

theorem length_utf8 (s : String) : (utf8 s).length = s.utf8ByteSize := by
  simp [utf8, String.size_toByteArray]

theorem utf8_ofList (cs : List Char) : utf8 (String.ofList cs) = cs.flatMap String.utf8EncodeChar := by
  simp [utf8, List.utf8Encode]

theorem utf8_renderAll (vs : List Value) : utf8 (renderAll vs) = vs.flatMap encode := by
  induction vs with
  | nil => rfl
  | cons v vs ih => rw [renderAll, utf8_append, ih, List.flatMap_cons, encode]

theorem encode_simple (s : String) : (simple s).encode = 43 :: (utf8 s ++ [13, 10]) := by
  simp only [encode, render, utf8_append]
  rfl

theorem encode_error (s : String) : (error s).encode = 45 :: (utf8 s ++ [13, 10]) := by
  simp only [encode, render, utf8_append]
  rfl

theorem encode_integer (n : Int64) :
    (integer n).encode = 58 :: (utf8 (Decimal.ofInt n.toInt) ++ [13, 10]) := by
  simp only [encode, render, utf8_append]
  rfl

theorem encode_bulk (s : String) :
    (bulk s).encode = 36 :: (utf8 (Decimal.ofNat s.utf8ByteSize) ++ 13 :: 10 :: (utf8 s ++ [13, 10])) := by
  simp only [encode, render, utf8_append, List.append_assoc]
  rfl

theorem encode_null : null.encode = [36, 45, 49, 13, 10] := by
  decide

theorem encode_array (items : List Value) :
    (array items).encode =
      42 :: (utf8 (Decimal.ofNat items.length) ++ 13 :: 10 :: items.flatMap encode) := by
  simp only [encode, render, utf8_append, utf8_renderAll, List.append_assoc]
  rfl

theorem encode_ne_nil (v : Value) : v.encode ≠ [] := by
  cases v <;> simp [encode_simple, encode_error, encode_integer, encode_bulk, encode_null, encode_array]

/-- The bytes of a decimal text hold no carriage return. -/
theorem cr_not_mem_utf8_ofNat (n : Nat) : 13 ∉ utf8 (Decimal.ofNat n) := by
  rw [Decimal.ofNat, utf8_ofList, List.mem_flatMap]
  rintro ⟨c, hc, hb⟩
  obtain ⟨d, hd, rfl⟩ := Decimal.mem_digits hc
  exact (Decimal.digitChar_spec d hd).2.2.2.2 hb

theorem cr_not_mem_utf8_ofInt (i : Int) : 13 ∉ utf8 (Decimal.ofInt i) := by
  unfold Decimal.ofInt
  split
  · rw [utf8_append, List.mem_append, not_or]
    exact ⟨by decide, cr_not_mem_utf8_ofNat _⟩
  · exact cr_not_mem_utf8_ofNat _

theorem crlf_not_infix_of_cr_not_mem {bs : List UInt8} (h : 13 ∉ bs) : ¬ [13, 10] <:+: bs :=
  fun hi => h (hi.subset (List.mem_cons_self ..))

end Value

open Value

/-! ## Lines -/

namespace Buffer

/-- A line without a line end inside is split off at the line end that follows it. -/
theorem splitLine_append {line : List UInt8} (h : ¬ [13, 10] <:+: line) (rest : List UInt8) :
    splitLine (line ++ 13 :: 10 :: rest) = some (line, rest) := by
  induction line with
  | nil => simp [splitLine]
  | cons x xs ih =>
    have hxs : ¬ [13, 10] <:+: xs := fun hi => h (hi.trans (List.infix_cons (List.infix_refl xs)))
    cases xs with
    | nil => simp [splitLine]
    | cons y ys =>
      have hxy : ¬ (x = 13 ∧ y = 10) := by
        rintro ⟨rfl, rfl⟩
        exact h (List.prefix_append [13, 10] ys).isInfix
      simp only [List.cons_append, splitLine, if_neg hxy]
      rw [← List.cons_append, ih hxs]
      rfl

/-- What `splitLine` splits off is a line without a line end inside, and the line end follows
it. -/
theorem splitLine_eq_some {bs line rest : List UInt8} (h : splitLine bs = some (line, rest)) :
    bs = line ++ 13 :: 10 :: rest ∧ ¬ [13, 10] <:+: line := by
  induction bs using splitLine.induct generalizing line with
  | case1 => simp [splitLine] at h
  | case2 => simp [splitLine] at h
  | case3 x y r hxy =>
    simp only [splitLine, if_pos hxy, Option.some.injEq, Prod.mk.injEq] at h
    obtain ⟨rfl, rfl⟩ := h
    obtain ⟨rfl, rfl⟩ := hxy
    exact ⟨rfl, by simp⟩
  | case4 x y r hxy ih =>
    simp only [splitLine, if_neg hxy] at h
    obtain ⟨⟨l, a⟩, hs, he⟩ := Option.map_eq_some_iff.mp h
    simp only [Prod.mk.injEq] at he
    obtain ⟨rfl, rfl⟩ := he
    obtain ⟨heq, hl⟩ := ih hs
    refine ⟨by rw [heq, List.cons_append], ?_⟩
    rw [List.infix_cons_iff, not_or]
    refine ⟨?_, hl⟩
    intro hp
    cases l with
    | nil => simp at hp
    | cons z zs =>
      simp only [List.cons_append, List.cons.injEq] at heq
      obtain ⟨hx, hz⟩ := List.cons_prefix_cons.1 hp
      exact hxy ⟨hx.symm, heq.1.trans (List.cons_prefix_cons.1 hz).1.symm⟩

end Buffer

namespace Wire

theorem textOf?_utf8 (s : String) : textOf? (utf8 s) = some s := by
  have h : (⟨(utf8 s).toArray⟩ : ByteArray) = s.toByteArray := by
    simp [utf8]
  simp only [textOf?, h, String.fromUTF8?, s.isValidUTF8, dif_pos]
  rfl

theorem utf8_of_textOf? {bs : List UInt8} {t : String} (h : textOf? bs = some t) : utf8 t = bs := by
  simp only [textOf?, String.fromUTF8?] at h
  split at h
  · cases h
    simp [utf8, String.fromUTF8]
  · cases h

theorem readText_append {t : String} (h : ¬ [13, 10] <:+: utf8 t) (rest : List UInt8) :
    readText (utf8 t ++ 13 :: 10 :: rest) = .done t rest := by
  simp [readText, Buffer.splitLine_append h, textOf?_utf8]

theorem readLength_ofNat {n : Nat} (hn : n < 18446744073709551616) (rest : List UInt8) :
    readLength (utf8 (Decimal.ofNat n) ++ 13 :: 10 :: rest) = .done (.count n) rest := by
  rw [readLength, readText_append (crlf_not_infix_of_cr_not_mem (cr_not_mem_utf8_ofNat n))]
  simp [Decimal.ofNat_ne_minus_one, Decimal.parseNat?_ofNat hn]

/-! ## Reading written values -/

theorem readInteger_encode (n : Int64) (rest : List UInt8) :
    readValue budget ((integer n).encode ++ rest) = .done (integer n) rest := by
  have hline : ¬ [13, 10] <:+: utf8 (Decimal.ofInt n.toInt) :=
    crlf_not_infix_of_cr_not_mem (cr_not_mem_utf8_ofInt _)
  rw [encode_integer, readValue.eq_def]
  simp [readText_append hline, Decimal.parseInt64?_ofInt]

theorem readBulk_encode {s : String} (hs : s.utf8ByteSize ≤ maxBulkLength) (rest : List UInt8) :
    readBulk s.utf8ByteSize (utf8 s ++ 13 :: 10 :: rest) = .done (bulk s) rest := by
  have hlen := length_utf8 s
  have htake : (utf8 s ++ 13 :: 10 :: rest).take s.utf8ByteSize = utf8 s := by
    rw [← hlen, List.take_left]
  have hdrop : (utf8 s ++ 13 :: 10 :: rest).drop s.utf8ByteSize = 13 :: 10 :: rest := by
    rw [← hlen, List.drop_left]
  have hshort : ¬ (utf8 s ++ 13 :: 10 :: rest).length < s.utf8ByteSize := by
    simp [hlen]
  simp only [readBulk, if_neg (Nat.not_lt.mpr hs), if_neg hshort, htake, hdrop, textOf?_utf8]

mutual
/-- A value that fits, with arrays no deeper than the budget, is read back from its bytes and
reading stops right after them. -/
theorem readValue_encode : ∀ (v : Value) (budget : Nat) (rest : List UInt8),
    v.fits = true → v.depth ≤ budget → readValue budget (v.encode ++ rest) = .done v rest
  | .simple s, _, rest, hf, _ => by
    simp only [fits, Bool.not_eq_true', decide_eq_false_iff_not] at hf
    rw [encode_simple, readValue.eq_def]
    simp [readText_append hf]
  | .error s, _, rest, hf, _ => by
    simp only [fits, Bool.not_eq_true', decide_eq_false_iff_not] at hf
    rw [encode_error, readValue.eq_def]
    simp [readText_append hf]
  | .integer n, _, rest, _, _ => readInteger_encode n rest
  | .bulk s, _, rest, hf, _ => by
    simp only [fits, decide_eq_true_eq] at hf
    have hn : s.utf8ByteSize < 18446744073709551616 := by
      simp only [maxBulkLength] at hf
      omega
    rw [encode_bulk, readValue.eq_def]
    simp [readLength_ofNat hn, readBulk_encode hf]
  | .null, _, rest, _, _ => by
    have htext : textOf? [45, 49] = some "-1" := by
      have h := textOf?_utf8 "-1"
      rwa [show utf8 "-1" = [45, 49] by decide] at h
    rw [encode_null, readValue.eq_def]
    simp [readLength, readText, Buffer.splitLine, htext]
  | .array items, budget, rest, hf, hd => by
    simp only [fits, Bool.and_eq_true, decide_eq_true_eq] at hf
    obtain ⟨b, rfl⟩ : ∃ b, budget = b + 1 := ⟨budget - 1, by simp only [depth] at hd; omega⟩
    have hitems : depthAll items ≤ b := by
      simp only [depth] at hd
      omega
    have hread := readItems_encode items b [] rest hf.2 hitems
    simp only [List.reverse_nil, List.nil_append] at hread
    rw [encode_array, readValue.eq_def]
    simp [readLength_ofNat hf.1, hread]

/-- Items that fit are read back one after the other, behind the items read before. -/
theorem readItems_encode : ∀ (vs : List Value) (budget : Nat) (acc : List Value)
    (rest : List UInt8), fitsAll vs = true → depthAll vs ≤ budget →
    readItems (fun xs => readValue budget xs) vs.length acc (vs.flatMap encode ++ rest) =
      .done (.array (acc.reverse ++ vs)) rest
  | [], _, acc, rest, _, _ => by simp [readItems]
  | v :: vs, budget, acc, rest, hf, hd => by
    simp only [fitsAll, Bool.and_eq_true] at hf
    simp only [depthAll, Nat.max_le] at hd
    rw [List.flatMap_cons, List.append_assoc, List.length_cons, readItems,
      readValue_encode v budget _ hf.1 hd.1]
    dsimp only
    rw [readItems_encode vs budget (v :: acc) rest hf.2 hd.2]
    simp
end

theorem read_encode {v : Value} (hv : v.WellFormed) (rest : List UInt8) :
    read (v.encode ++ rest) = .done v rest :=
  readValue_encode v maxNesting rest hv.1 hv.2

/-! ## What reading gives is well formed -/

theorem readText_done {bs rest : List UInt8} {t : String} (h : readText bs = .done t rest) :
    bs = utf8 t ++ 13 :: 10 :: rest ∧ ¬ [13, 10] <:+: utf8 t := by
  unfold readText at h
  split at h
  · cases h
  · rename_i line after hs
    split at h
    · rename_i t' ht
      cases h
      rw [utf8_of_textOf? ht]
      exact Buffer.splitLine_eq_some hs
    · cases h

theorem lt_of_readLength {bs rest : List UInt8} {n : Nat} (h : readLength bs = .done (.count n) rest) :
    n < 18446744073709551616 := by
  unfold readLength at h
  split at h
  · split at h
    · cases h
    · split at h
      · rename_i hn
        cases h
        simp only [Decimal.parseNat?, Option.filter_eq_some_iff, decide_eq_true_eq] at hn
        exact hn.2
      · cases h
  · cases h
  · cases h

theorem readBulk_done {n : Nat} {bs rest : List UInt8} {v : Value} (h : readBulk n bs = .done v rest) :
    ∃ t, v = .bulk t ∧ t.utf8ByteSize ≤ maxBulkLength := by
  unfold readBulk at h
  split at h
  · cases h
  · rename_i hn
    split at h
    · cases h
    · dsimp only at h
      split at h
      · cases h
      · rename_i t ht
        have hlen : t.utf8ByteSize ≤ n := by
          rw [← length_utf8, utf8_of_textOf? ht]
          exact List.length_take_le _ _
        split at h <;> cases h
        exact ⟨t, rfl, by omega⟩

theorem readItems_done {item : List UInt8 → Step Value} {n : Nat} {acc : List Value}
    {bs rest : List UInt8} {v : Value} (h : readItems item n acc bs = .done v rest) :
    ∃ items, v = .array (acc.reverse ++ items) ∧ items.length = n ∧
      ∀ x ∈ items, ∃ bs' r, item bs' = .done x r := by
  induction n generalizing acc bs with
  | zero =>
    simp only [readItems, Step.done.injEq] at h
    exact ⟨[], by simp [h.1], rfl, by simp⟩
  | succ n ih =>
    simp only [readItems] at h
    split at h
    · rename_i x r hx
      obtain ⟨items, rfl, hlen, hall⟩ := ih h
      refine ⟨x :: items, by simp, by simp [hlen], ?_⟩
      intro y hy
      rcases List.mem_cons.1 hy with rfl | hy
      · exact ⟨bs, r, hx⟩
      · exact hall y hy
    · cases h
    · cases h

/-- Every value read fits, and nests no deeper than the budget it was read with. -/
theorem fits_of_readValue {budget : Nat} {bs rest : List UInt8} {v : Value}
    (h : readValue budget bs = .done v rest) : v.fits = true ∧ v.depth ≤ budget := by
  induction budget using Nat.strongRecOn generalizing bs v rest with
  | ind budget ih =>
    rw [readValue.eq_def] at h
    split at h
    · cases h
    · rename_i b bs
      split_ifs at h
      · -- a simple text
        split at h
        · rename_i t r ht
          cases h
          simpa [fits, depth] using (readText_done ht).2
        all_goals cases h
      · -- an error
        split at h
        · rename_i t r ht
          cases h
          simpa [fits, depth] using (readText_done ht).2
        all_goals cases h
      · -- an integer
        split at h
        · split at h <;> cases h
          simp [fits, depth]
        all_goals cases h
      · -- a bulk text or null
        split at h
        · cases h
          simp [fits, depth]
        · obtain ⟨t, rfl, ht⟩ := readBulk_done h
          simp [fits, depth, ht]
        all_goals cases h
      · -- an array or null, one level of the budget spent
        split at h
        · cases h
        · rename_i b
          split at h
          · cases h
            simp [fits, depth]
          · rename_i n r hn
            obtain ⟨items, rfl, hlen, hall⟩ := readItems_done h
            have hitems : ∀ x ∈ items, x.fits = true ∧ x.depth ≤ b := by
              intro x hx
              obtain ⟨bs', r', hx⟩ := hall x hx
              exact ih b (by omega) hx
            have hn := lt_of_readLength hn
            simp only [List.reverse_nil, List.nil_append] at hlen ⊢
            refine ⟨?_, ?_⟩
            · simp only [fits, Bool.and_eq_true, decide_eq_true_eq, fitsAll_iff]
              exact ⟨by omega, fun x hx => (hitems x hx).1⟩
            · have := depthAll_le_iff.2 fun x hx => (hitems x hx).2
              simp only [depth]
              omega
          all_goals cases h

end Wire

namespace Buffer

/-- Decoding at a buffer whose unread bytes start with a well formed value gives the value and
moves the cursor past its bytes. -/
theorem decode_encode {v : Value} (hv : v.WellFormed) {b : Buffer} {rest : List UInt8}
    (h : b.unread = v.encode ++ rest) : b.decode = (.ok (.frame v), b.advance v.encode.length) := by
  simp only [decode, h, Wire.read_encode hv, List.length_append, Nat.add_sub_cancel]

theorem wellFormed_of_decode {b b' : Buffer} {v : Value} (h : b.decode = (.ok (.frame v), b')) :
    v.WellFormed := by
  unfold decode at h
  split at h
  · rename_i w r hw
    simp only [Prod.mk.injEq, Except.ok.injEq, Decoded.frame.injEq] at h
    obtain ⟨rfl, -⟩ := h
    exact Wire.fits_of_readValue hw
  · simp at h
  · simp at h

/-- **Round trip.** A well formed value at the front of the unread bytes, whatever follows it, is
decoded as itself and the cursor moves exactly past its bytes; and every decoded frame is well
formed, so writing it and decoding it again gives it back. -/
theorem decode_frame_round_trip :
    (∀ (v : Value) (rest : List UInt8) (b : Buffer), v.WellFormed → b.unread = v.encode ++ rest →
      b.decode = (.ok (.frame v), b.advance v.encode.length)) ∧
    (∀ (b b' : Buffer) (v : Value), b.decode = (.ok (.frame v), b') →
      v.WellFormed ∧ ∀ (rest : List UInt8) (c : Buffer), c.unread = v.encode ++ rest →
        c.decode = (.ok (.frame v), c.advance v.encode.length)) :=
  ⟨fun _ _ _ hv h => decode_encode hv h,
    fun _ _ _ h => ⟨wellFormed_of_decode h, fun _ _ => decode_encode (wellFormed_of_decode h)⟩⟩

end Buffer

end KvServer
