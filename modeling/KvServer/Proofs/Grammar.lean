import Mathlib
import KvServer.Proofs.ReplyShapes
import KvServer.Proofs.Chunking

/-!
# The grammar of the wire format

`Wire.Derives d w v` says that the bytes `w` are a complete wire text of `v`, read where `d`
arrays are already open. A simple text or an error is its prefix byte, a line of UTF-8 with no
line end inside, and a line end. An integer is a line that the signed 64-bit reader accepts. Null
is the length line `-1` behind `$`, or behind `*` where one more array may open. A bulk text is a
length line other than `-1` that the unsigned 64-bit reader accepts, at most the largest bulk
length, then that many bytes of UTF-8 and a line end. An array, where one more may open, is a
count line followed by that many items, each derived one level deeper.

Reading is exact for this grammar (`Wire.readValue_iff_derives`): reading finds a value and stops
before `rest` exactly when the bytes are a derivation of that value followed by `rest`. Reading is
a function, so no two front parts of the same bytes derive values. `Buffer.decode_accepts_grammar`
states this at a buffer's read position.
-/

namespace KvServer

open Value

/-! ## Texts the number readers accept -/

namespace Decimal

theorem isDigit_of_ofDigits? {cs : List Char} {n : Nat} (h : ofDigits? cs = some n) :
    ∀ c ∈ cs, c.isDigit = true := by
  unfold ofDigits? at h
  split at h
  · rename_i hcs
    exact List.all_eq_true.1 hcs.2
  · cases h

theorem cr_not_mem_of_isDigit {cs : List Char} (h : ∀ c ∈ cs, c.isDigit = true) : '\r' ∉ cs :=
  fun hm => absurd (h _ hm) (by decide)

/-- A text the unsigned reader accepts is digits behind an optional `+`: no carriage return. -/
theorem cr_not_mem_of_parseNat? {bound n : Nat} {t : String} (h : parseNat? bound t = some n) :
    '\r' ∉ t.toList := by
  unfold parseNat? at h
  obtain ⟨hd, -⟩ := Option.filter_eq_some_iff.1 h
  split at hd
  · rename_i rest heq
    rw [heq, List.mem_cons, not_or]
    exact ⟨by decide, cr_not_mem_of_isDigit (isDigit_of_ofDigits? hd)⟩
  · exact cr_not_mem_of_isDigit (isDigit_of_ofDigits? hd)

/-- A text the signed reader accepts is digits behind an optional sign: no carriage return. -/
theorem cr_not_mem_of_parseInt? {lo hi i : Int} {t : String} (h : parseInt? lo hi t = some i) :
    '\r' ∉ t.toList := by
  unfold parseInt? at h
  obtain ⟨hv, -⟩ := Option.filter_eq_some_iff.1 h
  -- each branch reads a run of digits, and reads it only when it is one
  split at hv
  · rename_i rest heq
    cases hd : ofDigits? rest with
    | none => simp [hd] at hv
    | some m =>
      rw [heq, List.mem_cons, not_or]
      exact ⟨by decide, cr_not_mem_of_isDigit (isDigit_of_ofDigits? hd)⟩
  · rename_i rest heq
    cases hd : ofDigits? rest with
    | none => simp [hd] at hv
    | some m =>
      rw [heq, List.mem_cons, not_or]
      exact ⟨by decide, cr_not_mem_of_isDigit (isDigit_of_ofDigits? hd)⟩
  · cases hd : ofDigits? t.toList with
    | none => simp [hd] at hv
    | some m => exact cr_not_mem_of_isDigit (isDigit_of_ofDigits? hd)

end Decimal

namespace Wire

/-! ## The grammar -/

/-- `Derives d w v`: the bytes `w` are a complete wire text of `v`, read where `d` arrays are
already open. -/
inductive Derives : Nat → List UInt8 → Value → Prop
  | simple {d : Nat} {t : String} (line : ¬ [13, 10] <:+: utf8 t) :
      Derives d (43 :: (utf8 t ++ [13, 10])) (.simple t)
  | error {d : Nat} {t : String} (line : ¬ [13, 10] <:+: utf8 t) :
      Derives d (45 :: (utf8 t ++ [13, 10])) (.error t)
  | integer {d : Nat} {t : String} {i : Int} (text : Decimal.parseInt64? t = some i) :
      Derives d (58 :: (utf8 t ++ [13, 10])) (.integer (Int64.ofInt i))
  | nullBulk {d : Nat} : Derives d (36 :: (utf8 "-1" ++ [13, 10])) .null
  | nullArray {d : Nat} (room : d < maxNesting) : Derives d (42 :: (utf8 "-1" ++ [13, 10])) .null
  | bulk {d n : Nat} {t b : String} (notNull : t ≠ "-1") (length : Decimal.parseUInt64? t = some n)
      (bound : n ≤ maxBulkLength) (size : (utf8 b).length = n) :
      Derives d (36 :: (utf8 t ++ 13 :: 10 :: (utf8 b ++ [13, 10]))) (.bulk b)
  /-- Each item is given by its bytes and the value they derive one level deeper. -/
  | array {d : Nat} {t : String} (items : List (List UInt8 × Value)) (room : d < maxNesting)
      (count : Decimal.parseUInt64? t = some items.length)
      (each : ∀ p ∈ items, Derives (d + 1) p.1 p.2) :
      Derives d (42 :: (utf8 t ++ 13 :: 10 :: (items.map Prod.fst).flatten))
        (.array (items.map Prod.snd))

/-! ## Lines and lengths -/

theorem readLength_null (rest : List UInt8) :
    readLength (utf8 "-1" ++ 13 :: 10 :: rest) = .done .null rest := by
  have hline : ¬ [13, 10] <:+: utf8 "-1" := crlf_not_infix_of_cr_not_mem (by decide)
  simp [readLength, readText_append hline]

theorem readLength_count {t : String} {n : Nat} (hnull : t ≠ "-1")
    (ht : Decimal.parseUInt64? t = some n) (rest : List UInt8) :
    readLength (utf8 t ++ 13 :: 10 :: rest) = .done (.count n) rest := by
  have hline := crlf_not_infix_of_cr_not_mem_toList (Decimal.cr_not_mem_of_parseNat? ht)
  rw [readLength, readText_append hline]
  simp only [if_neg hnull]
  rw [show Decimal.parseNat? 18446744073709551616 t = some n from ht]

theorem eq_of_readLength_null {bs rest : List UInt8} (h : readLength bs = .done .null rest) :
    bs = utf8 "-1" ++ 13 :: 10 :: rest := by
  unfold readLength at h
  split at h
  · rename_i t r ht
    split at h
    · rename_i hnull
      cases h
      rw [← hnull]
      exact (readText_done ht).1
    · split at h <;> cases h
  · cases h
  · cases h

theorem eq_of_readLength_count {bs rest : List UInt8} {n : Nat}
    (h : readLength bs = .done (.count n) rest) :
    ∃ t, bs = utf8 t ++ 13 :: 10 :: rest ∧ t ≠ "-1" ∧ Decimal.parseUInt64? t = some n := by
  unfold readLength at h
  split at h
  · rename_i t r ht
    split at h
    · cases h
    · rename_i hnull
      split at h
      · rename_i m hm
        cases h
        exact ⟨t, (readText_done ht).1, hnull, hm⟩
      · cases h
  · cases h
  · cases h

/-- A bulk body read by its length is that many bytes of UTF-8 followed by a line end. -/
theorem eq_of_readBulk_done {n : Nat} {bs rest : List UInt8} {v : Value}
    (h : readBulk n bs = .done v rest) :
    n ≤ maxBulkLength ∧ ∃ b, v = .bulk b ∧ (utf8 b).length = n ∧ bs = utf8 b ++ 13 :: 10 :: rest := by
  unfold readBulk at h
  split at h
  · cases h
  · rename_i hmax
    split at h
    · cases h
    · rename_i hlong
      dsimp only at h
      split at h
      · cases h
      · rename_i b hb
        have hbytes := utf8_of_textOf? hb
        split at h
        · rename_i r hd
          cases h
          refine ⟨by omega, b, rfl, by rw [hbytes, List.length_take]; omega, ?_⟩
          rw [hbytes, ← hd, List.take_append_drop]
        all_goals cases h

/-! ## Items -/

/-- Items read one after another from their bytes, behind the items read before. -/
theorem readItems_flatten {item : List UInt8 → Step Value} (items : List (List UInt8 × Value))
    (h : ∀ p ∈ items, ∀ rest, item (p.1 ++ rest) = .done p.2 rest) (acc : List Value)
    (rest : List UInt8) :
    readItems item items.length acc ((items.map Prod.fst).flatten ++ rest) =
      .done (.array (acc.reverse ++ items.map Prod.snd)) rest := by
  induction items generalizing acc with
  | nil => simp [readItems]
  | cons p items ih =>
    rw [List.length_cons, List.map_cons, List.flatten_cons, List.append_assoc, readItems,
      h p List.mem_cons_self]
    dsimp only
    rw [ih (fun q hq => h q (List.mem_cons_of_mem _ hq)) (p.2 :: acc)]
    simp

/-- What reading `n` items finds is `n` front parts of the bytes, each read as its item. -/
theorem readItems_done_items {item : List UInt8 → Step Value} {P : List UInt8 → Value → Prop}
    (hitem : ∀ bs v rest, item bs = .done v rest → ∃ w, bs = w ++ rest ∧ P w v) (n : Nat) :
    ∀ (acc : List Value) (bs rest : List UInt8) (v : Value), readItems item n acc bs = .done v rest →
      ∃ items : List (List UInt8 × Value), items.length = n ∧ (∀ p ∈ items, P p.1 p.2) ∧
        bs = (items.map Prod.fst).flatten ++ rest ∧ v = .array (acc.reverse ++ items.map Prod.snd) := by
  induction n with
  | zero =>
    intro acc bs rest v h
    simp only [readItems, Step.done.injEq] at h
    obtain ⟨rfl, rfl⟩ := h
    exact ⟨[], rfl, by simp, rfl, by simp⟩
  | succ n ih =>
    intro acc bs rest v h
    simp only [readItems] at h
    split at h
    · rename_i x r hx
      obtain ⟨w, rfl, hw⟩ := hitem bs x r hx
      obtain ⟨items, hlen, hall, rfl, rfl⟩ := ih (x :: acc) r rest v h
      refine ⟨(w, x) :: items, by simp [hlen], ?_, by simp, by simp⟩
      intro p hp
      rcases List.mem_cons.1 hp with rfl | hp
      · exact hw
      · exact hall p hp
    · cases h
    · cases h

/-! ## Reading is exact for the grammar -/

/-- **Completeness.** A derivation is read as its value, whatever follows it, and reading stops
right after it. -/
theorem readValue_of_derives {d : Nat} {w : List UInt8} {v : Value} (h : Derives d w v) :
    ∀ rest, readValue (maxNesting - d) (w ++ rest) = .done v rest := by
  induction h with
  | simple line =>
    intro rest
    rw [readValue.eq_def]
    simp [readText_append line]
  | error line =>
    intro rest
    rw [readValue.eq_def]
    simp [readText_append line]
  | integer text =>
    intro rest
    have hline := crlf_not_infix_of_cr_not_mem_toList (Decimal.cr_not_mem_of_parseInt? text)
    rw [readValue.eq_def]
    simp [readText_append hline, show Decimal.parseInt64? _ = _ from text]
  | nullBulk =>
    intro rest
    rw [readValue.eq_def]
    simp [readLength_null]
  | @nullArray d room =>
    intro rest
    obtain ⟨b, hb⟩ : ∃ b, maxNesting - d = b + 1 := ⟨_, (Nat.succ_pred_eq_of_pos (by omega)).symm⟩
    rw [hb, readValue.eq_def]
    simp [readLength_null]
  | @bulk d n t b notNull length bound size =>
    intro rest
    have hbulk : readBulk n (utf8 b ++ 13 :: 10 :: rest) = .done (.bulk b) rest := by
      rw [← size, length_utf8]
      exact readBulk_encode (by rw [← length_utf8, size]; exact bound) rest
    rw [readValue.eq_def]
    simp [readLength_count notNull length, hbulk]
  | @array d t items room count each ih =>
    intro rest
    -- one more array may open here, and its items are read with one level less
    obtain ⟨b, hb⟩ : ∃ b, maxNesting - d = b + 1 := ⟨_, (Nat.succ_pred_eq_of_pos (by omega)).symm⟩
    have hitems : ∀ p ∈ items, ∀ r, readValue b (p.1 ++ r) = .done p.2 r := by
      intro p hp r
      rw [show b = maxNesting - (d + 1) by omega]
      exact ih p hp r
    have hread := readItems_flatten items hitems [] rest
    rw [hb, readValue.eq_def]
    simp only [List.reverse_nil, List.nil_append] at hread
    simp [readLength_count (by rintro rfl; cases count) count, hread]

/-- **Soundness.** What reading finds is a derivation at the front of the bytes, followed by the
bytes where reading stopped. -/
theorem derives_of_readValue {budget : Nat} {bs rest : List UInt8} {v : Value} {d : Nat}
    (hd : budget = maxNesting - d) (h : readValue budget bs = .done v rest) :
    ∃ w, bs = w ++ rest ∧ Derives d w v := by
  induction budget using Nat.strongRecOn generalizing bs v rest d with
  | ind budget ih =>
    rw [readValue.eq_def] at h
    split at h
    · cases h
    · rename_i b bs
      split_ifs at h with h43 h45 h58 h36 h42
      · -- a simple text
        split at h
        · rename_i t r ht
          cases h
          obtain ⟨rfl, hline⟩ := readText_done ht
          exact ⟨_, by simp [h43], .simple hline⟩
        all_goals cases h
      · -- an error
        split at h
        · rename_i t r ht
          cases h
          obtain ⟨rfl, hline⟩ := readText_done ht
          exact ⟨_, by simp [h45], .error hline⟩
        all_goals cases h
      · -- an integer
        split at h
        · rename_i t r ht
          split at h
          · rename_i i hi
            cases h
            obtain ⟨rfl, -⟩ := readText_done ht
            exact ⟨_, by simp [h58], .integer hi⟩
          · cases h
        all_goals cases h
      · -- a bulk text or null
        split at h
        · rename_i r hl
          cases h
          exact ⟨_, by simp [h36, eq_of_readLength_null hl], .nullBulk⟩
        · rename_i n r hl
          obtain ⟨t, rfl, hnull, hn⟩ := eq_of_readLength_count hl
          obtain ⟨hmax, b, rfl, hsize, rfl⟩ := eq_of_readBulk_done h
          exact ⟨_, by simp [h36], .bulk hnull hn hmax hsize⟩
        all_goals cases h
      · -- an array or null, one level of the budget spent
        split at h
        · cases h
        · rename_i b
          have hroom : d < maxNesting := by omega
          split at h
          · rename_i r hl
            cases h
            exact ⟨_, by simp [h42, eq_of_readLength_null hl], .nullArray hroom⟩
          · rename_i n r hl
            obtain ⟨t, rfl, -, hn⟩ := eq_of_readLength_count hl
            have hitem : ∀ xs x r', readValue b xs = .done x r' →
                ∃ w, xs = w ++ r' ∧ Derives (d + 1) w x :=
              fun xs x r' hx => ih b (by omega) (by omega) hx
            obtain ⟨items, hlen, hall, rfl, rfl⟩ := readItems_done_items hitem n [] r rest v h
            refine ⟨42 :: (utf8 t ++ 13 :: 10 :: (items.map Prod.fst).flatten), by simp [h42], ?_⟩
            simpa using Derives.array items hroom (by rw [hlen]; exact hn) hall
          all_goals cases h

/-- Reading from the front of some bytes finds `v` and stops before `rest` exactly when the bytes
are a derivation of `v` followed by `rest`. -/
theorem readValue_iff_derives {d : Nat} {bs rest : List UInt8} {v : Value} :
    readValue (maxNesting - d) bs = .done v rest ↔ ∃ w, bs = w ++ rest ∧ Derives d w v := by
  constructor
  · exact derives_of_readValue rfl
  · rintro ⟨w, rfl, hw⟩
    exact readValue_of_derives hw rest

theorem derives_of_read {bs rest : List UInt8} {v : Value} (h : read bs = .done v rest) :
    ∃ w, bs = w ++ rest ∧ Derives 0 w v :=
  readValue_iff_derives.1 h

theorem read_of_derives {w : List UInt8} {v : Value} (h : Derives 0 w v) (rest : List UInt8) :
    read (w ++ rest) = .done v rest :=
  readValue_iff_derives.2 ⟨w, rfl, h⟩

end Wire

/-! ## At a buffer's read position -/

namespace Buffer

/-- Decoding finds `v` and moves the read position `n` bytes on exactly when the first `n` unread
bytes derive `v`. -/
theorem decode_frame_iff_derives (b : Buffer) (v : Value) (n : Nat) :
    b.decode = (.ok (.frame v), b.advance n) ↔
      n ≤ b.unread.length ∧ Wire.Derives 0 (b.unread.take n) v := by
  rw [decode_eq]
  constructor
  · intro h
    cases hr : Wire.read b.unread with
    | done v' r =>
      rw [hr] at h
      simp only [Wire.Step.answer, Wire.Step.rest, Prod.mk.injEq, Except.ok.injEq,
        Decoded.frame.injEq] at h
      obtain ⟨rfl, hadv⟩ := h
      obtain ⟨w, hw, hd⟩ := Wire.derives_of_read hr
      -- the read position moved past exactly the derived bytes
      have hn : n = w.length := by
        have hcur := congrArg Buffer.cursor hadv
        simp only [advance, hw, List.length_append] at hcur
        omega
      subst hn
      exact ⟨by simp [hw], by rw [hw, List.take_left]; exact hd⟩
    | incomplete r =>
      rw [hr] at h
      simp [Wire.Step.answer] at h
    | failed e r =>
      rw [hr] at h
      simp [Wire.Step.answer] at h
  · rintro ⟨hn, hd⟩
    have hr : Wire.read b.unread = .done v (b.unread.drop n) := by
      have := Wire.read_of_derives hd (b.unread.drop n)
      rwa [List.take_append_drop] at this
    rw [hr]
    simp only [Wire.Step.answer, Wire.Step.rest, List.length_drop]
    congr 2
    omega

/-- **Decoding accepts exactly the grammar.** Decoding at a buffer's read position gives the frame
`v` and moves the read position `n` bytes on exactly when the first `n` unread bytes derive `v` at
depth zero; and when no front part of the unread bytes derives a value, decoding answers
`incomplete` or an error. -/
theorem decode_accepts_grammar (b : Buffer) :
    (∀ v n, b.decode = (.ok (.frame v), b.advance n) ↔
      n ≤ b.unread.length ∧ Wire.Derives 0 (b.unread.take n) v) ∧
    ((∀ w v, w <+: b.unread → ¬ Wire.Derives 0 w v) →
      b.decode.1 = .ok .incomplete ∨ ∃ e, b.decode.1 = .error e) := by
  refine ⟨decode_frame_iff_derives b, fun hnone => ?_⟩
  rw [decode_eq]
  cases hr : Wire.read b.unread with
  | done v r =>
    obtain ⟨w, hw, hd⟩ := Wire.derives_of_read hr
    exact absurd hd (hnone w v ⟨r, hw.symm⟩)
  | incomplete r => exact .inl rfl
  | failed e r => exact .inr ⟨e, rfl⟩

end Buffer

end KvServer
