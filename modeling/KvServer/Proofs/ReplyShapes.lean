import Mathlib
import KvServer.Proofs.RoundTrip
import KvServer.Command.Execute

/-!
# What replies are made of

A reply is a frame when its simple texts and errors hold no line break and its bulk texts and
arrays are not too long. This module gathers the facts about texts and sizes that the replies
of the server need.

The UTF-8 bytes of a text hold a carriage return only where the text holds that character, so a
text naming a verb holds none, and neither does any error message but the one quoting an unknown
verb, which holds a line break exactly when the verb does. A decimal text has one byte per digit;
the INFO report stays far below the largest bulk text while its counters and the master's host
name do; and the encoding of a request array grows linearly with its parts.
-/

namespace KvServer

namespace Value

/-! ## Line breaks -/

/-- The only character whose UTF-8 bytes hold a carriage return is the carriage return. -/
theorem eq_cr_of_mem_utf8EncodeChar {c : Char} (h : 13 ∈ String.utf8EncodeChar c) : c = '\r' := by
  -- every byte of an encoding longer than one byte has its high bit set
  have high : ∀ y m : UInt8, 128 ≤ m.toNat → 13 ≠ (y ||| m) := by
    intro y m hm hy
    have hn := congrArg UInt8.toNat hy
    rw [UInt8.toNat_or] at hn
    have := Nat.right_le_or (n := y.toNat) (m := m.toNat)
    simp only [UInt8.toNat_ofNat] at hn
    omega
  rcases (by have := c.utf8Size_pos; have := c.utf8Size_le_four; omega :
      c.utf8Size = 1 ∨ c.utf8Size = 2 ∨ c.utf8Size = 3 ∨ c.utf8Size = 4) with h1 | h2 | h3 | h4
  · rw [String.utf8EncodeChar_eq_singleton h1, List.mem_singleton] at h
    have hsmall := (Char.utf8Size_eq_one_iff).1 h1
    have hbyte := congrArg UInt8.toNat h
    simp only [UInt32.toNat_toUInt8, UInt8.toNat_ofNat] at hbyte
    rw [UInt32.le_iff_toNat_le] at hsmall
    apply Char.ext
    apply UInt32.toNat_inj.1
    simp at hsmall hbyte ⊢
    omega
  · rw [String.utf8EncodeChar_eq_cons_cons h2] at h
    simp only [List.mem_cons, List.not_mem_nil, or_false] at h
    rcases h with h | h <;> exact absurd h (high _ _ (by decide))
  · rw [String.utf8EncodeChar_eq_cons_cons_cons h3] at h
    simp only [List.mem_cons, List.not_mem_nil, or_false] at h
    rcases h with h | h | h <;> exact absurd h (high _ _ (by decide))
  · rw [String.utf8EncodeChar_eq_cons_cons_cons_cons h4] at h
    simp only [List.mem_cons, List.not_mem_nil, or_false] at h
    rcases h with h | h | h | h <;> exact absurd h (high _ _ (by decide))

theorem cr_mem_toList_of_mem_utf8 {s : String} (h : 13 ∈ utf8 s) : '\r' ∈ s.toList := by
  rw [← String.ofList_toList (s := s), utf8_ofList, List.mem_flatMap] at h
  obtain ⟨c, hc, hb⟩ := h
  rwa [← eq_cr_of_mem_utf8EncodeChar hb]

theorem crlf_not_infix_of_cr_not_mem_toList {s : String} (h : '\r' ∉ s.toList) :
    ¬ [13, 10] <:+: utf8 s :=
  crlf_not_infix_of_cr_not_mem fun h13 => h (cr_mem_toList_of_mem_utf8 h13)

theorem pair_infix_append_left {a b : UInt8} {xs : List UInt8} (h : a ∉ xs) (l : List UInt8) :
    [a, b] <:+: xs ++ l ↔ [a, b] <:+: l := by
  induction xs with
  | nil => rfl
  | cons x xs ih =>
    rw [List.mem_cons, not_or] at h
    rw [List.cons_append, List.infix_cons_iff, ih h.2]
    simp [h.1]

theorem pair_infix_append_right {a b : UInt8} {ys : List UInt8} (h : b ∉ ys) (l : List UInt8) :
    [a, b] <:+: l ++ ys ↔ [a, b] <:+: l := by
  -- read backwards, the pair is `[b, a]` and `ys` comes first
  have hrev : ∀ m : List UInt8, [a, b] <:+: m ↔ [b, a] <:+: m.reverse := by
    intro m
    rw [← List.reverse_infix]
    rfl
  rw [hrev, hrev, List.reverse_append, pair_infix_append_left (by simpa using h)]

/-! ## Values an array of replies may hold -/

/-- A well formed value whose items are no arrays: what an array of replies may hold. -/
def Flat (v : Value) : Prop :=
  v.WellFormed ∧ v.depth ≤ 1

theorem wellFormed_simple_iff (t : String) : (simple t).WellFormed ↔ ¬ [13, 10] <:+: utf8 t := by
  simp [WellFormed, fits, depth]

theorem wellFormed_error_iff (t : String) : (error t).WellFormed ↔ ¬ [13, 10] <:+: utf8 t := by
  simp [WellFormed, fits, depth]

theorem flat_simple {t : String} (h : ¬ [13, 10] <:+: utf8 t) : (simple t).Flat :=
  ⟨(wellFormed_simple_iff t).2 h, by simp [depth]⟩

theorem flat_error {t : String} (h : ¬ [13, 10] <:+: utf8 t) : (error t).Flat :=
  ⟨(wellFormed_error_iff t).2 h, by simp [depth]⟩

theorem flat_bulk {t : String} (h : t.utf8ByteSize ≤ Wire.maxBulkLength) : (bulk t).Flat := by
  simp [Flat, WellFormed, fits, depth, h]

theorem flat_integer (n : Int64) : (integer n).Flat := by
  simp [Flat, WellFormed, fits, depth]

theorem flat_null : null.Flat := by
  simp [Flat, WellFormed, fits, depth]

theorem flat_ok : ok.Flat :=
  flat_simple (crlf_not_infix_of_cr_not_mem (by decide))

theorem flat_command {parts : List String} (hl : parts.length < 2 ^ 64)
    (h : ∀ p ∈ parts, p.utf8ByteSize ≤ Wire.maxBulkLength) : (command parts).Flat := by
  have hfits : fitsAll (parts.map bulk) = true := by
    rw [fitsAll_iff]
    intro v hv
    obtain ⟨p, hp, rfl⟩ := List.mem_map.1 hv
    simpa [fits] using h p hp
  have hdepth : depthAll (parts.map bulk) ≤ 0 := by
    rw [depthAll_le_iff]
    intro v hv
    obtain ⟨p, -, rfl⟩ := List.mem_map.1 hv
    simp [depth]
  refine ⟨⟨?_, ?_⟩, ?_⟩
  · simpa [command, fits, hfits] using hl
  · simp only [command, depth, Wire.maxNesting]
    omega
  · simp only [command, depth]
    omega

/-- An array of flat values, fewer than `2 ^ 64` of them, is well formed. -/
theorem wellFormed_array {vs : List Value} (hl : vs.length < 2 ^ 64) (h : ∀ v ∈ vs, v.Flat) :
    (array vs).WellFormed := by
  have hfits : fitsAll vs = true := fitsAll_iff.2 fun v hv => (h v hv).1.1
  have hdepth : depthAll vs ≤ 1 := depthAll_le_iff.2 fun v hv => (h v hv).2
  refine ⟨by simpa [fits, hfits] using hl, ?_⟩
  simp only [depth, Wire.maxNesting]
  omega

end Value

open Value

/-! ## Verbs and errors -/

namespace Verb

theorem mem_all (v : Verb) : v ∈ all := by
  cases v with
  | action a => cases a <;> decide
  | multi | exec | discard => decide

/-- A text that names a verb holds no carriage return: its letters raised are the verb's keyword. -/
theorem cr_not_mem_of_parse? {s : String} {v : Verb} (h : parse? s = some v) : '\r' ∉ s.toList := by
  have hkw : ∀ v ∈ all, '\r' ∉ v.keyword.toList := by decide +kernel
  have hv := List.mem_of_find?_eq_some h
  have hu : v.keyword = upper s := by simpa using List.find?_some h
  intro hr
  apply hkw v hv
  rw [hu, upper, String.toList_ofList]
  exact List.mem_map.2 ⟨'\r', hr, rfl⟩

theorem utf8ByteSize_keyword_le (v : Verb) : v.keyword.utf8ByteSize ≤ 8 := by
  have hkw : ∀ v ∈ all, v.keyword.utf8ByteSize ≤ 8 := by decide +kernel
  exact hkw v (mem_all v)

end Verb

namespace CommandError

/-- Whether the error's message quotes a text the client sent: only an unknown verb's does. -/
def Quotes : CommandError → Prop
  | .unknownCommand _ => True
  | _ => False

theorem reply_flat {e : CommandError} (h : ¬ e.Quotes) : e.reply.Flat := by
  apply flat_error
  apply crlf_not_infix_of_cr_not_mem_toList
  cases e with
  | unknownCommand name => exact absurd trivial h
  | wrongArity v =>
    -- the message quotes the verb's name, which holds no carriage return
    have hname : ∀ v ∈ Verb.all, '\r' ∉ v.name.toList := by decide +kernel
    have hlit : '\r' ∉ "ERR ".toList ∧ '\r' ∉ "wrong number of arguments for '".toList ∧
        '\r' ∉ "' command".toList := by decide
    show '\r' ∉ ("ERR " ++ ("wrong number of arguments for '" ++ v.name ++ "' command")).toList
    simp only [String.toList_append, List.mem_append, not_or]
    exact ⟨hlit.1, ⟨hlit.2.1, hname v (Verb.mem_all v)⟩, hlit.2.2⟩
  | _ => decide +kernel

theorem reply_wellFormed {e : CommandError} (h : ¬ e.Quotes) : e.reply.WellFormed :=
  (reply_flat h).1

/-- The error for an unknown verb is well formed exactly when the verb holds no line break. -/
theorem reply_unknownCommand_wellFormed_iff (name : String) :
    (unknownCommand name).reply.WellFormed ↔ ¬ [13, 10] <:+: utf8 name := by
  have hpre : (13 : UInt8) ∉ utf8 "ERR " ∧ (13 : UInt8) ∉ utf8 "unknown command '" := by decide
  have hpost : (10 : UInt8) ∉ utf8 "'" := by decide
  show (error ("ERR " ++ ("unknown command '" ++ name ++ "'"))).WellFormed ↔ _
  rw [wellFormed_error_iff, utf8_append, utf8_append, utf8_append, pair_infix_append_left hpre.1,
    List.append_assoc, pair_infix_append_left hpre.2, pair_infix_append_right hpost]

end CommandError

/-! ## Sizes -/

namespace Decimal

theorem length_digits_le {n k : Nat} (h : n < 10 ^ k) (hk : 0 < k) : (digits n).length ≤ k := by
  induction n using Nat.strongRecOn generalizing k with
  | ind n ih =>
    rw [digits_eq]
    split
    · simp only [List.length_singleton]
      omega
    · -- the digits of `n / 10`, which is below `10 ^ (k - 1)`, then one more
      obtain ⟨j, rfl⟩ : ∃ j, k = j + 1 := ⟨k - 1, by omega⟩
      have hj : 0 < j := by
        rcases Nat.eq_zero_or_pos j with rfl | hj
        · simp at h
          omega
        · exact hj
      have hdiv : n / 10 < 10 ^ j := by
        rw [Nat.div_lt_iff_lt_mul (by norm_num), ← pow_succ]
        exact h
      have := ih (n / 10) (by omega) hdiv hj
      simp only [List.length_append, List.length_singleton]
      omega

theorem length_digits_le_succ (n : Nat) : (digits n).length ≤ n + 1 :=
  length_digits_le (Nat.lt_of_lt_of_le (Nat.lt_pow_self (by norm_num))
    (Nat.pow_le_pow_right (by norm_num) (Nat.le_succ n))) (Nat.succ_pos n)

theorem utf8ByteSize_ofNat (n : Nat) : (ofNat n).utf8ByteSize = (digits n).length := by
  have hsize : ∀ d, d < 10 → (digitChar d).utf8Size = 1 := by decide
  rw [← length_utf8, ofNat, utf8_ofList, List.length_flatMap,
    List.map_congr_left (g := fun _ => 1), List.map_const', List.sum_replicate, smul_eq_mul, mul_one]
  intro c hc
  obtain ⟨d, hd, rfl⟩ := mem_digits hc
  simp [hsize d hd]

/-- The decimal text of a signed 64-bit value has at most twenty bytes. -/
theorem utf8ByteSize_ofInt_le {i : Int} (hlo : int64Min ≤ i) (hhi : i ≤ int64Max) :
    (ofInt i).utf8ByteSize ≤ 20 := by
  have hd : (digits i.natAbs).length ≤ 19 :=
    length_digits_le (by simp only [int64Min, int64Max] at hlo hhi; omega) (by norm_num)
  unfold ofInt
  split
  · rw [String.utf8ByteSize_append, utf8ByteSize_ofNat]
    have : "-".utf8ByteSize = 1 := by decide
    omega
  · rw [utf8ByteSize_ofNat]
    omega

end Decimal

/-- The INFO report fits a bulk text while the replica count has at most 39 digits, the offset at
most 78 and a replica's master host name at most `2 ^ 28` bytes. -/
theorem Replication.utf8ByteSize_info_le (r : Replication) (hrep : r.replicas.length < 10 ^ 39)
    (hoff : r.offset < 10 ^ 78) (hhost : ∀ m, r.role = .replica m → m.host.utf8ByteSize ≤ 2 ^ 28) :
    r.info.utf8ByteSize ≤ Wire.maxBulkLength := by
  have hd := Decimal.length_digits_le hoff (by norm_num)
  have hlines : "role:".utf8ByteSize = 5 ∧ "\r\n".utf8ByteSize = 2 ∧ "master_replid:".utf8ByteSize = 14 ∧
      replicationId.utf8ByteSize = 40 ∧ "master_repl_offset:".utf8ByteSize = 19 := by decide
  unfold info Wire.maxBulkLength
  cases hr : r.role with
  | master =>
    have hc := Decimal.length_digits_le hrep (by norm_num)
    have hmaster : "master".utf8ByteSize = 6 ∧ "connected_slaves:".utf8ByteSize = 17 := by decide
    simp only [Role.name, List.cons_append, List.nil_append, String.intercalate_cons_cons,
      String.intercalate_singleton, String.utf8ByteSize_append, Decimal.utf8ByteSize_ofNat]
    omega
  | replica m =>
    have hh := hhost m hr
    have hp := Decimal.length_digits_le (n := m.port.toNat) (k := 5)
      (lt_of_lt_of_le m.port.toNat_lt (by norm_num)) (by norm_num)
    have hreplica : "slave".utf8ByteSize = 5 ∧ "master_host:".utf8ByteSize = 12 ∧
        "master_port:".utf8ByteSize = 12 ∧ "master_link_status:".utf8ByteSize = 19 ∧
        "up".utf8ByteSize = 2 ∧ "down".utf8ByteSize = 4 := by decide
    simp only [Role.name, List.cons_append, List.nil_append, String.intercalate_cons_cons,
      String.intercalate_singleton, String.utf8ByteSize_append, Decimal.utf8ByteSize_ofNat]
    split <;> omega

namespace Value

theorem length_encode_bulk_le (p : String) : (bulk p).encode.length ≤ 6 + 2 * p.utf8ByteSize := by
  have := Decimal.length_digits_le_succ p.utf8ByteSize
  simp only [encode_bulk, List.length_cons, List.length_append, length_utf8,
    Decimal.utf8ByteSize_ofNat, List.length_nil]
  omega

/-- A request array of `n` parts takes at most `4 + 7 n` bytes besides twice its parts' bytes. -/
theorem length_encode_command_le (parts : List String) :
    (command parts).encode.length ≤ 4 + 7 * parts.length + 2 * (parts.map String.utf8ByteSize).sum := by
  have hitems : ((parts.map bulk).flatMap encode).length ≤
      6 * parts.length + 2 * (parts.map String.utf8ByteSize).sum := by
    induction parts with
    | nil => simp
    | cons p ps ih =>
      have := length_encode_bulk_le p
      simp only [List.map_cons, List.flatMap_cons, List.length_append, List.length_cons,
        List.sum_cons] at ih ⊢
      omega
  have := Decimal.length_digits_le_succ parts.length
  simp only [command, encode_array, List.length_cons, List.length_append, length_utf8,
    Decimal.utf8ByteSize_ofNat, List.length_map] at hitems ⊢
  omega

end Value

end KvServer
