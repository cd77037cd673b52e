import Mathlib
import KvServer.Proofs.RoundTrip
import KvServer.Proofs.Buffer

/-!
# Reading a stream in chunks

Reading a value looks at the bytes from the front and stops as soon as it has a value or an
error, so bytes after that point cannot change the answer: reading `bs ++ more` where reading `bs`
was decided gives the same answer with `more` after the point where it stopped. Only an
incomplete read can come out differently once more bytes arrive, and the frame buffer rewinds
exactly those.

From this, the loop that appends a chunk, then marks, decodes and commits frame after frame
until one is incomplete, finds the same frames and the same first error however the bytes are
cut into chunks, and leaves the same bytes buffered (`feed_independent_of_chunking`). Seen from a
buffer, decoding is monotone in its input (`Buffer.decode_monotone`): a prefix of the unread bytes
decodes to `incomplete` or to what the whole decodes to, moving the read position as far.
-/

namespace KvServer

namespace Wire

namespace Step

variable {α : Type}

/-- The bytes after the point where reading stopped. -/
def rest : Step α → List UInt8
  | .done _ r | .incomplete r | .failed _ r => r

/-- The same answer, with more bytes after the point where reading stopped. -/
def append : Step α → List UInt8 → Step α
  | .done a r, m => .done a (r ++ m)
  | .incomplete r, m => .incomplete (r ++ m)
  | .failed e r, m => .failed e (r ++ m)

/-- Whether reading came to a value or an error, rather than running out of bytes. -/
def decided : Step α → Bool
  | .incomplete _ => false
  | _ => true

/-- What decoding a buffer answers for the outcome of reading a value. -/
def answer : Step Value → Except WireError Decoded
  | .done v _ => .ok (.frame v)
  | .incomplete _ => .ok .incomplete
  | .failed e _ => .error e

@[simp] theorem decided_done (a : α) (r : List UInt8) : (Step.done a r).decided = true := rfl
@[simp] theorem decided_failed (e : WireError) (r : List UInt8) :
    (Step.failed e r : Step α).decided = true := rfl
@[simp] theorem decided_incomplete (r : List UInt8) : (Step.incomplete r : Step α).decided = false :=
  rfl

end Step

/-! ## Bytes after a decided read change nothing -/

theorem splitLine_extend {bs line after : List UInt8} (h : Buffer.splitLine bs = some (line, after))
    (m : List UInt8) : Buffer.splitLine (bs ++ m) = some (line, after ++ m) := by
  obtain ⟨rfl, hl⟩ := Buffer.splitLine_eq_some h
  simpa using Buffer.splitLine_append hl (after ++ m)

theorem readText_extend {bs : List UInt8} (h : (readText bs).decided) (m : List UInt8) :
    readText (bs ++ m) = (readText bs).append m := by
  unfold readText at h ⊢
  cases hs : Buffer.splitLine bs with
  | none => simp [hs] at h
  | some p =>
    obtain ⟨line, after⟩ := p
    rw [splitLine_extend hs m]
    simp only
    cases textOf? line <;> rfl

theorem readLength_extend {bs : List UInt8} (h : (readLength bs).decided) (m : List UInt8) :
    readLength (bs ++ m) = (readLength bs).append m := by
  unfold readLength at h ⊢
  cases ht : readText bs with
  | done t r =>
    rw [readText_extend (by simp [ht]) m, ht]
    simp only [Step.append]
    split
    · rfl
    · cases Decimal.parseNat? 18446744073709551616 t <;> rfl
  | incomplete r => simp [ht] at h
  | failed e r =>
    rw [readText_extend (by simp [ht]) m, ht]
    rfl

theorem readBulk_extend {n : Nat} {bs : List UInt8} (h : (readBulk n bs).decided)
    (m : List UInt8) : readBulk n (bs ++ m) = (readBulk n bs).append m := by
  unfold readBulk at h ⊢
  by_cases hmax : n > maxBulkLength
  · simp only [if_pos hmax]
    rfl
  · simp only [if_neg hmax] at h ⊢
    by_cases hshort : bs.length < n
    · simp [hshort] at h
    · have hlong : ¬ (bs ++ m).length < n := by
        simp only [List.length_append]
        omega
      have htake : (bs ++ m).take n = bs.take n := List.take_append_of_le_length (by omega)
      have hdrop : (bs ++ m).drop n = bs.drop n ++ m := List.drop_append_of_le_length (by omega)
      simp only [if_neg hshort, if_neg hlong, htake, hdrop] at h ⊢
      cases ht : textOf? (bs.take n) with
      | none => rfl
      | some t =>
        simp only [ht] at h ⊢
        rcases hd : bs.drop n with _ | ⟨x, _ | ⟨y, r⟩⟩
        · simp [hd] at h
        · simp [hd] at h
        · simp only [List.cons_append]
          split <;> split <;> simp_all [Step.append]

theorem readItems_extend {item : List UInt8 → Step Value}
    (hitem : ∀ bs, (item bs).decided → ∀ m, item (bs ++ m) = (item bs).append m) :
    ∀ (n : Nat) (acc : List Value) (bs : List UInt8), (readItems item n acc bs).decided →
      ∀ m, readItems item n acc (bs ++ m) = (readItems item n acc bs).append m
  | 0, acc, bs, _, m => rfl
  | n + 1, acc, bs, h, m => by
    simp only [readItems] at h ⊢
    cases hi : item bs with
    | done v r =>
      rw [hitem bs (by simp [hi]) m, hi]
      simp only [hi] at h
      exact readItems_extend hitem n (v :: acc) r h m
    | incomplete r => simp [hi] at h
    | failed e r =>
      rw [hitem bs (by simp [hi]) m, hi]
      rfl

/-- Reading with more bytes after a decided read gives the same answer, the extra bytes left
after the point where it stopped. -/
theorem readValue_extend {budget : Nat} {bs : List UInt8} (h : (readValue budget bs).decided)
    (m : List UInt8) : readValue budget (bs ++ m) = (readValue budget bs).append m := by
  induction budget using Nat.strongRecOn generalizing bs m with
  | ind budget ih =>
    cases bs with
    | nil => simp [readValue] at h
    | cons b bs =>
      rw [List.cons_append, readValue.eq_def, readValue.eq_def]
      rw [readValue.eq_def] at h
      simp only at h ⊢
      split_ifs at h ⊢
      · cases ht : readText bs with
        | incomplete r => simp [ht] at h
        | _ => rw [readText_extend (by simp [ht]) m, ht]; rfl
      · cases ht : readText bs with
        | incomplete r => simp [ht] at h
        | _ => rw [readText_extend (by simp [ht]) m, ht]; rfl
      · cases ht : readText bs with
        | done t r =>
          rw [readText_extend (by simp [ht]) m, ht]
          simp only [Step.append]
          cases Decimal.parseInt64? t <;> rfl
        | incomplete r => simp [ht] at h
        | failed e r =>
          rw [readText_extend (by simp [ht]) m, ht]
          rfl
      · cases hl : readLength bs with
        | done l r =>
          rw [readLength_extend (by simp [hl]) m, hl]
          simp only [hl] at h
          cases l with
          | null => rfl
          | count n => exact readBulk_extend h m
        | incomplete r => simp [hl] at h
        | failed e r =>
          rw [readLength_extend (by simp [hl]) m, hl]
          rfl
      · cases budget with
        | zero => rfl
        | succ b =>
          simp only at h ⊢
          cases hl : readLength bs with
          | done l r =>
            rw [readLength_extend (by simp [hl]) m, hl]
            simp only [hl] at h
            cases l with
            | null => rfl
            | count n =>
              exact readItems_extend (fun xs hx m => ih b (by omega) hx m) n [] r h m
          | incomplete r => simp [hl] at h
          | failed e r =>
            rw [readLength_extend (by simp [hl]) m, hl]
            rfl
      · rfl

theorem read_extend {bs : List UInt8} (h : (read bs).decided) (m : List UInt8) :
    read (bs ++ m) = (read bs).append m :=
  readValue_extend h m

/-! ## Reading only moves forward -/

theorem readText_rest (bs : List UInt8) : (readText bs).rest <:+ bs := by
  unfold readText
  cases hs : Buffer.splitLine bs with
  | none => exact List.suffix_refl bs
  | some p =>
    obtain ⟨line, after⟩ := p
    have hsuf : after <:+ bs := by
      rw [(Buffer.splitLine_eq_some hs).1]
      exact (List.suffix_cons 10 after).trans ((List.suffix_cons 13 _).trans (List.suffix_append _ _))
    simp only
    cases textOf? line <;> exact hsuf

theorem readLength_rest (bs : List UInt8) : (readLength bs).rest <:+ bs := by
  have h := readText_rest bs
  unfold readLength
  cases ht : readText bs with
  | done t r =>
    rw [ht] at h
    simp only
    split
    · exact h
    · cases Decimal.parseNat? 18446744073709551616 t <;> exact h
  | incomplete r => rw [ht] at h; exact h
  | failed e r => rw [ht] at h; exact h

theorem readBulk_rest (n : Nat) (bs : List UInt8) : (readBulk n bs).rest <:+ bs := by
  have hdrop : bs.drop n <:+ bs := List.drop_suffix n bs
  unfold readBulk
  split
  · exact List.suffix_refl bs
  · split
    · exact List.suffix_refl bs
    · simp only
      split
      · exact hdrop
      · split
        · rename_i rest heq
          exact (List.suffix_cons 10 rest).trans ((List.suffix_cons 13 _).trans (heq ▸ hdrop))
        · rename_i x y rest _ heq
          exact (List.suffix_cons y rest).trans ((List.suffix_cons x _).trans (heq ▸ hdrop))
        · exact hdrop

theorem readItems_rest {item : List UInt8 → Step Value} (hitem : ∀ bs, (item bs).rest <:+ bs) :
    ∀ (n : Nat) (acc : List Value) (bs : List UInt8), (readItems item n acc bs).rest <:+ bs
  | 0, _, bs => List.suffix_refl bs
  | n + 1, acc, bs => by
    have h := hitem bs
    simp only [readItems]
    cases hi : item bs with
    | done v r =>
      rw [hi] at h
      exact (readItems_rest hitem n (v :: acc) r).trans h
    | incomplete r => rw [hi] at h; exact h
    | failed e r => rw [hi] at h; exact h

/-- Reading stops within the bytes it was given, after the prefix byte when there is one. -/
theorem readValue_rest (budget : Nat) (b : UInt8) (bs : List UInt8) :
    (readValue budget (b :: bs)).rest <:+ bs := by
  induction budget using Nat.strongRecOn generalizing b bs with
  | ind budget ih =>
    rw [readValue.eq_def]
    simp only
    split_ifs
    · have h := readText_rest bs
      cases ht : readText bs <;> rw [ht] at h <;> exact h
    · have h := readText_rest bs
      cases ht : readText bs <;> rw [ht] at h <;> exact h
    · have h := readText_rest bs
      cases ht : readText bs with
      | done t r =>
        rw [ht] at h
        simp only
        cases Decimal.parseInt64? t <;> exact h
      | incomplete r => rw [ht] at h; exact h
      | failed e r => rw [ht] at h; exact h
    · have h := readLength_rest bs
      cases hl : readLength bs with
      | done l r =>
        rw [hl] at h
        cases l with
        | null => exact h
        | count n => exact (readBulk_rest n r).trans h
      | incomplete r => rw [hl] at h; exact h
      | failed e r => rw [hl] at h; exact h
    · cases budget with
      | zero => exact List.suffix_refl bs
      | succ k =>
        have h := readLength_rest bs
        have hitem : ∀ xs, (readValue k xs).rest <:+ xs := by
          intro xs
          cases xs with
          | nil => simp [readValue, Step.rest]
          | cons x xs => exact (ih k (by omega) x xs).trans (List.suffix_cons x xs)
        simp only
        cases hl : readLength bs with
        | done l r =>
          rw [hl] at h
          cases l with
          | null => exact h
          | count n => exact (readItems_rest hitem n [] r).trans h
        | incomplete r => rw [hl] at h; exact h
        | failed e r => rw [hl] at h; exact h
    · exact List.suffix_refl bs

theorem read_rest_suffix (bs : List UInt8) : (read bs).rest <:+ bs := by
  cases bs with
  | nil => simp [read, readValue, Step.rest]
  | cons b bs => exact (readValue_rest maxNesting b bs).trans (List.suffix_cons b bs)

/-- A decided read takes at least one byte. -/
theorem length_rest_lt {bs : List UInt8} (h : (read bs).decided) :
    (read bs).rest.length < bs.length := by
  cases bs with
  | nil => simp [read, readValue] at h
  | cons b bs =>
    have := (readValue_rest maxNesting b bs).length_le
    simp only [read, List.length_cons]
    omega

theorem length_lt_of_read_done {bs r : List UInt8} {v : Value} (h : read bs = .done v r) :
    r.length < bs.length := by
  have hd : (read bs).decided := by simp [h]
  simpa [h, Step.rest] using length_rest_lt hd

/-! ## The frames at the front of some bytes -/

/-- The complete frames at the front of some bytes, read one after the other: the frames, the
error that stopped reading if any, and the bytes where reading stopped. -/
def frames (bs : List UInt8) : List Value × Option WireError × List UInt8 :=
  match h : read bs with
  | .done v rest =>
    have : rest.length < bs.length := length_lt_of_read_done h
    let (vs, e, r) := frames rest
    (v :: vs, e, r)
  | .incomplete _ => ([], none, bs)
  | .failed e rest => ([], some e, rest)
termination_by bs.length

theorem frames_of_done {bs r : List UInt8} {v : Value} (h : read bs = .done v r) :
    frames bs = (v :: (frames r).1, (frames r).2) := by
  rw [frames]
  split <;> simp_all

theorem frames_of_incomplete {bs r : List UInt8} (h : read bs = .incomplete r) :
    frames bs = ([], none, bs) := by
  rw [frames]
  split <;> simp_all

theorem frames_of_failed {bs r : List UInt8} {e : WireError} (h : read bs = .failed e r) :
    frames bs = ([], some e, r) := by
  rw [frames]
  split <;> simp_all

end Wire

open Wire

namespace Buffer

/-! ## Decoding and draining, frame by frame -/

theorem unread_advance (b : Buffer) (k : Nat) : (b.advance k).unread = b.unread.drop k := by
  simp [unread, advance]

theorem unread_advance_of_suffix {b : Buffer} {r : List UInt8} (h : r <:+ b.unread) :
    (b.advance (b.unread.length - r.length)).unread = r := by
  obtain ⟨p, hp⟩ := h
  rw [unread_advance, ← hp]
  simp

theorem unread_append {b : Buffer} (hb : b.cursor ≤ b.len) (m : List UInt8) :
    (b.append m).unread = b.unread ++ m :=
  List.drop_append_of_le_length hb

theorem unread_length_le (b : Buffer) : b.unread.length ≤ b.len := by
  simp [unread, len]

theorem commit_eq (b : Buffer) : b.commit = { bytes := b.unread } := rfl

@[simp] theorem unread_ofBytes (bs : List UInt8) : ({ bytes := bs } : Buffer).unread = bs := by
  simp [unread]

theorem commit_advance_mark {b : Buffer} {r : List UInt8} (h : r <:+ b.unread) :
    (b.mark.advance (b.unread.length - r.length)).commit = { bytes := r } := by
  rw [commit_eq, show (b.mark.advance (b.unread.length - r.length)).unread = r from
    unread_advance_of_suffix (b := b.mark) h]

theorem reset_advance_mark (b : Buffer) (k : Nat) : (b.mark.advance k).reset = b.mark := rfl

theorem drainWith_succ (f : Nat) (b : Buffer) : drainWith none (f + 1) b =
    match b.mark.decode with
    | (.ok (.frame v), b') => let (vs, e, b'') := drainWith none f b'.commit; (v :: vs, e, b'')
    | (.ok .incomplete, b') => ([], none, b'.reset)
    | (.error e, b') => ([], some e, b') :=
  rfl

theorem decode_mark_of_done {b : Buffer} {v : Value} {r : List UInt8}
    (h : read b.unread = .done v r) :
    b.mark.decode = (.ok (.frame v), b.mark.advance (b.unread.length - r.length)) := by
  unfold decode
  rw [show b.mark.unread = b.unread from rfl, h]

theorem decode_mark_of_incomplete {b : Buffer} {r : List UInt8}
    (h : read b.unread = .incomplete r) :
    b.mark.decode = (.ok .incomplete, b.mark.advance (b.unread.length - r.length)) := by
  unfold decode
  rw [show b.mark.unread = b.unread from rfl, h]

theorem decode_mark_of_failed {b : Buffer} {e : WireError} {r : List UInt8}
    (h : read b.unread = .failed e r) :
    b.mark.decode = (.error e, b.mark.advance (b.unread.length - r.length)) := by
  unfold decode
  rw [show b.mark.unread = b.unread from rfl, h]

/-- Enough rounds finish draining, so any more give the same answer. -/
theorem drainWith_fuel : ∀ {f f' : Nat} {b : Buffer}, b.unread.length < f → b.unread.length < f' →
    drainWith none f b = drainWith none f' b
  | 0, _, _, hf, _ => absurd hf (Nat.not_lt_zero _)
  | _, 0, _, _, hf' => absurd hf' (Nat.not_lt_zero _)
  | f + 1, f' + 1, b, hf, hf' => by
    rw [drainWith_succ, drainWith_succ]
    cases hr : read b.unread with
    | done v r =>
      have hsuf : r <:+ b.unread := by simpa [hr, Step.rest] using read_rest_suffix b.unread
      have hlt : r.length < b.unread.length := length_lt_of_read_done hr
      simp only [decode_mark_of_done hr, commit_advance_mark hsuf]
      have h1 : ({ bytes := r } : Buffer).unread.length < f := by
        rw [unread_ofBytes]
        omega
      have h2 : ({ bytes := r } : Buffer).unread.length < f' := by
        rw [unread_ofBytes]
        omega
      rw [drainWith_fuel h1 h2]
    | incomplete r => simp only [decode_mark_of_incomplete hr]
    | failed e r => simp only [decode_mark_of_failed hr]

theorem drain_eq_drainWith {b : Buffer} {f : Nat} (hf : b.unread.length < f) :
    b.drain = drainWith none f b :=
  drainWith_fuel (Nat.lt_succ_of_le (unread_length_le b)) hf

/-- A frame at the read position is taken and the buffer is drained on from the bytes after it. -/
theorem drain_of_done {b : Buffer} {v : Value} {r : List UInt8} (h : read b.unread = .done v r) :
    b.drain = (v :: ({ bytes := r } : Buffer).drain.1, ({ bytes := r } : Buffer).drain.2) := by
  have hsuf : r <:+ b.unread := by simpa [h, Step.rest] using read_rest_suffix b.unread
  have hlt : r.length < b.unread.length := length_lt_of_read_done h
  rw [drain_eq_drainWith (f := b.unread.length + 1) (Nat.lt_succ_self _), drainWith_succ,
    decode_mark_of_done h]
  simp only [commit_advance_mark hsuf]
  rw [← drain_eq_drainWith (by rw [unread_ofBytes]; exact hlt)]

/-- An incomplete frame at the read position stops draining, with the cursor back at the mark. -/
theorem drain_of_incomplete {b : Buffer} {r : List UInt8} (h : read b.unread = .incomplete r) :
    b.drain = ([], none, b.mark) := by
  rw [drain_eq_drainWith (Nat.lt_succ_self _), drainWith_succ, decode_mark_of_incomplete h]
  rfl

/-- A malformed frame stops draining with its error, the cursor where reading stopped. -/
theorem drain_of_failed {b : Buffer} {e : WireError} {r : List UInt8}
    (h : read b.unread = .failed e r) :
    b.drain = ([], some e, b.mark.advance (b.unread.length - r.length)) := by
  rw [drain_eq_drainWith (Nat.lt_succ_self _), drainWith_succ, decode_mark_of_failed h]

theorem drain_mark (b : Buffer) : b.mark.drain = b.drain := by
  have hu : b.mark.unread = b.unread := rfl
  cases h : read b.unread with
  | done v r => rw [drain_of_done (hu ▸ h), drain_of_done h]
  | incomplete r => rw [drain_of_incomplete (hu ▸ h), drain_of_incomplete h]; rfl
  | failed e r => rw [drain_of_failed (hu ▸ h), drain_of_failed h]; rfl

theorem length_rest_of_done {b : Buffer} {v : Value} {r : List UInt8}
    (h : read b.unread = .done v r) : ({ bytes := r } : Buffer).unread.length < b.unread.length := by
  simpa using length_lt_of_read_done h

/-! ## Bytes appended to a buffer -/

/-- Bytes appended behind a buffer are read only where draining the buffer alone stopped for want
of bytes; after an error they are left unread. -/
theorem drain_append {b : Buffer} (hb : b.cursor ≤ b.len) (m : List UInt8) :
    (b.append m).drain =
      match b.drain with
      | (vs, none, b') => (vs ++ (b'.append m).drain.1, (b'.append m).drain.2)
      | (vs, some e, b') => (vs, some e, b'.append m) := by
  have hu := unread_append hb m
  cases hr : read b.unread with
  | done v r =>
    have hlt := length_rest_of_done hr
    have hr' : read (b.append m).unread = .done v (r ++ m) := by
      rw [hu, read_extend (by simp [hr]) m, hr]
      rfl
    have ih := drain_append (b := { bytes := r }) (Nat.zero_le _) m
    rw [drain_of_done hr', drain_of_done hr,
      show ({ bytes := r ++ m } : Buffer) = ({ bytes := r } : Buffer).append m from rfl, ih]
    rcases ({ bytes := r } : Buffer).drain with ⟨vs, _ | e, b'⟩ <;> rfl
  | incomplete r =>
    rw [drain_of_incomplete hr]
    show (b.append m).drain = ([] ++ (b.mark.append m).drain.1, (b.mark.append m).drain.2)
    rw [show b.mark.append m = (b.append m).mark from rfl, drain_mark]
    rfl
  | failed e r =>
    have hr' : read (b.append m).unread = .failed e (r ++ m) := by
      rw [hu, read_extend (by simp [hr]) m, hr]
      rfl
    rw [drain_of_failed hr', drain_of_failed hr, hu]
    simp only [mark, advance, append, List.length_append]
    congr 3
    omega
termination_by b.unread.length
decreasing_by exact hlt

/-- Draining that ends without an error leaves a buffer whose unread bytes hold no complete
frame, with the mark at the cursor. -/
theorem drain_settles {b : Buffer} (hb : b.cursor ≤ b.len) {vs : List Value} {b' : Buffer}
    (h : b.drain = (vs, none, b')) : b'.drain = ([], none, b') ∧ b'.cursor ≤ b'.len := by
  cases hr : read b.unread with
  | done v r =>
    have hlt := length_rest_of_done hr
    rw [drain_of_done hr] at h
    obtain ⟨-, h2⟩ := Prod.mk.inj h
    exact drain_settles (b := { bytes := r }) (Nat.zero_le _) (Prod.ext rfl h2)
  | incomplete r =>
    rw [drain_of_incomplete hr] at h
    cases h
    exact ⟨by rw [drain_mark, drain_of_incomplete hr], hb⟩
  | failed e r =>
    rw [drain_of_failed hr] at h
    cases h
termination_by b.unread.length
decreasing_by exact hlt

theorem feed_singleton (c : List UInt8) (b : Buffer) : feed [c] b = (b.append c).drain := by
  simp only [feed]
  rcases (b.append c).drain with ⟨vs, _ | e, b'⟩ <;> simp

/-- Feeding chunks one at a time to a buffer that holds no complete frame finds what draining finds
once all of them are appended: the same frames and the same first error. The buffer then is the
buffer the chunks leave, with the chunks not yet fed after an error appended. -/
theorem feed_eq_drain_append {b : Buffer} (hb : b.cursor ≤ b.len) (hs : b.drain = ([], none, b)) :
    ∀ cs : List (List UInt8),
      (feed cs b).1 = (b.append cs.flatten).drain.1 ∧
      (feed cs b).2.1 = (b.append cs.flatten).drain.2.1 ∧
      ∃ rest, rest <:+ cs.flatten ∧ (b.append cs.flatten).drain.2.2 = (feed cs b).2.2.append rest ∧
        ((feed cs b).2.1 = none → rest = [])
  | [] => by
    have hnil : b.append [] = b := by simp [append]
    refine ⟨?_, ?_, [], List.nil_suffix, ?_, fun _ => rfl⟩ <;> simp [feed, hnil, hs]
  | c :: cs => by
    have hc : (b.append c).cursor ≤ (b.append c).len := by
      simp only [append, len, List.length_append] at hb ⊢
      omega
    have hflat : b.append (c :: cs).flatten = (b.append c).append cs.flatten := by
      simp [append]
    rw [hflat, drain_append hc]
    simp only [feed]
    rcases hd : (b.append c).drain with ⟨vs, _ | e, b'⟩
    · obtain ⟨hs', hb'⟩ := drain_settles hc hd
      obtain ⟨h1, h2, rest, hsuf, h3, h4⟩ := feed_eq_drain_append hb' hs' cs
      refine ⟨by simp [h1], by simp [h2], rest, hsuf.trans (List.suffix_append c _), ?_, ?_⟩
      · simp [h3]
      · simpa using h4
    · refine ⟨rfl, rfl, cs.flatten, List.suffix_append c _, rfl, by simp⟩

/-- Draining a buffer of fresh bytes finds the frames at their front and stops at the same
error; without one, the bytes after the last complete frame stay. -/
theorem drain_ofBytes (bs : List UInt8) :
    ({ bytes := bs } : Buffer).drain.1 = (frames bs).1 ∧
    ({ bytes := bs } : Buffer).drain.2.1 = (frames bs).2.1 ∧
    ((frames bs).2.1 = none → ({ bytes := bs } : Buffer).drain.2.2 = { bytes := (frames bs).2.2 }) := by
  have hu : ({ bytes := bs } : Buffer).unread = bs := unread_ofBytes bs
  cases hr : read bs with
  | done v r =>
    have hlt : r.length < bs.length := length_lt_of_read_done hr
    obtain ⟨h1, h2, h3⟩ := drain_ofBytes r
    rw [drain_of_done (hu ▸ hr), frames_of_done hr]
    exact ⟨by simp [h1], h2, h3⟩
  | incomplete r =>
    rw [drain_of_incomplete (hu ▸ hr), frames_of_incomplete hr]
    exact ⟨rfl, rfl, fun _ => rfl⟩
  | failed e r =>
    rw [drain_of_failed (hu ▸ hr), frames_of_failed hr]
    exact ⟨rfl, rfl, fun h => absurd h (by simp)⟩
termination_by bs.length

/-- **Chunking does not matter.** Feeding bytes to a fresh buffer chunk by chunk, with the loop
that decodes and commits every complete frame after each chunk and rewinds an incomplete one,
finds the same frames and the same first error as feeding them as one chunk: the complete frames
at the front of the bytes. Without an error both leave the same buffer, holding the bytes after
the last complete frame; after an error the one-chunk buffer is the chunked one with the chunks it
never read appended. -/
theorem feed_independent_of_chunking (cs : List (List UInt8)) :
    (feed cs empty).1 = (feed [cs.flatten] empty).1 ∧
    (feed cs empty).2.1 = (feed [cs.flatten] empty).2.1 ∧
    ((feed cs empty).2.1 = none → (feed cs empty).2.2 = (feed [cs.flatten] empty).2.2) ∧
    (∃ rest, rest <:+ cs.flatten ∧
      (feed [cs.flatten] empty).2.2 = (feed cs empty).2.2.append rest) ∧
    (feed cs empty).1 = (frames cs.flatten).1 ∧
    (feed cs empty).2.1 = (frames cs.flatten).2.1 ∧
    ((feed cs empty).2.1 = none → (feed cs empty).2.2.bytes = (frames cs.flatten).2.2) := by
  have hs : empty.drain = ([], none, empty) := drain_of_incomplete (r := []) rfl
  obtain ⟨h1, h2, rest, hsuf, h3, h4⟩ := feed_eq_drain_append (Nat.zero_le _) hs cs
  have hone : feed [cs.flatten] empty = ({ bytes := cs.flatten } : Buffer).drain :=
    feed_singleton cs.flatten empty
  obtain ⟨f1, f2, f3⟩ := drain_ofBytes cs.flatten
  have happ : empty.append cs.flatten = { bytes := cs.flatten } := rfl
  rw [happ] at h1 h2 h3
  rw [hone]
  refine ⟨h1, h2, ?_, ⟨rest, hsuf, h3⟩, h1.trans f1, h2.trans f2, ?_⟩
  · intro hnone
    rw [h3, h4 hnone]
    simp [append]
  · intro hnone
    rw [← h2.trans f2] at f3
    have := f3 hnone
    rw [h3, h4 hnone] at this
    simpa [append] using congrArg Buffer.bytes this

/-- After an error the chunked loop reads no later chunk, so it keeps fewer bytes than the
one-chunk loop: fed `?` and then `+OK\r\n`, both stop at the unknown prefix with the same error,
but the chunked buffer holds only `?` and the one-chunk buffer all six bytes. -/
theorem chunked_error_keeps_fewer_bytes :
    let cs : List (List UInt8) := [[0x3f], [0x2b, 0x4f, 0x4b, 0x0d, 0x0a]]
    (feed cs empty).2.1 = (feed [cs.flatten] empty).2.1 ∧ (feed cs empty).2.1.isSome ∧
      (feed cs empty).2.2.bytes = [0x3f] ∧
      (feed [cs.flatten] empty).2.2.bytes = [0x3f, 0x2b, 0x4f, 0x4b, 0x0d, 0x0a] := by
  decide

/-! ## A prefix of the input -/

/-- Decoding answers what reading the unread bytes found and moves the read position to where
reading stopped. -/
theorem decode_eq (b : Buffer) :
    b.decode = ((read b.unread).answer, b.advance (b.unread.length - (read b.unread).rest.length)) := by
  unfold decode
  cases read b.unread <;> rfl

/-- **Decoding is monotone in its input.** Decoding a buffer whose unread bytes start those of
another either runs out of bytes or answers what decoding the other answers, the read position
moved by the same number of bytes in both. -/
theorem decode_of_unread_prefix {b b' : Buffer} (h : b.unread <+: b'.unread) :
    b.decode.1 = .ok .incomplete ∨
      ∃ k, b.decode = (b'.decode.1, b.advance k) ∧ b'.decode = (b'.decode.1, b'.advance k) := by
  obtain ⟨m, hm⟩ := h
  rw [decode_eq b, decode_eq b']
  cases hr : read b.unread with
  | incomplete r => exact .inl rfl
  | done v r | failed e r =>
    -- a decided read of the shorter input is the read of the longer one, stopping at the same byte
    have hext := read_extend (show (read b.unread).decided by simp [hr]) m
    rw [hm, hr] at hext
    have hle : r.length ≤ b.unread.length := by
      simpa [hr, Step.rest] using (read_rest_suffix b.unread).length_le
    have hlen : b'.unread.length = b.unread.length + m.length := by
      rw [← hm, List.length_append]
    refine .inr ⟨b.unread.length - r.length, ?_, ?_⟩
    · rw [hext]
      rfl
    · simp only [hext, Step.append, Step.answer, Step.rest, hlen, List.length_append]
      congr 2
      omega

/-- The monotonicity of decoding, with what follows from it: a buffer holding only a proper
prefix of the bytes of a frame decodes to `incomplete`, and no prefix of bytes that decode to a
frame is reported as an error. -/
theorem decode_monotone {b b' : Buffer} (h : b.unread <+: b'.unread) :
    (b.decode.1 = .ok .incomplete ∨
      ∃ k, b.decode = (b'.decode.1, b.advance k) ∧ b'.decode = (b'.decode.1, b'.advance k)) ∧
    (∀ v n, b'.decode = (.ok (.frame v), b'.advance n) → b.unread.length < n →
      b.decode.1 = .ok .incomplete) ∧
    (∀ v, b'.decode.1 = .ok (.frame v) → ∀ e, b.decode.1 ≠ .error e) := by
  have hmono := decode_of_unread_prefix h
  refine ⟨hmono, fun v n hn hlt => ?_, fun v hv e he => ?_⟩
  · rcases hmono with hinc | ⟨k, hk, hk'⟩
    · exact hinc
    -- both reads stop `k` bytes on, and `k` is within the shorter input
    have hkn : k = n := by
      have := congrArg (·.2.cursor) (hk'.symm.trans hn)
      simpa [advance] using this
    have hle : k ≤ b.unread.length := by
      have := congrArg (·.2.cursor) ((decode_eq b).symm.trans hk)
      simp only [advance] at this
      omega
    omega
  · rcases hmono with hinc | ⟨k, hk, -⟩
    · rw [hinc] at he
      cases he
    · rw [hk, hv] at he
      cases he

/-- The first five bytes of a PING request and the whole request. -/
theorem decode_monotone_cut_ping :
    let b : Buffer := { bytes := (Value.command ["PING"]).encode.take 5 }
    let b' : Buffer := { bytes := (Value.command ["PING"]).encode }
    b.unread <+: b'.unread ∧
      ((b.decode.1 = .ok .incomplete ∨
        ∃ k, b.decode = (b'.decode.1, b.advance k) ∧ b'.decode = (b'.decode.1, b'.advance k)) ∧
      (∀ v n, b'.decode = (.ok (.frame v), b'.advance n) → b.unread.length < n →
        b.decode.1 = .ok .incomplete) ∧
      (∀ v, b'.decode.1 = .ok (.frame v) → ∀ e, b.decode.1 ≠ .error e)) := by
  intro b b'
  have h : b.unread <+: b'.unread := by
    simp only [b, b', unread_ofBytes]
    exact List.take_prefix _ _
  exact ⟨h, decode_monotone h⟩

end Buffer

end KvServer
