import Mathlib
import KvServer.Proofs.MasterStream

/-!
# The handshake as a machine of four steps

A replica drives its handshake with two calls: a start, which sends `PING`, and the master's
replies, each answered with the next request, nothing at the end, or a failure. `Handshake.calls`
makes a list of such calls. `Handshake.Expects i r` says which reply the master owes the `i`-th
request, in terms of the reply's kind and text alone, and `Handshake.Reached cs k` that the last
start among the calls `cs` was followed by exactly `k` replies, each the one owed.

The invariant `Handshake.Tracks` ties the handshake to the calls: after `k ≤ 4` owed replies
since the last start it is `Handshake.after port k`, and otherwise it is back at the beginning.
Each call keeps it (`Tracks.call`), so every run from a new handshake does (`tracks_calls`).
`Handshake.four_steps_in_order` reads the machine off it: done exactly after a start and four
owed replies, the four requests in order, and a failure back to the beginning on any other reply.
-/

namespace KvServer

namespace Handshake

/-- A call a replica makes on its handshake: start it over, or hand it the master's reply. -/
inductive Call where
  | start
  | reply (r : Value)

/-- Makes a call: what it answers (the request to send next, none once done, or the failure)
and the handshake after it. -/
def call (h : Handshake) : Call → Except HandshakeError (Option Value) × Handshake
  | .start => (.ok (some h.start.1), h.start.2)
  | .reply r => h.onReply r

/-- Makes the calls in order: what each answers, and the handshake after the last. -/
def calls (h : Handshake) : List Call → List (Except HandshakeError (Option Value)) × Handshake
  | [] => ([], h)
  | c :: cs => ((h.call c).1 :: ((h.call c).2.calls cs).1, ((h.call c).2.calls cs).2)

theorem calls_snd (h : Handshake) (cs : List Call) :
    (h.calls cs).2 = cs.foldl (fun h c => (h.call c).2) h := by
  induction cs generalizing h with
  | nil => rfl
  | cons c cs ih => exact ih _

theorem calls_append_singleton (h : Handshake) (cs : List Call) (c : Call) :
    (h.calls (cs ++ [c])).2 = ((h.calls cs).2.call c).2 := by
  rw [calls_snd, calls_snd, List.foldl_append]
  rfl

/-- The text the master owes the `i`-th request of the handshake: `PONG` for the first and `OK`
for the next two, ignoring the case of ASCII letters, and one that contains `FULLRESYNC` for the
fourth. -/
def OwedText : Nat → String → Prop
  | 0, t => t.toList.map Char.toLower = "pong".toList
  | 1, t | 2, t => t.toList.map Char.toLower = "ok".toList
  | 3, t => "FULLRESYNC".toList.IsInfix t.toList
  | _, _ => False

/-- The reply the master owes the `i`-th request: a simple or a bulk text, never an error,
carrying the text owed. -/
def Expects (i : Nat) (r : Value) : Prop :=
  ∃ t, (r = .simple t ∨ r = .bulk t) ∧ OwedText i t

/-- Whether a list of characters occurs in another is whether it is an infix of it. -/
theorem occursIn_iff_isInfix (n : List Char) :
    ∀ hay : List Char, occursIn n hay = true ↔ n.IsInfix hay
  | [] => by simp [occursIn]
  | c :: cs => by
    rw [occursIn, Bool.or_eq_true, List.isPrefixOf_iff_prefix, occursIn_iff_isInfix n cs,
      List.infix_cons_iff]

/-- A stage of the handshake accepts a text exactly when it is the text owed its request. -/
theorem accepts_iff_owedText {i : Nat} (hi : i < 4) (t : String) :
    accepts (Stage.ofAccepted i) t = true ↔ OwedText i t := by
  -- the first three compare the text with its ASCII letters lowered, the fourth looks inside it
  obtain _ | _ | _ | _ | i := i
  · exact beq_iff_eq
  · exact beq_iff_eq
  · exact beq_iff_eq
  · exact occursIn_iff_isInfix _ _
  · omega

/-- No stage accepts the empty text, which stands for a reply that carries none. -/
theorem not_owedText_empty (i : Nat) : ¬ OwedText i "" := by
  obtain _ | _ | _ | _ | i := i <;> simp [OwedText]

/-- A reply is accepted after `i < 4` accepted replies exactly when it is the one owed. -/
theorem acceptsReply_iff {i : Nat} (hi : i < 4) (r : Value) :
    (Stage.ofAccepted i).acceptsReply r = true ↔ Expects i r := by
  cases r with
  | simple t | bulk t =>
    simp [Stage.acceptsReply, Value.text?, Value.isError, Expects, accepts_iff_owedText hi]
  | error t => simp [Stage.acceptsReply, Value.isError, Expects]
  | integer n | null | array items =>
    simpa [Stage.acceptsReply, Value.text?, Value.isError, Expects, accepts_iff_owedText hi]
      using not_owedText_empty i

/-- The reply owed after `k < 4` accepted replies moves the handshake on by one and answers the
next request, none after the fourth. -/
theorem onReply_after_expects {port : UInt16} {k : Nat} {r : Value} (hk : k < 4)
    (he : Expects k r) :
    (after port k).onReply r = (.ok (requests port)[k + 1]?, after port (k + 1)) :=
  onReply_after_accepts hk ((acceptsReply_iff hk r).2 he)

/-- After the calls `cs`, a start was made and exactly `k` replies followed it, each the one the
master owed its request. -/
def Reached (cs : List Call) (k : Nat) : Prop :=
  ∃ (pre : List Call) (rs : List Value), cs = pre ++ .start :: rs.map .reply ∧ rs.length = k ∧
    ∀ i (hi : i < rs.length), Expects i rs[i]

/-- A list of calls ending in `c` ends with a start and the replies `rs` when `c` is that start
and `rs` is empty, or when `c` is the last of the replies. -/
theorem append_singleton_eq_iff {cs pre : List Call} {c : Call} {rs : List Value} :
    cs ++ [c] = pre ++ .start :: rs.map .reply ↔
      (rs = [] ∧ c = .start ∧ cs = pre) ∨
        ∃ (rs' : List Value) (r : Value), rs = rs' ++ [r] ∧ c = .reply r ∧
          cs = pre ++ .start :: rs'.map .reply := by
  rcases List.eq_nil_or_concat rs with rfl | ⟨rs', r, rfl⟩
  · -- the start is the last call
    constructor
    · intro h
      obtain ⟨h1, h2⟩ := List.append_inj' h rfl
      exact .inl ⟨rfl, by simpa using h2, h1⟩
    · rintro (⟨-, rfl, rfl⟩ | ⟨rs', r, h, -, -⟩)
      · rfl
      · simp at h
  · -- the last reply is the last call
    have hsplit : pre ++ .start :: (rs' ++ [r]).map .reply =
        (pre ++ .start :: rs'.map .reply) ++ [.reply r] := by simp
    rw [List.concat_eq_append, hsplit]
    constructor
    · intro h
      obtain ⟨h1, h2⟩ := List.append_inj' h rfl
      exact .inr ⟨rs', r, rfl, by simpa using h2, h1⟩
    · rintro (⟨h, -, -⟩ | ⟨rs'', r', h, rfl, rfl⟩)
      · simp at h
      · obtain ⟨rfl, rfl⟩ : rs' = rs'' ∧ r = r' := by simpa using h
        rfl

theorem not_reached_nil (k : Nat) : ¬ Reached [] k := by
  rintro ⟨pre, rs, h, -, -⟩
  simp at h

/-- After a start, no reply has followed it yet. -/
theorem reached_append_start (cs : List Call) (k : Nat) : Reached (cs ++ [.start]) k ↔ k = 0 := by
  constructor
  · rintro ⟨pre, rs, h, hk, -⟩
    rcases append_singleton_eq_iff.1 h with ⟨rfl, -, -⟩ | ⟨_, _, _, hc, _⟩
    · exact hk.symm
    · cases hc
  · rintro rfl
    exact ⟨cs, [], by simp, rfl, fun i hi => absurd hi (Nat.not_lt_zero _)⟩

theorem not_reached_append_reply_zero (cs : List Call) (r : Value) :
    ¬ Reached (cs ++ [.reply r]) 0 := by
  rintro ⟨pre, rs, h, hk, -⟩
  rcases append_singleton_eq_iff.1 h with ⟨-, hc, -⟩ | ⟨rs', r', rfl, -, -⟩
  · cases hc
  · simp at hk

/-- A reply after `k` owed replies makes `k + 1` of them exactly when it is the one owed next. -/
theorem reached_append_reply (cs : List Call) (r : Value) (k : Nat) :
    Reached (cs ++ [.reply r]) (k + 1) ↔ Reached cs k ∧ Expects k r := by
  constructor
  · rintro ⟨pre, rs, h, hk, hx⟩
    rcases append_singleton_eq_iff.1 h with ⟨-, hc, -⟩ | ⟨rs', r', rfl, hc, hcs⟩
    · cases hc
    · cases hc
      have hlen : rs'.length = k := by simpa using hk
      refine ⟨⟨pre, rs', hcs, hlen, fun i hi => ?_⟩, ?_⟩
      · have hxi := hx i (by simp; omega)
        rwa [List.getElem_append_left hi] at hxi
      · simpa [hlen] using hx k (by simp; omega)
  · rintro ⟨⟨pre, rs, rfl, rfl, hx⟩, hr⟩
    refine ⟨pre, rs ++ [r], by simp, by simp, fun i hi => ?_⟩
    rcases Nat.lt_or_ge i rs.length with h | h
    · rw [List.getElem_append_left h]
      exact hx i h
    · obtain rfl : i = rs.length := by simp at hi; omega
      simpa using hr

/-- A reply with no request outstanding is refused as coming before the start, and leaves the
handshake at the start. -/
theorem onReply_of_idle {h : Handshake} (hidle : h.requestSent = false ∨ h.isDone = true)
    (r : Value) : h.onReply r = (.error .notStarted, new h.port) := by
  have hb : (!h.requestSent || h.isDone) = true := by
    rcases hidle with hs | hd <;> simp [*]
  simp only [onReply, hb, if_true]
  rfl

theorem start_snd (h : Handshake) : (h.call .start).2 = after h.port 0 := rfl

theorem call_reply (h : Handshake) (r : Value) : h.call (.reply r) = h.onReply r := rfl

/-- The handshake `h` stands where the calls `cs` leave one on `port`: after `k ≤ 4` owed replies
since the last start it is the handshake after `k` replies, and with no such start it is at the
beginning with no request outstanding. -/
structure Tracks (port : UInt16) (cs : List Call) (h : Handshake) : Prop where
  reached : ∀ k ≤ 4, Reached cs k → h = after port k
  idle : (∀ k ≤ 4, ¬ Reached cs k) → h = new port

namespace Tracks

variable {port : UInt16} {cs : List Call} {h : Handshake}

theorem port_eq (ht : Tracks port cs h) : h.port = port := by
  by_cases hsome : ∃ k ≤ 4, Reached cs k
  · obtain ⟨k, hk4, hk⟩ := hsome
    rw [ht.reached k hk4 hk]
    rfl
  · simp only [not_exists, not_and] at hsome
    rw [ht.idle hsome]
    rfl

/-- The reply owed after `k < 4` accepted replies moves the handshake on by one and answers the
next request, none after the fourth. -/
theorem onReply_owed (ht : Tracks port cs h) {k : Nat} (hk4 : k < 4) (hk : Reached cs k) {r : Value}
    (he : Expects k r) : h.onReply r = (.ok (requests port)[k + 1]?, after port (k + 1)) := by
  rw [ht.reached k (by omega) hk]
  exact onReply_after_expects hk4 he

/-- Any reply that is not the one owed fails, and leaves the handshake at the beginning with no
request outstanding. -/
theorem onReply_unowed (ht : Tracks port cs h) {r : Value}
    (hno : ¬ ∃ k < 4, Reached cs k ∧ Expects k r) :
    ∃ e, h.onReply r = (.error e, new port) := by
  by_cases hsome : ∃ k ≤ 4, Reached cs k
  · obtain ⟨k, hk4, hk⟩ := hsome
    rw [ht.reached k hk4 hk]
    rcases Nat.lt_or_ge k 4 with hlt | hge
    · -- a request is outstanding, and the reply does not answer it
      have hrej : (Stage.ofAccepted k).acceptsReply r = false := by
        rw [← Bool.not_eq_true, acceptsReply_iff hlt]
        exact fun he => hno ⟨k, hlt, hk, he⟩
      exact ⟨_, onReply_after_rejects hlt hrej⟩
    · -- the handshake is done, so the reply comes after its end
      have hd : (after port k).isDone = true := by simp [isDone_after, hge]
      exact ⟨_, onReply_of_idle (.inr hd) r⟩
  · simp only [not_exists, not_and] at hsome
    rw [ht.idle hsome]
    exact ⟨_, onReply_of_idle (.inl rfl) r⟩

/-- Step lemma: every call keeps the handshake where the calls so far leave it. -/
theorem call (ht : Tracks port cs h) (c : Call) : Tracks port (cs ++ [c]) (h.call c).2 := by
  cases c with
  | start =>
    -- a start goes back to the first request, whatever came before
    refine ⟨fun k _ hk => ?_,
      fun hno => absurd ((reached_append_start cs 0).2 rfl) (hno 0 (by omega))⟩
    rw [(reached_append_start cs k).1 hk, start_snd, ht.port_eq]
  | reply r =>
    refine ⟨fun k hk hr => ?_, fun hno => ?_⟩
    · obtain _ | j := k
      · exact absurd hr (not_reached_append_reply_zero cs r)
      obtain ⟨hj, he⟩ := (reached_append_reply cs r j).1 hr
      rw [call_reply, ht.onReply_owed (by omega) hj he]
    · have hno' : ¬ ∃ k < 4, Reached cs k ∧ Expects k r := fun ⟨k, hk4, hk, he⟩ =>
        hno (k + 1) (by omega) ((reached_append_reply cs r k).2 ⟨hk, he⟩)
      obtain ⟨e, he⟩ := ht.onReply_unowed hno'
      rw [call_reply, he]

end Tracks

/-- Run lemma: any calls on a new handshake leave it where they say. -/
theorem tracks_calls (port : UInt16) (cs : List Call) :
    Tracks port cs ((new port).calls cs).2 := by
  induction cs using List.reverseRecOn with
  | nil => exact ⟨fun k _ h => absurd h (not_reached_nil k), fun _ => rfl⟩
  | append_singleton cs c ih =>
    rw [calls_append_singleton]
    exact ih.call c

/-- A start followed by the four owed replies answers the four requests in order, the port
announced being the handshake's own, and then nothing, whatever state the handshake was in. -/
theorem calls_start_owed (h : Handshake) {r₀ r₁ r₂ r₃ : Value} (e₀ : Expects 0 r₀)
    (e₁ : Expects 1 r₁) (e₂ : Expects 2 r₂) (e₃ : Expects 3 r₃) :
    (h.calls [.start, .reply r₀, .reply r₁, .reply r₂, .reply r₃]).1 =
      [.ok (some (Value.command ["PING"])),
        .ok (some (Value.command ["REPLCONF", "listening-port", Decimal.ofNat h.port.toNat])),
        .ok (some (Value.command ["REPLCONF", "capa", "psync2"])),
        .ok (some (Value.command ["PSYNC", "?", "-1"])), .ok none] := by
  have c₀ : h.call .start = (.ok (some (Value.command ["PING"])), after h.port 0) := rfl
  simp only [calls, c₀, call_reply, onReply_after_expects (by omega) e₀,
    onReply_after_expects (by omega) e₁, onReply_after_expects (by omega) e₂,
    onReply_after_expects (by omega) e₃]
  rfl

/-- The replica handshake is a strict machine of four steps. After any calls on a new handshake,
it is done exactly when the last start was followed by exactly four replies, each the one owed
its request; a start and those replies answer `PING`, `REPLCONF listening-port <port>`,
`REPLCONF capa psync2` and `PSYNC ? -1`, then nothing. Any other reply, one before a start or
after the end included, fails and sends the handshake back to the beginning with no request
outstanding, where a further reply is refused as coming before the start. -/
theorem four_steps_in_order (port : UInt16) (cs : List Call) :
    (((new port).calls cs).2.stage = .done ↔ Reached cs 4) ∧
      (∀ r₀ r₁ r₂ r₃, Expects 0 r₀ → Expects 1 r₁ → Expects 2 r₂ → Expects 3 r₃ →
        (((new port).calls cs).2.calls
            [.start, .reply r₀, .reply r₁, .reply r₂, .reply r₃]).1 =
          [.ok (some (Value.command ["PING"])),
            .ok (some (Value.command ["REPLCONF", "listening-port", Decimal.ofNat port.toNat])),
            .ok (some (Value.command ["REPLCONF", "capa", "psync2"])),
            .ok (some (Value.command ["PSYNC", "?", "-1"])), .ok none]) ∧
      (∀ r, (¬ ∃ k < 4, Reached cs k ∧ Expects k r) →
        ∃ e, ((new port).calls cs).2.onReply r = (.error e, new port)) ∧
      (∀ r, (new port).onReply r = (.error .notStarted, new port)) := by
  have ht := tracks_calls port cs
  refine ⟨⟨fun hd => ?_, fun h4 => ?_⟩, fun r₀ r₁ r₂ r₃ e₀ e₁ e₂ e₃ => ?_,
    fun r hno => ht.onReply_unowed hno, fun r => onReply_of_idle (.inl rfl) r⟩
  · by_cases hsome : ∃ k ≤ 4, Reached cs k
    · obtain ⟨k, hk4, hk⟩ := hsome
      rw [ht.reached k hk4 hk] at hd
      -- of the handshakes after some replies, only the one after four is done
      have h4k : 4 ≤ k := by simpa [isDone, hd] using isDone_after port k
      obtain rfl : k = 4 := by omega
      exact hk
    · simp only [not_exists, not_and] at hsome
      rw [ht.idle hsome] at hd
      cases hd
  · rw [ht.reached 4 le_rfl h4]
    rfl
  · rw [calls_start_owed _ e₀ e₁ e₂ e₃, ht.port_eq]

end Handshake

end KvServer
