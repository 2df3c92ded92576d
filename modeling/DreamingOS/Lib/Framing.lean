import Mathlib.Data.List.Induction

namespace Framing

open List

/-!
# Framing — decoding a stream that arrives in pieces

A decoder looks at the bytes at hand and finds an item, an error, or not enough to tell.  What
makes it a decoder of streams is that its answers do not depend on the bytes behind them.

* `Stable` — an item or an error stays what it is when more bytes arrive, and an item takes some;
* `drain` — the receiving loop: items are taken off the front while there are any;
* `drain_append` — draining in two pieces is draining at once;
* `feed_eq_drain` — **chunking does not matter**: whatever the pieces, the receiver ends where
  draining the whole stream ends;
* `drain_flatMap` — a concatenation of encodings is drained to the encoded items.
-/

variable {α β ε : Type}

/-- What a decoder finds at the front of the bytes at hand. -/
inductive Verdict (α ε : Type)
  | item (a : α) (used : ℕ)
  | more
  | error (e : ε)
  deriving DecidableEq

/-- The answers of the decoder are final, but for `more`. -/
structure Stable (decode : List β → Verdict α ε) : Prop where
  used_pos : ∀ {bs a n}, decode bs = .item a n → 0 < n
  used_le : ∀ {bs a n}, decode bs = .item a n → n ≤ bs.length
  item_append : ∀ {bs a n}, decode bs = .item a n → ∀ rest, decode (bs ++ rest) = .item a n
  error_append : ∀ {bs e}, decode bs = .error e → ∀ rest, decode (bs ++ rest) = .error e

/-- A receiver: the items so far, and the bytes it holds back or the error that closed it. -/
structure Receiver (α β ε : Type) where
  items : List α
  state : Except ε (List β)

/-- The receiving loop, with the turns it may take. -/
def drainLoop (decode : List β → Verdict α ε) : ℕ → List β → Receiver α β ε
  | 0, bs => ⟨[], .ok bs⟩
  | turns + 1, bs =>
    match decode bs with
    | .more => ⟨[], .ok bs⟩
    | .error e => ⟨[], .error e⟩
    | .item a n =>
      let later := drainLoop decode turns (bs.drop n)
      ⟨a :: later.items, later.state⟩

/-- Draining the bytes at hand; every item takes one of them at least. -/
def drain (decode : List β → Verdict α ε) (bs : List β) : Receiver α β ε :=
  drainLoop decode (bs.length + 1) bs

/-- A chunk arrives: it is appended to what is held back.  A closed receiver takes nothing. -/
def feed (decode : List β → Verdict α ε) (r : Receiver α β ε) (chunk : List β) : Receiver α β ε :=
  match r.state with
  | .error _ => r
  | .ok pending =>
    let drained := drain decode (pending ++ chunk)
    ⟨r.items ++ drained.items, drained.state⟩

/-- A receiver that has received nothing. -/
def Receiver.start : Receiver α β ε := ⟨[], .ok []⟩

variable {decode : List β → Verdict α ε}

attribute [local simp] drainLoop in
theorem drainLoop_turns (hstable : Stable decode) {turns turns' : ℕ} {bs : List β}
    (h : bs.length < turns) (h' : bs.length < turns') :
    drainLoop decode turns bs = drainLoop decode turns' bs := by
  induction turns generalizing turns' bs with
  | zero => exact absurd h (Nat.not_lt_zero _)
  | succ turns ih =>
    obtain ⟨turns', rfl⟩ : ∃ t, turns' = t + 1 := ⟨turns' - 1, by omega⟩
    rw [drainLoop, drainLoop]
    cases hd : decode bs with
    | more => rfl
    | error e => rfl
    | item a n =>
      have hpos := hstable.used_pos hd
      have hle := hstable.used_le hd
      have hlen : (bs.drop n).length = bs.length - n := length_drop
      have hlater := @ih turns' (bs.drop n) (by omega) (by omega)
      dsimp only
      rw [hlater]

variable {bs : List β}

theorem drain_more (h : decode bs = .more) : drain decode bs = ⟨[], .ok bs⟩ := by
  rw [drain, drainLoop, h]

variable {e : ε}

theorem drain_error (h : decode bs = .error e) : drain decode bs = ⟨[], .error e⟩ := by
  rw [drain, drainLoop, h]

theorem drain_item (hstable : Stable decode) {a : α} {n : ℕ} (h : decode bs = .item a n) :
    drain decode bs =
      ⟨a :: (drain decode (bs.drop n)).items, (drain decode (bs.drop n)).state⟩ := by
  have hpos := hstable.used_pos h
  have hle := hstable.used_le h
  have hlen : (bs.drop n).length = bs.length - n := length_drop
  rw [drain, drainLoop, h]
  dsimp only
  rw [drain, drainLoop_turns hstable (by omega) (Nat.lt_succ_self _)]

variable {r : Receiver α β ε} {pending : List β}

theorem feed_of_ok (h : r.state = .ok pending) (chunk : List β) :
    feed decode r chunk = ⟨r.items ++ (drain decode (pending ++ chunk)).items,
        (drain decode (pending ++ chunk)).state⟩ := by
  rw [feed, h]

theorem feed_of_error (h : r.state = .error e) (chunk : List β) : feed decode r chunk = r := by
  rw [feed, h]

/-- Induction along the drained items: nothing more to take, an error, or an item off the front. -/
theorem drain_induction (hstable : Stable decode) {motive : List β → Prop}
    (more : ∀ bs, decode bs = .more → motive bs)
    (error : ∀ bs e, decode bs = .error e → motive bs)
    (item : ∀ bs a n, decode bs = .item a n → motive (bs.drop n) → motive bs) (bs : List β) :
    motive bs := by
  induction hlen : bs.length using Nat.strongRecOn generalizing bs with
  | _ len ih =>
    cases hd : decode bs with
    | more => exact more bs hd
    | error e => exact error bs e hd
    | item a n =>
      have hpos := hstable.used_pos hd
      have hle := hstable.used_le hd
      refine item bs a n hd (ih _ ?_ (bs.drop n) rfl)
      rw [length_drop]
      omega

/-- What a receiver holds back is no item yet. -/
theorem decode_pending (hstable : Stable decode)
    (h : (drain decode bs).state = .ok pending) : decode pending = .more := by
  induction bs using drain_induction hstable with
  | more bs hd =>
    rw [drain_more hd] at h
    obtain rfl := Except.ok.inj h
    exact hd
  | error bs e hd =>
    rw [drain_error hd] at h
    cases h
  | item bs a n hd ih =>
    rw [drain_item hstable hd] at h
    exact ih h

/-- Draining in two pieces: the first piece, then what it leaves with the second behind it. -/
theorem drain_append (hstable : Stable decode) (bs more : List β) :
    drain decode (bs ++ more) = feed decode (drain decode bs) more := by
  induction bs using drain_induction hstable with
  | more bs hd =>
    rw [drain_more hd, feed_of_ok rfl]
    rfl
  | error bs e hd =>
    rw [drain_error hd, drain_error (hstable.error_append hd more)]
    rfl
  | item bs a n hd ih =>
    have hdrop : (bs ++ more).drop n = bs.drop n ++ more :=
      drop_append_of_le_length (hstable.used_le hd)
    rw [drain_item hstable hd, drain_item hstable (hstable.item_append hd more), hdrop, ih]
    cases hstate : (drain decode (bs.drop n)).state with
    | error e => rw [feed_of_error hstate, feed_of_error rfl, hstate]
    | ok pending => rw [feed_of_ok hstate, feed_of_ok rfl, cons_append]

/-- **Chunking does not matter.**  Whatever pieces a stream arrives in, the receiver ends where
    draining the whole stream at once ends. -/
theorem feed_eq_drain (hstable : Stable decode) (hempty : decode [] = .more)
    (chunks : List (List β)) :
    chunks.foldl (feed decode) .start = drain decode chunks.flatten := by
  induction chunks using List.reverseRecOn with
  | nil =>
    rw [flatten_nil, drain_more hempty]
    rfl
  | append_singleton chunks chunk ih =>
    rw [foldl_append, ih, flatten_append, flatten_singleton,
      drain_append hstable, foldl_cons, foldl_nil]

/-- A concatenation of encodings is drained to the encoded items, with nothing left over. -/
theorem drain_flatMap (hstable : Stable decode) (hempty : decode [] = .more)
    (encode : α → List β) (items : List α)
    (hdecode : ∀ a ∈ items, ∀ rest, decode (encode a ++ rest) = .item a (encode a).length) :
    drain decode (items.flatMap encode) = ⟨items, .ok []⟩ := by
  induction items with
  | nil => exact drain_more hempty
  | cons a items ih =>
    have hfirst := hdecode a mem_cons_self (items.flatMap encode)
    rw [flatMap_cons, drain_item hstable hfirst, drop_left,
      ih fun b hb => hdecode b (mem_cons_of_mem _ hb)]

end Framing
