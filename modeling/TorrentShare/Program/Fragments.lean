import Mathlib.Data.List.Basic
import Mathlib.Tactic.Common

/-!
# Moving items in pieces

A call moves some of the items it is asked to move, and a loop calls again until all of them have
been moved. However the items are cut into pieces, the loop moves what one call for all of them
would move.
-/

namespace Framing

variable {α : Type}

/-- One direction of a connection: the items in it, and the number of calls made so far. -/
structure Stream (α : Type) where
  items : List α := []
  calls : ℕ := 0

/-! ### Writing -/

/-- The items that the next call takes, if it takes any. -/
def Stream.write (pieces : ℕ → ℕ) (data : List α) (s : Stream α) : ℕ × Stream α :=
  let n := min data.length (pieces s.calls)
  (n, ⟨s.items ++ data.take n, s.calls + 1⟩)

/-- Write what is left of the data behind `sent` items, until a call takes nothing. -/
def Stream.writeLoop (pieces : ℕ → ℕ) (data : List α) (sent : ℕ) (s : Stream α) :
    Bool × Stream α :=
  if _h : sent < data.length then
    if _hn : (s.write pieces (data.drop sent)).1 = 0 then
      (false, (s.write pieces (data.drop sent)).2)
    else writeLoop pieces data (sent + (s.write pieces (data.drop sent)).1)
      (s.write pieces (data.drop sent)).2
  else (true, s)
termination_by data.length - sent

/-- However the data is cut, all of it is written. -/
lemma Stream.writeLoop_eq {pieces : ℕ → ℕ} (hpieces : ∀ k, 0 < pieces k) (data : List α)
    (sent : ℕ) (s : Stream α) : ∃ calls,
    s.writeLoop pieces data sent = (true, ⟨s.items ++ data.drop sent, calls⟩) := by
  induction sent, s using Stream.writeLoop.induct pieces data with
  | case1 sent s h hn =>
    have hpiece := hpieces s.calls
    simp only [Stream.write, List.length_drop] at hn
    omega
  | case2 sent s h hn ih =>
    obtain ⟨calls, hcalls⟩ := ih
    refine ⟨calls, ?_⟩
    rw [Stream.writeLoop, dif_pos h, dif_neg hn, hcalls]
    simp only [Stream.write, List.append_assoc, ← List.drop_drop, List.take_append_drop]
  | case3 sent s h =>
    refine ⟨s.calls, ?_⟩
    rw [Stream.writeLoop, dif_neg h, List.drop_of_length_le (Nat.le_of_not_lt h), List.append_nil]

/-! ### Reading -/

/-- The items that the next call delivers, at most `n` of them. There are none at the end. -/
def Stream.read (pieces : ℕ → ℕ) (n : ℕ) (s : Stream α) : List α × Stream α :=
  let n := min n (pieces s.calls)
  (s.items.take n, ⟨s.items.drop n, s.calls + 1⟩)

/-- Read behind what has been got until there are `len` items, or a call delivers none. -/
def Stream.readLoop (pieces : ℕ → ℕ) (len : ℕ) (got : List α) (s : Stream α) :
    Option (List α) × Stream α :=
  if _h : got.length < len then
    if _hn : (s.read pieces (len - got.length)).1 = [] then
      (none, (s.read pieces (len - got.length)).2)
    else readLoop pieces len (got ++ (s.read pieces (len - got.length)).1)
      (s.read pieces (len - got.length)).2
  else (some got, s)
termination_by len - got.length
decreasing_by
  have hlength := List.length_pos_of_ne_nil _hn
  rw [List.length_append]
  omega

/-- A stream that has the items is read as far as they go. -/
lemma Stream.readLoop_eq_some {pieces : ℕ → ℕ} (hpieces : ∀ k, 0 < pieces k) (len : ℕ)
    (got : List α) (s : Stream α) (hgot : got.length ≤ len)
    (hlen : len - got.length ≤ s.items.length) : ∃ calls,
    s.readLoop pieces len got = (some (got ++ s.items.take (len - got.length)),
      ⟨s.items.drop (len - got.length), calls⟩) := by
  induction got, s using Stream.readLoop.induct pieces len with
  | case1 got s h hn =>
    have hpiece := hpieces s.calls
    have hlength := congrArg List.length hn
    simp only [Stream.read, List.length_take, List.length_nil] at hlength
    omega
  | case2 got s h hn ih =>
    set r := s.read pieces (len - got.length) with hr
    have hlength : r.1.length ≤ len - got.length := by
      simp only [hr, Stream.read, List.length_take]
      omega
    have hsplit : s.items = r.1 ++ r.2.items := (List.take_append_drop _ s.items).symm
    have hleft : len - (got ++ r.1).length = len - got.length - r.1.length := by
      rw [List.length_append]
      omega
    rw [hsplit, List.length_append] at hlen
    obtain ⟨calls, hcalls⟩ := ih (by rw [List.length_append]; omega) (by omega)
    refine ⟨calls, ?_⟩
    rw [Stream.readLoop, dif_pos h, dif_neg hn, hcalls, hleft, hsplit, List.take_append,
      List.drop_append, List.take_of_length_le hlength, List.drop_of_length_le hlength,
      List.append_assoc, List.nil_append]
  | case3 got s h =>
    refine ⟨s.calls, ?_⟩
    have hzero : len - got.length = 0 := by omega
    rw [Stream.readLoop, dif_neg h, hzero, List.take_zero, List.append_nil, List.drop_zero]

/-- A stream that ends before that is read in vain. -/
lemma Stream.readLoop_eq_none (pieces : ℕ → ℕ) {len : ℕ} {got : List α} {s : Stream α}
    (hlen : s.items.length < len - got.length) : (s.readLoop pieces len got).1 = none := by
  induction got, s using Stream.readLoop.induct pieces len with
  | case1 got s h hn => rw [Stream.readLoop, dif_pos h, dif_pos hn]
  | case2 got s h hn ih =>
    have hsplit : (s.read pieces (len - got.length)).1.length +
        (s.read pieces (len - got.length)).2.items.length = s.items.length := by
      rw [← List.length_append]
      exact congrArg List.length (List.take_append_drop _ s.items)
    rw [Stream.readLoop, dif_pos h, dif_neg hn]
    apply ih
    rw [List.length_append]
    omega
  | case3 got s h => omega

end Framing
