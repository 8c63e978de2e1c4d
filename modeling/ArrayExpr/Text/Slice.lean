/-!
# Slices with integer bounds

A bound of a slice is any integer. A negative one counts from the end, and one that lies outside the list stands for
the nearest end (`place`). `takeTo`, `dropTo` and `slice` cut a list at such bounds; a slice whose bounds are reversed
is empty.
-/

namespace ArrayExpr.Text

/-- The place in a list of `length` elements that a bound stands for. -/
def place (length : Nat) (bound : Int) : Nat :=
  if bound < 0 then (length + bound).toNat else min bound.toNat length

/-- The elements before a bound. -/
def takeTo (xs : List α) (stop : Int) : List α := xs.take (place xs.length stop)

/-- The elements from a bound on. -/
def dropTo (xs : List α) (start : Int) : List α := xs.drop (place xs.length start)

/-- The elements from one bound on and before another. -/
def slice (xs : List α) (start stop : Int) : List α :=
  (xs.take (place xs.length stop)).drop (place xs.length start)

theorem place_le (length : Nat) (bound : Int) : place length bound ≤ length := by
  unfold place
  split <;> omega

@[simp] theorem takeTo_append_dropTo (xs : List α) (bound : Int) : takeTo xs bound ++ dropTo xs bound = xs :=
  List.take_append_drop _ _

theorem place_of_nonneg {length : Nat} {bound : Int} (h : 0 ≤ bound) :
    place length bound = min bound.toNat length := by
  unfold place
  split <;> omega

theorem takeTo_of_nonneg (xs : List α) {stop : Int} (h : 0 ≤ stop) : takeTo xs stop = xs.take stop.toNat := by
  rw [takeTo, place_of_nonneg h, List.take_eq_take_iff]
  omega

theorem dropTo_of_nonneg (xs : List α) {start : Int} (h : 0 ≤ start) : dropTo xs start = xs.drop start.toNat := by
  rw [dropTo, place_of_nonneg h, List.drop_eq_drop_iff]
  omega

theorem slice_of_nonneg (xs : List α) {start stop : Int} (hstart : 0 ≤ start) (hstop : 0 ≤ stop) :
    slice xs start stop = (xs.take stop.toNat).drop start.toNat := by
  have htake : xs.take (place xs.length stop) = xs.take stop.toNat := takeTo_of_nonneg xs hstop
  rw [slice, htake, place_of_nonneg hstart, List.drop_eq_drop_iff, List.length_take]
  omega

theorem slice_succ {xs : List α} {i : Nat} {a : α} (h : xs[i]? = some a) : slice xs i (i + 1 : Nat) = [a] := by
  obtain ⟨hlt, rfl⟩ := List.getElem?_eq_some_iff.mp h
  rw [slice_of_nonneg xs (Int.natCast_nonneg i) (Int.natCast_nonneg (i + 1)), Int.toNat_natCast, Int.toNat_natCast,
    List.take_add_one, List.getElem?_eq_getElem hlt]
  exact List.drop_left' (List.length_take_of_le (Nat.le_of_lt hlt))

example : slice ['a', 'b', 'c', 'd'] (-3) 9 = ['b', 'c', 'd'] := by decide

example : slice ['a', 'b', 'c', 'd'] 3 1 = [] := by decide

end ArrayExpr.Text
