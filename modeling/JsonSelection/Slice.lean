/-!
# Slices of lists

A slice is given by integer positions. A negative position counts from the end
of the list, and every position is moved into the list before it is used, so a
slice of any list exists for any positions.

`Slice.before` and `Slice.between` are the two slices in use. Where positions
are not negative they are the familiar prefixes and segments
(`Slice.before_of_nonneg`, `Slice.between_of_nonneg`).
-/

set_option autoImplicit false

namespace JsonSelection

universe u

namespace Slice

variable {α : Type u}

/-- The place in a list of the given length that a position stands for. A
negative position counts from the end, and one that is out of the list stands
for the nearer end. -/
def place (length : Nat) (position : Int) : Nat :=
  if position < 0 then (length + position).toNat else min position.toNat length

/-- The elements before a position. -/
def before (items : List α) (stop : Int) : List α :=
  items.take (place items.length stop)

/-- The elements from one position up to another. There are none if the first
place is not before the second. -/
def between (items : List α) (start stop : Int) : List α :=
  (before items stop).drop (place items.length start)

theorem before_of_nonneg (items : List α) {stop : Int} (h : 0 ≤ stop) :
    before items stop = items.take stop.toNat := by
  have hn : ¬ stop < 0 := by omega
  simp only [before, place, hn, if_false]
  rcases Nat.le_total stop.toNat items.length with hl | hl
  · rw [Nat.min_eq_left hl]
  · rw [Nat.min_eq_right hl, List.take_of_length_le hl, List.take_of_length_le (Nat.le_refl _)]

/-- A slice up to a position past the end is the whole list. -/
theorem before_of_length_le {items : List α} {stop : Int} (h : (items.length : Int) ≤ stop) :
    before items stop = items := by
  rw [before_of_nonneg items (by omega)]
  exact List.take_of_length_le (by omega)

theorem between_of_nonneg (items : List α) {start count : Int} (hstart : 0 ≤ start)
    (hcount : 0 ≤ count) :
    between items start (start + count) = (items.drop start.toNat).take count.toNat := by
  have hn : ¬ start < 0 := by omega
  have hstop : (start + count).toNat = start.toNat + count.toNat := by omega
  simp only [between, before_of_nonneg items (show 0 ≤ start + count by omega),
    place, hn, if_false,
    hstop]
  rcases Nat.le_total start.toNat items.length with hl | hl
  · rw [Nat.min_eq_left hl, List.drop_take, Nat.add_sub_cancel_left]
  · -- a start past the end leaves nothing
    have htaken : (items.take (start.toNat + count.toNat)).length ≤ items.length := by
      rw [List.length_take]
      omega
    rw [Nat.min_eq_right hl, List.drop_eq_nil_of_le htaken, List.drop_eq_nil_of_le hl,
      List.take_nil]

end Slice

end JsonSelection
