/-! # Ranges — tables of code points

  A class of characters is given by a table of ranges of code points, both
  ends included, in ascending order. -/

namespace BlockLang

/-- Is `n` in one of the ranges?  They ascend, so the search ends at the
    first range that starts above `n`. -/
def inRanges (n : Nat) : List (Nat × Nat) → Bool
  | [] => false
  | (first, last) :: ranges => if n < first then false else n ≤ last || inRanges n ranges

/-- Nothing below the first range is in a table. -/
theorem inRanges_of_lt {n first last : Nat} {ranges : List (Nat × Nat)} (h : n < first) :
    inRanges n ((first, last) :: ranges) = false := by
  rw [inRanges, if_pos h]

/-- Nothing between the first two ranges is in a table. -/
theorem inRanges_of_between {n first last next last' : Nat} {ranges : List (Nat × Nat)}
    (h : last < n) (h' : n < next) :
    inRanges n ((first, last) :: (next, last') :: ranges) = false := by
  rw [inRanges, inRanges_of_lt h', Bool.or_false]
  split
  · rfl
  · exact decide_eq_false (by omega)

end BlockLang
