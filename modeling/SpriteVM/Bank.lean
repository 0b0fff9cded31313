/-!
# Banks of bytes

A bank is a fixed number of numbered byte cells; the memory and the register file of the machine
are banks. Every access is checked: one that leaves the bank, in whole or in part, gives `none` and
changes nothing.
-/

namespace SpriteVM

/-- A fixed number of byte cells. -/
structure Bank (size : Nat) where
  /-- the cells, from number 0 on -/
  cells : Vector UInt8 size
  deriving DecidableEq, Repr

namespace Bank

variable {size : Nat}

/-- The bank whose cells are all zero. -/
def zero : Bank size :=
  ⟨Vector.replicate size 0⟩

/-- The contents of all cells. -/
def toList (b : Bank size) : List UInt8 :=
  b.cells.toList

/-- The content of a cell. -/
def get? (b : Bank size) (i : Nat) : Option UInt8 :=
  b.cells[i]?

/-- The content of a cell, taken as zero off the bank. -/
def cell (b : Bank size) (i : Nat) : UInt8 :=
  (b.get? i).getD 0

/-- The bank with a new content in one cell; nothing changes when there is no such cell. -/
def put (b : Bank size) (i : Nat) (v : UInt8) : Bank size :=
  ⟨b.cells.setIfInBounds i v⟩

/-- The bank with a new content in one cell. -/
def set? (b : Bank size) (i : Nat) (v : UInt8) : Option (Bank size) :=
  if i < size then some (b.put i v) else none

/-- The contents of `count` cells from `start` on, as far as the bank reaches. -/
def block (b : Bank size) (start count : Nat) : List UInt8 :=
  (b.cells.extract start (start + count)).toList

/-- The contents of `count` cells from `start` on. -/
def block? (b : Bank size) (start count : Nat) : Option (List UInt8) :=
  if start + count ≤ size then some (b.block start count) else none

/-- Writes bytes into the cells from `start` on and drops those that leave the bank. -/
def fill (b : Bank size) (start : Nat) : List UInt8 → Bank size
  | [] => b
  | v :: vs => fill (b.put start v) (start + 1) vs

/-- The bank with new contents in the cells from `start` on. -/
def setBlock? (b : Bank size) (start : Nat) (vs : List UInt8) : Option (Bank size) :=
  if start + vs.length ≤ size then some (b.fill start vs) else none

/-! ## What the operations do to the view `get?` -/

/-- Exactly the cells of the bank can be read. -/
theorem get?_isSome {b : Bank size} {i : Nat} : (b.get? i).isSome ↔ i < size := by
  simp [get?]

/-- The cells as an array, seen through the same view. -/
theorem getElem?_toArray (b : Bank size) (i : Nat) : b.cells.toArray[i]? = b.get? i := by
  rw [get?, Vector.getElem?_toArray]

/-- The cells as a list, seen through the same view. -/
theorem getElem?_toList (b : Bank size) (i : Nat) : b.toList[i]? = b.get? i := by
  rw [toList, Vector.getElem?_toList, get?]

theorem length_toList (b : Bank size) : b.toList.length = size := by
  simp [toList]

/-- A cell of the bank has a content. -/
theorem get?_eq_some {b : Bank size} {i : Nat} (h : i < size) : b.get? i = some (b.cell i) := by
  obtain ⟨v, hv⟩ := Option.isSome_iff_exists.1 (get?_isSome (b := b).2 h)
  rw [cell, hv, Option.getD_some]

/-- A bank is known by the contents of its cells. -/
theorem eq_of_cell {b c : Bank size} (h : ∀ i < size, b.cell i = c.cell i) : b = c := by
  refine congrArg Bank.mk (Vector.ext fun i hi => ?_)
  simpa [cell, get?, hi] using h i hi

theorem toList_inj {b c : Bank size} (h : b.toList = c.toList) : b = c :=
  congrArg Bank.mk (Vector.toList_inj.1 h)

theorem set?_eq_some {b : Bank size} {i : Nat} (h : i < size) (v : UInt8) :
    b.set? i v = some (b.put i v) := by
  rw [set?, if_pos h]

/-- A write to a cell of the bank changes its own cell. -/
theorem cell_put {b : Bank size} {i : Nat} (h : i < size) (v : UInt8) (j : Nat) :
    (b.put i v).cell j = if i = j then v else b.cell j := by
  simp only [cell, get?, put, Vector.getElem?_setIfInBounds]
  split
  · subst i
    simp
  · rfl

/-- A write leaves the other cells as they are. -/
theorem cell_put_of_ne {b : Bank size} {i j : Nat} (v : UInt8) (h : j ≠ i) :
    (b.put i v).cell j = b.cell j := by
  simp only [cell, get?, put, Vector.getElem?_setIfInBounds, if_neg (Ne.symm h)]

/-- The later one of two writes to a cell stays. -/
theorem put_put (b : Bank size) (i : Nat) (v w : UInt8) : (b.put i v).put i w = b.put i w := by
  simp only [put, Vector.setIfInBounds_setIfInBounds]

/-- A write changes its own cell. -/
theorem get?_set? {b c : Bank size} {i : Nat} {v : UInt8} (h : b.set? i v = some c) (j : Nat) :
    c.get? j = if i = j then some v else b.get? j := by
  unfold set? at h
  split at h
  · cases h
    grind [get?, put]
  · cases h

/-- A fill changes the cells from its start on, as far as its bytes and the bank reach. -/
theorem get?_fill (b : Bank size) (start : Nat) (vs : List UInt8) (i : Nat) :
    (b.fill start vs).get? i =
      if start ≤ i ∧ i < start + vs.length ∧ i < size then vs[i - start]? else b.get? i := by
  induction vs generalizing b start with
  | nil =>
    rw [fill, if_neg]
    simp only [List.length_nil]
    omega
  | cons v vs ih =>
    rw [fill, ih]
    simp only [get?, put, Vector.getElem?_setIfInBounds, List.length_cons]
    grind

/-- A fill that stays in the bank replaces a stretch of the contents. -/
theorem toList_fill {b : Bank size} {start : Nat} {vs : List UInt8} (h : start + vs.length ≤ size) :
    (b.fill start vs).toList = b.toList.take start ++ vs ++ b.toList.drop (start + vs.length) := by
  have hstart : (b.toList.take start).length = start :=
    List.length_take_of_le (by rw [length_toList]; omega)
  refine List.ext_getElem? fun i => ?_
  rw [getElem?_toList, get?_fill, List.append_assoc]
  by_cases hbefore : i < start
  · rw [if_neg (by omega), List.getElem?_append_left (by omega), List.getElem?_take_of_lt hbefore,
      getElem?_toList]
  · rw [List.getElem?_append_right (by omega), hstart]
    by_cases hin : i < start + vs.length
    · rw [if_pos (by omega), List.getElem?_append_left (by omega)]
    · rw [if_neg (by omega), List.getElem?_append_right (by omega), List.getElem?_drop,
        getElem?_toList]
      congr 1
      omega

/-- A fill leaves the cells outside its stretch as they are. -/
theorem cell_fill_of_outside {b : Bank size} {start : Nat} {vs : List UInt8} {i : Nat}
    (h : i < start ∨ start + vs.length ≤ i) : (b.fill start vs).cell i = b.cell i := by
  rw [cell, get?_fill, if_neg, cell]
  omega

/-- What a fill puts into a cell does not depend on what was there. -/
theorem cell_fill_congr {b c : Bank size} {start : Nat} {vs : List UInt8} {i : Nat}
    (hle : start ≤ i) (hlt : i < start + vs.length) (hsize : i < size) :
    (b.fill start vs).cell i = (c.fill start vs).cell i := by
  rw [cell, get?_fill, if_pos ⟨hle, hlt, hsize⟩, cell, get?_fill, if_pos ⟨hle, hlt, hsize⟩]

theorem length_block {b : Bank size} {start count : Nat} (h : start + count ≤ size) :
    (b.block start count).length = count := by
  simp only [block, Vector.length_toList]
  omega

theorem block?_eq_some {b : Bank size} {start count : Nat} (h : start + count ≤ size) :
    b.block? start count = some (b.block start count) := by
  rw [block?, if_pos h]

theorem setBlock?_eq_some {b : Bank size} {start : Nat} {vs : List UInt8}
    (h : start + vs.length ≤ size) : b.setBlock? start vs = some (b.fill start vs) := by
  rw [setBlock?, if_pos h]

/-- A block is a stretch of the contents. -/
theorem block_eq (b : Bank size) (start count : Nat) :
    b.block start count = (b.toList.drop start).take count := by
  have hc : start + count - start = count := by omega
  simp [block, toList, Vector.toList_extract, hc]

/-- What is in a block, cell by cell. -/
theorem getElem?_block {b : Bank size} {start count : Nat} (h : start + count ≤ size) (i : Nat) :
    (b.block start count)[i]? = if i < count then some (b.cell (start + i)) else none := by
  rw [block_eq, List.getElem?_take, List.getElem?_drop]
  split
  · rw [← get?_eq_some (by omega), getElem?_toList]
  · rfl

/-- Blocks are the same when their cells are. -/
theorem block_congr {b c : Bank size} {start count : Nat} (hsize : start + count ≤ size)
    (h : ∀ i, start ≤ i → i < start + count → c.cell i = b.cell i) :
    c.block start count = b.block start count := by
  refine List.ext_getElem? fun i => ?_
  rw [getElem?_block hsize, getElem?_block hsize]
  split
  · next hi => rw [h (start + i) (Nat.le_add_right ..) (Nat.add_lt_add_left hi start)]
  · rfl

end Bank

end SpriteVM
