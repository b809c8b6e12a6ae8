import TapeCalc.Number.Cells

/-!
# Numbers

A natural number of any size, held as canonical base-256 cells. `toNat` is the number it
stands for.
-/
namespace TapeCalc

structure Number where
  cells : List UInt8
  canonical : Cells.Canonical cells
  deriving DecidableEq

namespace Number

def toNat (n : Number) : Nat := Cells.value n.cells

/-- The number of any little-endian cells. -/
def ofCells (cells : List UInt8) : Number := ⟨Cells.normal cells, Cells.normal_canonical cells⟩

def ofByte (c : UInt8) : Number := ofCells [c]

def zero : Number := ⟨[0], by decide⟩

def one : Number := ⟨[1], by decide⟩

instance : Inhabited Number := ⟨zero⟩

def size (n : Number) : Nat := n.cells.length

def isZero (n : Number) : Bool := n.cells == [0]

def isOne (n : Number) : Bool := n.cells == [1]

/-- The least significant cell: the number modulo 256. -/
def lowCell (n : Number) : UInt8 := n.cells.headD 0

/-- The longer number is the greater; of one length, the most significant difference decides. -/
protected def compare (a b : Number) : Ordering :=
  (compare a.cells.length b.cells.length).then (Cells.compareCells a.cells b.cells)

instance : Ord Number := ⟨Number.compare⟩

instance : LT Number := ltOfOrd

instance : LE Number := leOfOrd

@[simp] theorem toNat_ofCells (cells : List UInt8) : (ofCells cells).toNat = Cells.value cells :=
  Cells.value_normal cells

theorem toNat_inj {a b : Number} : a.toNat = b.toNat ↔ a = b := by
  refine ⟨fun h => ?_, fun h => h ▸ rfl⟩
  cases a with
  | mk xs hx =>
    cases b with
    | mk ys hy => simpa using hx.eq_of_value_eq hy h

theorem compare_eq_compare_toNat (a b : Number) : compare a b = compare a.toNat b.toNat := by
  change (compare a.cells.length b.cells.length).then (Cells.compareCells a.cells b.cells) = _
  rcases Nat.lt_trichotomy a.cells.length b.cells.length with hl | hl | hl
  · have : a.toNat < b.toNat := Cells.value_lt_of_length_lt a.canonical b.canonical hl
    rw [Nat.compare_eq_lt.mpr hl, Nat.compare_eq_lt.mpr this]
    rfl
  · rw [Nat.compare_eq_eq.mpr hl, Cells.compareCells_eq_compare hl]
    rfl
  · have : b.toNat < a.toNat := Cells.value_lt_of_length_lt b.canonical a.canonical hl
    rw [Nat.compare_eq_gt.mpr hl, Nat.compare_eq_gt.mpr this]
    rfl

theorem lt_iff {a b : Number} : a < b ↔ a.toNat < b.toNat := by
  change compare a b = .lt ↔ _
  rw [compare_eq_compare_toNat, Nat.compare_eq_lt]

theorem le_iff {a b : Number} : a ≤ b ↔ a.toNat ≤ b.toNat := by
  change (compare a b).isLE = true ↔ _
  rw [compare_eq_compare_toNat, Nat.isLE_compare]

@[simp] theorem toNat_zero : zero.toNat = 0 := rfl

@[simp] theorem toNat_one : one.toNat = 1 := rfl

theorem isZero_iff (n : Number) : n.isZero = true ↔ n.toNat = 0 := by
  rw [← toNat_zero, toNat_inj]
  cases n
  simp [isZero, zero]

theorem isOne_iff (n : Number) : n.isOne = true ↔ n.toNat = 1 := by
  rw [← toNat_one, toNat_inj]
  cases n
  simp [isOne, one]

theorem toNat_lowCell (n : Number) : n.lowCell.toNat = n.toNat % 256 := by
  have h := n.canonical.1
  obtain ⟨c, cs, hc⟩ := List.exists_cons_of_ne_nil h
  have := c.toNat_lt
  simp only [lowCell, toNat, hc, Cells.value, List.headD_cons]
  omega

end Number

end TapeCalc
