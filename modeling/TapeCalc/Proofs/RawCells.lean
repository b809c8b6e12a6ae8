import TapeCalc.Arithmetic

/-!
# Raw cells

The operations of numbers on lists of cells with no proof beside them. A list is trimmed at the end
of an operation that builds it anew, and nowhere else: a cell is shifted in in place, and some
operations hand an operand on. What these operations give, in any combination, is canonical all
the same, and so the cells of a number.
-/
namespace TapeCalc.Raw

open Cells

def isZero (cells : List UInt8) : Bool := cells == [0]

def isOne (cells : List UInt8) : Bool := cells == [1]

protected def compare (xs ys : List UInt8) : Ordering :=
  (compare xs.length ys.length).then (compareCells xs ys)

def add (xs ys : List UInt8) : List UInt8 :=
  normal (if ys.length ≤ xs.length then addCarry xs ys 0 else addCarry ys xs 0)

def sub? (xs ys : List UInt8) : Option (List UInt8) :=
  if Raw.compare xs ys == .lt then none else some (normal (subBorrow xs ys 0).1)

def sub (xs ys : List UInt8) : List UInt8 := (sub? xs ys).getD [0]

def mul (xs ys : List UInt8) : List UInt8 :=
  if isZero xs || isZero ys then [0]
  else normal (productRow xs ys (List.replicate (xs.length + ys.length) 0))

def mulRepeat (base : List UInt8) : Nat → List UInt8 → List UInt8
  | 0, start => start
  | n + 1, start => mulRepeat base n (mul start base)

def pow (base : List UInt8) (exponent : Nat) : List UInt8 :=
  if exponent = 0 then [1]
  else if isZero base || isOne base then base
  else mulRepeat base (exponent - 1) base

/-- The cell takes the place of zero, or goes below the others; nothing is trimmed. -/
def shiftIn (cells : List UInt8) (c : UInt8) : List UInt8 :=
  if isZero cells then [c] else c :: cells

def takeOff (divisor : List UInt8) : Nat → List UInt8 → UInt8 → List UInt8 × UInt8
  | 0, remainder, count => (remainder, count)
  | fuel + 1, remainder, count =>
    match sub? remainder divisor with
    | none => (remainder, count)
    | some rest => takeOff divisor fuel rest (count + 1)

def divideCell (divisor : List UInt8) (cell : UInt8) (state : List UInt8 × List UInt8) :
    List UInt8 × List UInt8 :=
  let taken := takeOff divisor 256 (shiftIn state.2 cell) 0
  (taken.2 :: state.1, taken.1)

/-- Only the quotient is trimmed. -/
def divMod? (xs ys : List UInt8) : Option (List UInt8 × List UInt8) :=
  if isZero ys then none
  else if Raw.compare xs ys == .lt then some ([0], xs)
  else
    let result := xs.foldr (divideCell ys) ([], [0])
    some (normal result.1, result.2)

def ofWord (w : BitVec 128) : List UInt8 := normal (Number.wordBytes 16 w)

def readDigits : List Char → Nat → List UInt8 → Except NumeralError (List UInt8)
  | [], _, cells => .ok cells
  | c :: cs, index, cells =>
    if c.isDigit then readDigits cs (index + 1) (normal (mulAdd 10 cells (c.val - '0'.val)))
    else .error (.invalidDigit c index)

def parse (text : String) : Except NumeralError (List UInt8) :=
  if text.toList.isEmpty then .error .empty else readDigits text.toList 0 [0]

def bitLength (cells : List UInt8) : Nat :=
  (cells.length - 1) * 8 + Number.cellBits (cells.getLastD 0)

def toUInt64? (cells : List UInt8) : Option UInt64 :=
  (if 16 < cells.length then none else some (Number.wordOfCells cells)).bind fun w =>
    if w.toNat < 2 ^ 64 then some (UInt64.ofNat w.toNat) else none

def power (limits : Limits) (base exponent : List UInt8) : Except PowerError (List UInt8) :=
  if isZero exponent then .ok [1]
  else if isZero base || isOne base then .ok base
  else
    let requested := (toUInt64? exponent).getD (UInt64.ofNat (2 ^ 64 - 1))
    let bits := saturated (requested.toNat * bitLength base)
    if limits.maxExponent < requested then
      .error (.exponentTooLarge requested limits.maxExponent)
    else if limits.maxResultBits < bits then
      .error (.resultTooLarge bits limits.maxResultBits)
    else .ok (pow base requested.toNat)

/-- Applies an operator; infinity has no cells. -/
def apply (op : Operator) (limits : Limits) (xs ys : List UInt8) :
    Except PowerError (Option (List UInt8)) :=
  match op with
  | .add => .ok (some (add xs ys))
  | .sub => .ok (some (sub xs ys))
  | .mul => .ok (some (mul xs ys))
  | .div => .ok ((divMod? xs ys).map Prod.fst)
  | .pow => (power limits xs ys).map some

/-- The lists that constructors and operations give, in any number of steps. Zero is the default
number, and a word of fewer bits is widened before it is split into cells. -/
inductive Obtained : List UInt8 → Prop
  | zero : Obtained [0]
  | one : Obtained [1]
  | ofCells (cells : List UInt8) : Obtained (normal cells)
  | ofWord (w : BitVec 128) : Obtained (ofWord w)
  | parse {text : String} {cells : List UInt8} (h : parse text = .ok cells) : Obtained cells
  | add {xs ys : List UInt8} (hx : Obtained xs) (hy : Obtained ys) : Obtained (add xs ys)
  | sub {xs ys : List UInt8} (hx : Obtained xs) (hy : Obtained ys) : Obtained (sub xs ys)
  | sub? {xs ys cells : List UInt8} (hx : Obtained xs) (hy : Obtained ys)
      (h : sub? xs ys = some cells) : Obtained cells
  | mul {xs ys : List UInt8} (hx : Obtained xs) (hy : Obtained ys) : Obtained (mul xs ys)
  | pow {base : List UInt8} (hb : Obtained base) (exponent : Nat) : Obtained (pow base exponent)
  | quotient {xs ys q r : List UInt8} (hx : Obtained xs) (hy : Obtained ys)
      (h : divMod? xs ys = some (q, r)) : Obtained q
  | remainder {xs ys q r : List UInt8} (hx : Obtained xs) (hy : Obtained ys)
      (h : divMod? xs ys = some (q, r)) : Obtained r
  | apply {op : Operator} {limits : Limits} {xs ys cells : List UInt8} (hx : Obtained xs)
      (hy : Obtained ys) (h : apply op limits xs ys = .ok (some cells)) : Obtained cells

theorem compare_cells (a b : Number) : Raw.compare a.cells b.cells = compare a b := rfl

theorem add_cells (a b : Number) : add a.cells b.cells = (a + b).cells := by
  change _ = (Number.add a b).cells
  unfold add Number.add
  split
  next h => rw [if_pos (show b.size ≤ a.size from h)]; rfl
  next h => rw [if_neg (show ¬ b.size ≤ a.size from h)]; rfl

theorem sub?_cells (a b : Number) : sub? a.cells b.cells = (Number.sub? a b).map Number.cells := by
  unfold sub? Number.sub?
  rw [compare_cells]
  split
  next => rfl
  next => rfl

theorem sub_cells (a b : Number) : sub a.cells b.cells = (a - b).cells := by
  change _ = ((Number.sub? a b).getD Number.zero).cells
  rw [sub, sub?_cells]
  cases Number.sub? a b with
  | none => rfl
  | some c => rfl

theorem isZero_cells (a : Number) : isZero a.cells = a.isZero := rfl

/-- A factor of zero is met before any cell is multiplied. -/
theorem mul_cells (a b : Number) : mul a.cells b.cells = (a * b).cells := by
  unfold mul
  rw [isZero_cells, isZero_cells]
  split
  next h =>
    have hz : (a * b).toNat = Number.zero.toNat := by
      rw [Bool.or_eq_true, Number.isZero_iff, Number.isZero_iff] at h
      rw [Number.toNat_mul, Number.toNat_zero]
      rcases h with h | h <;> simp [h]
    exact (congrArg Number.cells (Number.toNat_inj.mp hz)).symm
  next => rfl

theorem mulRepeat_cells (base : Number) (n : Nat) (start : Number) :
    mulRepeat base.cells n start.cells = (Number.mulRepeat base n start).cells := by
  induction n generalizing start with
  | zero => rfl
  | succ n ih => rw [mulRepeat, mul_cells, ih, Number.mulRepeat]

theorem pow_cells (base : Number) (exponent : Nat) :
    pow base.cells exponent = (base.pow exponent).cells := by
  unfold pow Number.pow
  split
  next => rfl
  next =>
    change (if base.isZero || base.isOne then _ else _) = _
    split
    next => rfl
    next => exact mulRepeat_cells base (exponent - 1) base

theorem canonical_shiftIn {cells : List UInt8} (h : Canonical cells) (c : UInt8) :
    Canonical (shiftIn cells c) := by
  unfold shiftIn
  split
  next => exact canonical_singleton c
  next hne => exact h.cons (by simpa [isZero] using hne) c

theorem value_shiftIn (cells : List UInt8) (c : UInt8) :
    value (shiftIn cells c) = 256 * value cells + c.toNat := by
  unfold shiftIn
  split
  next h =>
    obtain rfl : cells = [0] := by simpa [isZero] using h
    simp [value]
  next => rw [value, Nat.add_comm]

/-- A canonical list stays canonical when a cell is shifted in, so there is nothing to trim. -/
theorem shiftIn_cells (n : Number) (c : UInt8) : shiftIn n.cells c = (n.shiftIn c).cells := by
  refine (canonical_shiftIn n.canonical c).eq_of_value_eq (n.shiftIn c).canonical ?_
  exact (value_shiftIn n.cells c).trans (n.toNat_shiftIn c).symm

theorem takeOff_cells (divisor : Number) (fuel : Nat) (remainder : Number) (count : UInt8) :
    takeOff divisor.cells fuel remainder.cells count =
      ((Number.takeOff divisor fuel remainder count).1.cells,
        (Number.takeOff divisor fuel remainder count).2) := by
  induction fuel generalizing remainder count with
  | zero => rfl
  | succ fuel ih =>
    rw [takeOff, Number.takeOff, sub?_cells]
    cases Number.sub? remainder divisor with
    | none => rfl
    | some rest => exact ih rest (count + 1)

theorem divideCell_cells (divisor : Number) (c : UInt8) (state : List UInt8 × Number) :
    divideCell divisor.cells c (state.1, state.2.cells) =
      ((Number.divideCell divisor c state).1, (Number.divideCell divisor c state).2.cells) := by
  rw [divideCell, shiftIn_cells, takeOff_cells]
  rfl

theorem foldr_divideCell_cells (divisor : Number) (cells : List UInt8) :
    cells.foldr (divideCell divisor.cells) ([], [0]) =
      ((cells.foldr (Number.divideCell divisor) ([], Number.zero)).1,
        (cells.foldr (Number.divideCell divisor) ([], Number.zero)).2.cells) := by
  induction cells with
  | nil => rfl
  | cons c cs ih => rw [List.foldr_cons, ih, divideCell_cells, List.foldr_cons]

theorem divMod?_cells (a b : Number) :
    divMod? a.cells b.cells =
      (Number.divMod? a b).map fun result => (result.1.cells, result.2.cells) := by
  unfold divMod? Number.divMod?
  rw [isZero_cells, compare_cells, foldr_divideCell_cells]
  split
  next => rfl
  next =>
    split
    next => rfl
    next => rfl

theorem readDigits_cells (cs : List Char) (index : Nat) (n : Number) :
    readDigits cs index n.cells = (Number.readDigits cs index n).map Number.cells := by
  induction cs generalizing index n with
  | nil => rfl
  | cons c cs ih =>
    rw [readDigits, Number.readDigits]
    split
    next => exact ih (index + 1) (n.mulAddSmall 10 (c.val - '0'.val))
    next => rfl

theorem parse_cells (text : String) : parse text = (Number.parse text).map Number.cells := by
  unfold parse Number.parse Number.ofDigits
  split
  next => rfl
  next => exact readDigits_cells text.toList 0 Number.zero

theorem power_cells (limits : Limits) (base exponent : Number) :
    power limits base.cells exponent.cells =
      (Number.power limits base exponent).map Number.cells := by
  have hword : (toUInt64? exponent.cells).getD (UInt64.ofNat (2 ^ 64 - 1)) =
      exponent.exponentWord := rfl
  have hbits : saturated (exponent.exponentWord.toNat * bitLength base.cells) =
      base.powerBits exponent.exponentWord := rfl
  have hone : isOne base.cells = base.isOne := rfl
  unfold power Number.power
  simp only [isZero_cells, hone, hword, hbits, pow_cells]
  split
  next => rfl
  next =>
    split
    next => rfl
    next =>
      split
      next => rfl
      next => split <;> rfl

/-- The cells of a value; infinity has none. -/
def valueCells : Value → Option (List UInt8)
  | .finite n => some n.cells
  | .infinity => none

theorem apply_cells (op : Operator) (limits : Limits) (a b : Number) :
    apply op limits a.cells b.cells = (op.apply limits a b).map valueCells := by
  cases op with
  | add => rw [apply, add_cells]; rfl
  | sub => rw [apply, sub_cells]; rfl
  | mul => rw [apply, mul_cells]; rfl
  | div =>
    rw [apply, divMod?_cells, Operator.apply, Number.div]
    cases Number.divMod? a b with
    | none => rfl
    | some result => rfl
  | pow =>
    rw [apply, power_cells, Operator.apply]
    cases Number.power limits a b with
    | error cause => rfl
    | ok n => rfl

/-- The operations on two numbers do to their cells what the raw operations do. -/
structure Agree (a b : Number) : Prop where
  add : add a.cells b.cells = (a + b).cells
  sub : sub a.cells b.cells = (a - b).cells
  sub? : sub? a.cells b.cells = (Number.sub? a b).map Number.cells
  mul : mul a.cells b.cells = (a * b).cells
  pow : ∀ exponent, pow a.cells exponent = (a.pow exponent).cells
  divMod? : divMod? a.cells b.cells =
    (Number.divMod? a b).map fun result => (result.1.cells, result.2.cells)
  apply : ∀ op limits, apply op limits a.cells b.cells = (op.apply limits a b).map valueCells

theorem agree (a b : Number) : Agree a b where
  add := add_cells a b
  sub := sub_cells a b
  sub? := sub?_cells a b
  mul := mul_cells a b
  pow := pow_cells a
  divMod? := divMod?_cells a b
  apply op limits := apply_cells op limits a b

/-- The list holds the cells of a number. -/
def OfNumber (cells : List UInt8) : Prop := ∃ n : Number, n.cells = cells

namespace OfNumber

variable {xs ys cells : List UInt8}

theorem add (hx : OfNumber xs) (hy : OfNumber ys) : OfNumber (add xs ys) := by
  obtain ⟨a, rfl⟩ := hx
  obtain ⟨b, rfl⟩ := hy
  exact ⟨a + b, (add_cells a b).symm⟩

theorem sub? (hx : OfNumber xs) (hy : OfNumber ys) (h : sub? xs ys = some cells) :
    OfNumber cells := by
  obtain ⟨a, rfl⟩ := hx
  obtain ⟨b, rfl⟩ := hy
  rw [sub?_cells] at h
  obtain ⟨n, _, hn⟩ := Option.map_eq_some_iff.mp h
  exact ⟨n, hn⟩

theorem sub (hx : OfNumber xs) (hy : OfNumber ys) : OfNumber (sub xs ys) := by
  obtain ⟨a, rfl⟩ := hx
  obtain ⟨b, rfl⟩ := hy
  exact ⟨a - b, (sub_cells a b).symm⟩

theorem mul (hx : OfNumber xs) (hy : OfNumber ys) : OfNumber (mul xs ys) := by
  obtain ⟨a, rfl⟩ := hx
  obtain ⟨b, rfl⟩ := hy
  exact ⟨a * b, (mul_cells a b).symm⟩

theorem pow (hx : OfNumber xs) (exponent : Nat) : OfNumber (pow xs exponent) := by
  obtain ⟨a, rfl⟩ := hx
  exact ⟨a.pow exponent, (pow_cells a exponent).symm⟩

theorem divMod? (hx : OfNumber xs) (hy : OfNumber ys) {q r : List UInt8}
    (h : divMod? xs ys = some (q, r)) : OfNumber q ∧ OfNumber r := by
  obtain ⟨a, rfl⟩ := hx
  obtain ⟨b, rfl⟩ := hy
  rw [divMod?_cells] at h
  obtain ⟨result, _, hr⟩ := Option.map_eq_some_iff.mp h
  exact ⟨⟨result.1, congrArg Prod.fst hr⟩, ⟨result.2, congrArg Prod.snd hr⟩⟩

theorem parse {text : String} (h : parse text = .ok cells) : OfNumber cells := by
  rw [parse_cells] at h
  cases hn : Number.parse text with
  | error cause =>
    rw [hn] at h
    cases h
  | ok n =>
    rw [hn] at h
    exact ⟨n, Except.ok.inj h⟩

theorem apply (hx : OfNumber xs) (hy : OfNumber ys) {op : Operator} {limits : Limits}
    (h : apply op limits xs ys = .ok (some cells)) : OfNumber cells := by
  obtain ⟨a, rfl⟩ := hx
  obtain ⟨b, rfl⟩ := hy
  rw [apply_cells] at h
  cases hv : op.apply limits a b with
  | error cause =>
    rw [hv] at h
    cases h
  | ok v =>
    rw [hv] at h
    cases v with
    | finite n => exact ⟨n, Option.some.inj (Except.ok.inj h)⟩
    | infinity => cases h

end OfNumber

theorem Obtained.ofNumber {cells : List UInt8} (h : Obtained cells) : OfNumber cells := by
  induction h with
  | zero => exact ⟨Number.zero, rfl⟩
  | one => exact ⟨Number.one, rfl⟩
  | ofCells cells => exact ⟨Number.ofCells cells, rfl⟩
  | ofWord w => exact ⟨Number.ofWord w, rfl⟩
  | parse h => exact OfNumber.parse h
  | add _ _ hx hy => exact hx.add hy
  | sub _ _ hx hy => exact hx.sub hy
  | sub? _ _ h hx hy => exact hx.sub? hy h
  | mul _ _ hx hy => exact hx.mul hy
  | pow _ exponent hb => exact hb.pow exponent
  | quotient _ _ h hx hy => exact (hx.divMod? hy h).1
  | remainder _ _ h hx hy => exact (hx.divMod? hy h).2
  | apply _ _ h hx hy => exact hx.apply hy h

theorem obtained_of_canonical {cells : List UInt8} (h : Canonical cells) : Obtained cells := by
  rw [← normal_of_canonical h]
  exact .ofCells cells

/-- The lists obtained are the canonical ones, which are the cells of numbers, and the operations on
numbers are those on their cells. Equality, order and the tests for 0 and 1 look at cells only, and
are those of the values. -/
theorem obtained_faithful :
    (∀ cells, Obtained cells ↔ Canonical cells) ∧
    (∀ cells, Obtained cells ↔ OfNumber cells) ∧
    (∀ text, parse text = (Number.parse text).map Number.cells) ∧
    ∀ a b : Number, Agree a b ∧
      ((a == b) = true ↔ a.toNat = b.toNat) ∧ compare a b = compare a.toNat b.toNat ∧
      (compare a b = .eq ↔ a = b) ∧ (a < b ↔ a.toNat < b.toNat) ∧ (a ≤ b ↔ a.toNat ≤ b.toNat) ∧
      (a.isZero = true ↔ a.toNat = 0) ∧ (a.isOne = true ↔ a.toNat = 1) := by
  refine ⟨fun cells => ⟨fun h => ?_, obtained_of_canonical⟩,
    fun cells => ⟨Obtained.ofNumber, ?_⟩, parse_cells, fun a b => ?_⟩
  · obtain ⟨n, rfl⟩ := h.ofNumber
    exact n.canonical
  · rintro ⟨n, rfl⟩
    exact obtained_of_canonical n.canonical
  · refine ⟨agree a b, ?_, a.compare_eq_compare_toNat b, ?_, Number.lt_iff, Number.le_iff,
      a.isZero_iff, a.isOne_iff⟩
    · rw [beq_iff_eq, Number.toNat_inj]
    · rw [Number.compare_eq_compare_toNat, Nat.compare_eq_eq, Number.toNat_inj]

end TapeCalc.Raw
