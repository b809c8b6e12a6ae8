import TapeCalc.Number.Basic

/-!
# Decimal numerals

Reading multiplies by ten and adds a digit; writing divides by ten thousand and writes four
digits at a time. Only the ten digits of ASCII are read.
-/
namespace TapeCalc

inductive NumeralError where
  | empty
  | invalidDigit (digit : Char) (index : Nat)
  deriving DecidableEq, Repr

namespace Cells

/-- The bytes of a word, least significant first, up to its last one that is not zero; a word
of 32 bits has four. -/
def ofCarry : Nat → UInt32 → List UInt8
  | 0, _ => []
  | n + 1, carry => if carry = 0 then [] else carry.toUInt8 :: ofCarry n (carry >>> 8)

/-- The cells of `value cells * factor + carry`, with a 32-bit carry. -/
def mulAdd (factor : UInt32) : List UInt8 → UInt32 → List UInt8
  | [], carry => ofCarry 4 carry
  | c :: cs, carry =>
    let acc := c.toUInt32 * factor + carry
    acc.toUInt8 :: mulAdd factor cs (acc >>> 8)

/-- One cell of a short division, below the quotient cells and the remainder so far. -/
def divColumn (divisor : UInt32) (c : UInt8) (state : List UInt8 × UInt32) :
    List UInt8 × UInt32 :=
  let acc := state.2 <<< 8 ||| c.toUInt32
  ((acc / divisor).toUInt8 :: state.1, acc % divisor)

/-- Short division from the most significant cell down. -/
def divMod (divisor : UInt32) (cells : List UInt8) : List UInt8 × UInt32 :=
  cells.foldr (divColumn divisor) ([], 0)

theorem toNat_shiftRight_cell (word : UInt32) : (word >>> 8).toNat = word.toNat / 256 := by
  rw [UInt32.toNat_shiftRight]
  simp [Nat.shiftRight_eq_div_pow]

theorem value_ofCarry (n : Nat) (carry : UInt32) :
    value (ofCarry n carry) = carry.toNat % 256 ^ n := by
  induction n generalizing carry with
  | zero => simp [ofCarry, value, Nat.mod_one]
  | succ n ih =>
    unfold ofCarry
    split
    next h => simp [h, value]
    next =>
      rw [value, ih, Nat.pow_succ, Nat.mul_comm (256 ^ n) 256, Nat.mod_mul, toNat_shiftRight_cell]
      simp

section words

variable {factor carry divisor remainder : UInt32} (c : UInt8)

/-- A factor of at most 24 bits and a carry below them stay inside 32 bits. -/
theorem toNat_mul_factor (hf : factor.toNat ≤ 2 ^ 24) :
    (c.toUInt32 * factor).toNat = c.toNat * factor.toNat := by
  have hm := Nat.mul_le_mul (Nat.le_of_lt_succ c.toNat_lt) hf
  rw [UInt32.toNat_mul, UInt8.toNat_toUInt32]
  exact Nat.mod_eq_of_lt (by omega)

theorem toNat_mul_factor_add (hf : factor.toNat ≤ 2 ^ 24) (hc : carry.toNat < 2 ^ 24) :
    (c.toUInt32 * factor + carry).toNat = c.toNat * factor.toNat + carry.toNat := by
  have hm := Nat.mul_le_mul (Nat.le_of_lt_succ c.toNat_lt) hf
  rw [UInt32.toNat_add, toNat_mul_factor c hf]
  exact Nat.mod_eq_of_lt (by omega)

/-- A remainder of at most 24 bits leaves room for a cell below it. -/
theorem toNat_remainder_shiftLeft (h : remainder.toNat < 2 ^ 24) :
    (remainder <<< 8).toNat = 256 * remainder.toNat := by
  simp only [UInt32.toNat_shiftLeft, UInt32.reduceToNat, Nat.reduceMod, Nat.shiftLeft_eq]
  omega

theorem toNat_remainder_or (h : remainder.toNat < 2 ^ 24) :
    (remainder <<< 8 ||| c.toUInt32).toNat = 256 * remainder.toNat + c.toNat := by
  have hor := Nat.shiftLeft_add_eq_or_of_lt c.toNat_lt remainder.toNat
  rw [Nat.shiftLeft_eq, Nat.mul_comm] at hor
  rw [UInt32.toNat_or, toNat_remainder_shiftLeft h, UInt8.toNat_toUInt32]
  exact hor.symm

theorem toNat_quotient_lt (hd : divisor.toNat ≤ 2 ^ 24) (h : remainder.toNat < divisor.toNat) :
    ((remainder <<< 8 ||| c.toUInt32) / divisor).toNat < 256 := by
  have hc := c.toNat_lt
  rw [UInt32.toNat_div, toNat_remainder_or c (Nat.lt_of_lt_of_le h hd),
    Nat.div_lt_iff_lt_mul (by omega)]
  omega

end words

theorem value_mulAdd {factor : UInt32} (cells : List UInt8) (carry : UInt32)
    (hf : factor.toNat ≤ 2 ^ 24) (hc : carry.toNat < 2 ^ 24) :
    value (mulAdd factor cells carry) = value cells * factor.toNat + carry.toNat := by
  induction cells generalizing carry with
  | nil =>
    have := carry.toNat_lt
    rw [mulAdd, value_ofCarry, Nat.mod_eq_of_lt (by omega)]
    simp [value]
  | cons c cs ih =>
    have hm := Nat.mul_le_mul (Nat.le_of_lt_succ c.toNat_lt) hf
    have ha := toNat_mul_factor_add c hf hc
    have hs : ((c.toUInt32 * factor + carry) >>> 8).toNat =
        (c.toNat * factor.toNat + carry.toNat) / 256 := by
      rw [toNat_shiftRight_cell, ha]
    have hi := ih ((c.toUInt32 * factor + carry) >>> 8) (by omega)
    have hd := Nat.div_add_mod (c.toNat * factor.toNat + carry.toNat) 256
    have hassoc : 256 * value cs * factor.toNat = 256 * (value cs * factor.toNat) :=
      Nat.mul_assoc ..
    simp only [mulAdd, value, hi, hs, UInt32.toNat_toUInt8, ha, Nat.add_mul, hassoc]
    omega

theorem divColumn_value {divisor : UInt32} {state : List UInt8 × UInt32} (c : UInt8)
    (hd : divisor.toNat ≤ 2 ^ 24) (hr : state.2.toNat < divisor.toNat) :
    (divColumn divisor c state).2.toNat < divisor.toNat ∧
      value (divColumn divisor c state).1 * divisor.toNat + (divColumn divisor c state).2.toNat =
        256 * (value state.1 * divisor.toNat + state.2.toNat) + c.toNat := by
  have hacc := toNat_remainder_or c (Nat.lt_of_lt_of_le hr hd)
  have hq := toNat_quotient_lt c hd hr
  rw [UInt32.toNat_div, hacc] at hq
  have hdm := Nat.div_add_mod (256 * state.2.toNat + c.toNat) divisor.toNat
  have hassoc : 256 * value state.1 * divisor.toNat = 256 * (value state.1 * divisor.toNat) :=
    Nat.mul_assoc ..
  simp only [divColumn, value, UInt32.toNat_mod, UInt32.toNat_toUInt8, UInt32.toNat_div, hacc,
    Nat.mod_eq_of_lt hq, Nat.add_mul, hassoc]
  refine ⟨Nat.mod_lt _ (by omega), ?_⟩
  rw [Nat.mul_comm divisor.toNat] at hdm
  omega

theorem divMod_value {divisor : UInt32} (cells : List UInt8) (h0 : 0 < divisor.toNat)
    (hd : divisor.toNat ≤ 2 ^ 24) :
    (divMod divisor cells).2.toNat < divisor.toNat ∧
      value (divMod divisor cells).1 * divisor.toNat + (divMod divisor cells).2.toNat =
        value cells := by
  induction cells with
  | nil => simpa [divMod, value] using h0
  | cons c cs ih =>
    have := divColumn_value c hd ih.1
    rw [ih.2] at this
    simp only [value]
    exact ⟨this.1, by rw [Nat.add_comm c.toNat]; exact this.2⟩

end Cells

namespace Number

def mulAddSmall (n : Number) (factor addend : UInt32) : Number :=
  ofCells (Cells.mulAdd factor n.cells addend)

def divModSmall (n : Number) (divisor : UInt32) : Number × UInt32 :=
  let result := Cells.divMod divisor n.cells
  (ofCells result.1, result.2)

/-- Appends decimal digits to a number; the index counts characters. -/
def readDigits : List Char → Nat → Number → Except NumeralError Number
  | [], _, n => .ok n
  | c :: cs, index, n =>
    if c.isDigit then readDigits cs (index + 1) (n.mulAddSmall 10 (c.val - '0'.val))
    else .error (.invalidDigit c index)

def ofDigits (text : List Char) : Except NumeralError Number :=
  if text.isEmpty then .error .empty else readDigits text 0 zero

def parse (text : String) : Except NumeralError Number := ofDigits text.toList

/-- The base-10000 digits of a number, least significant first, at most `fuel` of them. -/
def groups : Nat → Number → List UInt32
  | 0, _ => []
  | fuel + 1, n =>
    let division := n.divModSmall 10000
    division.2 :: if division.1.isZero then [] else groups fuel division.1

/-- The digits of one group without leading zeros. -/
def groupDigits (group : UInt32) : List Char := Nat.toDigits 10 group.toNat

/-- The digits of groups, the most significant group first and alone without leading zeros. -/
def joinGroups : List UInt32 → List Char
  | [] => []
  | first :: rest => groupDigits first ++ rest.flatMap fun g => (groupDigits g).leftpad 4 '0'

/-- The decimal digits, most significant first. A group weighs more than a cell, so there are
no more groups than cells. -/
def digits (n : Number) : List Char := joinGroups (groups n.size n).reverse

def text (n : Number) : String := String.ofList n.digits

instance : ToString Number := ⟨text⟩

theorem toNat_mulAddSmall (n : Number) {factor addend : UInt32} (hf : factor.toNat ≤ 2 ^ 24)
    (ha : addend.toNat < 2 ^ 24) :
    (n.mulAddSmall factor addend).toNat = n.toNat * factor.toNat + addend.toNat := by
  rw [mulAddSmall, toNat_ofCells, Cells.value_mulAdd _ _ hf ha, toNat]

theorem divModSmall_value (n : Number) (divisor : UInt32) (h0 : 0 < divisor.toNat)
    (hd : divisor.toNat ≤ 2 ^ 24) :
    (n.divModSmall divisor).1.toNat = n.toNat / divisor.toNat ∧
      (n.divModSmall divisor).2.toNat = n.toNat % divisor.toNat := by
  obtain ⟨hlt, heq⟩ := Cells.divMod_value n.cells h0 hd
  have hsum : (Cells.divMod divisor n.cells).2.toNat +
      divisor.toNat * Cells.value (Cells.divMod divisor n.cells).1 = n.toNat := by
    rw [Nat.add_comm, Nat.mul_comm]
    exact heq
  obtain ⟨hq, hr⟩ := (Nat.div_mod_unique h0).mpr ⟨hsum, hlt⟩
  exact ⟨(toNat_ofCells _).trans hq.symm, hr.symm⟩

theorem readDigits_of_all_isDigit {cs : List Char} (h : cs.all Char.isDigit = true) (index : Nat)
    (n : Number) :
    ∃ m, readDigits cs index n = .ok m ∧ m.toNat = Nat.ofDigitChars 10 cs n.toNat := by
  induction cs generalizing index n with
  | nil => exact ⟨n, rfl, rfl⟩
  | cons c cs ih =>
    simp only [List.all_cons, Bool.and_eq_true] at h
    obtain ⟨m, hm, hv⟩ := ih h.2 (index + 1) (n.mulAddSmall 10 (c.val - '0'.val))
    have hc := h.1
    simp only [Char.isDigit, Bool.and_eq_true, decide_eq_true_eq] at hc
    have h48 : 48 ≤ c.val.toNat := hc.1
    have h57 : c.val.toNat ≤ 57 := hc.2
    have hsub : (c.val - '0'.val).toNat = c.toNat - 48 := by
      rw [UInt32.toNat_sub_of_le _ _ hc.1]
      rfl
    refine ⟨m, by rw [readDigits, if_pos h.1, hm], ?_⟩
    rw [hv, toNat_mulAddSmall n (by decide) (by rw [hsub]; simp only [Char.toNat]; omega), hsub,
      Nat.ofDigitChars_cons, Nat.mul_comm]
    rfl

theorem leftpad_toDigits_succ (k r : Nat) :
    (Nat.toDigits 10 r).leftpad (k + 2) '0' =
      (Nat.toDigits 10 (r / 10)).leftpad (k + 1) '0' ++ [(r % 10).digitChar] := by
  by_cases hr : r < 10
  · rw [Nat.toDigits_of_lt_base hr, Nat.div_eq_of_lt hr, Nat.mod_eq_of_lt hr, Nat.toDigits_zero]
    simp [List.leftpad, List.replicate_succ']
  · rw [Nat.toDigits_of_base_le (by omega) (by omega)]
    simp [List.leftpad]

/-- Digits after a number that is not zero, filled up with zeros, keep their places. -/
theorem toDigits_append_leftpad {q r k : Nat} (hq : 0 < q) (hr : r < 10 ^ (k + 1)) :
    Nat.toDigits 10 q ++ (Nat.toDigits 10 r).leftpad (k + 1) '0' =
      Nat.toDigits 10 (10 ^ (k + 1) * q + r) := by
  induction k generalizing r with
  | zero =>
    have hr : r < 10 := by simpa using hr
    rw [Nat.toDigits_of_lt_base hr, ← Nat.toDigits_of_lt_base hr]
    simpa [List.leftpad, Nat.toDigits_of_lt_base hr] using
      Nat.toDigits_append_toDigits (b := 10) (by omega) hq hr
  | succ k ih =>
    have hpow : 10 ^ (k + 1 + 1) = 10 * 10 ^ (k + 1) := by rw [Nat.pow_succ, Nat.mul_comm]
    rw [leftpad_toDigits_succ, ← List.append_assoc, ih (by omega)]
    have hdiv : (10 ^ (k + 1 + 1) * q + r) / 10 = 10 ^ (k + 1) * q + r / 10 := by
      rw [hpow, Nat.mul_assoc]
      omega
    have hmod : (10 ^ (k + 1 + 1) * q + r) % 10 = r % 10 := by
      rw [hpow, Nat.mul_assoc]
      omega
    have hbig : 10 ≤ 10 ^ (k + 1 + 1) * q + r := by
      have : 0 < 10 ^ (k + 1) * q := Nat.mul_pos (Nat.pow_pos (by omega)) hq
      rw [hpow, Nat.mul_assoc]
      omega
    rw [Nat.toDigits_of_base_le (n := 10 ^ (k + 1 + 1) * q + r) (by omega) hbig, hdiv, hmod]

theorem joinGroups_append {gs : List UInt32} (h : gs ≠ []) (g : UInt32) :
    joinGroups (gs ++ [g]) = joinGroups gs ++ (groupDigits g).leftpad 4 '0' := by
  cases gs with
  | nil => exact absurd rfl h
  | cons first rest => simp [joinGroups]

theorem groups_ne_nil {fuel : Nat} (h : 0 < fuel) (n : Number) : groups fuel n ≠ [] := by
  cases fuel with
  | zero => omega
  | succ fuel => simp [groups]

theorem joinGroups_groups {fuel : Nat} {n : Number} (h0 : 0 < fuel)
    (h : n.toNat < 256 ^ fuel) :
    joinGroups (groups fuel n).reverse = Nat.toDigits 10 n.toNat := by
  induction fuel generalizing n with
  | zero => omega
  | succ fuel ih =>
    obtain ⟨hq, hr⟩ := divModSmall_value n 10000 (by decide) (by decide)
    simp only [UInt32.reduceToNat] at hq hr
    simp only [groups]
    by_cases hz : (n.divModSmall 10000).1.isZero
    · have hq0 := (isZero_iff _).mp hz
      rw [if_pos hz]
      simp only [List.reverse_cons, List.reverse_nil, List.nil_append, joinGroups, groupDigits, hr,
        List.flatMap_nil, List.append_nil]
      rw [Nat.mod_eq_of_lt (by omega)]
    · have hq0 : (n.divModSmall 10000).1.toNat ≠ 0 := fun h0 => hz ((isZero_iff _).mpr h0)
      have hf : 0 < fuel := by
        rcases Nat.eq_zero_or_pos fuel with rfl | hf
        · simp at h
          omega
        · exact hf
      rw [Nat.pow_succ] at h
      rw [if_neg hz, List.reverse_cons, joinGroups_append (by simp [groups_ne_nil hf]),
        ih hf (by omega), groupDigits,
        toDigits_append_leftpad (k := 3) (by omega) (by rw [hr]; exact Nat.mod_lt _ (by omega))]
      congr 1
      rw [hq, hr]
      exact Nat.div_add_mod ..

/-- The digits written are those of the value, without leading zeros. -/
theorem digits_eq_toDigits (n : Number) : n.digits = Nat.toDigits 10 n.toNat :=
  joinGroups_groups (List.length_pos_iff.mpr n.canonical.1) (Cells.value_lt n.cells)

theorem toList_text (n : Number) : n.text.toList = Nat.toDigits 10 n.toNat := by
  rw [text, String.toList_ofList, digits_eq_toDigits]

theorem text_eq_toString (n : Number) : n.text = toString n.toNat :=
  congrArg String.ofList n.digits_eq_toDigits

/-- The first character that is no digit is reported with its place. -/
theorem readDigits_append_of_not_isDigit {ds : List Char} (h : ds.all Char.isDigit = true)
    {c : Char} (hc : c.isDigit = false) (rest : List Char) (index : Nat) (n : Number) :
    readDigits (ds ++ c :: rest) index n = .error (.invalidDigit c (index + ds.length)) := by
  induction ds generalizing index n with
  | nil => simp [readDigits, hc]
  | cons d ds ih =>
    simp only [List.all_cons, Bool.and_eq_true] at h
    rw [List.cons_append, readDigits, if_pos h.1, ih h.2, List.length_cons, Nat.add_right_comm,
      Nat.add_assoc]

end Number

end TapeCalc
