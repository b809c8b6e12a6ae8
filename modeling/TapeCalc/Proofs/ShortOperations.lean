import TapeCalc.Proofs.WideEnough

/-!
# Short products and quotients

A number is multiplied by a short factor and divided by a short divisor in place, in words of 32
bits. What is handed on from one cell to the next stays below 2^24, so that a word has room for a
cell beside it. At every cell, what has been stored and what is handed on make up the result for the
cells so far.
-/
namespace TapeCalc

namespace Cells

/-- Where a short product comes to a cell, the cells below it are done: those stored and the carry
make up their product, and with that carry no word wraps at the cell. -/
structure ScalesAt (factor addend : UInt32) (low : List UInt8) (c : UInt8) : Prop where
  carry_lt : (scaleCarry factor low addend).toNat < 2 ^ 24
  product_eq : (c.toUInt32 * factor).toNat = c.toNat * factor.toNat
  accumulated_eq : (c.toUInt32 * factor + scaleCarry factor low addend).toNat =
    c.toNat * factor.toNat + (scaleCarry factor low addend).toNat
  done_eq : value ((mulAdd factor low addend).take low.length) +
    256 ^ low.length * (scaleCarry factor low addend).toNat =
      value low * factor.toNat + addend.toNat

/-- Where a short quotient comes to a cell, the cells above it are done: the quotient and the
remainder are those of their value, and with that remainder no word loses a bit at the cell. -/
structure SharesAt (divisor : UInt32) (c : UInt8) (high : List UInt8) : Prop where
  fits : ShareFits divisor c (divMod divisor high).2
  done_eq : value (divMod divisor high).1 * divisor.toNat + (divMod divisor high).2.toNat =
    value high

variable {factor divisor carry : UInt32}

/-- The cells that a short product has stored make up the product with the carry. -/
theorem value_take_mulAdd (cells : List UInt8) (hf : factor.toNat ≤ 2 ^ 24)
    (hc : carry.toNat < 2 ^ 24) :
    value ((mulAdd factor cells carry).take cells.length) +
      256 ^ cells.length * (scaleCarry factor cells carry).toNat =
        value cells * factor.toNat + carry.toNat := by
  induction cells generalizing carry with
  | nil => simp [scaleCarry, value]
  | cons c cs ih =>
    have hacc := toNat_mul_factor_add c hf hc
    have hnext : (scaleCarry factor [c] carry).toNat < 2 ^ 24 :=
      scaleCarry_lt [c] (Nat.le_refl _) hf hc
    have hrest := ih hnext
    have hcarry : ∀ n, 256 ^ (cs.length + 1) * n = 256 * (256 ^ cs.length * n) := fun n => by
      rw [Nat.pow_succ', Nat.mul_assoc]
    have hvalue : 256 * value cs * factor.toNat = 256 * (value cs * factor.toNat) :=
      Nat.mul_assoc ..
    simp only [scaleCarry, toNat_shiftRight_cell, hacc] at hrest ⊢
    simp only [mulAdd, List.length_cons, List.take_succ_cons, value, UInt32.toNat_toUInt8, hacc,
      hcarry, Nat.add_mul, hvalue]
    omega

theorem scalesAt (low : List UInt8) (c : UInt8) (hf : factor.toNat ≤ 2 ^ 24)
    (hc : carry.toNat < 2 ^ 24) : ScalesAt factor carry low c := by
  have hlt := scaleCarry_lt low (Nat.le_refl _) hf hc
  exact ⟨hlt, toNat_mul_factor c hf, toNat_mul_factor_add c hf hlt, value_take_mulAdd low hf hc⟩

theorem sharesAt (c : UInt8) (high : List UInt8) (h0 : 0 < divisor.toNat)
    (hd : divisor.toNat ≤ 2 ^ 24) : SharesAt divisor c high := by
  obtain ⟨hlt, hdone⟩ := divMod_value high h0 hd
  exact ⟨shareFits c hd hlt, hdone⟩

end Cells

namespace Number

/-- A short product is canonical and exact, cell by cell and with the last carry stored above. -/
structure ProductExact (n : Number) (factor addend : UInt32) : Prop where
  canonical : Cells.Canonical (n.mulAddSmall factor addend).cells
  toNat_eq : (n.mulAddSmall factor addend).toNat = n.toNat * factor.toNat + addend.toNat
  cells_eq : (n.mulAddSmall factor addend).cells =
    Cells.normal ((Cells.mulAdd factor n.cells addend).take n.size ++
      Cells.ofCarry 4 (Cells.scaleCarry factor n.cells addend))
  at_cell : ∀ low c high, n.cells = low ++ c :: high → Cells.ScalesAt factor addend low c ∧
    Cells.mulAdd factor n.cells addend = (Cells.mulAdd factor low addend).take low.length ++
      Cells.mulAdd factor (c :: high) (Cells.scaleCarry factor low addend)

/-- A short quotient is canonical and exact with its remainder, cell by cell. -/
structure QuotientExact (n : Number) (divisor : UInt32) : Prop where
  canonical : Cells.Canonical (n.divModSmall divisor).1.cells
  toNat_eq : (n.divModSmall divisor).1.toNat = n.toNat / divisor.toNat
  remainder_eq : (n.divModSmall divisor).2.toNat = n.toNat % divisor.toNat
  at_cell : ∀ low c high, n.cells = low ++ c :: high → Cells.SharesAt divisor c high

variable {factor addend divisor remainder : UInt32}

theorem productExact (n : Number) (hf : factor.toNat ≤ 2 ^ 24) (ha : addend.toNat < 2 ^ 24) :
    ProductExact n factor addend where
  canonical := (n.mulAddSmall factor addend).canonical
  toNat_eq := toNat_mulAddSmall n hf ha
  cells_eq := by
    have hlast : Cells.mulAdd factor (n.cells ++ []) addend = _ := Cells.mulAdd_append n.cells []
    rw [List.append_nil] at hlast
    exact congrArg Cells.normal hlast
  at_cell low c high hcells :=
    ⟨Cells.scalesAt low c hf ha, hcells ▸ Cells.mulAdd_append low (c :: high)⟩

theorem quotientExact (n : Number) (h0 : 0 < divisor.toNat) (hd : divisor.toNat ≤ 2 ^ 24) :
    QuotientExact n divisor where
  canonical := (n.divModSmall divisor).1.canonical
  toNat_eq := (divModSmall_value n divisor h0 hd).1
  remainder_eq := (divModSmall_value n divisor h0 hd).2
  at_cell _ c high _ := Cells.sharesAt c high h0 hd

/-- A short quotient takes back a short product with the same divisor for its factor. -/
theorem divModSmall_mulAddSmall (n : Number) (hd : divisor.toNat ≤ 2 ^ 24)
    (hr : remainder.toNat < divisor.toNat) :
    (n.mulAddSmall divisor remainder).divModSmall divisor = (n, remainder) := by
  have hpos := Nat.zero_lt_of_lt hr
  have hvalue := toNat_mulAddSmall n hd (Nat.lt_of_lt_of_le hr hd)
  obtain ⟨hq, hm⟩ := divModSmall_value (n.mulAddSmall divisor remainder) divisor hpos hd
  rw [hvalue, Nat.mul_comm, Nat.mul_add_div hpos, Nat.div_eq_of_lt hr, Nat.add_zero,
    toNat_inj] at hq
  rw [hvalue, Nat.mul_comm, Nat.mul_add_mod, Nat.mod_eq_of_lt hr, UInt32.toNat_inj] at hm
  exact Prod.ext hq hm

/-- Short products and quotients are exact for factors and divisors of at most 2^24, and the
quotient takes back the product. -/
theorem shortOperations_exact (n : Number) :
    (∀ factor addend : UInt32, factor.toNat ≤ 2 ^ 24 → addend.toNat < 2 ^ 24 →
      ProductExact n factor addend) ∧
    (∀ divisor : UInt32, 1 ≤ divisor.toNat → divisor.toNat ≤ 2 ^ 24 → QuotientExact n divisor) ∧
    ∀ divisor remainder : UInt32, 1 ≤ divisor.toNat → divisor.toNat ≤ 2 ^ 24 →
      remainder.toNat < divisor.toNat →
      (n.mulAddSmall divisor remainder).divModSmall divisor = (n, remainder) :=
  ⟨fun _ _ => productExact n, fun _ => quotientExact n,
    fun _ _ _ hd hr => divModSmall_mulAddSmall n hd hr⟩

/-- The greatest factor, addend, divisor and remainder, on cells of 255. -/
theorem shortOperations_exact_widest :
    ((ofCells [255, 255]).mulAddSmall 16777216 16777215).toNat = 65535 * 16777216 + 16777215 ∧
    ((ofCells [255, 255]).divModSmall 16777216).2 = 65535 ∧
    ((ofCells [255, 255]).mulAddSmall 16777216 16777215).divModSmall 16777216 =
      (ofCells [255, 255], 16777215) := by
  obtain ⟨hproduct, hquotient, hinverse⟩ := shortOperations_exact (ofCells [255, 255])
  exact ⟨(hproduct 16777216 16777215 (by decide) (by decide)).toNat_eq,
    UInt32.toNat_inj.mp (hquotient 16777216 (by decide) (by decide)).remainder_eq,
    hinverse 16777216 16777215 (by decide) (by decide) (by decide)⟩

/-- A divisor above 2^24 leaves a remainder of 2^24, which is shifted out of the word. -/
example : (ofCells [0, 0, 0, 0, 1]).divModSmall 16777217 = (zero, 0) := by decide

end Number

end TapeCalc
