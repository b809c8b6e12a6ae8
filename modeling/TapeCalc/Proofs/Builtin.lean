import TapeCalc.Library.Builtin
import TapeCalc.Proofs.Refinement
import TapeCalc.Proofs.Window

/-!
# Built-in programs

What the five built-in programs compute. Each is a tree, read from its text, that is followed
through the first cells of the tape: short stretches by running them, loops by a view of those
cells for every value of their counter.
-/
namespace TapeCalc

open Command LoopTree

namespace Operator

namespace Addition

def drain : LoopTree := block [decrement, left, increment, right] done

def tree : LoopTree := block [input, right, input] <| loop drain <| block [left, output] done

end Addition

namespace Subtraction

def drain : LoopTree := block [decrement, left, decrement, right] done

def tree : LoopTree := block [input, right, input] <| loop drain <| block [left, output] done

end Subtraction

namespace Multiplication

def moveFactor : LoopTree :=
  block [decrement, right, increment, right, increment, left, left] done

def restoreFactor : LoopTree := block [decrement, left, left, increment, right, right] done

/-- For each unit of the first operand the second is added to the product. -/
def pass : LoopTree :=
  block [decrement, right] <| loop moveFactor <|
  block [right, right] <| loop restoreFactor <|
  block [left, left, left] done

def tree : LoopTree :=
  block [input, right, input, left] <| loop pass <| block [right, right, output] done

end Multiplication

namespace Division

def moveDivisor : LoopTree :=
  block [decrement, right, increment, right, right, increment, left, left, left] done

def restoreDivisor : LoopTree :=
  block [decrement, left, left, left, increment, right, right, right] done

/-- Copies the divisor into the units that are left of it. -/
def reload (next : LoopTree) : LoopTree :=
  loop moveDivisor <| block [right, right, right] <| loop restoreDivisor next

def moveUnits : LoopTree :=
  block [decrement, right, right, increment, right, increment, left, left, left] done

def restoreUnits : LoopTree :=
  block [decrement, left, left, left, increment, right, right, right] done

def emptyScratch : LoopTree := block [decrement] done

def clearFlag : LoopTree := loop emptyScratch <| block [right, decrement, left] done

/-- One whole divisor has been taken. -/
def countDivisor : LoopTree :=
  block [decrement, left, left, increment, left, left] <| reload <| block [right] done

/-- Takes one unit off the dividend and off the divisor. The flag stays set if no unit of the
divisor is left. -/
def pass : LoopTree :=
  block [decrement, right, right, decrement] <| loop moveUnits <|
  block [right, right, right] <| loop restoreUnits <|
  block [increment, left] <| loop clearFlag <|
  block [right] <| loop countDivisor <|
  block [left, left, left, left, left] done

def tree : LoopTree :=
  block [input, right, input] <| reload <|
  block [left, left, left, left] <| loop pass <|
  block [right, right, right, output] done

end Division

namespace Power

def moveBase : LoopTree :=
  block [decrement, right, right, right, increment, right, increment, left, left, left, left] done

def restoreBase : LoopTree :=
  block [decrement, left, left, left, left, increment, right, right, right, right] done

/-- For each unit of the result the base is added to the next result. -/
def addBase : LoopTree :=
  block [decrement, left, left] <| loop moveBase <|
  block [right, right, right, right] <| loop restoreBase <|
  block [left, left] done

def moveResult : LoopTree := block [decrement, left, increment, right] done

/-- For each unit of the exponent the result is multiplied by the base. -/
def pass : LoopTree :=
  block [decrement, right] <| loop addBase <|
  block [right] <| loop moveResult <|
  block [left, left] done

def tree : LoopTree :=
  block [input, right, input, right, increment, left] <| loop pass <| block [right, output] done

end Power

def tree : Operator → LoopTree
  | add => Addition.tree
  | sub => Subtraction.tree
  | mul => Multiplication.tree
  | div => Division.tree
  | pow => Power.tree

-- the texts are unfolded to lists of hundreds of characters
set_option maxRecDepth 20000 in
theorem parse_source (op : Operator) : Program.parse op.source = .ok op.tree.program := by
  cases op with
  | add => exact Program.parse_ofList (t := Addition.tree) (by decide +kernel)
  | sub => exact Program.parse_ofList (t := Subtraction.tree) (by decide +kernel)
  | mul => exact Program.parse_ofList (t := Multiplication.tree) (by decide +kernel)
  | div => exact Program.parse_ofList (t := Division.tree) (by decide +kernel)
  | pow => exact Program.parse_ofList (t := Power.tree) (by decide +kernel)

theorem program_eq (op : Operator) : op.program = op.tree.program := by
  rw [program, parse_source]

variable {unread : List UInt8} {out : Array UInt8}

theorem Addition.takes_tree (a b : UInt8) : Takes Addition.tree ⟨0, [0, 0], a :: b :: unread, out⟩
    ⟨0, [a + b, 0], unread, out.push (a + b)⟩ := by
  have hdrain : Takes (loop drain done) ⟨1, [a, b], unread, out⟩ ⟨1, [a + b, 0], unread, out⟩ :=
    .transfer (d := [1, 255]) rfl rfl rfl (by simp)
  exact .block rfl <| .loop hdrain <| .block rfl .done

theorem Subtraction.takes_tree (a b : UInt8) :
    Takes Subtraction.tree ⟨0, [0, 0], a :: b :: unread, out⟩
      ⟨0, [a - b, 0], unread, out.push (a - b)⟩ := by
  have hdrain : Takes (loop drain done) ⟨1, [a, b], unread, out⟩ ⟨1, [a - b, 0], unread, out⟩ :=
    .transfer (d := [255, 255]) rfl rfl rfl (by simp)
  exact .block rfl <| .loop hdrain <| .block rfl .done

namespace Multiplication

theorem takes_pass (k b p : UInt8) (unread : List UInt8) (out : Array UInt8) :
    Takes pass ⟨0, [k, b, p, 0], unread, out⟩ ⟨0, [k - 1, b, p + b, 0], unread, out⟩ := by
  have hmove : Takes (loop moveFactor done) ⟨1, [k - 1, b, p, 0], unread, out⟩
      ⟨1, [k - 1, 0, p + b, b], unread, out⟩ :=
    .transfer (d := [0, 255, 1, 1]) rfl rfl rfl (by simp)
  have hrestore : Takes (loop restoreFactor done) ⟨3, [k - 1, 0, p + b, b], unread, out⟩
      ⟨3, [k - 1, b, p + b, 0], unread, out⟩ :=
    .transfer (d := [0, 1, 0, 255]) rfl rfl rfl (by simp)
  exact .block rfl <| .loop hmove <| .block rfl <| .loop hrestore <| .block rfl .done

/-- The units of the first operand that are left have not been multiplied yet. -/
def view (a b : UInt8) (unread : List UInt8) (out : Array UInt8) (k : UInt8) : View :=
  ⟨0, [k, b, (a - k) * b, 0], unread, out⟩

theorem takes_tree (a b : UInt8) : Takes tree ⟨0, [0, 0, 0, 0], a :: b :: unread, out⟩
    ⟨2, [0, b, a * b, 0], unread, out.push (a * b)⟩ := by
  have hpass : ∀ k : UInt8, k ≠ 0 → k ≤ a →
      Takes pass (view a b unread out k) (view a b unread out (k - 1)) := by
    intro k _ _
    have h := takes_pass k b ((a - k) * b) unread out
    rwa [sub_mul_add] at h
  have hstart : view a b unread out a = ⟨0, [a, b, 0, 0], unread, out⟩ := by
    rw [view, UInt8.sub_self, UInt8.zero_mul]
  have hend : view a b unread out 0 = ⟨0, [0, b, a * b, 0], unread, out⟩ := by
    rw [view, UInt8.sub_zero]
  have hloop := Takes.iterate (view a b unread out) a hstart hend (fun k => rfl) hpass
  exact .block rfl <| .loop hloop <| .block rfl .done

end Multiplication

namespace Division

theorem succ_mod_eq_zero {n b : Nat} (h : n % b + 1 = b) : (n + 1) % b = 0 := by
  have hsum := Nat.div_add_mod n b
  rw [show n + 1 = b * (n / b + 1) by rw [Nat.mul_add_one]; omega, Nat.mul_mod_right]

theorem succ_mod_eq_succ {n b : Nat} (h : n % b + 1 ≠ b) : (n + 1) % b = n % b + 1 := by
  have hsum := Nat.div_add_mod n b
  rcases Nat.eq_zero_or_pos b with rfl | hpos
  · rw [Nat.mod_zero, Nat.mod_zero]
  · have hlt := Nat.mod_lt n hpos
    rw [show n + 1 = b * (n / b) + (n % b + 1) by omega, Nat.mul_add_mod,
      Nat.mod_eq_of_lt (by omega)]

theorem toNat_mod_add_one {n b : UInt8} (hn : n.toNat < 255) :
    (n % b + 1).toNat = n.toNat % b.toNat + 1 := by
  have hle : (n % b).toNat ≤ n.toNat := by
    rw [UInt8.toNat_mod]
    exact Nat.mod_le ..
  rw [toNat_add_one (Nat.lt_of_le_of_lt hle hn), UInt8.toNat_mod]

theorem mod_add_one_eq_iff {n b : UInt8} (hn : n.toNat < 255) :
    n % b + 1 = b ↔ n.toNat % b.toNat + 1 = b.toNat := by
  rw [← UInt8.toNat_inj, toNat_mod_add_one hn]

/-- One more unit completes a whole divisor, or is left over. -/
theorem mod_add_one {n b : UInt8} (hn : n.toNat < 255) :
    (n + 1) % b = if n % b + 1 = b then 0 else n % b + 1 := by
  apply UInt8.toNat_inj.mp
  rw [UInt8.toNat_mod, toNat_add_one hn]
  by_cases h : n % b + 1 = b
  · rw [if_pos h, succ_mod_eq_zero ((mod_add_one_eq_iff hn).mp h), UInt8.toNat_zero]
  · rw [if_neg h, succ_mod_eq_succ (mt (mod_add_one_eq_iff hn).mpr h), toNat_mod_add_one hn]

theorem div_add_one {n b : UInt8} (hn : n.toNat < 255) :
    (n + 1) / b = if n % b + 1 = b then n / b + 1 else n / b := by
  have hle : (n / b).toNat ≤ n.toNat := by
    rw [UInt8.toNat_div]
    exact Nat.div_le_self ..
  apply UInt8.toNat_inj.mp
  rw [UInt8.toNat_div, toNat_add_one hn]
  by_cases h : n % b + 1 = b
  · rw [if_pos h, toNat_add_one (Nat.lt_of_le_of_lt hle hn), UInt8.toNat_div,
      Nat.succ_div_of_mod_eq_zero (succ_mod_eq_zero ((mod_add_one_eq_iff hn).mp h))]
  · rw [if_neg h, UInt8.toNat_div, Nat.succ_div_of_mod_ne_zero]
    rw [succ_mod_eq_succ (mt (mod_add_one_eq_iff hn).mpr h)]
    exact Nat.succ_ne_zero _

theorem takes_reload {next : LoopTree} {w : View} {x b q : UInt8}
    (h : Takes next ⟨4, [x, b, b, q, 0, 0], unread, out⟩ w) :
    Takes (reload next) ⟨1, [x, b, 0, q, 0, 0], unread, out⟩ w := by
  have hmove : Takes (loop moveDivisor done) ⟨1, [x, b, 0, q, 0, 0], unread, out⟩
      ⟨1, [x, 0, b, q, b, 0], unread, out⟩ :=
    .transfer (d := [0, 255, 1, 0, 1, 0]) rfl rfl rfl (by simp)
  have hrestore : Takes (loop restoreDivisor done) ⟨4, [x, 0, b, q, b, 0], unread, out⟩
      ⟨4, [x, b, b, q, 0, 0], unread, out⟩ :=
    .transfer (d := [0, 1, 0, 0, 255, 0]) rfl rfl rfl (by simp)
  exact .loop hmove <| .block rfl <| .loop hrestore h

/-- The flag is cleared if the scratch cell is not zero. -/
theorem takes_clearFlag (x b r q : UInt8) :
    Takes (loop clearFlag done) ⟨4, [x, b, r, q, r, 1], unread, out⟩
      ⟨4, [x, b, r, q, 0, if r = 0 then 1 else 0], unread, out⟩ := by
  by_cases hr : r = 0
  · subst hr
    exact .skip rfl
  · rw [if_neg hr]
    have hempty : Takes (loop emptyScratch done) ⟨4, [x, b, r, q, r, 1], unread, out⟩
        ⟨4, [x, b, r, q, 0, 1], unread, out⟩ :=
      .transfer (d := [0, 0, 0, 0, 255, 0]) rfl rfl rfl (by simp)
    refine .once hr (.loop hempty <| .block ?_ .done) rfl
    simp

/-- The divisor is loaded again if the flag is set. -/
theorem takes_countDivisor (x b r q : UInt8) :
    Takes (loop countDivisor done)
      ⟨5, [x, b, r, q, 0, if r = 0 then 1 else 0], unread, out⟩
      ⟨5, [x, b, if r = 0 then b else r, if r = 0 then q + 1 else q, 0, 0], unread, out⟩ := by
  by_cases hr : r = 0
  · subst hr
    have hcount : View.run [decrement, left, left, increment, left, left]
        ⟨5, [x, b, 0, q, 0, 1], unread, out⟩ = some ⟨1, [x, b, 0, q + 1, 0, 0], unread, out⟩ := by
      simp
    simp only [if_true]
    have hset : (1 : UInt8) ≠ 0 := by decide
    exact .once hset (.block hcount <| takes_reload <| .block rfl .done) rfl
  · rw [if_neg hr, if_neg hr, if_neg hr]
    exact .skip rfl

theorem takes_pass (k b r q : UInt8) (unread : List UInt8) (out : Array UInt8) :
    Takes pass ⟨0, [k, b, r, q, 0, 0], unread, out⟩
      ⟨0, [k - 1, b, if r - 1 = 0 then b else r - 1, if r - 1 = 0 then q + 1 else q, 0, 0],
        unread, out⟩ := by
  have hmove : Takes (loop moveUnits done) ⟨2, [k - 1, b, r - 1, q, 0, 0], unread, out⟩
      ⟨2, [k - 1, b, 0, q, r - 1, r - 1], unread, out⟩ :=
    .transfer (d := [0, 0, 255, 0, 1, 1]) rfl rfl rfl (by simp)
  have hrestore : Takes (loop restoreUnits done)
      ⟨5, [k - 1, b, 0, q, r - 1, r - 1], unread, out⟩
      ⟨5, [k - 1, b, r - 1, q, r - 1, 0], unread, out⟩ :=
    .transfer (d := [0, 0, 1, 0, 0, 255]) rfl rfl rfl (by simp)
  have hset : View.run [increment, left] ⟨5, [k - 1, b, r - 1, q, r - 1, 0], unread, out⟩ =
      some ⟨4, [k - 1, b, r - 1, q, r - 1, 1], unread, out⟩ := by
    simp
  exact .block rfl <| .loop hmove <| .block rfl <| .loop hrestore <| .block hset <|
    .loop (takes_clearFlag _ _ _ _) <| .block rfl <| .loop (takes_countDivisor _ _ _ _) <|
    .block rfl .done

/-- After a number of units have been taken off the dividend. -/
def view (a b : UInt8) (unread : List UInt8) (out : Array UInt8) (k : UInt8) : View :=
  ⟨0, [k, b, b - (a - k) % b, (a - k) / b, 0, 0], unread, out⟩

theorem takes_tree (a b : UInt8) : Takes tree ⟨0, [0, 0, 0, 0, 0, 0], a :: b :: unread, out⟩
    ⟨3, [0, b, b - a % b, a / b, 0, 0], unread, out.push (a / b)⟩ := by
  have hpass : ∀ k : UInt8, k ≠ 0 → k ≤ a →
      Takes pass (view a b unread out k) (view a b unread out (k - 1)) := by
    intro k hk hle
    have hlt := toNat_sub_lt hk hle
    -- neither holds for divisor 0: the units wrap, and at most 255 passes do not bring them back
    have hzero : b - (a - k) % b - 1 = 0 ↔ (a - k) % b + 1 = b := by grind
    have hunits : b - (a - k + 1) % b =
        if b - (a - k) % b - 1 = 0 then b else b - (a - k) % b - 1 := by
      simp only [mod_add_one hlt, hzero]
      split
      · exact UInt8.sub_zero b
      · grind
    have hwholes : (a - k + 1) / b =
        if b - (a - k) % b - 1 = 0 then (a - k) / b + 1 else (a - k) / b := by
      simp only [div_add_one hlt, hzero]
    have h := takes_pass k b (b - (a - k) % b) ((a - k) / b) unread out
    rwa [← hunits, ← hwholes, ← sub_sub_one] at h
  have hstart : view a b unread out a = ⟨0, [a, b, b, 0, 0, 0], unread, out⟩ := by
    rw [view, UInt8.sub_self, UInt8.zero_mod, UInt8.zero_div, UInt8.sub_zero]
  have hend : view a b unread out 0 = ⟨0, [0, b, b - a % b, a / b, 0, 0], unread, out⟩ := by
    rw [view, UInt8.sub_zero]
  have hloop := Takes.iterate (view a b unread out) a hstart hend (fun k => rfl) hpass
  exact .block rfl <| takes_reload <| .block rfl <| .loop hloop <| .block rfl .done

end Division

namespace Power

theorem takes_addBase (a e j p : UInt8) (unread : List UInt8) (out : Array UInt8) :
    Takes addBase ⟨2, [a, e, j, p, 0], unread, out⟩ ⟨2, [a, e, j - 1, p + a, 0], unread, out⟩ := by
  have hmove : Takes (loop moveBase done) ⟨0, [a, e, j - 1, p, 0], unread, out⟩
      ⟨0, [0, e, j - 1, p + a, a], unread, out⟩ :=
    .transfer (d := [255, 0, 0, 1, 1]) rfl rfl rfl (by simp)
  have hrestore : Takes (loop restoreBase done) ⟨4, [0, e, j - 1, p + a, a], unread, out⟩
      ⟨4, [a, e, j - 1, p + a, 0], unread, out⟩ :=
    .transfer (d := [1, 0, 0, 0, 255]) rfl rfl rfl (by simp)
  exact .block rfl <| .loop hmove <| .block rfl <| .loop hrestore <| .block rfl .done

/-- The units of the result that are left have not been multiplied yet. -/
def inner (a e r : UInt8) (unread : List UInt8) (out : Array UInt8) (j : UInt8) : View :=
  ⟨2, [a, e, j, (r - j) * a, 0], unread, out⟩

theorem takes_pass (a k r : UInt8) (unread : List UInt8) (out : Array UInt8) :
    Takes pass ⟨1, [a, k, r, 0, 0], unread, out⟩ ⟨1, [a, k - 1, r * a, 0, 0], unread, out⟩ := by
  have hadd : ∀ j : UInt8, j ≠ 0 → j ≤ r →
      Takes addBase (inner a (k - 1) r unread out j) (inner a (k - 1) r unread out (j - 1)) := by
    intro j _ _
    have h := takes_addBase a (k - 1) j ((r - j) * a) unread out
    rwa [sub_mul_add] at h
  have hstart : inner a (k - 1) r unread out r = ⟨2, [a, k - 1, r, 0, 0], unread, out⟩ := by
    rw [inner, UInt8.sub_self, UInt8.zero_mul]
  have hend : inner a (k - 1) r unread out 0 = ⟨2, [a, k - 1, 0, r * a, 0], unread, out⟩ := by
    rw [inner, UInt8.sub_zero]
  have hloop := Takes.iterate (inner a (k - 1) r unread out) r hstart hend (fun j => rfl) hadd
  have hmove : Takes (loop moveResult done) ⟨3, [a, k - 1, 0, r * a, 0], unread, out⟩
      ⟨3, [a, k - 1, r * a, 0, 0], unread, out⟩ :=
    .transfer (d := [0, 0, 1, 255, 0]) rfl rfl rfl (by simp)
  exact .block rfl <| .loop hloop <| .block rfl <| .loop hmove <| .block rfl .done

/-- The result is the power for the units of the exponent that have been taken off it. -/
def outer (a b : UInt8) (unread : List UInt8) (out : Array UInt8) (k : UInt8) : View :=
  ⟨1, [a, k, a ^ (b - k).toNat, 0, 0], unread, out⟩

theorem takes_tree (a b : UInt8) : Takes tree ⟨0, [0, 0, 0, 0, 0], a :: b :: unread, out⟩
    ⟨2, [a, 0, a ^ b.toNat, 0, 0], unread, out.push (a ^ b.toNat)⟩ := by
  have hpass : ∀ k : UInt8, k ≠ 0 → k ≤ b →
      Takes pass (outer a b unread out k) (outer a b unread out (k - 1)) := by
    intro k hk hle
    have hp : a ^ (b - k).toNat * a = a ^ (b - (k - 1)).toNat := by
      rw [← UInt8.pow_succ, ← toNat_add_one (toNat_sub_lt hk hle), sub_sub_one]
    have h := takes_pass a k (a ^ (b - k).toNat) unread out
    rwa [hp] at h
  have hstart : outer a b unread out b = ⟨1, [a, b, 1, 0, 0], unread, out⟩ := by
    rw [outer, UInt8.sub_self, UInt8.toNat_zero, UInt8.pow_zero]
  have hend : outer a b unread out 0 = ⟨1, [a, 0, a ^ b.toNat, 0, 0], unread, out⟩ := by
    rw [outer, UInt8.sub_zero]
  have hloop := Takes.iterate (outer a b unread out) b hstart hend (fun k => rfl) hpass
  have hread : View.run [input, right, input, right, increment, left]
      ⟨0, [0, 0, 0, 0, 0], a :: b :: unread, out⟩ = some ⟨1, [a, b, 1, 0, 0], unread, out⟩ := by
    simp
  exact .block hread <| .loop hloop <| .block rfl .done

end Power

/-- How many cells the program uses. -/
def width : Operator → Nat
  | add => 2
  | sub => 2
  | mul => 4
  | div => 6
  | pow => 5

theorem width_le (op : Operator) {tapeSize : Nat} (h : 6 ≤ tapeSize) :
    op.width ≤ max tapeSize 1 := by
  have : op.width ≤ 6 := by cases op <;> decide
  omega

/-- The operator on bytes, which wrap. -/
def onBytes : Operator → UInt8 → UInt8 → UInt8
  | add, a, b => a + b
  | sub, a, b => a - b
  | mul, a, b => a * b
  | div, a, b => a / b
  | pow, a, b => a ^ b.toNat

/-- What the documentation of the program promises. -/
def byteValue : Operator → Nat → Nat → Nat
  | add, a, b => (a + b) % 256
  | sub, a, b => (a + 256 - b) % 256
  | mul, a, b => a * b % 256
  | div, a, b => if b = 0 then 0 else a / b
  | pow, a, b => a ^ b % 256

theorem toNat_onBytes (op : Operator) (a b : UInt8) :
    (op.onBytes a b).toNat = op.byteValue a.toNat b.toNat := by
  cases op with
  | add => exact UInt8.toNat_add a b
  | sub =>
    have := b.toNat_lt
    rw [onBytes, UInt8.toNat_sub, byteValue]
    congr 1
    omega
  | mul => exact UInt8.toNat_mul a b
  | div =>
    rw [onBytes, UInt8.toNat_div, byteValue]
    split
    next h => rw [h, Nat.div_zero]
    next => rfl
  | pow => exact toNat_pow a b.toNat

theorem takes_tree (op : Operator) (a b : UInt8) (unread : List UInt8) :
    ∃ w : View, Takes op.tree ⟨0, List.replicate op.width 0, a :: b :: unread, #[]⟩ w ∧
      w.unread = unread ∧ w.output = #[op.onBytes a b] := by
  cases op with
  | add => exact ⟨_, Addition.takes_tree a b, rfl, rfl⟩
  | sub => exact ⟨_, Subtraction.takes_tree a b, rfl, rfl⟩
  | mul => exact ⟨_, Multiplication.takes_tree a b, rfl, rfl⟩
  | div => exact ⟨_, Division.takes_tree a b, rfl, rfl⟩
  | pow => exact ⟨_, Power.takes_tree a b, rfl, rfl⟩

theorem runs_tree (op : Operator) {tapeSize : Nat} (h : op.width ≤ max tapeSize 1) (a b : UInt8)
    (suffix : List UInt8) :
    ∃ e, op.tree.Runs (.initial tapeSize (a :: b :: suffix)) e ∧ e.unread = suffix ∧
      e.output = #[op.onBytes a b] := by
  obtain ⟨w, hw, hu, ho⟩ := op.takes_tree a b suffix
  obtain ⟨e, he, hs⟩ := hw _ (Store.shows_initial (by cases op <;> decide) h _)
  exact ⟨e, he, hs.unread.trans hu, hs.output.trans ho⟩

theorem runToEnd_program (op : Operator) {tapeSize : Nat} (h : op.width ≤ max tapeSize 1)
    (a b : UInt8) (suffix : List UInt8) :
    ∃ fuel s, (State.initial tapeSize (a :: b :: suffix)).runToEnd op.program none fuel =
        some (.ok (), s) ∧
      s.counters.consumed = 2 ∧ s.output = #[op.onBytes a b] := by
  obtain ⟨e, he, hu, ho⟩ := op.runs_tree h a b suffix
  obtain ⟨fuel, s, hs, rfl⟩ := he.runToEnd
  rw [← program_eq] at hs
  refine ⟨fuel, s, hs, ?_, ho⟩
  -- what is left of the input tells how much of it was read
  have hread := State.consumed_add_unread_runToEnd hs
  have hrest : s.unread = suffix := hu
  simp only [hrest, State.initial, List.length_cons] at hread
  omega

/-- The built-in programs compute what they document on every tape of six cells or more: they
read two bytes, whatever follows them, and write one. A limit can only cut the run short. -/
theorem ends_program (op : Operator) {tapeSize : Nat} (h : 6 ≤ tapeSize) (a b : UInt8)
    (suffix : List UInt8) :
    Program.parse op.source = .ok op.program ∧
    ∃ report : Report, report.output.map UInt8.toNat = [op.byteValue a.toNat b.toNat] ∧
      report.counters.consumed = 2 ∧
      (⟨tapeSize, none⟩ : Machine).Ends op.program (a :: b :: suffix) (.ok report) ∧
      ∀ limit : Nat,
        (⟨tapeSize, some limit⟩ : Machine).Ends op.program (a :: b :: suffix) (.ok report) ∨
        (⟨tapeSize, some limit⟩ : Machine).Ends op.program (a :: b :: suffix)
          (.error (.stepLimitExceeded limit)) := by
  obtain ⟨fuel, s, hs, hread, ho⟩ := op.runToEnd_program (op.width_le h) a b suffix
  refine ⟨op.program_eq ▸ op.parse_source, s.report, ?_, hread, ?_, fun limit => ?_⟩
  · simp [State.report, ho, toNat_onBytes]
  · exact .of_execute (Machine.execute_of_runToEnd hs)
  · rcases State.runToEnd_of_some hs limit with hl | ⟨t, hl⟩
    · exact .inl (.of_execute (Machine.execute_of_runToEnd hl))
    · exact .inr (.of_execute (Machine.execute_eq_error_iff.mpr ⟨t, hl⟩))

/-- The quotient of 200 by 7, on the smallest tape, with more input than is read. -/
theorem ends_program_div :
    6 ≤ 6 ∧ Program.parse divisionSource = .ok (program .div) ∧
    ∃ report : Report, report.output.map UInt8.toNat = [28] ∧
      report.counters.consumed = 2 ∧
      (⟨6, none⟩ : Machine).Ends (program .div) [200, 7, 1] (.ok report) ∧
      ∀ limit : Nat,
        (⟨6, some limit⟩ : Machine).Ends (program .div) [200, 7, 1] (.ok report) ∨
        (⟨6, some limit⟩ : Machine).Ends (program .div) [200, 7, 1]
          (.error (.stepLimitExceeded limit)) :=
  ⟨Nat.le_refl 6, ends_program .div (Nat.le_refl 6) 200 7 [1]⟩

end Operator

end TapeCalc
