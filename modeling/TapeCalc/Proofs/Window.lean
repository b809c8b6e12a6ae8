import TapeCalc.Number.Power
import TapeCalc.Proofs.LoopRun
import TapeCalc.Proofs.RoundTrip

/-!
# Windows

Programs seen through the first cells of the tape. A view names the pointer and those cells; a
tree takes one view to another if its run from every store that shows the first ends in a store
that shows the second. The cells beyond the window play no part, so the size of the tape does not.
A stretch that stays in the window counts on every ring what it counts there, so a loop that comes
back to its counter with one taken off it makes round trips, as many as the counter holds.
-/
namespace TapeCalc

/-- The pointer and the first cells of a tape, with the input to come and the output. -/
structure View where
  pointer : Nat
  cells : List UInt8
  unread : List UInt8
  output : Array UInt8
  deriving DecidableEq

structure Store.Shows (a : Store) (v : View) : Prop where
  pointer : a.tape.pointer = v.pointer
  inside : v.pointer < v.cells.length
  cells : v.cells <+: a.tape.cells.toList
  unread : a.unread = v.unread
  output : a.output = v.output

namespace View

def current (v : View) : UInt8 := v.cells.getD v.pointer 0

def write (c : UInt8) (v : View) : View := { v with cells := v.cells.set v.pointer c }

/-- The effect of a command, unless it leaves the window or reads without input. -/
def act : Command → View → Option View
  | .right, v =>
    if v.pointer + 1 < v.cells.length then some { v with pointer := v.pointer + 1 } else none
  | .left, v => if v.pointer = 0 then none else some { v with pointer := v.pointer - 1 }
  | .increment, v => some (v.write (v.current + 1))
  | .decrement, v => some (v.write (v.current - 1))
  | .output, v => some { v with output := v.output.push v.current }
  | .input, v =>
    match v.unread with
    | [] => none
    | b :: rest => some { v.write b with unread := rest }

def run : List Command → View → Option View
  | [], v => some v
  | c :: cs, v => (v.act c).bind (run cs)

end View

namespace Store.Shows

variable {a : Store} {v w : View}

theorem current (h : a.Shows v) : a.current = v.current := by
  have hc := (List.prefix_iff_getElem?.mp h.cells) v.pointer h.inside
  have hr := a.tape.cells_pointer
  rw [← Array.getElem?_toList, h.pointer, hc] at hr
  rw [Store.current, View.current, List.getD_eq_getElem?_getD, List.getElem?_eq_getElem h.inside]
  exact (Option.some.inj hr).symm

theorem write (h : a.Shows v) (c : UInt8) :
    Store.Shows { a with tape := a.tape.write c } (v.write c) where
  pointer := h.pointer
  inside := by simpa [View.write] using h.inside
  cells := by
    obtain ⟨rest, hr⟩ := h.cells
    refine ⟨rest, ?_⟩
    rw [View.write, Tape.write, Array.toList_set, ← hr, h.pointer,
      List.set_append_left _ _ h.inside]
  unread := h.unread
  output := h.output

theorem length_le (h : a.Shows v) : v.cells.length ≤ a.tape.cells.size := by
  simpa using h.cells.length_le

/-- A command acts on what is shown as it does on the view. -/
theorem act (h : a.Shows v) {c : Command} (hc : v.act c = some w) :
    ∃ b, c.act a = some b ∧ b.Shows w := by
  have hlen := h.length_le
  have hin := h.inside
  have hcur := h.current
  rw [Store.current] at hcur
  cases c with
  | right =>
    rw [View.act, Option.ite_none_right_eq_some] at hc
    obtain ⟨hlt, hw⟩ := hc
    cases hw
    refine ⟨_, rfl, ⟨?_, hlt, by simpa using h.cells, h.unread, h.output⟩⟩
    rw [Tape.pointer_moveRight, h.pointer, Nat.mod_eq_of_lt (by simp only [Tape.size]; omega)]
  | left =>
    rw [View.act, Option.ite_none_left_eq_some] at hc
    obtain ⟨hne, hw⟩ := hc
    cases hw
    refine ⟨_, rfl, ⟨?_, by simp only; omega, by simpa using h.cells, h.unread, h.output⟩⟩
    have hp := h.pointer
    simp only [Tape.moveLeft, hp, hne, if_false]
  | increment =>
    cases hc
    exact ⟨_, rfl, by rw [Tape.increment, hcur]; exact h.write _⟩
  | decrement =>
    cases hc
    exact ⟨_, rfl, by rw [Tape.decrement, hcur]; exact h.write _⟩
  | output =>
    cases hc
    exact ⟨_, rfl, ⟨h.pointer, h.inside, h.cells, h.unread, by simp only [h.output, hcur]⟩⟩
  | input =>
    have hu := h.unread
    cases hv : v.unread with
    | nil => simp [View.act, hv] at hc
    | cons b rest =>
      simp only [View.act, hv, Option.some.injEq] at hc
      subst hc
      have hw := h.write b
      refine ⟨{ a with tape := a.tape.write b, unread := rest }, ?_, ?_⟩
      · simp [Command.act, hu, hv]
      · exact ⟨hw.pointer, hw.inside, hw.cells, rfl, hw.output⟩

end Store.Shows

theorem Store.shows_initial {width tapeSize : Nat} (h0 : 0 < width) (h : width ≤ max tapeSize 1)
    (input : List UInt8) :
    (Store.initial tapeSize input).Shows ⟨0, List.replicate width 0, input, #[]⟩ where
  pointer := rfl
  inside := by simpa using h0
  cells := ⟨List.replicate (max tapeSize 1 - width) 0, by
    simp [Store.initial, Tape.blank, Nat.add_sub_cancel' h]⟩
  unread := rfl
  output := rfl

theorem toNat_sub_one {k : UInt8} (h : k ≠ 0) : (k - 1).toNat = k.toNat - 1 := by
  have h0 : k.toNat ≠ 0 := fun h0 => h (UInt8.toNat_inj.mp h0)
  have hle : (1 : UInt8) ≤ k := by
    rw [UInt8.le_iff_toNat_le]
    exact Nat.one_le_iff_ne_zero.mpr h0
  rw [UInt8.toNat_sub_of_le _ _ hle]
  rfl

theorem toNat_sub_lt {a k : UInt8} (hk : k ≠ 0) (hle : k ≤ a) : (a - k).toNat < 255 := by
  have h0 : k.toNat ≠ 0 := fun h => hk (UInt8.toNat_inj.mp h)
  have := a.toNat_lt
  rw [UInt8.toNat_sub_of_le _ _ hle]
  omega

theorem toNat_add_one {n : UInt8} (hn : n.toNat < 255) : (n + 1).toNat = n.toNat + 1 := by
  rw [UInt8.toNat_add, UInt8.toNat_one, Nat.mod_eq_of_lt (by omega)]

theorem toNat_pow (a : UInt8) (n : Nat) : (a ^ n).toNat = a.toNat ^ n % 256 := by
  induction n with
  | zero => rfl
  | succ n ih => rw [UInt8.pow_succ, UInt8.toNat_mul, ih, Nat.mod_mul_mod, Nat.pow_succ]

theorem sub_sub_one (a k : UInt8) : a - (k - 1) = a - k + 1 := by grind

theorem sub_mul_add (a k b : UInt8) : (a - k) * b + b = (a - (k - 1)) * b := by
  rw [sub_sub_one, UInt8.add_mul, UInt8.one_mul]

namespace LoopTree

/-- A stretch of commands before the rest of a tree. -/
def block (cs : List Command) (next : LoopTree) : LoopTree := cs.foldr .command next

/-- From every store that shows the first view a run ends in a store that shows the second. -/
def Takes (t : LoopTree) (v w : View) : Prop :=
  ∀ a : Store, a.Shows v → ∃ b, t.Runs a b ∧ b.Shows w

namespace Takes

variable {body next : LoopTree} {u v w : View}

theorem done : Takes .done v v := fun a h => ⟨a, .done a, h⟩

theorem block {cs : List Command} (hv : v.run cs = some u) (h : Takes next u w) :
    Takes (block cs next) v w := by
  induction cs generalizing v with
  | nil =>
    cases hv
    exact h
  | cons c cs ih =>
    obtain ⟨x, hx, hr⟩ := Option.bind_eq_some_iff.mp hv
    intro a ha
    obtain ⟨b, hb, hs⟩ := ha.act hx
    obtain ⟨e, he, hw⟩ := ih hr b hs
    exact ⟨e, .command hb he, hw⟩

theorem loop (hb : Takes (.loop body .done) v u) (hn : Takes next u w) :
    Takes (.loop body next) v w := by
  intro a ha
  obtain ⟨b, hb, hs⟩ := hb a ha
  obtain ⟨e, he, hw⟩ := hn b hs
  exact ⟨e, hb.loop_then he, hw⟩

theorem skip (hz : v.current = 0) : Takes (.loop body .done) v v :=
  fun a ha => ⟨a, .skip (ha.current.trans hz) (.done a), ha⟩

theorem again (hz : v.current ≠ 0) (hb : Takes body v u) (hn : Takes (.loop body .done) u w) :
    Takes (.loop body .done) v w := by
  intro a ha
  obtain ⟨b, hb, hs⟩ := hb a ha
  obtain ⟨e, he, hw⟩ := hn b hs
  exact ⟨e, .again (ha.current ▸ hz) hb he, hw⟩

/-- A loop whose counter is not zero before its one pass and zero after it. -/
theorem once (hz : v.current ≠ 0) (hb : Takes body v w) (hw : w.current = 0) :
    Takes (.loop body .done) v w := again hz hb (skip hw)

/-- A loop whose passes each take one off its counter. -/
theorem iterate (view : UInt8 → View) (n : UInt8) (hv : view n = v) (hw : view 0 = w)
    (hc : ∀ k, (view k).current = k)
    (hb : ∀ k, k ≠ 0 → k ≤ n → Takes body (view k) (view (k - 1))) :
    Takes (.loop body .done) v w := by
  subst hv hw
  generalize hm : n.toNat = m
  induction m generalizing n with
  | zero =>
    obtain rfl : n = 0 := UInt8.toNat_inj.mp hm
    exact skip (hc 0)
  | succ m ih =>
    have hn : n ≠ 0 := by
      rintro rfl
      cases hm
    have hp := toNat_sub_one hn
    refine again (by rwa [hc]) (hb n hn (UInt8.le_refl n)) (ih (n - 1) (fun k h0 hk => ?_) ?_)
    · refine hb k h0 ?_
      rw [UInt8.le_iff_toNat_le] at hk ⊢
      omega
    · omega

end Takes

end LoopTree

/-- The net effect of a stretch without input and output: where the pointer goes inside a window,
and what it adds to each cell. -/
def drift : List Command → Nat → List UInt8 → Option (Nat × List UInt8)
  | [], k, d => some (k, d)
  | .right :: cs, k, d => if k + 1 < d.length then drift cs (k + 1) d else none
  | .left :: cs, k, d => if k = 0 then none else drift cs (k - 1) d
  | .increment :: cs, k, d => drift cs k (d.modify k (· + 1))
  | .decrement :: cs, k, d => drift cs k (d.modify k (· - 1))
  | .output :: _, _, _ => none
  | .input :: _, _, _ => none

/-- Cells with a change made to them a number of times. -/
def spread (n : UInt8) (cells d : List UInt8) : List UInt8 :=
  List.zipWith (fun x y => x + n * y) cells d

@[simp] theorem spread_nil (n : UInt8) : spread n [] [] = [] := rfl

@[simp] theorem spread_cons (n x y : UInt8) (cells d : List UInt8) :
    spread n (x :: cells) (y :: d) = (x + n * y) :: spread n cells d := rfl

theorem length_spread {cells d : List UInt8} (h : cells.length = d.length) (n : UInt8) :
    (spread n cells d).length = d.length := by
  simp [spread, h]

section rings

open Instruction Tape Tape.Operation

/-- Operations that start at a cell of a ring and stay in a window: they lead to one of its cells
and count what is told for each. -/
structure Stays (size home : Nat) (ops : List Operation) (k : Nat) (d : List UInt8) : Prop where
  displacement_eq : displacement ops = k - home
  inside : k < d.length
  length_le : d.length ≤ size
  counted : ∀ distance < size, ∀ c, d[(home + distance) % size]? = some c →
    (c.toNat : Int) = balance (performedAt size distance ops) % 256

variable {size home k l : Nat} {ops : List Operation} {d e : List UInt8}

theorem Stays.start {width : Nat} (hh : home < width) (hw : width ≤ size) :
    Stays size home [] home (List.replicate width 0) where
  displacement_eq := (Int.sub_self _).symm
  inside := by rwa [List.length_replicate]
  length_le := by rwa [List.length_replicate]
  counted distance _ c hc := by
    obtain rfl := List.eq_of_mem_replicate (List.mem_of_getElem? hc)
    rfl

theorem Stays.act (h : Stays size home ops k d) {op : Operation} (hop : op.written? = none)
    (hl : l < d.length) (hmove : (l : Int) = k + displacement [op]) :
    Stays size home (ops ++ [op]) l (d.modify k fun c => op.result c) where
  displacement_eq := by
    rw [displacement_append, h.displacement_eq, hmove]
    omega
  inside := by rwa [List.length_modify]
  length_le := by
    rw [List.length_modify]
    exact h.length_le
  counted distance hd c hc := by
    have hk : (home : Int) + (k - home) = k := by omega
    have hfinds : displacement ops % size = distance ↔ k = (home + distance) % size := by
      rw [emod_eq_iff hd, h.displacement_eq, hk, ← Int.natCast_emod,
        Nat.mod_eq_of_lt (Nat.lt_of_lt_of_le h.inside h.length_le), Int.natCast_inj]
    rw [List.getElem?_modify] at hc
    obtain ⟨x, hx, rfl⟩ := Option.map_eq_some_iff.mp hc
    have hbefore := h.counted distance hd x hx
    rw [performedAt_concat, balance_append]
    by_cases hat : displacement ops % size = distance
    · simp only [if_pos (hfinds.mp hat), if_pos hat]
      rw [toNat_result_of_written? hop, hbefore, Int.emod_add_emod]
    · simp only [if_neg fun he => hat (hfinds.mpr he), if_neg hat]
      rw [hbefore]
      exact congrArg (· % 256) (Int.add_zero _).symm

/-- A stretch that stays in a window counts on a ring what it counts in the window. -/
theorem Stays.run {cs : List Command} (h : drift cs k d = some (l, e))
    (hs : Stays size home ops k d) : (∀ c ∈ cs, c.instruction.operation?.isSome) ∧
      Stays size home (ops ++ operations (cs.map Command.instruction)) l e := by
  -- induction on the stretch: the operations done so far grow by that of the next command
  induction cs generalizing k d ops with
  | nil =>
    cases h
    exact ⟨nofun, (List.append_nil ops).symm ▸ hs⟩
  | cons c cs ih =>
    have hcons : ∀ {op k' d'}, c.instruction.operation? = some op →
        drift cs k' d' = some (l, e) → Stays size home (ops ++ [op]) k' d' →
        (∀ x ∈ c :: cs, x.instruction.operation?.isSome) ∧
          Stays size home (ops ++ operations ((c :: cs).map Command.instruction)) l e := by
      intro op k' d' hop hd hnext
      obtain ⟨hops, hend⟩ := ih hd hnext
      refine ⟨List.forall_mem_cons.mpr ⟨Option.isSome_of_eq_some hop, hops⟩, ?_⟩
      rw [List.append_assoc] at hend
      rwa [List.map_cons, operations, List.filterMap_cons_some hop]
    have hstay : d.modify k (fun x => x) = d := List.modify_id k d
    cases c with
    | right =>
      obtain ⟨hlt, hd⟩ := Option.ite_none_right_eq_some.mp h
      have hnext : Stays size home (ops ++ [.right]) (k + 1) (d.modify k fun x => x) :=
        hs.act rfl hlt rfl
      exact hcons rfl hd (hstay ▸ hnext)
    | left =>
      obtain ⟨hne, hd⟩ := Option.ite_none_left_eq_some.mp h
      have hback : ((k - 1 : Nat) : Int) = k + displacement [.left] := by
        have hone : displacement [.left] = -1 := rfl
        omega
      have hnext : Stays size home (ops ++ [.left]) (k - 1) (d.modify k fun x => x) :=
        hs.act rfl (Nat.lt_of_le_of_lt (Nat.sub_le k 1) hs.inside) hback
      exact hcons rfl hd (hstay ▸ hnext)
    | increment => exact hcons rfl h (hs.act rfl hs.inside (Int.add_zero _).symm)
    | decrement => exact hcons rfl h (hs.act rfl hs.inside (Int.add_zero _).symm)
    | output => cases h
    | input => cases h

/-- A stretch that comes back to its counter with one taken off it counts down. -/
theorem Stays.countsDown {code : List Instruction}
    (h : Stays size k (operations code) k d) (hk : d[k]? = some 255) :
    CountsDown size (operations code) where
  written?_eq _ := written?_of_mem_operations
  displacement_eq := by rw [h.displacement_eq, Int.sub_self, Int.zero_emod]
  balance_eq := by
    have hlt := Nat.lt_of_lt_of_le h.inside h.length_le
    have hat : (k + 0) % size = k := Nat.mod_eq_of_lt hlt
    exact (h.counted 0 (Nat.zero_lt_of_lt hlt) 255 (hat.symm ▸ hk)).symm

/-- Round trips on a tape that shows a window add to the cells shown what they count there. -/
theorem Stays.shows_trips {a : Store} {cells : List UInt8} {unread : List UInt8}
    {output : Array UInt8} {n : UInt8} {u : Tape} (ha : a.Shows ⟨k, cells, unread, output⟩)
    (h : Stays a.tape.size k ops k d) (hl : cells.length = d.length)
    (hu : Trips ops n.toNat a.tape u) :
    Store.Shows { a with tape := u } ⟨k, spread n cells d, unread, output⟩ where
  pointer := hu.pointer_eq.trans ha.pointer
  inside := by
    rw [length_spread hl]
    exact h.inside
  cells := by
    refine List.prefix_iff_getElem?.mpr fun i hi => ?_
    have hid : i < d.length := by rwa [length_spread hl] at hi
    have hic : i < cells.length := hl ▸ hid
    have his : i < a.tape.size := Nat.lt_of_lt_of_le hid h.length_le
    obtain ⟨distance, hd, hat⟩ := a.tape.exists_distance his
    have hpointer : a.tape.pointer = k := ha.pointer
    -- the pointer is back, so the cell is as many places from it after the trips as before them
    have hshown := List.prefix_iff_getElem?.mp ha.cells i hic
    rw [Array.getElem?_toList, getElem?_eq_ahead his hat, Option.some.injEq] at hshown
    have hcount := h.counted distance hd d[i] (by
      rw [← hpointer, hat]
      exact List.getElem?_eq_getElem hid)
    have hafter := hu.ahead_eq hd hcount
    rw [hshown] at hafter
    rw [← hu.pointer_eq, ← hu.size_eq] at hat
    rw [Array.getElem?_toList, getElem?_eq_ahead (hu.size_eq ▸ his) hat, hafter]
    simp only [spread, List.getElem_zipWith]
  unread := ha.unread
  output := ha.output

end rings

section transfer

open Instruction

theorem Command.act_of_operation? {c : Command} {op : Tape.Operation}
    (h : c.instruction.operation? = some op) (a : Store) :
    c.act a = some { a with tape := a.tape.act op } := by
  cases c <;> cases h <;> rfl

namespace LoopTree

/-- A stretch without input and output does its operations to the tape, one after another. -/
theorem Runs.block {cs : List Command} {next : LoopTree} {a e : Store}
    (hops : ∀ c ∈ cs, c.instruction.operation?.isSome)
    (h : Runs next { a with tape := a.tape.acts (operations (cs.map Command.instruction)) } e) :
    Runs (block cs next) a e := by
  induction cs generalizing a with
  | nil => exact h
  | cons c cs ih =>
    obtain ⟨hc, hcs⟩ := List.forall_mem_cons.mp hops
    obtain ⟨op, hop⟩ := Option.isSome_iff_exists.mp hc
    refine .command (c.act_of_operation? hop a) (ih hcs ?_)
    rwa [List.map_cons, operations, List.filterMap_cons_some hop] at h

/-- A loop that counts down makes as many round trips as the current cell holds. -/
theorem Runs.countsDown {cs : List Command} {a : Store}
    (hops : ∀ c ∈ cs, c.instruction.operation?.isSome)
    (h : Tape.CountsDown a.tape.size (operations (cs.map Command.instruction))) :
    Runs (.loop (LoopTree.block cs .done) .done) a { a with
      tape := (fun u => u.acts (operations (cs.map Command.instruction)))^[a.tape.read.toNat]
        a.tape } := by
  generalize hn : a.tape.read.toNat = n
  induction n generalizing a with
  | zero => exact .skip (UInt8.toNat_inj.mp hn) (.done a)
  | succ n ih =>
    have hnonzero : a.current ≠ 0 := fun hz => by
      rw [Store.current] at hz
      rw [hz] at hn
      cases hn
    have hleft := h.toNat_read_acts (hn ▸ n.succ_pos)
    rw [hn, Nat.add_sub_cancel] at hleft
    exact .again hnonzero (.block hops (.done _)) (ih (by rwa [Tape.size_acts]) hleft)

/-- A loop of moves and steps that comes back to its counter with one taken off it empties the
counter, and makes its change once for every unit of it. -/
theorem Takes.transfer {cs : List Command} {k : Nat} {d cells after : List UInt8}
    {unread : List UInt8} {output : Array UInt8}
    (hd : drift cs k (List.replicate d.length 0) = some (k, d)) (hk : d[k]? = some 255)
    (hl : cells.length = d.length) (ha : spread (cells.getD k 0) cells d = after) :
    Takes (.loop (LoopTree.block cs .done) .done) ⟨k, cells, unread, output⟩
      ⟨k, after, unread, output⟩ := by
  subst ha
  intro a ha
  have hsize : d.length ≤ a.tape.size := hl ▸ ha.length_le
  have hin : k < d.length := hl ▸ ha.inside
  obtain ⟨hops, hstays⟩ := (Stays.start hin hsize).run hd
  have hdown := hstays.countsDown hk
  have hread : a.tape.read = cells.getD k 0 := ha.current
  exact ⟨_, .countsDown hops hdown, hstays.shows_trips ha hl (hread ▸ hdown.trips _)⟩

end LoopTree

end transfer

attribute [simp] View.run View.act View.write View.current

end TapeCalc
