import TapeCalc.Proofs.Refinement

/-!
# Depth of nesting

The scan for the depth of a program looks at the instructions and not at the table of partners. In a
program that is read it takes off no bracket that it has not counted, and what it finds is the
greatest number of loops of the table around one place.
-/
namespace TapeCalc

namespace Program

/-- The scan for the depth with a subtraction that is refused at zero: the depth at the end, and the
greatest one met. -/
def deepest? : List Instruction → Nat → Nat → Option (Nat × Nat)
  | [], depth, most => some (depth, most)
  | .loopStart :: rest, depth, most => deepest? rest (depth + 1) (max most (depth + 1))
  | .loopEnd :: rest, depth, most => if depth = 0 then none else deepest? rest (depth - 1) most
  | _ :: rest, depth, most => deepest? rest depth most

/-- The loop that the table has for a place that opens one. -/
def loopAt? (program : Program) (i : Nat) : Option (Nat × Nat) :=
  if program.fetch? i = some .loopStart then (program.partner? i).map fun j => (i, j) else none

def loops (program : Program) : List (Nat × Nat) :=
  (List.range program.size).filterMap program.loopAt?

/-- How many loops begin at a place or before it, and end there or after it. -/
def loopsAround (program : Program) (place : Nat) : Nat :=
  program.loops.countP fun loop => loop.1 ≤ place ∧ place ≤ loop.2

/-- Where nothing is refused, a subtraction that stops at zero makes no difference. -/
theorem deepest_of_deepest? {is : List Instruction} {depth most last found : Nat}
    (h : deepest? is depth most = some (last, found)) : deepest is depth most = found := by
  fun_induction deepest? is depth most with
  | case1 depth most =>
    cases h
    rfl
  | case2 rest depth most ih => exact ih h
  | case3 rest most => cases h
  | case4 rest depth most hdepth ih => exact ih h
  | case5 i rest depth most hstart hend ih =>
    rw [deepest]
    · exact ih h
    · exact hstart
    · exact hend

end Program

namespace LoopTree

def depth : LoopTree → Nat
  | done => 0
  | command _ next => next.depth
  | loop body next => max (body.depth + 1) next.depth

/-- The loops of a tree whose code starts at a place, from their first place to their last. -/
def loops : LoopTree → Nat → List (Nat × Nat)
  | done, _ => []
  | command _ next, place => next.loops (place + 1)
  | loop body next, place =>
    (place, place + body.size + 1) ::
      (body.loops (place + 1) ++ next.loops (place + body.size + 2))

/-- How many loops of a tree are around a place. -/
def around (t : LoopTree) (start place : Nat) : Nat :=
  (t.loops start).countP fun loop => loop.1 ≤ place ∧ place ≤ loop.2

variable {t : LoopTree} {start place : Nat}

/-- The scan goes over the code of a tree and is back at the depth that it started from. -/
theorem deepest?_flatten_append (t : LoopTree) (rest : List Instruction) {depth most : Nat}
    (h : depth ≤ most) : Program.deepest? (t.flatten ++ rest) depth most =
      Program.deepest? rest depth (max most (depth + t.depth)) := by
  induction t generalizing rest depth most with
  | done => rw [flatten, List.nil_append, LoopTree.depth, Nat.add_zero, Nat.max_eq_left h]
  | command c next ih =>
    have hskip : Program.deepest? (c.instruction :: (next.flatten ++ rest)) depth most =
        Program.deepest? (next.flatten ++ rest) depth most := by
      cases c <;> rfl
    rw [flatten, List.cons_append, hskip, ih rest h, LoopTree.depth]
  | loop body next ihb ihn =>
    have hmost : max (max most (depth + 1)) (depth + 1 + body.depth) =
        max most (depth + 1 + body.depth) := by omega
    have hboth : max (max most (depth + 1 + body.depth)) (depth + next.depth) =
        max most (depth + max (body.depth + 1) next.depth) := by omega
    rw [flatten, List.cons_append, List.append_assoc, List.cons_append, Program.deepest?,
      ihb _ (Nat.le_max_right _ _), hmost, Program.deepest?, if_neg (Nat.succ_ne_zero depth),
      Nat.add_sub_cancel, ihn _ (Nat.le_trans h (Nat.le_max_left _ _)), hboth, LoopTree.depth]

theorem bounds_of_mem_loops {i j : Nat} (h : (i, j) ∈ t.loops start) :
    start ≤ i ∧ j < start + t.size := by
  induction t generalizing start with
  | done => cases h
  | command c next ih =>
    have := ih h
    rw [size]
    omega
  | loop body next ihb ihn =>
    rw [size]
    rcases List.mem_cons.mp h with h | h
    · cases h
      omega
    · rcases List.mem_append.mp h with h | h
      · have := ihb h
        omega
      · have := ihn h
        omega

/-- No loop of a tree is around a place outside its code. -/
theorem around_eq_zero (h : place < start ∨ start + t.size ≤ place) : t.around start place = 0 := by
  refine List.countP_eq_zero.mpr fun ⟨i, j⟩ hl => ?_
  have := bounds_of_mem_loops hl
  simp only [decide_eq_true_eq]
  omega

theorem around_loop (body next : LoopTree) (start place : Nat) :
    (loop body next).around start place =
      (if start ≤ place ∧ place ≤ start + body.size + 1 then 1 else 0) +
        (body.around (start + 1) place + next.around (start + body.size + 2) place) := by
  rw [around, loops, List.countP_cons, List.countP_append, Nat.add_comm]
  simp only [decide_eq_true_eq]
  rfl

/-- A place is in the loop that comes first, or it is in what follows, but not in both. -/
theorem around_le_depth (t : LoopTree) (start place : Nat) : t.around start place ≤ t.depth := by
  induction t generalizing start with
  | done => exact Nat.le_refl 0
  | command c next ih => exact ih (start + 1)
  | loop body next ihb ihn =>
    have hbody := ihb (start + 1)
    have hnext := ihn (start + body.size + 2)
    rw [around_loop, LoopTree.depth]
    by_cases hin : start ≤ place ∧ place ≤ start + body.size + 1
    · have hz : next.around (start + body.size + 2) place = 0 := around_eq_zero (by omega)
      rw [if_pos hin, hz]
      omega
    · have hz : body.around (start + 1) place = 0 := around_eq_zero (by omega)
      rw [if_neg hin, hz]
      omega

/-- The depth is reached at a place: in the body of the first loop if that is the deeper part, or at
its bracket if the body has no loops. -/
theorem exists_around_eq_depth (h : 0 < t.depth) (start : Nat) :
    ∃ place, start ≤ place ∧ place < start + t.size ∧ t.around start place = t.depth := by
  induction t generalizing start with
  | done => exact absurd h (Nat.lt_irrefl 0)
  | command c next ih =>
    obtain ⟨place, hle, hlt, heq⟩ := ih h (start + 1)
    exact ⟨place, by omega, by rw [size]; omega, heq⟩
  | loop body next ihb ihn =>
    simp only [around_loop, LoopTree.depth, size] at h ⊢
    rcases Nat.lt_or_ge (body.depth + 1) next.depth with hdeeper | hdeeper
    · obtain ⟨place, hle, hlt, heq⟩ := ihn (by omega) (start + body.size + 2)
      have hz : body.around (start + 1) place = 0 := around_eq_zero (by omega)
      exact ⟨place, by omega, by omega, by rw [hz, heq, if_neg (by omega)]; omega⟩
    · rcases Nat.eq_zero_or_pos body.depth with hflat | hdeep
      · have hz : body.around (start + 1) start = 0 := around_eq_zero (by omega)
        have hn : next.around (start + body.size + 2) start = 0 := around_eq_zero (by omega)
        exact ⟨start, by omega, by omega, by rw [hz, hn, if_pos (by omega)]; omega⟩
      · obtain ⟨place, hle, hlt, heq⟩ := ihb hdeep (start + 1)
        have hn : next.around (start + body.size + 2) place = 0 := around_eq_zero (by omega)
        exact ⟨place, by omega, by omega, by rw [hn, heq, if_pos (by omega)]; omega⟩

/-- The table of a program has the loops of a tree where the tree is placed. -/
theorem filterMap_loopAt? {program : Program} (hf : Follows program.fetch? start t.flatten)
    (hp : Follows program.partner? start (t.links start)) :
    (List.range' start t.size).filterMap program.loopAt? = t.loops start := by
  induction t generalizing start with
  | done => rfl
  | command c next ih =>
    have hnone : program.loopAt? start = none := by
      rw [Program.loopAt?, hf.head, if_neg (by cases c <;> decide)]
    rw [size, List.range'_succ, List.filterMap_cons_none hnone, ih hf.tail hp.tail, loops]
  | loop body next ihb ihn =>
    have hfn := hf.past (length_flatten body)
    have hpn := hp.past (length_links body _)
    have hopen : program.loopAt? start = some (start, start + body.size + 1) := by
      rw [Program.loopAt?, hf.head, hp.head, if_pos rfl, Option.map_some]
    have hclose : program.loopAt? (start + 1 + body.size) = none := by
      rw [Nat.add_right_comm, Program.loopAt?, hfn.head, if_neg (by decide)]
    have hplaces : List.range' start (body.size + next.size + 2) =
        start :: (List.range' (start + 1) body.size ++
          (start + 1 + body.size) :: List.range' (start + body.size + 2) next.size) := by
      have hnext : start + body.size + 2 = start + 1 + body.size + 1 := by omega
      rw [hnext, ← List.range'_succ, List.range'_append_1, ← List.range'_succ]
      rfl
    rw [size, hplaces, List.filterMap_cons_some hopen, List.filterMap_append,
      List.filterMap_cons_none hclose, ihb hf.tail.append_left hp.tail.append_left,
      ihn hfn.tail hpn.tail, loops]

end LoopTree

namespace Program

theorem loops_program (t : LoopTree) : t.program.loops = t.loops 0 := by
  rw [loops, LoopTree.size_program, List.range_eq_range']
  exact LoopTree.filterMap_loopAt? t.follows_fetch? t.follows_partner?

theorem loopsAround_program (t : LoopTree) (place : Nat) :
    t.program.loopsAround place = t.around 0 place := by
  rw [loopsAround, loops_program, LoopTree.around]

theorem loops_eq_nil {program : Program} (h : ∀ i, program.fetch? i ≠ some .loopStart) :
    program.loops = [] := by
  refine List.filterMap_eq_nil_iff.mpr fun i _ => ?_
  rw [loopAt?, if_neg (h i)]

/-- In a program that is read, the scan for the depth takes nothing off zero and ends at zero. What
it finds is the number of loops around some place, with no more of them around any other, and zero
for a program without brackets. -/
theorem parse_maxDepth {source : String} {program : Program} (h : parse source = .ok program) :
    deepest? program.instructions.toList 0 0 = some (0, program.maxDepth) ∧
    (∀ place, program.loopsAround place ≤ program.maxDepth) ∧
    (0 < program.size → ∃ place < program.size, program.loopsAround place = program.maxDepth) ∧
    ((∀ i, program.fetch? i ≠ some .loopStart) → program.maxDepth = 0) := by
  obtain ⟨t, -, rfl⟩ := (ofBytes_eq_ok_iff _ _).mp h
  have hscan := t.deepest?_flatten_append [] (Nat.le_refl 0)
  rw [List.append_nil, Nat.zero_add, Nat.max_eq_right (Nat.zero_le _)] at hscan
  have hdepth : t.program.maxDepth = t.depth := deepest_of_deepest? hscan
  have hle : ∀ place, t.program.loopsAround place ≤ t.program.maxDepth := by
    intro place
    rw [loopsAround_program, hdepth]
    exact t.around_le_depth 0 place
  have hreached : 0 < t.program.maxDepth →
      ∃ place < t.program.size, t.program.loopsAround place = t.program.maxDepth := by
    intro hpos
    rw [hdepth] at hpos ⊢
    obtain ⟨place, -, hlt, heq⟩ := LoopTree.exists_around_eq_depth hpos 0
    rw [Nat.zero_add, ← LoopTree.size_program] at hlt
    exact ⟨place, hlt, (loopsAround_program t place).trans heq⟩
  refine ⟨hdepth ▸ hscan, hle, fun hsize => ?_, fun hnone => ?_⟩
  · rcases Nat.eq_zero_or_pos t.program.maxDepth with hzero | hpos
    · exact ⟨0, hsize, Nat.le_antisymm (hle 0) (hzero ▸ Nat.zero_le (t.program.loopsAround 0))⟩
    · exact hreached hpos
  · refine Nat.eq_zero_of_not_pos fun hpos => ?_
    obtain ⟨place, -, heq⟩ := hreached hpos
    rw [loopsAround, loops_eq_nil hnone] at heq
    exact Nat.ne_of_lt hpos heq

/-- Two loops in a loop, one of them with a loop of its own. -/
theorem parse_maxDepth_inner : ∃ program, parse "[>[-]<, [+[.] ]]-" = .ok program ∧
    deepest? program.instructions.toList 0 0 = some (0, 3) ∧ program.loopsAround 10 = 3 ∧
    ∀ place, program.loopsAround place ≤ 3 := by
  have h : parse "[>[-]<, [+[.] ]]-" =
      .ok ⟨#[.loopStart, .right, .loopStart, .decrement, .loopEnd, .left, .input, .loopStart,
        .increment, .loopStart, .output, .loopEnd, .loopEnd, .loopEnd, .decrement],
        #[13, 1, 4, 3, 2, 5, 6, 12, 8, 11, 10, 9, 7, 0, 14]⟩ := rfl
  obtain ⟨hscan, hle, -, -⟩ := parse_maxDepth h
  exact ⟨_, h, hscan, by decide, hle⟩

end Program

end TapeCalc
