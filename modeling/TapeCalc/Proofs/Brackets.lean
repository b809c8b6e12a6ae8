/-!
# Bracket words

Words over an alphabet of which one letter opens a bracket and another closes one. A word is
balanced if no prefix closes more than it opens and the whole closes all that it opens; a pair is
an opening and a later closing letter with a balanced word between them. All of it can be seen
from the height, the number of brackets that are open at a place.
-/
namespace TapeCalc.Brackets

variable {α : Type} [DecidableEq α] {opening closing : α}

/-- No prefix closes more than it opens. -/
def Nested (opening closing : α) (l : List α) : Prop :=
  ∀ n, (l.take n).count closing ≤ (l.take n).count opening

structure Balanced (opening closing : α) (l : List α) : Prop where
  nested : Nested opening closing l
  count_eq : l.count closing = l.count opening

/-- The brackets at two places belong together: what stands between them is balanced. -/
structure Pairs (opening closing : α) (l : List α) (i j : Nat) : Prop where
  lt : i < j
  opens : l[i]? = some opening
  closes : l[j]? = some closing
  between : Balanced opening closing (l.extract (i + 1) j)

/-- What a word opens less what it closes. -/
def depth (opening closing : α) (l : List α) : Int := l.count opening - l.count closing

/-- How many brackets are open at a place. -/
def height (opening closing : α) (l : List α) (n : Nat) : Int := depth opening closing (l.take n)

section words

variable {l k : List α} {x : α} {n : Nat}

@[simp] theorem depth_nil : depth opening closing [] = 0 := rfl

@[simp] theorem depth_append :
    depth opening closing (l ++ k) = depth opening closing l + depth opening closing k := by
  simp only [depth, List.count_append]
  omega

theorem depth_cons : depth opening closing (x :: l) =
    depth opening closing [x] + depth opening closing l := depth_append (l := [x])

theorem depth_opening (ne : opening ≠ closing) : depth opening closing [opening] = 1 := by
  simp [depth, ne]

theorem depth_closing (ne : opening ≠ closing) : depth opening closing [closing] = -1 := by
  simp [depth, ne.symm]

theorem depth_other (ho : x ≠ opening) (hc : x ≠ closing) : depth opening closing [x] = 0 := by
  simp [depth, ho, hc]

@[simp] theorem height_nil : height opening closing [] n = 0 := by simp [height]

@[simp] theorem height_zero : height opening closing l 0 = 0 := rfl

theorem height_cons : height opening closing (x :: l) (n + 1) =
    depth opening closing [x] + height opening closing l n := depth_cons

theorem height_append : height opening closing (l ++ k) n =
    height opening closing l n + height opening closing k (n - l.length) := by
  rw [height, List.take_append, depth_append, height, height]

theorem height_length : height opening closing l l.length = depth opening closing l := by
  rw [height, List.take_length]

theorem nested_iff : Nested opening closing l ↔ ∀ n, 0 ≤ height opening closing l n := by
  refine forall_congr' fun n => ?_
  rw [height, depth]
  omega

theorem balanced_iff : Balanced opening closing l ↔
    (∀ n, 0 ≤ height opening closing l n) ∧ depth opening closing l = 0 := by
  refine ⟨fun h => ⟨nested_iff.mp h.nested, ?_⟩, fun ⟨hn, hd⟩ => ⟨nested_iff.mpr hn, ?_⟩⟩
  · rw [depth, h.count_eq, Int.sub_self]
  · rw [depth] at hd
    omega

theorem Balanced.depth_eq (h : Balanced opening closing l) : depth opening closing l = 0 :=
  (balanced_iff.mp h).2

theorem balanced_nil : Balanced opening closing [] := balanced_iff.mpr (by simp)

/-- A word without brackets is balanced. -/
theorem balanced_of_not_mem (ho : opening ∉ l) (hc : closing ∉ l) : Balanced opening closing l where
  nested n := by
    have hclosed : (l.take n).count closing = 0 :=
      List.count_eq_zero_of_not_mem fun h => hc (List.mem_of_mem_take h)
    rw [hclosed]
    exact Nat.zero_le _
  count_eq := by
    rw [List.count_eq_zero_of_not_mem hc, List.count_eq_zero_of_not_mem ho]

theorem balanced_singleton (ho : x ≠ opening) (hc : x ≠ closing) :
    Balanced opening closing [x] :=
  balanced_of_not_mem (fun h => ho (List.mem_singleton.mp h).symm) fun h =>
    hc (List.mem_singleton.mp h).symm

theorem Balanced.append (h : Balanced opening closing l) (g : Balanced opening closing k) :
    Balanced opening closing (l ++ k) := by
  rw [balanced_iff] at h g ⊢
  refine ⟨fun n => ?_, by rw [depth_append, h.2, g.2, Int.add_zero]⟩
  rw [height_append]
  exact Int.add_nonneg (h.1 n) (g.1 _)

theorem Balanced.wrap (ne : opening ≠ closing) (h : Balanced opening closing l) :
    Balanced opening closing (opening :: (l ++ [closing])) := by
  rw [balanced_iff] at h ⊢
  constructor
  · intro n
    cases n with
    | zero => simp
    | succ n =>
      have hlast : -1 ≤ height opening closing [closing] (n - l.length) := by
        cases n - l.length with
        | zero => simp
        | succ m => simp [height_cons, depth_closing ne]
      have hinner := h.1 n
      rw [height_cons, height_append, depth_opening ne]
      omega
  · rw [depth_cons, depth_append, h.2, depth_opening ne, depth_closing ne]
    rfl

end words

section places

variable {l : List α} {i j k m n : Nat}

theorem height_add (i n : Nat) : height opening closing l (i + n) =
    height opening closing l i + depth opening closing ((l.drop i).take n) := by
  rw [height, List.take_add, depth_append, height]

theorem height_succ (n : Nat) : height opening closing l (n + 1) =
    height opening closing l n + depth opening closing l[n]?.toList := by
  rw [height, List.take_add_one, depth_append, height]

theorem height_succ_of_opening (ne : opening ≠ closing) (h : l[n]? = some opening) :
    height opening closing l (n + 1) = height opening closing l n + 1 := by
  rw [height_succ, h, Option.toList_some, depth_opening ne]

theorem height_succ_of_closing (ne : opening ≠ closing) (h : l[n]? = some closing) :
    height opening closing l (n + 1) = height opening closing l n - 1 := by
  rw [height_succ, h, Option.toList_some, depth_closing ne]
  rfl

/-- Only a closing bracket leads down. -/
theorem height_le_succ (h : l[n]? ≠ some closing) :
    height opening closing l n ≤ height opening closing l (n + 1) := by
  rw [height_succ]
  cases hx : l[n]? with
  | none => simp
  | some x =>
    have hne : closing ≠ x := fun e => h (e ▸ hx)
    have hc : [x].count closing = 0 := List.count_eq_zero_of_not_mem (by simpa using hne)
    rw [Option.toList_some, depth, hc]
    omega

/-- A stretch is balanced if the height does not fall below that at its start and comes back to
it at its end. -/
theorem balanced_extract_iff (hij : i ≤ j) :
    Balanced opening closing (l.extract i j) ↔
      (∀ m, i ≤ m → m ≤ j → height opening closing l i ≤ height opening closing l m) ∧
        height opening closing l j = height opening closing l i := by
  have hat : ∀ n, height opening closing (l.extract i j) n =
      height opening closing l (i + min n (j - i)) - height opening closing l i := by
    intro n
    rw [height_add, height, List.extract_eq_take_drop, List.take_take]
    omega
  have hend : depth opening closing (l.extract i j) =
      height opening closing l j - height opening closing l i := by
    have hadd : height opening closing l (i + (j - i)) = _ := height_add i (j - i)
    rw [Nat.add_sub_cancel' hij, ← List.extract_eq_take_drop] at hadd
    omega
  rw [balanced_iff, hend]
  refine and_congr ⟨fun h m him hmj => ?_, fun h n => ?_⟩ Int.sub_eq_zero
  · have := h (m - i)
    rw [hat, Nat.min_eq_left (Nat.sub_le_sub_right hmj i), Nat.add_sub_cancel' him] at this
    omega
  · have := h (i + min n (j - i)) (Nat.le_add_right ..) (by omega)
    rw [hat]
    omega

theorem Balanced.extract_append (hij : i ≤ j) (hjk : j ≤ k)
    (h : Balanced opening closing (l.extract i j)) (g : Balanced opening closing (l.extract j k)) :
    Balanced opening closing (l.extract i k) := by
  rw [balanced_extract_iff hij] at h
  rw [balanced_extract_iff hjk] at g
  refine (balanced_extract_iff (Nat.le_trans hij hjk)).mpr ⟨fun m him hmk => ?_, g.2.trans h.2⟩
  rcases Nat.le_total m j with hmj | hjm
  · exact h.1 m him hmj
  · exact h.2 ▸ g.1 m hjm hmk

theorem balanced_extract_of_other {x : α} (h : l[i]? = some x) (ho : x ≠ opening)
    (hc : x ≠ closing) : Balanced opening closing (l.extract i (i + 1)) := by
  have hflat : height opening closing l (i + 1) = height opening closing l i := by
    rw [height_succ, h, Option.toList_some, depth_other ho hc, Int.add_zero]
  refine (balanced_extract_iff (Nat.le_succ i)).mpr ⟨fun m him hmi => ?_, hflat⟩
  rcases Nat.lt_or_eq_of_le him with him | rfl
  · obtain rfl : m = i + 1 := Nat.le_antisymm hmi him
    exact Int.le_of_eq hflat.symm
  · exact Int.le_refl _

/-- Between the brackets of a pair the height stays above that at the opening one. -/
theorem pairs_iff (ne : opening ≠ closing) :
    Pairs opening closing l i j ↔ i < j ∧ l[i]? = some opening ∧ l[j]? = some closing ∧
      (∀ m, i < m → m ≤ j → height opening closing l i < height opening closing l m) ∧
      height opening closing l j = height opening closing l i + 1 := by
  constructor
  · rintro ⟨hij, ho, hc, hb⟩
    have hup := height_succ_of_opening ne ho
    obtain ⟨hle, heq⟩ := (balanced_extract_iff (Nat.succ_le_of_lt hij)).mp hb
    simp only [Nat.succ_eq_add_one, hup] at hle heq
    exact ⟨hij, ho, hc, fun m him hmj => Int.lt_of_add_one_le (hle m him hmj), heq⟩
  · rintro ⟨hij, ho, hc, hlt, heq⟩
    have hup := height_succ_of_opening ne ho
    refine ⟨hij, ho, hc, (balanced_extract_iff (Nat.succ_le_of_lt hij)).mpr ?_⟩
    rw [Nat.succ_eq_add_one, hup]
    exact ⟨fun m him hmj => Int.add_one_le_of_lt (hlt m him hmj), heq⟩

/-- The height after a pair is that before it. -/
theorem Pairs.height_succ_eq (ne : opening ≠ closing) (h : Pairs opening closing l i j) :
    height opening closing l (j + 1) = height opening closing l i := by
  have hdown := height_succ_of_closing ne h.closes
  obtain ⟨-, -, -, -, heq⟩ := (pairs_iff ne).mp h
  omega

theorem Pairs.balanced_extract (ne : opening ≠ closing) (h : Pairs opening closing l i j) :
    Balanced opening closing (l.extract i (j + 1)) := by
  have hback := h.height_succ_eq ne
  obtain ⟨hij, -, -, hlt, -⟩ := (pairs_iff ne).mp h
  refine (balanced_extract_iff (Nat.le_succ_of_le (Nat.le_of_lt hij))).mpr
    ⟨fun m him hmj => ?_, hback⟩
  rcases Nat.lt_or_eq_of_le him with him | rfl
  · rcases Nat.lt_or_eq_of_le hmj with hmj | rfl
    · exact Int.le_of_lt (hlt m him (Nat.le_of_lt_succ hmj))
    · exact Int.le_of_eq hback.symm
  · exact Int.le_refl _

/-- A bracket opened inside a pair is closed inside it. -/
theorem Pairs.lt_of_opens (ne : opening ≠ closing) (h : Pairs opening closing l i j)
    (g : Pairs opening closing l k m) (hik : i < k) (hkj : k < j) : m < j := by
  obtain ⟨-, -, -, hlt, heq⟩ := (pairs_iff ne).mp h
  obtain ⟨-, -, -, hlt', -⟩ := (pairs_iff ne).mp g
  have hk := hlt k hik (Nat.le_of_lt hkj)
  refine Nat.lt_of_not_le fun hjm => ?_
  have hj := hlt' j hkj hjm
  omega

/-- A bracket closed inside a pair is opened inside it. -/
theorem Pairs.lt_of_closes (ne : opening ≠ closing) (h : Pairs opening closing l i j)
    (g : Pairs opening closing l k m) (him : i < m) (hmj : m < j) : i < k := by
  obtain ⟨-, -, -, hlt, -⟩ := (pairs_iff ne).mp h
  obtain ⟨-, -, -, hlt', -⟩ := (pairs_iff ne).mp g
  have hafter := hlt (m + 1) (Nat.lt_succ_of_lt him) hmj
  rw [g.height_succ_eq ne] at hafter
  refine Nat.lt_of_not_le fun hki => ?_
  rcases Nat.lt_or_eq_of_le hki with hki | rfl
  · have := hlt' i hki (Nat.le_of_lt him)
    omega
  · omega

theorem Pairs.not_lt (ne : opening ≠ closing) (h : Pairs opening closing l i j)
    (g : Pairs opening closing l i k) : ¬ j < k := by
  intro hjk
  obtain ⟨-, -, -, hlt, -⟩ := (pairs_iff ne).mp g
  have hafter := hlt (j + 1) (Nat.lt_succ_of_lt h.lt) hjk
  rw [h.height_succ_eq ne] at hafter
  omega

/-- An opening bracket belongs to one closing bracket only. -/
theorem Pairs.right_unique (ne : opening ≠ closing) (h : Pairs opening closing l i j)
    (g : Pairs opening closing l i k) : j = k :=
  Nat.le_antisymm (Nat.le_of_not_lt (g.not_lt ne h)) (Nat.le_of_not_lt (h.not_lt ne g))

theorem Pairs.left_unique (ne : opening ≠ closing) (h : Pairs opening closing l i k)
    (g : Pairs opening closing l j k) : i = j := by
  rcases Nat.lt_trichotomy i j with hij | hij | hji
  · exact (Nat.lt_irrefl k (h.lt_of_opens ne g hij g.lt)).elim
  · exact hij
  · exact (Nat.lt_irrefl k (g.lt_of_opens ne h hji h.lt)).elim

/-- An opening bracket is closed if the height comes back to that before it. -/
theorem exists_pairs_of_height_le (ne : opening ≠ closing) (ho : l[i]? = some opening)
    (him : i < m) (hm : height opening closing l m ≤ height opening closing l i) :
    ∃ j, Pairs opening closing l i j := by
  have hup := height_succ_of_opening ne ho
  -- the first place where the height is back follows the closing bracket
  induction m using Nat.strongRecOn with
  | ind m ih =>
    by_cases hall : ∀ k, i < k → k < m → height opening closing l i < height opening closing l k
    · obtain ⟨j, rfl⟩ : ∃ j, m = j + 1 := ⟨m - 1, by omega⟩
      have hij : i < j := by
        refine Nat.lt_of_le_of_ne (Nat.le_of_lt_succ him) ?_
        rintro rfl
        omega
      have hj := hall j hij (Nat.lt_succ_self j)
      have hc : l[j]? = some closing := by
        refine Decidable.byContradiction fun hc => ?_
        have hle : height opening closing l j ≤ height opening closing l (j + 1) :=
          height_le_succ hc
        omega
      have hdown := height_succ_of_closing ne hc
      exact ⟨j, (pairs_iff ne).mpr ⟨hij, ho, hc, fun k hik hkj => hall k hik (by omega), by omega⟩⟩
    · simp only [Classical.not_forall, Int.not_lt] at hall
      obtain ⟨k, hik, hkm, hk⟩ := hall
      exact ih k hkm hik hk

end places

end TapeCalc.Brackets
