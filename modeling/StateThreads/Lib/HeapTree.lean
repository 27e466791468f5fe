import Mathlib.Data.Tree.Basic
import Mathlib.Data.List.Perm.Basic
import Mathlib.Data.List.Nodup
import Mathlib.Order.Nat
import Mathlib.Order.Lattice
import Mathlib.Algebra.Group.Nat.Defs

/-! Binary heaps as trees of linked nodes. Positions are numbered as in an
array heap: the root is 1 and the children of i are 2i and 2i+1. The path to a
position is spelled by its binary digits below the leading one, so a walk with
`bit` digits left stands at position target / 2 ^ bit. -/
namespace HeapTree

variable {α κ : Type} [LinearOrder κ]

def elems : BinaryTree α → List α
  | .nil => []
  | .node a l r => a :: (elems l ++ elems r)

/-- The subtree at position i of the complete left-adjusted tree with n nodes:
it holds exactly the positions up to n that lie below i. -/
def Filled (n : Nat) : Nat → BinaryTree α → Prop
  | i, .nil => n < i
  | i, .node _ l r => i ≤ n ∧ Filled n (2 * i) l ∧ Filled n (2 * i + 1) r

def Indexed (index : α → Nat) : Nat → BinaryTree α → Prop
  | _, .nil => True
  | i, .node a l r => index a = i ∧ Indexed index (2 * i) l ∧ Indexed index (2 * i + 1) r

def Ordered (key : α → κ) : BinaryTree α → Prop
  | .nil => True
  | .node a l r => (∀ x ∈ elems l ++ elems r, key a ≤ key x) ∧ Ordered key l ∧ Ordered key r

def root : BinaryTree α → Option α
  | .nil => none
  | .node a _ _ => some a

def ChildrenLater (key : α → κ) : BinaryTree α → Prop
  | .nil => True
  | .node a l r => (∀ b, root l = some b ∨ root r = some b → key a ≤ key b) ∧
      ChildrenLater key l ∧ ChildrenLater key r

/-- The subtree met after walking `bit` digits of the target. -/
def subAt (target : Nat) : Nat → BinaryTree α → BinaryTree α
  | 0, tr => tr
  | _ + 1, .nil => .nil
  | bit + 1, .node _ l r => subAt target bit (if target.testBit bit then r else l)

/- On the way down the smaller of the carried element and the node stays, the
other one is carried on. -/
def carried (key : α → κ) (target : Nat) : Nat → BinaryTree α → α → α
  | 0, _, a => a
  | _ + 1, .nil, a => a
  | bit + 1, .node b l r, a =>
    carried key target bit (if target.testBit bit then r else l) (if key a < key b then b else a)

def graft (key : α → κ) (target : Nat) (x : BinaryTree α) : Nat → BinaryTree α → α → BinaryTree α
  | 0, _, _ => x
  | _ + 1, .nil, _ => x
  | bit + 1, .node b l r, a =>
    let top := if key a < key b then a else b
    let down := if key a < key b then b else a
    if target.testBit bit then .node top l (graft key target x bit r down)
    else .node top (graft key target x bit l down) r

def prune (target : Nat) : Nat → BinaryTree α → BinaryTree α
  | 0, _ => .nil
  | _ + 1, .nil => .nil
  | bit + 1, .node b l r =>
    if target.testBit bit then .node b l (prune target bit r) else .node b (prune target bit l) r

/-- Put a in place of the root and let it sink below every smaller child. -/
def sink (key : α → κ) : BinaryTree α → α → BinaryTree α
  | .nil, _ => .nil
  | .node _ l r, a =>
    match l, r with
    | .nil, r => .node a .nil r
    | .node y ll lr, .nil =>
      if key y < key a then .node y (sink key (.node y ll lr) a) .nil else .node a (.node y ll lr) .nil
    | .node y ll lr, .node z rl rr =>
      if key y < key z then
        if key y < key a then .node y (sink key (.node y ll lr) a) (.node z rl rr)
        else .node a (.node y ll lr) (.node z rl rr)
      else
        if key z < key a then .node z (.node y ll lr) (sink key (.node z rl rr) a)
        else .node a (.node y ll lr) (.node z rl rr)

@[simp] theorem elems_nil : elems (.nil : BinaryTree α) = [] := rfl

@[simp] theorem elems_node (a : α) (l r : BinaryTree α) :
    elems (.node a l r) = a :: (elems l ++ elems r) := rfl

theorem elems_length (tr : BinaryTree α) : (elems tr).length = tr.numNodes := by
  induction tr with
  | nil => rfl
  | node a l r hl hr => simp [hl, hr]

/-! ### Membership along a walk -/

theorem subAt_subset (target bit : Nat) (tr : BinaryTree α) :
    elems (subAt target bit tr) ⊆ elems tr := by
  induction bit generalizing tr with
  | zero => exact List.Subset.refl _
  | succ bit ih =>
    cases tr with
    | nil => exact List.Subset.refl _
    | node b l r =>
      intro x hx
      simp only [subAt] at hx
      have h := ih _ hx
      split at h <;> simp [h]

/- The walk loses nothing: what it leaves behind together with the element it
carries out and the subtree it cuts off is the element it started with, the old
tree and the new subtree. -/
theorem graft_perm (key : α → κ) (target : Nat) (x : BinaryTree α) (bit : Nat)
    (tr : BinaryTree α) (a : α) :
    (carried key target bit tr a ::
      (elems (subAt target bit tr) ++ elems (graft key target x bit tr a))).Perm
      (a :: (elems tr ++ elems x)) := by
  classical
  induction bit generalizing tr a with
  | zero => exact List.Perm.refl _
  | succ bit ih =>
    cases tr with
    | nil => exact List.Perm.refl _
    | node b l r =>
      rw [List.perm_iff_count]
      intro y
      have rest := (ih (if target.testBit bit then r else l) (if key a < key b then b else a)).count_eq y
      by_cases dir : target.testBit bit = true <;> by_cases less : key a < key b <;>
        simp only [carried, subAt, graft, dir, less, if_true, if_false, Bool.false_eq_true, elems_node,
          List.count_cons, List.count_append] at rest ⊢ <;> omega

theorem mem_graft (key : α → κ) (target : Nat) (x : BinaryTree α) (bit : Nat)
    (tr : BinaryTree α) (a y : α) (h : y ∈ elems (graft key target x bit tr a)) :
    y = a ∨ y ∈ elems tr ∨ y ∈ elems x := by
  have member : y ∈ a :: (elems tr ++ elems x) :=
    (graft_perm key target x bit tr a).mem_iff.mp (by simp [h])
  simpa using member

theorem carried_mem (key : α → κ) (target bit : Nat) (tr : BinaryTree α) (a : α) :
    carried key target bit tr a ∈ a :: elems tr := by
  have member := (graft_perm key target .nil bit tr a).mem_iff.mp (List.mem_cons_self ..)
  simpa using member

/- Pruning is a walk that displaces nothing and grafts nothing. -/
theorem prune_eq_graft (target bit : Nat) (tr : BinaryTree α) (a : α) :
    prune target bit tr = graft (fun _ => (0 : Nat)) target .nil bit tr a := by
  induction bit generalizing tr with
  | zero => rfl
  | succ bit ih =>
    cases tr with
    | nil => rfl
    | node b l r =>
      by_cases dir : target.testBit bit = true
      · simp only [prune, graft, dir, if_true, Nat.lt_irrefl, if_false, ih r]
      · simp only [prune, graft, dir, Bool.false_eq_true, Nat.lt_irrefl, if_false, ih l]

theorem prune_perm (target bit : Nat) (tr : BinaryTree α) :
    (elems (subAt target bit tr) ++ elems (prune target bit tr)).Perm (elems tr) := by
  classical
  induction bit generalizing tr with
  | zero => simp [subAt, prune]
  | succ bit ih =>
    cases tr with
    | nil => exact List.Perm.refl _
    | node b l r =>
      rw [List.perm_iff_count]
      intro y
      have rest := (ih (if target.testBit bit then r else l)).count_eq y
      by_cases dir : target.testBit bit = true <;>
        simp only [subAt, prune, dir, if_true, if_false, Bool.false_eq_true, elems_node, List.count_cons,
          List.count_append] at rest ⊢ <;> omega

theorem prune_subset (target bit : Nat) (tr : BinaryTree α) : elems (prune target bit tr) ⊆ elems tr :=
  fun _ hx => (prune_perm target bit tr).mem_iff.mp (List.mem_append_right _ hx)

/-! ### Order -/

theorem Ordered.prune {key : α → κ} (target bit : Nat) {tr : BinaryTree α} (ordered : Ordered key tr) :
    Ordered key (prune target bit tr) := by
  induction bit generalizing tr with
  | zero => exact trivial
  | succ bit ih =>
    cases tr with
    | nil => exact trivial
    | node b l r =>
      obtain ⟨least, hl, hr⟩ := ordered
      by_cases dir : target.testBit bit = true
      · simp only [HeapTree.prune, dir, if_true]
        refine ⟨?_, hl, ih hr⟩
        intro y hy
        rcases List.mem_append.mp hy with hy | hy
        · exact least y (List.mem_append_left _ hy)
        · exact least y (List.mem_append_right _ (prune_subset target bit r hy))
      · simp only [HeapTree.prune, dir, Bool.false_eq_true, if_false]
        refine ⟨?_, ih hl, hr⟩
        intro y hy
        rcases List.mem_append.mp hy with hy | hy
        · exact least y (List.mem_append_left _ (prune_subset target bit l hy))
        · exact least y (List.mem_append_right _ hy)

theorem Ordered.graft {key : α → κ} {x : BinaryTree α} (target bit : Nat) {tr : BinaryTree α} {a : α}
    (ordered : Ordered key tr) (below : Ordered key x)
    (from_below : ∀ y ∈ elems x, y = carried key target bit tr a ∨ y ∈ elems (subAt target bit tr)) :
    Ordered key (graft key target x bit tr a) := by
  induction bit generalizing tr a with
  | zero => exact below
  | succ bit ih =>
    cases tr with
    | nil => exact below
    | node b l r =>
      obtain ⟨least, hl, hr⟩ := ordered
      set top := if key a < key b then a else b with htop
      set down := if key a < key b then b else a with hdown
      have top_le : key top ≤ key b ∧ key top ≤ key down := by
        rw [htop, hdown]
        split
        · rename_i h; exact ⟨le_of_lt h, le_of_lt h⟩
        · rename_i h; exact ⟨le_refl _, le_of_not_gt h⟩
      have kept : ∀ y ∈ elems l ++ elems r, key top ≤ key y :=
        fun y hy => le_trans top_le.1 (least y hy)
      -- everything in the rebuilt branch was in the old branch, or is carried
      have branch : ∀ c : BinaryTree α, elems c ⊆ elems l ++ elems r →
          (∀ y ∈ elems x, y = carried key target bit c down ∨ y ∈ elems (subAt target bit c)) →
          ∀ y ∈ elems (HeapTree.graft key target x bit c down), key top ≤ key y := by
        intro c hc fromc y hy
        rcases mem_graft key target x bit c down y hy with rfl | hy | hy
        · exact top_le.2
        · exact kept y (hc hy)
        · rcases fromc y hy with hy | hy
          · rcases List.mem_cons.mp (carried_mem key target bit c down) with h | h
            · rw [hy, h]; exact top_le.2
            · rw [hy]; exact kept _ (hc h)
          · exact kept y (hc (subAt_subset target bit c hy))
      by_cases dir : target.testBit bit = true
      · have fromr : ∀ y ∈ elems x, y = carried key target bit r down ∨ y ∈ elems (subAt target bit r) := by
          simpa only [carried, subAt, dir, if_true] using from_below
        simp only [HeapTree.graft, dir, if_true, Ordered]
        refine ⟨?_, hl, ih hr fromr⟩
        intro y hy
        rcases List.mem_append.mp hy with hy | hy
        · exact kept y (List.mem_append_left _ hy)
        · exact branch r (List.subset_append_right _ _) fromr y hy
      · have froml : ∀ y ∈ elems x, y = carried key target bit l down ∨ y ∈ elems (subAt target bit l) := by
          simpa only [carried, subAt, dir, Bool.false_eq_true, if_false] using from_below
        simp only [HeapTree.graft, dir, Bool.false_eq_true, if_false, Ordered]
        refine ⟨?_, ih hl froml, hr⟩
        intro y hy
        rcases List.mem_append.mp hy with hy | hy
        · exact branch l (List.subset_append_left _ _) froml y hy
        · exact kept y (List.mem_append_right _ hy)

theorem sink_perm (key : α → κ) (tr : BinaryTree α) (a : α) (present : tr ≠ .nil) :
    (elems (sink key tr a)).Perm (a :: (elems tr).tail) := by
  classical
  fun_induction sink key tr a with
  | case1 => exact absurd rfl present
  | case2 | case4 | case6 | case8 => exact List.Perm.refl _
  | case3 b a y ll lr less ih | case5 b a y ll lr z rl rr _ less ih | case7 b a y ll lr z rl rr _ less ih =>
    rw [List.perm_iff_count]
    intro x
    have sunk := (ih (by simp)).count_eq x
    simp [List.count_cons] at sunk ⊢
    omega

theorem mem_sink (key : α → κ) (y : α) (l r : BinaryTree α) (a x : α)
    (h : x ∈ elems (sink key (.node y l r) a)) : x = a ∨ x ∈ elems l ++ elems r := by
  have member := (sink_perm key (.node y l r) a (by simp)).mem_iff.mp h
  simpa using member

theorem Filled.leftmost {n i : Nat} {r : BinaryTree α} (left : Filled n (2 * i) (.nil : BinaryTree α))
    (right : Filled n (2 * i + 1) r) : r = .nil := by
  cases r with
  | nil => rfl
  | node z rl rr =>
    have h : 2 * i + 1 ≤ n := right.1
    have h' : n < 2 * i := left
    omega

theorem Ordered.least {key : α → κ} {y : α} {l r : BinaryTree α} (h : Ordered key (.node y l r)) :
    ∀ x ∈ elems (.node y l r), key y ≤ key x := by
  intro x hx
  rcases List.mem_cons.mp hx with rfl | hx
  · exact le_refl _
  · exact h.1 x hx

theorem root_mem {tr : BinaryTree α} {b : α} (h : root tr = some b) : b ∈ elems tr := by
  cases tr with
  | nil => cases h
  | node a l r =>
    cases Option.some.inj h
    exact List.mem_cons_self ..

theorem Ordered.childrenLater {key : α → κ} {tr : BinaryTree α} (ordered : Ordered key tr) :
    ChildrenLater key tr := by
  induction tr with
  | nil => exact trivial
  | node a l r hl hr =>
    refine ⟨?_, hl ordered.2.1, hr ordered.2.2⟩
    intro b hb
    rcases hb with hb | hb
    · exact ordered.1 b (List.mem_append_left _ (root_mem hb))
    · exact ordered.1 b (List.mem_append_right _ (root_mem hb))

/- A smaller child taking the root's place is below everything in the branch
that the root sinks into. -/
theorem Ordered.sunk_below {key : α → κ} {y a : α} {l r : BinaryTree α} (h : Ordered key (.node y l r))
    (less : key y < key a) : ∀ x ∈ elems (sink key (.node y l r) a), key y ≤ key x := by
  intro x hx
  rcases mem_sink key y l r a x hx with rfl | hx
  · exact le_of_lt less
  · exact h.1 x hx

theorem Ordered.sink {key : α → κ} {n i : Nat} {tr : BinaryTree α} (a : α) (filled : Filled n i tr)
    (ordered : Ordered key tr) : Ordered key (sink key tr a) := by
  fun_induction HeapTree.sink key tr a generalizing i with
  | case1 => exact trivial
  | case2 b a r =>
    have hr : r = .nil := Filled.leftmost filled.2.1 filled.2.2
    subst r
    exact ⟨by simp, trivial, trivial⟩
  | case3 b a y ll lr less ih =>
    refine ⟨?_, ih filled.2.1 ordered.2.1, trivial⟩
    intro x hx
    exact ordered.2.1.sunk_below less x (by simpa using hx)
  | case4 b a y ll lr notless =>
    refine ⟨?_, ordered.2.1, trivial⟩
    intro x hx
    exact le_trans (le_of_not_gt notless) (ordered.2.1.least x (by simpa using hx))
  | case5 b a y ll lr z rl rr yz less ih =>
    refine ⟨?_, ih filled.2.1 ordered.2.1, ordered.2.2⟩
    intro x hx
    rcases List.mem_append.mp hx with hx | hx
    · exact ordered.2.1.sunk_below less x hx
    · exact le_trans (le_of_lt yz) (ordered.2.2.least x hx)
  | case6 b a y ll lr z rl rr yz notless =>
    refine ⟨?_, ordered.2⟩
    intro x hx
    have below : key a ≤ key y := le_of_not_gt notless
    rcases List.mem_append.mp hx with hx | hx
    · exact le_trans below (ordered.2.1.least x hx)
    · exact le_trans (le_trans below (le_of_lt yz)) (ordered.2.2.least x hx)
  | case7 b a y ll lr z rl rr zy less ih =>
    refine ⟨?_, ordered.2.1, ih filled.2.2 ordered.2.2⟩
    intro x hx
    rcases List.mem_append.mp hx with hx | hx
    · exact le_trans (le_of_not_gt zy) (ordered.2.1.least x hx)
    · exact ordered.2.2.sunk_below less x hx
  | case8 b a y ll lr z rl rr zy notless =>
    refine ⟨?_, ordered.2⟩
    intro x hx
    have below : key a ≤ key z := le_of_not_gt notless
    rcases List.mem_append.mp hx with hx | hx
    · exact le_trans (le_trans below (le_of_not_gt zy)) (ordered.2.1.least x hx)
    · exact le_trans below (ordered.2.2.least x hx)

/-! ### Shape -/

theorem Filled.sink {n i : Nat} {tr : BinaryTree α} (key : α → κ) (a : α) (filled : Filled n i tr) :
    Filled n i (sink key tr a) := by
  fun_induction HeapTree.sink key tr a generalizing i with
  | case1 => exact filled
  | case2 => exact filled
  | case3 b a y ll lr less ih => exact ⟨filled.1, ih filled.2.1, filled.2.2⟩
  | case4 => exact filled
  | case5 b a y ll lr z rl rr yz less ih => exact ⟨filled.1, ih filled.2.1, filled.2.2⟩
  | case6 => exact filled
  | case7 b a y ll lr z rl rr zy less ih => exact ⟨filled.1, filled.2.1, ih filled.2.2⟩
  | case8 => exact filled

theorem walk_child (target bit : Nat) :
    target / 2 ^ bit = 2 * (target / 2 ^ (bit + 1)) + (if target.testBit bit then 1 else 0) := by
  have half : target / 2 ^ (bit + 1) = target / 2 ^ bit / 2 := by
    rw [Nat.pow_succ, Nat.div_div_eq_div_mul]
  rw [half, Nat.testBit_eq_decide_div_mod_eq]
  by_cases odd : target / 2 ^ bit % 2 = 1 <;> simp [odd] <;> omega

theorem Filled.subAt {n i target bit : Nat} {tr : BinaryTree α} (filled : Filled n i tr)
    (standing : i = target / 2 ^ bit) : Filled n target (subAt target bit tr) := by
  induction bit generalizing tr i with
  | zero => simpa [HeapTree.subAt, standing] using filled
  | succ bit ih =>
    cases tr with
    | nil =>
      have h : n < i := filled
      have le : i ≤ target := standing ▸ Nat.div_le_self _ _
      exact Nat.lt_of_lt_of_le h le
    | node b l r =>
      have child := walk_child target bit
      by_cases dir : target.testBit bit = true
      · simp only [HeapTree.subAt, dir, if_true]
        exact ih filled.2.2 (by simp only [child, dir, if_true, standing])
      · simp only [HeapTree.subAt, dir, Bool.false_eq_true, if_false]
        exact ih filled.2.1 (by simp only [child, dir, Bool.false_eq_true, if_false, Nat.add_zero, standing])

/-- A walk towards a position of the next larger tree meets no missing node. -/
theorem Filled.present {n i target bit : Nat} {tr : BinaryTree α} (filled : Filled n i tr)
    (standing : i = target / 2 ^ (bit + 1)) (inside : target ≤ 2 * n + 1) : tr ≠ .nil := by
  rintro rfl
  have h : n < i := filled
  have half : target / 2 ^ (bit + 1) ≤ target / 2 :=
    Nat.div_le_div_left (by rw [Nat.pow_succ]; exact Nat.le_mul_of_pos_left 2 (Nat.two_pow_pos bit)) (by decide)
  omega

theorem Filled.off_path {n m i target : Nat} {tr : BinaryTree α} (filled : Filled n i tr)
    (same : ∀ j, j ≠ target → (j ≤ n ↔ j ≤ m)) (off : ∀ k, target / 2 ^ k ≠ i) : Filled m i tr := by
  induction tr generalizing i with
  | nil =>
    have h : n < i := filled
    have ne : i ≠ target := by intro e; exact off 0 (by simp [e])
    have := same i ne
    change m < i
    omega
  | node b l r hl hr =>
    have ne : i ≠ target := by intro e; exact off 0 (by simp [e])
    have up : ∀ k c, target / 2 ^ k = c → target / 2 ^ (k + 1) = c / 2 := by
      intro k c h
      rw [Nat.pow_succ, ← Nat.div_div_eq_div_mul, h]
    refine ⟨(same i ne).mp filled.1, hl filled.2.1 ?_, hr filled.2.2 ?_⟩
    · intro k h
      exact off (k + 1) (by rw [up k _ h]; omega)
    · intro k h
      exact off (k + 1) (by rw [up k _ h]; omega)

/- The sibling of the position a walk turns to is never met by that walk. -/
theorem sibling_off_path (target bit c : Nat) (positive : 0 < target / 2 ^ (bit + 1))
    (sibling : c / 2 = target / 2 ^ (bit + 1)) (other : c ≠ target / 2 ^ bit) (k : Nat) :
    target / 2 ^ k ≠ c := by
  intro h
  have antitone : ∀ j k, j ≤ k → target / 2 ^ k ≤ target / 2 ^ j := fun j k le =>
    Nat.div_le_div_left (Nat.pow_le_pow_right (by decide) le) (Nat.two_pow_pos j)
  rcases Nat.lt_trichotomy k bit with lt | eq | gt
  · have le := antitone (k + 1) bit lt
    have half : target / 2 ^ (k + 1) = c / 2 := by
      rw [Nat.pow_succ, ← Nat.div_div_eq_div_mul, h]
    have step := walk_child target bit
    rw [half, sibling] at le
    split at step <;> omega
  · exact other (by rw [← eq, h])
  · have le := antitone (bit + 1) k gt
    omega

theorem Filled.graft {n m i target bit : Nat} {tr x : BinaryTree α} (key : α → κ) (a : α)
    (filled : Filled n i tr) (standing : i = target / 2 ^ bit) (positive : 0 < i)
    (inside : target ≤ 2 * n + 1) (same : ∀ j, j ≠ target → (j ≤ n ↔ j ≤ m))
    (below : Filled m target x) : Filled m i (graft key target x bit tr a) := by
  induction bit generalizing tr i a with
  | zero => simpa [HeapTree.graft, standing] using below
  | succ bit ih =>
    cases tr with
    | nil => exact absurd rfl (filled.present standing inside)
    | node b l r =>
      have child := walk_child target bit
      rw [← standing] at child
      have above : i ≠ target := by
        have := Nat.div_le_self target (2 ^ bit)
        intro e; omega
      have root : i ≤ m := (same i above).mp filled.1
      by_cases dir : target.testBit bit = true
      · simp only [dir, if_true] at child
        have off := sibling_off_path target bit (2 * i) (standing ▸ positive) (by omega) (by omega)
        simp only [HeapTree.graft, dir, if_true]
        exact ⟨root, filled.2.1.off_path same off, ih _ filled.2.2 child.symm (by omega)⟩
      · simp only [dir, Bool.false_eq_true, if_false] at child
        have off := sibling_off_path target bit (2 * i + 1) (standing ▸ positive) (by omega) (by omega)
        simp only [HeapTree.graft, dir, Bool.false_eq_true, if_false]
        exact ⟨root, ih _ filled.2.1 (by omega) (by omega), filled.2.2.off_path same off⟩

theorem Filled.last {n : Nat} {tr : BinaryTree α} (filled : Filled n n tr) (positive : 0 < n) :
    ∃ a, tr = .node a .nil .nil := by
  cases tr with
  | nil => exact absurd filled (Nat.lt_irrefl n)
  | node a l r =>
    cases l with
    | nil =>
      have hr : r = .nil := Filled.leftmost filled.2.1 filled.2.2
      subst hr
      exact ⟨a, rfl⟩
    | node b ll lr =>
      have h : 2 * n ≤ n := filled.2.1.1
      omega

theorem Filled.prune_last {n bit : Nat} {tr : BinaryTree α} (filled : Filled n 1 tr) (positive : 0 < n)
    (standing : 1 = n / 2 ^ bit) : Filled (n - 1) 1 (prune n bit tr) := by
  cases tr with
  | nil => exact absurd filled (by simp only [Filled]; omega)
  | node a l r =>
    rw [prune_eq_graft n bit _ a]
    apply filled.graft (fun _ => (0 : Nat)) a standing (by decide) (by omega)
    · intro j hj; omega
    · change n - 1 < n; omega

theorem Ordered.subAt {key : α → κ} (target bit : Nat) {tr : BinaryTree α} (ordered : Ordered key tr) :
    Ordered key (subAt target bit tr) := by
  induction bit generalizing tr with
  | zero => exact ordered
  | succ bit ih =>
    cases tr with
    | nil => exact trivial
    | node b l r =>
      simp only [HeapTree.subAt]
      split
      · exact ih ordered.2.2
      · exact ih ordered.2.1

theorem Ordered.congr {key key' : α → κ} {tr : BinaryTree α} (ordered : Ordered key tr)
    (same : ∀ a ∈ elems tr, key' a = key a) : Ordered key' tr := by
  induction tr with
  | nil => exact trivial
  | node b l r hl hr =>
    refine ⟨?_, hl ordered.2.1 (fun a ha => same a (by simp [ha])), hr ordered.2.2 (fun a ha => same a (by simp [ha]))⟩
    intro x hx
    rw [same b (by simp), same x (List.mem_cons_of_mem _ hx)]
    exact ordered.1 x hx

theorem Indexed.congr {index index' : α → Nat} {i : Nat} {tr : BinaryTree α} (h : Indexed index i tr)
    (same : ∀ a ∈ elems tr, index' a = index a) : Indexed index' i tr := by
  induction tr generalizing i with
  | nil => exact trivial
  | node b l r hl hr =>
    exact ⟨(same b (by simp)).trans h.1, hl h.2.1 (fun a ha => same a (by simp [ha])),
      hr h.2.2 (fun a ha => same a (by simp [ha]))⟩

theorem Indexed.walk {index : α → Nat} {i target bit : Nat} {tr : BinaryTree α} (indexed : Indexed index i tr)
    (standing : i = target / 2 ^ bit) : Indexed index target (subAt target bit tr) := by
  induction bit generalizing tr i with
  | zero => simpa [HeapTree.subAt, standing] using indexed
  | succ bit ih =>
    cases tr with
    | nil => exact trivial
    | node b l r =>
      have child := walk_child target bit
      by_cases dir : target.testBit bit = true
      · simp only [HeapTree.subAt, dir, if_true]
        exact ih indexed.2.2 (by simp only [child, dir, if_true, standing])
      · simp only [HeapTree.subAt, dir, Bool.false_eq_true, if_false]
        exact ih indexed.2.1 (by simp only [child, dir, Bool.false_eq_true, if_false, Nat.add_zero, standing])

theorem subAt_length (target bit : Nat) (tr : BinaryTree α) :
    (elems (subAt target bit tr)).length ≤ (elems tr).length := by
  rw [← (prune_perm target bit tr).length_eq, List.length_append]
  omega

theorem Indexed.prune {index : α → Nat} {i : Nat} (target bit : Nat) {tr : BinaryTree α} (indexed : Indexed index i tr) :
    Indexed index i (prune target bit tr) := by
  induction bit generalizing tr i with
  | zero => exact trivial
  | succ bit ih =>
    cases tr with
    | nil => exact trivial
    | node b l r =>
      simp only [HeapTree.prune]
      split
      · exact ⟨indexed.1, indexed.2.1, ih indexed.2.2⟩
      · exact ⟨indexed.1, ih indexed.2.1, indexed.2.2⟩

theorem Indexed.below {index : α → Nat} {i : Nat} {tr : BinaryTree α} {a : α} (indexed : Indexed index i tr)
    (member : a ∈ elems tr) : ∃ k, index a / 2 ^ k = i := by
  induction tr generalizing i with
  | nil => cases member
  | node b l r hl hr =>
    have up : ∀ k c, index a / 2 ^ k = c → index a / 2 ^ (k + 1) = c / 2 := by
      intro k c h
      rw [Nat.pow_succ, ← Nat.div_div_eq_div_mul, h]
    simp only [elems_node, List.mem_cons, List.mem_append] at member
    rcases member with rfl | member | member
    · exact ⟨0, by simpa using indexed.1⟩
    · obtain ⟨k, h⟩ := hl indexed.2.1 member
      exact ⟨k + 1, by rw [up k _ h]; omega⟩
    · obtain ⟨k, h⟩ := hr indexed.2.2 member
      exact ⟨k + 1, by rw [up k _ h]; omega⟩

theorem digits_left_unique {target a b : Nat} (same : target / 2 ^ a = target / 2 ^ b)
    (positive : 0 < target / 2 ^ b) : a = b := by
  have step : ∀ j k, j < k → 0 < target / 2 ^ j → target / 2 ^ k < target / 2 ^ j := by
    intro j k lt pos
    have le : target / 2 ^ k ≤ target / 2 ^ (j + 1) :=
      Nat.div_le_div_left (Nat.pow_le_pow_right (by decide) lt) (Nat.two_pow_pos _)
    have half : target / 2 ^ (j + 1) = target / 2 ^ j / 2 := by
      rw [Nat.pow_succ, ← Nat.div_div_eq_div_mul]
    omega
  rcases Nat.lt_trichotomy a b with lt | eq | gt
  · have := step a b lt (same ▸ positive); omega
  · exact eq
  · have := step b a gt positive; omega

theorem Indexed.subAt {index : α → Nat} {i bit : Nat} {tr : BinaryTree α} {a : α}
    (indexed : Indexed index i tr) (member : a ∈ elems tr) (standing : i = index a / 2 ^ bit)
    (positive : 0 < i) : ∃ l r, HeapTree.subAt (index a) bit tr = .node a l r := by
  induction tr generalizing i bit with
  | nil => cases member
  | node b l r hl hr =>
    -- a branch at position c holds a only if the walk to a turns into it
    have turn : ∀ c k, index a / 2 ^ k = c → c / 2 = i →
        bit = k + 1 ∧ (index a).testBit k = decide (c % 2 = 1) := by
      intro c k h half
      have up : index a / 2 ^ (k + 1) = i := by rw [Nat.pow_succ, ← Nat.div_div_eq_div_mul, h, half]
      have e : k + 1 = bit := digits_left_unique (up.trans standing) (standing ▸ positive)
      exact ⟨e.symm, by rw [Nat.testBit_eq_decide_div_mod_eq, h]⟩
    simp only [elems_node, List.mem_cons, List.mem_append] at member
    rcases member with rfl | member | member
    · have e : bit = 0 :=
        digits_left_unique (b := 0) (by simpa [indexed.1] using standing.symm) (by simpa [indexed.1] using positive)
      subst e
      exact ⟨l, r, rfl⟩
    · obtain ⟨k, h⟩ := indexed.2.1.below member
      obtain ⟨rfl, dir⟩ := turn (2 * i) k h (by omega)
      have left : (index a).testBit k = false := by rw [dir]; simp
      simp only [HeapTree.subAt, left, Bool.false_eq_true, if_false]
      exact hl indexed.2.1 member h.symm (by omega)
    · obtain ⟨k, h⟩ := indexed.2.2.below member
      obtain ⟨rfl, dir⟩ := turn (2 * i + 1) k h (by omega)
      have right : (index a).testBit k = true := by rw [dir]; simp
      simp only [HeapTree.subAt, right, if_true]
      exact hr indexed.2.2 member h.symm (by omega)

end HeapTree
