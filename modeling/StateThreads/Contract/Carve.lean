import StateThreads.Contract.Stacks
import Mathlib.Algebra.Order.Ring.Int
import Mathlib.Data.Finset.Dedup
import Mathlib.Data.Fintype.EquivFin
import Mathlib.Tactic.NormNum

/-! Where a thread object lies on its stack, and the int computations before it. -/
namespace StateThreads
open LabelledRun

/- Multiples of the page size. -/

theorem next_multiple {a b p : Int} (positive : 0 < p) (ha : p ∣ a) (hb : p ∣ b) (less : a < b) : a + p ≤ b := by
  obtain ⟨x, rfl⟩ := ha
  obtain ⟨y, rfl⟩ := hb
  have order : x + 1 ≤ y := by
    by_contra more
    have back : p * y ≤ p * x := Int.mul_le_mul_of_nonneg_left (by omega) (by omega)
    omega
  have scaled : p * (x + 1) ≤ p * y := Int.mul_le_mul_of_nonneg_left order (by omega)
  rw [Int.mul_add, Int.mul_one] at scaled
  exact scaled

theorem PageSize.positive {p : Int} (page : PageSize p) : 4096 ≤ p ∧ p ≤ 2 ^ 30 := by
  obtain ⟨k, low, high, rfl⟩ := page
  constructor
  · calc (4096 : Int) = 2 ^ 12 := by norm_num
      _ ≤ 2 ^ k := pow_le_pow_right₀ (by norm_num) low
  · exact pow_le_pow_right₀ (by norm_num) high

theorem PageSize.divides {p : Int} (page : PageSize p) : p ∣ 2 ^ 31 := by
  obtain ⟨k, low, high, rfl⟩ := page
  exact pow_dvd_pow 2 (by omega)

theorem tdiv_bounds (x : Int) {p : Int} (positive : 0 < p) :
    (0 ≤ x → x.tdiv p * p ≤ x ∧ x < x.tdiv p * p + p ∧ 0 ≤ x.tdiv p * p) ∧
      (x < 0 → x ≤ x.tdiv p * p ∧ x.tdiv p * p < x + p ∧ x.tdiv p * p ≤ 0) := by
  constructor
  · intro nonneg
    rw [Int.tdiv_eq_ediv_of_nonneg nonneg]
    have low := Int.ediv_mul_le x (by omega : p ≠ 0)
    have high := Int.lt_ediv_add_one_mul_self x positive
    rw [Int.add_mul, Int.one_mul] at high
    exact ⟨low, high, Int.mul_nonneg (Int.ediv_nonneg nonneg (by omega)) (by omega)⟩
  · intro negative
    obtain ⟨y, rfl⟩ : ∃ y, x = -y := ⟨-x, by omega⟩
    have nonneg : 0 ≤ y := by omega
    rw [Int.neg_tdiv, Int.tdiv_eq_ediv_of_nonneg nonneg, Int.neg_mul]
    have low := Int.ediv_mul_le y (by omega : p ≠ 0)
    have high := Int.lt_ediv_add_one_mul_self y positive
    have back := Int.mul_nonneg (Int.ediv_nonneg nonneg (by omega : 0 ≤ p)) (by omega : 0 ≤ p)
    rw [Int.add_mul, Int.one_mul] at high
    omega

/- The computations. -/

def requestedStk (stkSize : Int) : Int := if stkSize = 0 then defaultStackSize else stkSize

def roundedStk (pagesize stkSize : Int) : Int := (requestedStk stkSize + pagesize - 1).tdiv pagesize * pagesize

/-- The int computations of st_thread_create do not overflow, nor do those of _st_stack_new
where it comes to them. -/
structure IntSafe (pool : Pool) (stkSize : Int) : Prop where
  sum : IsInt (requestedStk stkSize + pool.pagesize)
  less : IsInt (requestedStk stkSize + pool.pagesize - 1)
  rounded : IsInt (roundedStk pool.pagesize stkSize)
  mapped : (∀ free, pool.Free free → ∀ ts ∈ free, (pool.stk ts).stkSize < roundedStk pool.pagesize stkSize) →
    IsInt (2 * pool.pagesize) ∧ IsInt (roundedStk pool.pagesize stkSize + 2 * pool.pagesize) ∧
      IsInt (roundedStk pool.pagesize stkSize + 2 * pool.pagesize + pool.extra)

theorem adjustStkSize_eq {p stkSize : Int} (sum : IsInt (requestedStk stkSize + p)) (less : IsInt (requestedStk stkSize + p - 1))
    (rounded : IsInt (roundedStk p stkSize)) : adjustStkSize p stkSize = roundedStk p stkSize := by
  unfold adjustStkSize
  show toInt32 ((toInt32 (toInt32 (requestedStk stkSize + p) - 1)).tdiv p * p) = _
  rw [toInt32_eq sum, toInt32_eq less]
  exact toInt32_eq rounded

theorem roundedStk_bounds {p : Int} (positive : 0 < p) (stkSize : Int) :
    p ∣ roundedStk p stkSize ∧
      (0 < requestedStk stkSize →
        requestedStk stkSize ≤ roundedStk p stkSize ∧ roundedStk p stkSize < requestedStk stkSize + p) ∧
      (requestedStk stkSize ≤ 0 → roundedStk p stkSize = 0 ∧ 1 - p ≤ requestedStk stkSize ∨
        roundedStk p stkSize ≤ 0 ∧ requestedStk stkSize + p - 1 ≤ roundedStk p stkSize ∧
          roundedStk p stkSize < requestedStk stkSize + 2 * p - 1) := by
  obtain ⟨up, down⟩ := tdiv_bounds (requestedStk stkSize + p - 1) positive
  unfold roundedStk
  refine ⟨⟨_, Int.mul_comm _ _⟩, fun asked => ?_, fun asked => ?_⟩
  · have bounds := up (by omega)
    omega
  · by_cases nonneg : 0 ≤ requestedStk stkSize + p - 1
    · have zero : (requestedStk stkSize + p - 1).tdiv p = 0 := Int.tdiv_eq_zero_of_lt nonneg (by omega)
      rw [zero, Int.zero_mul]
      omega
    · have bounds := down (by omega)
      omega

/- The layout. -/

/-- The key table, the thread object and the stack pointer lie inside the stack, which
keeps off the red zones at both ends of the mapping. -/
structure CarvedIn (layout : Layout) (pagesize : Int) (stk : Stk) : Prop where
  table : stk.stkBottom ≤ (carve layout stk.stkTop).ptds ∧ (carve layout stk.stkTop).ptds + layout.keys ≤ stk.stkTop
  object : stk.stkBottom ≤ (carve layout stk.stkTop).thread ∧
    (carve layout stk.stkTop).thread + layout.thread ≤ (carve layout stk.stkTop).ptds
  pointer : stk.stkBottom ≤ stk.sp ∧ stk.sp < stk.stkTop
  pad : stk.sp + layout.pad ≤ (carve layout stk.stkTop).thread
  lower : stk.vaddr + pagesize ≤ stk.stkBottom
  upper : stk.stkTop ≤ stk.vaddr + stk.vaddrSize - pagesize

structure SoundStk (pagesize : Int) (stk : Stk) : Prop where
  divides : pagesize ∣ stk.stkSize
  page : pagesize ≤ stk.stkSize
  small : stk.stkSize + 3 * pagesize ≤ 2 ^ 31
  top : stk.stkTop = stk.stkBottom + stk.stkSize
  lower : stk.vaddr + pagesize ≤ stk.stkBottom
  upper : stk.stkTop ≤ stk.vaddr + stk.vaddrSize - pagesize

theorem SoundStk.carved {pagesize : Int} (page : PageSize pagesize) {stk : Stk} (sound : SoundStk pagesize stk)
    (layout : Layout) : CarvedIn layout pagesize { stk with sp := (carve layout stk.stkTop).sp } := by
  have small := layout.small
  have object := layout.object
  have low := page.positive.1
  have size := sound.page
  have top := sound.top
  have aligned : ∀ thread : Int, thread - 63 ≤ (if thread % 64 ≠ 0 then thread - thread % 64 else thread) ∧
      (if thread % 64 ≠ 0 then thread - thread % 64 else thread) ≤ thread := by
    intro thread
    split <;> omega
  obtain ⟨above, below⟩ := aligned (stk.stkTop - layout.keys - layout.thread)
  constructor
  case lower => exact sound.lower
  case upper => exact sound.upper
  all_goals
    simp only [carve]
    omega

theorem CarvedIn.positive {layout : Layout} {pagesize : Int} {stk : Stk} (carved : CarvedIn layout pagesize stk) :
    stk.stkBottom < stk.stkTop := by
  have pointer := carved.pointer
  omega

/- When a request fits. -/

/-- A free stack is large enough; or the request is positive, and the segment for it has a
size that is an int; or it is so far below zero that no segment is mapped. -/
def Fits (pool : Pool) (stkSize : Int) : Prop :=
  (∃ free, pool.Free free ∧ ∃ ts ∈ free, requestedStk stkSize ≤ (pool.stk ts).stkSize) ∨
    (0 < requestedStk stkSize ∧ requestedStk stkSize + 3 * pool.pagesize + pool.extra ≤ 2 ^ 31) ∨
    requestedStk stkSize + 3 * pool.pagesize + pool.extra ≤ 1

structure SoundPool (pool : Pool) : Prop where
  page : PageSize pool.pagesize
  stks : ∀ ts ∈ pool.made, SoundStk pool.pagesize (pool.stk ts)

theorem Pool.extra_spec {pool : Pool} (positive : 0 < pool.pagesize) :
    0 ≤ pool.extra ∧ pool.extra ≤ pool.pagesize ∧ pool.pagesize ∣ pool.extra := by
  unfold Pool.extra
  split
  · exact ⟨by omega, Int.le_refl _, Int.dvd_refl _⟩
  · exact ⟨Int.le_refl _, by omega, Int.dvd_zero _⟩

theorem Pool.offset_spec {pool : Pool} (positive : 0 < pool.pagesize) (random : Nat) :
    0 ≤ pool.offset random ∧ pool.offset random ≤ pool.extra := by
  obtain ⟨nonneg, -⟩ := pool.extra_spec positive
  unfold Pool.offset
  split
  · omega
  · have below : random % pool.extra.toNat < pool.extra.toNat := Nat.mod_lt _ (by omega)
    omega

theorem requestedStk_int {stkSize : Int} (int : IsInt stkSize) : IsInt (requestedStk stkSize) := by
  unfold requestedStk
  split
  · decide
  · exact int

section
variable {pool : Pool} {free : List StkId} {stkSize : Int} (sound : SoundPool pool) (listed : pool.Free free)
  (made : ∀ ts ∈ free, ts ∈ pool.made) (int : IsInt stkSize)
include sound made

theorem SoundPool.large {ts : StkId} (mem : ts ∈ free) (large : requestedStk stkSize ≤ (pool.stk ts).stkSize) :
    roundedStk pool.pagesize stkSize ≤ (pool.stk ts).stkSize := by
  have positive : 0 < pool.pagesize := by
    have := sound.page.positive
    omega
  obtain ⟨divides, up, down⟩ := roundedStk_bounds positive stkSize
  have stk := sound.stks ts (made ts mem)
  have page := stk.page
  by_contra more
  by_cases asked : 0 < requestedStk stkSize
  · have above := next_multiple positive stk.divides divides (by omega)
    have bounds := up asked
    omega
  · have bounds := down (by omega)
    omega

include listed int

theorem Fits.safe (fits : Fits pool stkSize) : IntSafe pool stkSize := by
  have page := sound.page.positive
  have positive : 0 < pool.pagesize := by omega
  obtain ⟨-, up, down⟩ := roundedStk_bounds positive stkSize
  obtain ⟨nonneg, most, -⟩ := pool.extra_spec positive
  have asked := requestedStk_int int
  have low : 0 < requestedStk stkSize ∨ requestedStk stkSize ≤ 0 := by omega
  unfold IsInt at asked
  have sum : requestedStk stkSize + pool.pagesize < 2 ^ 31 := by
    obtain ⟨free', listed', ts, mem, large⟩ | fits | fits := fits
    · rw [listed'.unique listed] at mem
      have small := (sound.stks ts (made ts mem)).small
      omega
    · omega
    · omega
  constructor
  case sum =>
    unfold IsInt
    omega
  case less =>
    unfold IsInt
    omega
  case rounded =>
    unfold IsInt
    omega
  case mapped =>
    intro small
    obtain ⟨free', listed', ts, mem, large⟩ | fits | fits := fits
    · rw [listed'.unique listed] at mem
      have enough := sound.large made mem large
      have less := small free listed ts mem
      omega
    · unfold IsInt
      omega
    · unfold IsInt
      omega

omit sound listed made int in
theorem IntSafe.adjusted (safe : IntSafe pool stkSize) :
    adjustStkSize pool.pagesize stkSize = roundedStk pool.pagesize stkSize :=
  adjustStkSize_eq safe.sum safe.less safe.rounded

omit sound made int in
theorem IntSafe.vaddrSize (safe : IntSafe pool stkSize)
    (small : ∀ ts ∈ free, (pool.stk ts).stkSize < roundedStk pool.pagesize stkSize) :
    pool.vaddrSize (roundedStk pool.pagesize stkSize) =
      roundedStk pool.pagesize stkSize + 2 * pool.pagesize + pool.extra := by
  obtain ⟨twice, sum, total⟩ := safe.mapped fun free' listed' => by
    rw [listed'.unique listed]
    exact small
  unfold Pool.vaddrSize
  rw [toInt32_eq twice, toInt32_eq sum, toInt32_eq total]

theorem Fits.newStk (fits : Fits pool stkSize)
    (small : ∀ ts ∈ free, (pool.stk ts).stkSize < roundedStk pool.pagesize stkSize)
    (mapped : 0 < pool.vaddrSize (roundedStk pool.pagesize stkSize)) (vaddr : Int) (random : Nat) :
    SoundStk pool.pagesize (pool.newStk (roundedStk pool.pagesize stkSize) vaddr random) := by
  have safe := fits.safe sound listed made int
  have size := safe.vaddrSize listed small
  have page := sound.page.positive
  have positive : 0 < pool.pagesize := by omega
  obtain ⟨divides, up, down⟩ := roundedStk_bounds positive stkSize
  obtain ⟨nonneg, most, whole⟩ := pool.extra_spec positive
  obtain ⟨above, below⟩ := pool.offset_spec positive random
  have total : pool.pagesize ∣ roundedStk pool.pagesize stkSize + 2 * pool.pagesize + pool.extra :=
    Int.dvd_add (Int.dvd_add divides (Int.dvd_mul_left ..)) whole
  rw [size] at mapped
  have room := next_multiple positive (Int.dvd_zero _) total mapped
  obtain ⟨asked, bound⟩ : 0 < requestedStk stkSize ∧ requestedStk stkSize + 3 * pool.pagesize + pool.extra ≤ 2 ^ 31 := by
    obtain ⟨free', listed', ts, mem, large⟩ | fits | fits := fits
    · rw [listed'.unique listed] at mem
      have enough := sound.large made mem large
      have less := small ts mem
      omega
    · exact fits
    · exfalso
      have bounds := down (by omega)
      omega
  have bounds := up asked
  have least := next_multiple positive (Int.dvd_zero _) divides (by omega)
  have largest := next_multiple positive total sound.page.divides (by omega)
  constructor
  case divides => exact divides
  all_goals
    simp only [Pool.newStk, size]
    omega

theorem Fits.taken (fits : Fits pool stkSize) {answers : StkAnswers} {pool' : Pool} {ts : StkId}
    (taken : Taken pool free (adjustStkSize pool.pagesize stkSize) answers pool' (some ts)) :
    SoundPool pool' ∧ ts ∈ pool'.made ∧ pool'.pagesize = pool.pagesize := by
  have safe := fits.safe sound listed made int
  rw [safe.adjusted] at taken
  cases taken with
  | reused whole large listed' same =>
    have mem : ts ∈ free := by
      rw [whole]
      exact List.mem_append_right _ List.mem_cons_self
    refine ⟨⟨?_, ?_⟩, ?_, same.pagesize⟩
    · rw [same.pagesize]
      exact sound.page
    · rw [same.pagesize, same.made, same.stk]
      exact sound.stks
    · rw [same.made]
      exact made ts mem
  | mapped small object positive segment same =>
    rw [same]
    refine ⟨⟨sound.page, fun us mem => ?_⟩, List.mem_cons_self, rfl⟩
    dsimp only at mem ⊢
    by_cases new : us = ts
    · rw [new, Function.update_self]
      exact fits.newStk sound listed made int small positive _ _
    · rw [Function.update_of_ne new]
      exact sound.stks us ((List.mem_cons.mp mem).resolve_left new)

omit sound listed made int in
theorem SoundPool.carved {pool : Pool} (sound : SoundPool pool) (layout : Layout) (ts : StkId) :
    SoundPool (pool.carved layout ts) where
  page := sound.page
  stks us mem := by
    have stk := sound.stks us mem
    unfold Pool.carved
    dsimp only
    by_cases same : us = ts
    · subst same
      rw [Function.update_self]
      exact ⟨stk.divides, stk.page, stk.small, stk.top, stk.lower, stk.upper⟩
    · rw [Function.update_of_ne same]
      exact stk

omit sound listed made int in
/-- What st_thread_create makes of a request: no int computation overflows, and if it gets
a stack the thread fits into it. -/
structure CarvesWell (layout : Layout) (pool : Pool) (stkSize : Int) (answers : StkAnswers) : Prop where
  safe : IntSafe pool stkSize
  placed : ∀ pool' ts, stStackNew pool (adjustStkSize pool.pagesize stkSize) answers = some (pool', some ts) →
    CarvedIn layout pool.pagesize ((pool'.carved layout ts).stk ts)

theorem Fits.carves (fits : Fits pool stkSize) (layout : Layout) (answers : StkAnswers) :
    CarvesWell layout pool stkSize answers where
  safe := fits.safe sound listed made int
  placed pool' ts run := by
    obtain ⟨pool₁, us, run', taken⟩ := stStackNew_spec listed (adjustStkSize pool.pagesize stkSize) answers
    rw [run] at run'
    cases run'
    obtain ⟨sound', mem, same⟩ := fits.taken sound listed made int taken
    have stk := (sound'.stks ts mem).carved sound'.page layout
    unfold Pool.carved
    dsimp only
    rw [Function.update_self, ← same]
    exact stk

omit int in
theorem carves_fits {layout : Layout}
    (carves : ∀ answers : StkAnswers, (∀ ts, answers.object = some ts → ts ∉ pool.made) →
      CarvesWell layout pool stkSize answers) : Fits pool stkSize := by
  by_contra unfit
  unfold Fits at unfit
  rw [not_or, not_or] at unfit
  obtain ⟨few, unbounded, negative⟩ := unfit
  have safe := (carves ⟨none, none, 0⟩ (by simp)).safe
  have page := sound.page.positive
  have positive : 0 < pool.pagesize := by omega
  obtain ⟨divides, up, down⟩ := roundedStk_bounds positive stkSize
  obtain ⟨nonneg, most, whole⟩ := pool.extra_spec positive
  have below : ∀ ts ∈ free, (pool.stk ts).stkSize < requestedStk stkSize := by
    intro ts mem
    by_contra large
    exact few ⟨free, listed, ts, mem, by omega⟩
  by_cases asked : 0 < requestedStk stkSize
  · have bounds := up asked
    obtain ⟨-, -, total⟩ := safe.mapped fun free' listed' ts mem => by
      rw [listed'.unique listed] at mem
      have less := below ts mem
      omega
    have pages : pool.pagesize ∣ roundedStk pool.pagesize stkSize + 2 * pool.pagesize + pool.extra :=
      Int.dvd_add (Int.dvd_add divides (Int.dvd_mul_left ..)) whole
    have largest := next_multiple positive pages sound.page.divides total.2
    omega
  · have none_ : free = [] := by
      by_contra some_
      obtain ⟨ts, rest, rfl⟩ := List.exists_cons_of_ne_nil some_
      have size := (sound.stks ts (made ts List.mem_cons_self)).page
      have less := below ts List.mem_cons_self
      omega
    have bounds := down (by omega)
    have size := safe.vaddrSize listed (by simp [none_])
    obtain ⟨ts, fresh⟩ := Infinite.exists_notMem_finset pool.made.toFinset
    rw [List.mem_toFinset] at fresh
    have carved := (carves ⟨some ts, some 0, 0⟩ (by simpa using fresh)).placed
    obtain ⟨pool', us, run, taken⟩ := stStackNew_spec listed (adjustStkSize pool.pagesize stkSize) ⟨some ts, some 0, 0⟩
    rw [safe.adjusted] at run taken carved
    cases taken with
    | reused whole' =>
      rw [none_] at whole'
      simp at whole'
    | failed _ _ why =>
      simp only [stNewStkSegment, size, reduceCtorEq, false_or] at why
      rw [if_pos (by omega)] at why
      cases why
    | mapped small object _ segment same =>
      have empty := (carved _ _ run).positive
      rw [same] at empty
      simp only [Pool.carved, Function.update_self, Pool.newStk] at empty
      omega

end

/- Runs. -/

variable {σ ω : Type} {E : EventSys σ ω} {layout : Layout}

def RequestFits (e : PoolEvent σ ω) : Prop :=
  ∀ thread joinable cvar stkSize answers, e.label = .create thread joinable cvar stkSize answers → Fits e.pre.pool stkSize

/-- The stack of the idle thread fits, which st_init has created on an empty pool. -/
def FittedStart (E : EventSys σ ω) (layout : Layout) (s : PoolSystem σ) : Prop :=
  PoolStarted E layout s ∧ defaultStackSize + 3 * s.pool.pagesize + s.pool.extra ≤ 2 ^ 31

structure CarvedPool (layout : Layout) (pool : Pool) : Prop where
  sound : SoundPool pool
  pointer : ∀ ts ∈ pool.made, (pool.stk ts).sp = (carve layout (pool.stk ts).stkTop).sp

theorem CarvedPool.carvedIn {pool : Pool} (carved : CarvedPool layout pool) {ts : StkId} (mem : ts ∈ pool.made) :
    CarvedIn layout pool.pagesize (pool.stk ts) := by
  have inside := (carved.sound.stks ts mem).carved carved.sound.page layout
  rw [← carved.pointer ts mem] at inside
  exact inside

theorem CarvedPool.same {pool pool' : Pool} (carved : CarvedPool layout pool) (pagesize : pool'.pagesize = pool.pagesize)
    (stk : pool'.stk = pool.stk) (made : pool'.made = pool.made) : CarvedPool layout pool' where
  sound := by
    refine ⟨?_, ?_⟩
    · rw [pagesize]
      exact carved.sound.page
    · rw [pagesize, stk, made]
      exact carved.sound.stks
  pointer := by
    rw [stk, made]
    exact carved.pointer

theorem CarvedPool.taken {pool : Pool} (pointer : ∀ ts ∈ pool.made, (pool.stk ts).sp = (carve layout (pool.stk ts).stkTop).sp)
    {free : List StkId} {stackSize : Int} {answers : StkAnswers} {pool' : Pool} {ts : StkId}
    (taken : Taken pool free stackSize answers pool' (some ts)) (sound : SoundPool pool') :
    CarvedPool layout (pool'.carved layout ts) where
  sound := sound.carved layout ts
  pointer us mem := by
    unfold Pool.carved
    dsimp only
    by_cases same : us = ts
    · rw [same, Function.update_self]
    · rw [Function.update_of_ne same]
      cases taken with
      | reused _ _ _ kept =>
        rw [kept.stk]
        exact pointer us (by rw [← kept.made]; exact mem)
      | mapped _ _ _ _ made =>
        rw [made] at mem ⊢
        dsimp only
        rw [Function.update_of_ne same]
        exact pointer us ((List.mem_cons.mp mem).resolve_left same)

theorem FittedStart.carved {s : PoolSystem σ} (started : FittedStart E layout s) : CarvedPool layout s.pool := by
  obtain ⟨⟨-, pagesize, randomize, answers, pool, ts, page, run, pool_, -⟩, fits⟩ := started
  have sound : SoundPool (.boot pagesize randomize) := ⟨page, by simp [Pool.boot]⟩
  have listed := Pool.Free.boot pagesize randomize
  obtain ⟨pool', us, run', taken⟩ := stStackNew_spec listed (adjustStkSize pagesize 0) answers
  rw [run] at run'
  cases run'
  have same : s.pool.pagesize = pagesize ∧ s.pool.extra = (Pool.boot pagesize randomize).extra := by
    rw [pool_]
    cases taken with
    | reused whole => simp at whole
    | mapped _ _ _ _ same =>
      rw [same]
      exact ⟨rfl, rfl⟩
  rw [same.1, same.2] at fits
  have fits' : Fits (.boot pagesize randomize) 0 := .inr (.inl ⟨by decide, fits⟩)
  obtain ⟨sound', -, -⟩ := fits'.taken sound listed (by simp) (by decide) taken
  rw [pool_]
  exact .taken (by simp [Pool.boot]) taken sound'

theorem CarvedPool.request {s : PoolSystem σ} {free : List StkId} (carved : CarvedPool layout s.pool) (inv : PoolInv s free)
    {stkSize : Int} (int : IsInt stkSize) (fits : Fits s.pool stkSize) {answers : StkAnswers} {pool : Pool} {ts : StkId}
    (run : stStackNew s.pool (adjustStkSize s.pool.pagesize stkSize) answers = some (pool, some ts)) :
    CarvedPool layout (pool.carved layout ts) := by
  obtain ⟨pool', us, run', taken⟩ := stStackNew_spec inv.listed (adjustStkSize s.pool.pagesize stkSize) answers
  rw [run] at run'
  cases run'
  have made : ∀ ts ∈ free, ts ∈ s.pool.made := fun ts mem => (inv.placed ts).mpr (.inl mem)
  obtain ⟨sound, -, -⟩ := fits.taken carved.sound inv.listed made int taken
  exact .taken carved.pointer taken sound

theorem CarvedPool.step {e : PoolEvent σ ω} {free : List StkId} (carved : CarvedPool layout e.pre.pool)
    (inv : PoolInv e.pre free) (fired : e.Fired (poolMachine E layout)) (fits : RequestFits e) :
    CarvedPool layout e.post.pool := by
  have enabled := fired.enabled
  simp only [poolMachine] at enabled
  cases poolStep_moved fired with
  | lib cause quiet freed fired pool_ stack =>
    have same := stStackFree_same freed
    rw [pool_]
    exact carved.same same.pagesize same.stk same.made
  | @refused thread joinable cvar stkSize answers pool cause run fired pool_ stack =>
    obtain ⟨pool', ts, run', taken⟩ := stStackNew_spec inv.listed (adjustStkSize e.pre.pool.pagesize stkSize) answers
    rw [run] at run'
    cases run'
    cases taken with
    | failed small same =>
      rw [pool_, same]
      exact carved
  | abandoned cause run freed fired pool_ stack =>
    rw [cause] at enabled
    obtain ⟨-, int, -⟩ := create_enabled enabled
    have same := stStackFree_same freed
    rw [pool_]
    exact (carved.request inv int (fits _ _ _ _ _ cause) run).same same.pagesize same.stk same.made
  | created cause term run fired pool_ stack =>
    rw [cause] at enabled
    obtain ⟨-, int, -⟩ := create_enabled enabled
    rw [pool_]
    exact carved.request inv int (fits _ _ _ _ _ cause) run
  | randomized cause same pool_ stack =>
    rw [pool_]
    exact carved.same rfl rfl rfl

theorem FittedRun.carved {hist : List (PoolEvent σ ω)} {s : PoolSystem σ}
    (run : Run (poolMachine E layout) (FittedStart E layout) hist s) (fits : ∀ e ∈ hist, RequestFits e) :
    CarvedPool layout s.pool := by
  induction run with
  | begin started => exact started.carved
  | @next hist e before fired ih =>
    obtain ⟨free, inv⟩ := PoolRun.inv (before.weaken fun s started => started.1)
    exact (ih fun e mem => fits e (List.mem_cons_of_mem _ mem)).step inv fired (fits e List.mem_cons_self)

/-- In a run in which every request fits, every thread lies well inside its stack, and the
next request is served as it should be exactly if it fits. -/
theorem carve_iff {hist : List (PoolEvent σ ω)} {s : PoolSystem σ}
    (run : Run (poolMachine E layout) (FittedStart E layout) hist s) (fits : ∀ e ∈ hist, RequestFits e) :
    (∀ t ts, s.Owns t ts → CarvedIn layout s.pool.pagesize (s.pool.stk ts)) ∧
      ∀ stkSize, IsInt stkSize →
        ((∀ answers : StkAnswers, (∀ ts, answers.object = some ts → ts ∉ s.pool.made) →
          CarvesWell layout s.pool stkSize answers) ↔ Fits s.pool stkSize) := by
  have carved := FittedRun.carved run fits
  obtain ⟨free, inv⟩ := PoolRun.inv (run.weaken fun s started => started.1)
  have made : ∀ ts ∈ free, ts ∈ s.pool.made := fun ts mem => (inv.placed ts).mpr (.inl mem)
  refine ⟨fun t ts owner => carved.carvedIn ((inv.placed ts).mpr (.inr ⟨t, owner⟩)), fun stkSize int => ⟨?_, ?_⟩⟩
  · exact fun carves => carves_fits carved.sound inv.listed made carves
  · exact fun fits answers _ => fits.carves carved.sound inv.listed made int layout answers

theorem Poll.pooled_fits : FittedStart (Poll.eventSys Poll.silent) .linux64 Poll.pooled := ⟨Poll.pooled_ok, by decide +kernel⟩

def PoolSystem.suits (s : PoolSystem σ) : PoolLabel ω → Bool
  | .create _ _ _ k _ => decide (0 < requestedStk k ∧ requestedStk k + 3 * s.pool.pagesize + s.pool.extra ≤ 2 ^ 31)
  | _ => true

/-- A thread on a stack of 100000 bytes, rounded up; a request of one byte is served as well. -/
theorem carve_iff_one_thread :
    ∃ hist s, Run (poolMachine (Poll.eventSys Poll.silent) .linux64) (FittedStart (Poll.eventSys Poll.silent) .linux64) hist s ∧
      (s.pool.stk 20).stkSize = 102400 ∧ CarvedIn .linux64 s.pool.pagesize (s.pool.stk 20) ∧
      CarvesWell .linux64 s.pool 1 ⟨some 21, some 8388608, 0⟩ := by
  obtain ⟨hist, s, run, seen⟩ := Run.found (M := poolMachine (Poll.eventSys Poll.silent) .linux64)
    [.create 2 false none 100000 ⟨some 20, some 1048576, 0⟩] Poll.pooled_fits
    (p := fun hist s => hist.all (fun e => e.pre.suits e.label) &&
      decide ((s.pool.stk 20).stkSize = 102400 ∧ (s.sys.vp.thr 2).context.live = true ∧ s.stack 2 = some 20 ∧
        21 ∉ s.pool.made ∧ s.pool.pagesize = 4096 ∧ s.pool.extra = 0))
    (by decide +kernel)
  obtain ⟨fits, size, live, stack, fresh, page, extra⟩ :
      _ ∧ (s.pool.stk 20).stkSize = 102400 ∧ (s.sys.vp.thr 2).context.live = true ∧ s.stack 2 = some 20 ∧
        21 ∉ s.pool.made ∧ s.pool.pagesize = 4096 ∧ s.pool.extra = 0 := by
    simpa only [Bool.and_eq_true, decide_eq_true_eq] using seen
  have each : ∀ e ∈ hist, RequestFits e := by
    intro e mem thread joinable cvar stkSize answers cause
    have fit := List.all_eq_true.mp fits e mem
    rw [cause] at fit
    exact .inr (.inl (of_decide_eq_true fit))
  obtain ⟨owners, exact_⟩ := carve_iff run each
  refine ⟨hist, s, run, size, owners 2 20 ⟨live, stack⟩, (exact_ 1 (by decide)).mpr ?_ _ ?_⟩
  · right
    left
    rw [page, extra]
    decide
  · intro ts object
    cases object
    exact fresh

/-- A size of -1 is rounded to 0. The thread gets a stack of no bytes, and its object lies
in the red zone below it. The largest size overflows before it is rounded. -/
theorem carve_negative_size :
    (∃ hist s, PoolRun (Poll.eventSys Poll.silent) .linux64 hist s ∧ s.Owns 2 20 ∧ (s.pool.stk 20).stkSize = 0 ∧
      (s.pool.stk 20).vaddr ≤ (carve .linux64 (s.pool.stk 20).stkTop).thread ∧
      (carve .linux64 (s.pool.stk 20).stkTop).thread < (s.pool.stk 20).vaddr + s.pool.pagesize ∧
      ¬CarvedIn .linux64 s.pool.pagesize (s.pool.stk 20)) ∧
    ¬CarvesWell .linux64 Poll.pooled.pool (-1) ⟨some 20, some 1048576, 0⟩ ∧ ¬IntSafe Poll.pooled.pool (2 ^ 31 - 1) := by
  refine ⟨?_, ?_, fun safe => absurd safe.sum (by decide +kernel)⟩
  · obtain ⟨hist, s, run, seen⟩ := Run.found (M := poolMachine (Poll.eventSys Poll.silent) .linux64)
      [.create 2 false none (-1) ⟨some 20, some 1048576, 0⟩] Poll.pooled_ok
      (p := fun _ s => decide (((s.sys.vp.thr 2).context.live = true ∧ s.stack 2 = some 20) ∧ (s.pool.stk 20).stkSize = 0 ∧
        (s.pool.stk 20).vaddr ≤ (carve .linux64 (s.pool.stk 20).stkTop).thread ∧
        (carve .linux64 (s.pool.stk 20).stkTop).thread < (s.pool.stk 20).vaddr + s.pool.pagesize ∧
        ¬(s.pool.stk 20).stkBottom ≤ (s.pool.stk 20).sp))
      (by decide +kernel)
    obtain ⟨owner, size, low, high, outside⟩ := of_decide_eq_true seen
    exact ⟨hist, s, run, owner, size, low, high, fun carved => outside carved.pointer.1⟩
  · intro carves
    have carved := carves.placed _ _ rfl
    exact absurd carved.pointer.1 (by decide +kernel)

end StateThreads
