import StateThreads.Stack.Pool

/-! The free list of stacks, and what taking a stack and giving one back does to it. -/
namespace StateThreads

structure Pool.Free (pool : Pool) (free : List StkId) : Prop where
  ring : Ring.Circle pool.links none (free.map some)
  count : pool.numFreeStacks = free.length

structure Pool.Same (pool pool' : Pool) : Prop where
  pagesize : pool'.pagesize = pool.pagesize
  randomizeStacks : pool'.randomizeStacks = pool.randomizeStacks
  stk : pool'.stk = pool.stk
  made : pool'.made = pool.made

theorem Pool.Free.boot (pagesize : Int) (randomizeStacks : Bool) : (Pool.boot pagesize randomizeStacks).Free [] where
  ring := Ring.Circle.init none
  count := rfl

theorem Pool.Free.nodup {pool : Pool} {free : List StkId} (listed : pool.Free free) : free.Nodup :=
  (List.nodup_cons.mp listed.ring.nodup).2.of_map some

theorem Pool.Free.unique {pool : Pool} {free free' : List StkId} (listed : pool.Free free) (listed' : pool.Free free') :
    free = free' :=
  List.map_injective_iff.mpr (Option.some_injective _) (listed.ring.unique listed'.ring)

theorem stStackFree_spec {pool : Pool} {free : List StkId} (listed : pool.Free free) {ts : StkId} (owned : ts ∉ free) :
    ∃ pool' front back, stStackFree pool (some ts) = some pool' ∧ free = front ++ back ∧
      pool'.Free (front ++ ts :: back) ∧ pool.Same pool' := by
  obtain ⟨front, back, whole, last⟩ : ∃ front back, free = front ++ back ∧
      (back.map some ++ [none]).head? = some (Ring.lastFrom none (free.map some)) := by
    obtain rfl | ⟨front, z, rfl⟩ := free.eq_nil_or_concat
    · exact ⟨[], [], rfl, rfl⟩
    · exact ⟨front, [z], List.concat_eq_append, by simp⟩
  have ring := listed.ring
  have prev := ring.last
  rw [whole, List.map_append] at ring
  have fresh : some ts ∉ none :: (front.map some ++ back.map some) := by
    rw [← List.map_append, ← whole]
    simpa using owned
  obtain ⟨links, inserted, circle⟩ := ring.insertBefore fresh last
  refine ⟨{ pool with links := links, numFreeStacks := pool.numFreeStacks + 1 }, front, back, ?_, whole, ⟨?_, ?_⟩,
    ⟨rfl, rfl, rfl, rfl⟩⟩
  · simp [stStackFree, prev, inserted]
  · simpa using circle
  · have count := listed.count
    rw [whole, List.length_append] at count
    simp only [List.length_append, List.length_cons]
    omega

theorem stStackFree_same {pool pool' : Pool} {stack : Option StkId} (run : stStackFree pool stack = some pool') :
    pool.Same pool' := by
  cases stack with
  | none =>
    cases run
    exact ⟨rfl, rfl, rfl, rfl⟩
  | some ts =>
    simp only [stStackFree, Option.bind_eq_bind, Option.bind_eq_some_iff] at run
    obtain ⟨last, -, links, -, same⟩ := run
    cases same
    exact ⟨rfl, rfl, rfl, rfl⟩

theorem Pool.Free.search {pool : Pool} {free : List StkId} (listed : pool.Free free) (stackSize : Int)
    {front back : List StkId} (whole : free = front ++ back) {fuel : Nat} (enough : back.length < fuel)
    {qp : Option StkId} (start : (back.map some ++ [none]).head? = some qp) :
    (∃ ts front' back', back = front' ++ ts :: back' ∧ pool.search stackSize fuel qp = some (some ts) ∧
        stackSize ≤ (pool.stk ts).stkSize) ∨
      pool.search stackSize fuel qp = some none ∧ ∀ ts ∈ back, (pool.stk ts).stkSize < stackSize := by
  induction back generalizing front fuel qp with
  | nil =>
    cases start
    cases fuel with
    | zero => cases enough
    | succ fuel => exact .inr ⟨rfl, by simp⟩
  | cons ts back ih =>
    cases start
    cases fuel with
    | zero => cases enough
    | succ fuel =>
      unfold Pool.search
      by_cases large : stackSize ≤ (pool.stk ts).stkSize
      · rw [if_pos large]
        exact .inl ⟨ts, [], back, rfl, rfl, large⟩
      rw [if_neg large]
      have ring := listed.ring
      rw [whole, List.map_append, List.map_cons] at ring
      obtain ⟨qp, next⟩ : ∃ qp, (back.map some ++ [none]).head? = some qp := by
        cases back with
        | nil => exact ⟨none, rfl⟩
        | cons u back => exact ⟨some u, rfl⟩
      have following := ring.next
      rw [next] at following
      have whole' : free = (front ++ [ts]) ++ back := by
        rw [whole, List.append_assoc]
        rfl
      rw [following]
      obtain ⟨us, front', back', rfl, found, fits⟩ | ⟨found, small⟩ :=
        ih whole' (Nat.lt_of_succ_lt_succ enough) next
      · exact .inl ⟨us, ts :: front', back', rfl, found, fits⟩
      · refine .inr ⟨found, fun u hu => ?_⟩
        obtain rfl | hu := List.mem_cons.mp hu
        · omega
        · exact small u hu

/-- The two ways of _st_stack_new: a free stack that is large enough is taken off the list;
if there is none, a segment is mapped, or nothing happens. -/
inductive Taken (pool : Pool) (free : List StkId) (stackSize : Int) (answers : StkAnswers) (pool' : Pool) :
    Option StkId → Prop
  | reused {ts : StkId} {front back : List StkId} (whole : free = front ++ ts :: back)
    (large : stackSize ≤ (pool.stk ts).stkSize) (listed : pool'.Free (front ++ back)) (same : pool.Same pool') :
    Taken pool free stackSize answers pool' (some ts)
  | failed (small : ∀ ts ∈ free, (pool.stk ts).stkSize < stackSize) (same : pool' = pool)
    (why : answers.object = none ∨ stNewStkSegment (pool.vaddrSize stackSize) answers.segment = none) :
    Taken pool free stackSize answers pool' none
  | mapped {ts : StkId} {vaddr : Int} (small : ∀ ts ∈ free, (pool.stk ts).stkSize < stackSize)
    (object : answers.object = some ts) (positive : 0 < pool.vaddrSize stackSize) (segment : answers.segment = some vaddr)
    (same : pool' = { pool with
      stk := Function.update pool.stk ts (pool.newStk stackSize vaddr answers.random), made := ts :: pool.made }) :
    Taken pool free stackSize answers pool' (some ts)

theorem stStackNew_spec {pool : Pool} {free : List StkId} (listed : pool.Free free) (stackSize : Int)
    (answers : StkAnswers) :
    ∃ pool' ts, stStackNew pool stackSize answers = some (pool', ts) ∧ Taken pool free stackSize answers pool' ts := by
  have ring := listed.ring
  obtain ⟨qp, start⟩ : ∃ qp, (free.map some ++ [none]).head? = some qp := by
    cases free with
    | nil => exact ⟨none, rfl⟩
    | cons u free => exact ⟨some u, rfl⟩
  have first := ring.first
  rw [start] at first
  have enough : free.length < pool.numFreeStacks.toNat + 1 := by
    rw [listed.count]
    omega
  unfold stStackNew
  simp only [first, Option.bind_eq_bind, Option.bind_some]
  obtain ⟨ts, front, back, whole, found, large⟩ | ⟨found, small⟩ :=
    listed.search stackSize (List.nil_append free).symm enough start
  · rw [whole, List.map_append, List.map_cons] at ring
    obtain ⟨links, removed, circle⟩ := ring.remove
    rw [found]
    simp only [Option.bind_some, removed]
    refine ⟨_, _, rfl, .reused whole large ⟨by simpa using circle, ?_⟩ ⟨rfl, rfl, rfl, rfl⟩⟩
    have count := listed.count
    rw [whole, List.length_append, List.length_cons] at count
    simp only [List.length_append]
    omega
  · rw [found]
    simp only [Option.bind_some]
    cases object : answers.object with
    | none => exact ⟨_, _, rfl, .failed small rfl (.inl object)⟩
    | some ts =>
      dsimp only
      cases segment : stNewStkSegment (pool.vaddrSize stackSize) answers.segment with
      | none => exact ⟨_, _, rfl, .failed small rfl (.inr segment)⟩
      | some vaddr =>
        unfold stNewStkSegment at segment
        split at segment
        · rename_i positive
          exact ⟨_, _, rfl, .mapped small object positive segment rfl⟩
        · cases segment

theorem Pool.Free.carved {pool : Pool} {free : List StkId} {layout : Layout} (listed : pool.Free free) (ts : StkId) :
    (pool.carved layout ts).Free free := ⟨listed.ring, listed.count⟩

end StateThreads
