import StateThreads.Cache.Table

/-! What the calls on the cache do, one after the other: each returns, keeps the table, and
changes no more than it says. -/
namespace StateThreads.Lru
open Chain

variable {ι K D : Type} [DecidableEq ι] {F : KeyFns K} {c c' : Cache ι K D} {chains : Nat → List ι} {es : List ι} {e : ι}

theorem create_spec (rep : Rep F c chains es) (unborn : c.life e = .unborn) (key : K) (data : D) (weight : Word) :
    Rep F (stxCacheEntryCreate c e key data weight) chains es := by
  have other : ∀ x, x ∈ es → x ≠ e := by
    rintro x member rfl
    rw [rep.alive x member] at unborn
    cases unborn
  have same : ∀ x, x ∈ es → (stxCacheEntryCreate c e key data weight).entry x = c.entry x := by
    intro x member
    simp [stxCacheEntryCreate, Cache.setEntry, other x member]
  constructor
  case table =>
    have away : ∀ i, e ∉ chains i := fun i there => other e ((rep.members e).mpr ⟨i, there⟩) rfl
    refine Links.Table.forget ⟨fun i => ?_, rep.table.distinct, rep.table.apart⟩ away
    refine (rep.table.seg i).frame (fun s there => ?_) fun x _ => rfl
    have distinct : s ≠ .next e := by
      rintro rfl
      simp only [List.mem_cons, reduceCtorEq, List.mem_map, Slot.next.injEq, exists_eq_right, false_or] at there
      exact away i there
    simp [distinct]
  case home =>
    intro i x member
    rw [Cache.bucket, same x ((rep.members x).mpr ⟨i, member⟩)]
    exact rep.home i x member
  case alive =>
    intro x member
    simpa [stxCacheEntryCreate, other x member] using rep.alive x member
  case loose =>
    intro x outside
    by_cases h : x = e
    · subst h; simp [stxCacheEntryCreate, Links.forget]
    · simpa [stxCacheEntryCreate, Links.forget, h] using rep.loose x outside
  case lru =>
    intro x
    have old : x ∈ (stxCacheEntryCreate c e key data weight).lruList ↔ _ := rep.lru x
    rw [old]
    constructor
    · rintro ⟨member, free⟩
      exact ⟨member, by rw [same x member]; exact free⟩
    · rintro ⟨member, free⟩
      exact ⟨member, by rw [← same x member]; exact free⟩
  case weight =>
    have total := rep.weight
    rw [List.map_congr_left fun x member => by rw [← same x member]] at total
    exact total
  all_goals first | exact rep.members | exact rep.distinct | exact rep.once | exact rep.size | exact rep.sizeBound |
    exact rep.weightBound | exact rep.count

def Cache.recounted (c : Cache ι K D) (e : ι) (count : Nat) (lru : List ι) : Cache ι K D :=
  { c.setEntry e { c.entry e with refCount := count } with lruList := lru }

theorem Rep.recount (rep : Rep F c chains es) {count : Nat} {lru : List ι} (once : lru.Nodup)
    (list : ∀ x, x ∈ lru ↔ x ∈ es ∧ (if x = e then count else (c.entry x).refCount) = 0) :
    Rep F (c.recounted e count lru) chains es := by
  have same : ∀ x, (Function.update c.entry e { c.entry e with refCount := count } x).key = (c.entry x).key ∧
      (Function.update c.entry e { c.entry e with refCount := count } x).weight = (c.entry x).weight ∧
      (Function.update c.entry e { c.entry e with refCount := count } x).refCount =
        if x = e then count else (c.entry x).refCount := by
    intro x
    by_cases h : x = e
    · subst h; simp
    · simp [h]
  constructor
  case home =>
    intro i x member
    rw [rep.home i x member, Cache.bucket, Cache.bucket, Cache.recounted, Cache.setEntry, (same x).1]
  case lru =>
    intro x
    simp only [Cache.recounted, Cache.setEntry, (same x).2.2]
    exact list x
  case weight =>
    simp only [Cache.recounted, Cache.setEntry, (same _).2.1]
    exact rep.weight
  case once => exact once
  all_goals first | exact rep.table | exact rep.members | exact rep.distinct | exact rep.alive | exact rep.loose |
    exact rep.size | exact rep.sizeBound | exact rep.weightBound | exact rep.count

omit [DecidableEq ι] in
theorem Rep.stats (rep : Rep F c chains es) (hits lookups : Word) :
    Rep F { c with hits := hits, lookups := lookups } chains es :=
  ⟨rep.table, rep.home, rep.members, rep.distinct, rep.alive, rep.loose, rep.once, rep.lru, rep.size, rep.weight,
    rep.sizeBound, rep.weightBound, rep.count⟩

structure Counted (c : Cache ι K D) (e : ι) (count : Nat) (lru : List ι) (c' : Cache ι K D) : Prop where
  entry : c'.entry = Function.update c.entry e { c.entry e with refCount := count }
  life : c'.life = c.life
  lruList : c'.lruList = lru
  cleaned : c'.cleaned = c.cleaned
  limits : c'.maxSize = c.maxSize ∧ c'.maxWeight = c.maxWeight ∧ c'.hashSize = c.hashSize ∧ c'.hasCleanup = c.hasCleanup

inductive LookedUp (F : KeyFns K) (c : Cache ι K D) (es : List ι) (key : K) : Cache ι K D → Option ι → Prop
  | missed (misses : ∀ e ∈ es, c.matches F key e = false) :
    LookedUp F c es key { c with lookups := c.lookups + 1 } none
  | found {e : ι} {c' : Cache ι K D} (member : e ∈ es) (hit : c.matches F key e = true)
    (counted : Counted c e ((c.entry e).refCount + 1) (c.lruList.erase e) c') : LookedUp F c es key c' (some e)

theorem lookup_spec (rep : Rep F c chains es) (key : K) :
    ∃ c' found, stxCacheEntryLookup F c key = some (c', found) ∧ LookedUp F c es key c' found ∧ Rep F c' chains es := by
  obtain ⟨found, start, hits, misses⟩ := (rep.stats c.hits (c.lookups + 1)).find_cases key
  cases found with
  | none =>
    refine ⟨_, none, ?_, .missed (misses rfl), rep.stats c.hits (c.lookups + 1)⟩
    simp only [stxCacheEntryLookup, start, Option.bind_eq_bind, Option.bind_some]
  | some e =>
    obtain ⟨member, hit⟩ := hits e rfl
    have counts : ∀ x, x ∈ c.lruList.erase e ↔
        x ∈ es ∧ (if x = e then (c.entry e).refCount + 1 else (c.entry x).refCount) = 0 := by
      intro x
      rw [rep.once.mem_erase_iff, rep.lru x]
      by_cases h : x = e <;> simp [h]
    have rep' := (rep.recount (rep.once.erase e) counts).stats (c.hits + 1) (c.lookups + 1)
    refine ⟨{ c.setEntry e { c.entry e with refCount := (c.entry e).refCount + 1 } with
        lruList := c.lruList.erase e, hits := c.hits + 1, lookups := c.lookups + 1 }, some e, ?_,
      .found member hit ⟨rfl, rfl, rfl, rfl, ⟨rfl, rfl, rfl, rfl⟩⟩, rep'⟩
    simp only [stxCacheEntryLookup, start, Option.bind_eq_bind, Option.bind_some]
    by_cases free : (c.entry e).refCount = 0
    · have listed : e ∈ c.lruList := (rep.lru e).mpr ⟨member, free⟩
      rw [if_pos free, if_pos listed, free]
      rfl
    · have unlisted : e ∉ c.lruList := fun there => free ((rep.lru e).mp there).2
      rw [if_neg free, List.erase_of_not_mem unlisted]
      rfl

inductive Released (c : Cache ι K D) (e : ι) : Cache ι K D → Prop
  | kept {c' : Cache ι K D} (more : 1 < (c.entry e).refCount)
    (counted : Counted c e ((c.entry e).refCount - 1) c.lruList c') : Released c e c'
  | listed {c' : Cache ι K D} (last : (c.entry e).refCount = 1) (wanted : (c.entry e).deletePending = false)
    (counted : Counted c e 0 (c.lruList ++ [e]) c') : Released c e c'
  | dropped {c₁ c' : Cache ι K D} (last : (c.entry e).refCount = 1) (pending : (c.entry e).deletePending = true)
    (counted : Counted c e 0 (c.lruList ++ [e]) c₁) (ended : Ended c₁ [e] c') : Released c e c'

theorem Cache.counted (c : Cache ι K D) (e : ι) (count : Nat) (lru : List ι) :
    Counted c e count lru (c.recounted e count lru) := ⟨rfl, rfl, rfl, rfl, ⟨rfl, rfl, rfl, rfl⟩⟩

theorem release_eq (alive : c.life e = .allocated) (held : 0 < (c.entry e).refCount) (unlisted : e ∉ c.lruList) :
    stxCacheEntryRelease c e =
      if 1 < (c.entry e).refCount then some (c.recounted e ((c.entry e).refCount - 1) c.lruList)
      else if (c.entry e).deletePending then stxCacheEntryDelete (c.recounted e 0 (c.lruList ++ [e])) e
      else some (c.recounted e 0 (c.lruList ++ [e])) := by
  rw [stxCacheEntryRelease, if_neg (by simp [alive]), if_neg (by omega)]
  simp only [Cache.setEntry, Function.update_self]
  by_cases more : 1 < (c.entry e).refCount
  · rw [if_pos more, if_neg (by omega)]
    rfl
  · have last : (c.entry e).refCount - 1 = 0 := by omega
    rw [if_neg more, if_pos last, if_neg unlisted, last]
    rfl

theorem release_spec (rep : Rep F c chains es) (member : e ∈ es) (held : 0 < (c.entry e).refCount) :
    ∃ c' chains', stxCacheEntryRelease c e = some c' ∧ Released c e c' ∧
      Rep F c' chains' (if (c.entry e).refCount = 1 ∧ (c.entry e).deletePending = true then es.erase e else es) := by
  have alive := rep.alive e member
  have unlisted : e ∉ c.lruList := fun there => by
    have free := ((rep.lru e).mp there).2
    omega
  rw [release_eq alive held unlisted]
  by_cases more : 1 < (c.entry e).refCount
  · have counts : ∀ x, x ∈ c.lruList ↔
        x ∈ es ∧ (if x = e then (c.entry e).refCount - 1 else (c.entry x).refCount) = 0 := by
      intro x
      rw [rep.lru x]
      by_cases h : x = e
      · subst h
        simp only [if_true]
        constructor <;> rintro ⟨-, free⟩ <;> omega
      · simp [h]
    rw [if_pos more, if_neg (by omega)]
    exact ⟨_, chains, rfl, .kept more (c.counted e _ _), rep.recount rep.once counts⟩
  · have last : (c.entry e).refCount = 1 := by omega
    have counts : ∀ x, x ∈ c.lruList ++ [e] ↔ x ∈ es ∧ (if x = e then 0 else (c.entry x).refCount) = 0 := by
      intro x
      rw [List.mem_append, rep.lru x]
      by_cases h : x = e
      · subst h; simp [member]
      · simp [h]
    have once : (c.lruList ++ [e]).Nodup := by
      rw [List.nodup_append]
      refine ⟨rep.once, by simp, ?_⟩
      intro x there y same
      obtain rfl : y = e := by simpa using same
      rintro rfl
      exact unlisted there
    have rep₁ := rep.recount once counts
    rw [if_neg more]
    cases pending : (c.entry e).deletePending with
    | true =>
      obtain ⟨c', run, ended, rep'⟩ := delete_free rep₁ (e := e) alive (by simp [Cache.recounted, Cache.setEntry])
      rw [if_pos rfl, if_pos ⟨last, rfl⟩]
      exact ⟨c', _, run, .dropped last pending (c.counted e _ _) ended, rep'⟩
    | false =>
      rw [if_neg (by simp), if_neg (by simp)]
      exact ⟨_, chains, rfl, .listed last pending (c.counted e _ _), rep₁⟩

/-- An insertion: entries at the head of the list are ended to make room, and unless that
does not help the one with the same key is ended too, and the new one is put in. The last
argument holds the entries of the table afterwards. -/
inductive Inserted (F : KeyFns K) (c : Cache ι K D) (es : List ι) (e : ι) : Cache ι K D → Bool → List ι → Prop
  | refused {c' : Cache ι K D} (n : Nat) (ended : Ended c (c.lruList.take n) c') :
    Inserted F c es e c' false (es.filter (c.keeps (c.lruList.take n)))
  | done {c₁ c' : Cache ι K D} (n : Nat) (old : Option ι) (ended : Ended c (c.lruList.take n ++ old.toList) c₁)
    (same : ∀ x, old = some x → x ∈ es ∧ x ∉ c.lruList.take n ∧ c.matches F (c.entry e).key x = true)
    (only : old = none → ∀ x ∈ es, c.matches F (c.entry e).key x = true → x ∈ c.lruList.take n)
    (linked : Linked c₁ e c') : Inserted F c es e c' true (e :: es.filter (c.keeps (c.lruList.take n ++ old.toList)))

theorem Ended.matches {ts : List ι} (ended : Ended c ts c') (key : K) {x : ι} (away : x ∉ ts) :
    c'.matches F key x = c.matches F key x := by
  rw [Cache.matches, ended.entry, if_neg away]
  rfl

theorem Ended.matched {ts : List ι} (ended : Ended c ts c') {key : K} {x : ι} (hit : c'.matches F key x = true) :
    x ∉ ts ∧ c.matches F key x = true := by
  by_cases there : x ∈ ts
  · rw [Cache.matches, ended.entry, if_pos there] at hit
    simp at hit
  · rw [ended.matches key there] at hit
    exact ⟨there, hit⟩

theorem room_spec (weight : Word) (rep : Rep F c chains es) (small : c.maxWeight.toNat + weight.toNat < 2 ^ 64) :
    ∃ c₁ room n, makeRoom c weight = some (c₁, room) ∧ Ended c (c.lruList.take n) c₁ ∧
      Rep F c₁ (fun i => (chains i).filter (c.keeps (c.lruList.take n))) (es.filter (c.keeps (c.lruList.take n))) ∧
      (room = true → c₁.curSize.toNat < c₁.maxSize.toNat ∧ c₁.curWeight.toNat + weight.toNat ≤ c₁.maxWeight.toNat) := by
  obtain ⟨c₁, room, n, run, ended, rest, rep₁, fits⟩ := evictLoop_spec weight rep (Nat.lt_succ_self _) small
  simp only [makeRoom, run, Option.bind_eq_bind, Option.bind_some]
  cases room with
  | false => exact ⟨c₁, false, n, rfl, ended, rep₁, by simp⟩
  | true =>
    obtain ⟨c₂, room, m, run', ended', rep₂, free⟩ := evictOne_spec rep₁
    have light := (rep₁.lighter ended' rep₂).2
    rw [rest] at ended' rep₂
    have prefix_ : c.lruList.take n ++ (c.lruList.drop n).take m = c.lruList.take (n + m) := by
      rw [List.take_add]
    have both := ended.trans ended'
    rw [prefix_] at both
    simp only [ended.keeps, prefix_] at rep₂
    refine ⟨c₂, room, n + m, run', both, rep₂, fun ok => ⟨free ok, ?_⟩⟩
    rw [ended'.limits.2.1]
    have := fits rfl
    omega

theorem replace_spec (rep : Rep F c chains es) (alive : c.life e = .allocated) (away : e ∉ es)
    (size : c.curSize.toNat < c.maxSize.toNat)
    (weight : c.curWeight.toNat + (c.entry e).weight.toNat ≤ c.maxWeight.toNat) :
    ∃ old c₁ c' chains', c.replace F e = some c' ∧ Ended c old.toList c₁ ∧ Linked c₁ e c' ∧
      (∀ x, old = some x → x ∈ es ∧ c.matches F (c.entry e).key x = true) ∧
      (old = none → ∀ x ∈ es, c.matches F (c.entry e).key x = false) ∧
      Rep F c' chains' (e :: es.filter (c.keeps old.toList)) := by
  obtain ⟨old, search, found, missed⟩ := rep.find_cases (c.entry e).key
  cases old with
  | none =>
    obtain ⟨c', chains', run, linked, rep'⟩ := link_spec rep away alive size weight
    have nothing : es.filter (c.keeps []) = es := c.filter_keeps_self (by simp)
    refine ⟨none, c, c', chains', ?_, .none c, linked, by simp, missed, ?_⟩
    · simp only [Cache.replace, search, Option.bind_eq_bind, Option.bind_some, run]
    · rw [Option.toList_none, nothing]
      exact rep'
  | some old =>
    obtain ⟨member, hit⟩ := found old rfl
    obtain ⟨c₁, run₁, ended, rep₁⟩ := delete_spec rep (rep.alive old member)
    have light := rep.lighter ended rep₁
    have other : e ≠ old := by rintro rfl; exact away member
    have alive₁ : c₁.life e = .allocated := by
      rw [ended.life, if_neg (by simp [other])]
      exact alive
    obtain ⟨c', chains', run, linked, rep'⟩ := link_spec rep₁ (fun there => away (List.mem_of_mem_filter there)) alive₁
      (by rw [ended.limits.1]; omega) (by rw [ended.limits.2.1, (ended.key e).2.2]; omega)
    refine ⟨some old, c₁, c', chains', ?_, ended, linked, found, by simp, rep'⟩
    simp only [Cache.replace, search, Option.bind_eq_bind, Option.bind_some, run₁, run]

theorem insert_spec (rep : Rep F c chains es) (alive : c.life e = .allocated) (away : e ∉ es)
    (small : c.maxWeight.toNat + (c.entry e).weight.toNat < 2 ^ 64) :
    ∃ c' ok es' chains', stxCacheEntryInsert F c e = some (c', ok) ∧ Inserted F c es e c' ok es' ∧
      Rep F c' chains' es' := by
  obtain ⟨c₁, room, n, run, ended, rep₁, free⟩ := room_spec (c.entry e).weight rep small
  rw [stxCacheEntryInsert, if_neg (by simp [alive])]
  simp only [run, Option.bind_eq_bind, Option.bind_some]
  cases room with
  | false => exact ⟨c₁, false, _, _, rfl, .refused n ended, rep₁⟩
  | true =>
    obtain ⟨size, weight⟩ := free rfl
    have outside : e ∉ c.lruList.take n := fun there => away ((rep.lru e).mp (List.mem_of_mem_take there)).1
    have alive₁ : c₁.life e = .allocated := by
      rw [ended.life, if_neg fun gone => outside gone.1]
      exact alive
    obtain ⟨old, c₂, c', chains', run', ended', linked, same, missed, rep'⟩ := replace_spec rep₁ alive₁
      (fun there => away (List.mem_of_mem_filter there)) size (by rw [(ended.key e).2.2]; exact weight)
    rw [ended.keeps] at rep'
    simp only [(ended.key e).1] at same missed
    refine ⟨c', true, _, chains', by rw [run']; rfl, .done n old (ended.trans ended') ?_ ?_ linked, rep'⟩
    · intro x found
      obtain ⟨member, hit⟩ := same x found
      exact ⟨List.mem_of_mem_filter member, ended.matched hit⟩
    · intro none x member hit
      by_contra stays
      have kept : x ∈ es.filter (c.keeps (c.lruList.take n)) := by
        apply List.mem_filter.mpr
        simp [member, Cache.keeps, stays]
      have silent := missed none x kept
      rw [ended.matches _ stays, hit] at silent
      cases silent

/- stx_cache_empty. -/

theorem emptyLoop_spec (i : Nat) {passed rest : List ι} {fuel : Nat} (rep : Rep F c chains es)
    (split : chains i = passed ++ rest) (enough : rest.length < fuel) :
    ∃ c', emptyLoop fuel c rest.head? = some c' ∧ Ended c rest c' ∧
      Rep F c' (fun j => (chains j).filter (c.keeps rest)) (es.filter (c.keeps rest)) := by
  induction rest generalizing c chains es passed fuel with
  | nil =>
    obtain ⟨fuel, rfl⟩ : ∃ n, fuel = n + 1 := ⟨fuel - 1, by omega⟩
    have nothing : ∀ l : List ι, l.filter (c.keeps []) = l := fun l => c.filter_keeps_self (by simp)
    simp only [nothing]
    exact ⟨c, rfl, .none c, rep⟩
  | cons e rest ih =>
    rw [List.length_cons] at enough
    obtain ⟨fuel, rfl⟩ : ∃ n, fuel = n + 1 := ⟨fuel - 1, by omega⟩
    have seg := rep.table.seg i
    have distinct := rep.table.distinct i
    rw [split] at seg distinct
    obtain ⟨-, -, -, -, after⟩ := seg.back_split
    have alive := rep.alive e ((rep.members e).mpr ⟨i, by rw [split]; simp⟩)
    obtain ⟨c₁, run, ended, rep₁⟩ := delete_spec rep alive
    -- the rest of the chain is as it was: e is neither before nor behind itself
    have still : (chains i).filter (c.keeps [e]) = (passed ++ [e]).filter (c.keeps [e]) ++ rest := by
      have others : rest.filter (c.keeps [e]) = rest := by
        apply c.filter_keeps_self
        intro x member same
        obtain rfl : x = e := by simpa using same
        rw [List.nodup_append, List.nodup_cons] at distinct
        exact absurd member distinct.2.1.1
      rw [split, List.append_cons passed e rest, List.filter_append, others]
    have short : rest.length < fuel := by omega
    obtain ⟨c', run', ended', rep'⟩ := ih rep₁ still short
    simp only [ended.keeps, List.singleton_append] at rep'
    refine ⟨c', ?_, ended.trans ended', rep'⟩
    rw [List.head?_cons, emptyLoop, if_neg (by simp [alive]), after.load_eq]
    simp only [run, Option.bind_eq_bind, Option.bind_some]
    exact run'

theorem empty_buckets (is : List Nat) (once : is.Nodup) (rep : Rep F c chains es) :
    ∃ c', is.foldlM (fun c i => emptyLoop (c.curSize.toNat + 1) c (c.table.load (.root i))) c = some c' ∧
      Ended c (is.flatMap chains) c' ∧ Rep F c' (fun j => (chains j).filter (c.keeps (is.flatMap chains)))
        (es.filter (c.keeps (is.flatMap chains))) := by
  induction is generalizing c chains es with
  | nil =>
    have nothing : ∀ l : List ι, l.filter (c.keeps []) = l := fun l => c.filter_keeps_self (by simp)
    simp only [List.flatMap_nil, nothing]
    exact ⟨c, rfl, .none c, rep⟩
  | cons i is ih =>
    obtain ⟨first, once⟩ := List.nodup_cons.mp once
    have long := rep.chain_length i
    have size := rep.size
    have short : (chains i).length < c.curSize.toNat + 1 := by omega
    obtain ⟨c₁, run, ended, rep₁⟩ := emptyLoop_spec i rep (List.nil_append _).symm short
    rw [← (rep.table.seg i).load_eq] at run
    have others : is.flatMap (fun j => (chains j).filter (c.keeps (chains i))) = is.flatMap chains := by
      apply List.flatMap_congr
      intro j member
      apply c.filter_keeps_self
      intro x here there
      have other : j ≠ i := by rintro rfl; exact first member
      exact absurd there (rep.table.apart j i other here)
    obtain ⟨c', run', ended', rep'⟩ := ih once rep₁
    rw [others] at ended' rep'
    simp only [ended.keeps] at rep'
    refine ⟨c', ?_, ended.trans ended', rep'⟩
    rw [List.foldlM_cons, run]
    exact run'

theorem empty_spec (rep : Rep F c chains es) (positive : 0 < c.hashSize) :
    ∃ c' ts chains', stxCacheEmpty c = some c' ∧ (∀ x, x ∈ ts ↔ x ∈ es) ∧ Ended c ts c' ∧ ts.Nodup ∧
      Rep F c' chains' (es.filter (c.keeps ts)) := by
  obtain ⟨c', run, ended, rep'⟩ := empty_buckets (List.range c.hashSize.toNat) List.nodup_range rep
  refine ⟨c', _, _, run, fun x => ?_, ended, ?_, rep'⟩
  · rw [List.mem_flatMap, rep.members]
    constructor
    · rintro ⟨i, -, member⟩
      exact ⟨i, member⟩
    · rintro ⟨i, member⟩
      refine ⟨i, ?_, member⟩
      rw [rep.home i x member, List.mem_range, Cache.bucket]
      exact BitVec.lt_def.mp (BitVec.umod_lt _ positive)
  · rw [List.nodup_flatMap]
    refine ⟨fun i _ => rep.table.distinct i, List.nodup_range.imp ?_⟩
    intro i j other
    exact rep.table.apart i j other

end StateThreads.Lru
