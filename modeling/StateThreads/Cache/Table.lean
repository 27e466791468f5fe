import StateThreads.Cache.Lru
import Mathlib.Algebra.Order.BigOperators.Group.List
import Mathlib.Algebra.Order.Group.Nat
import Mathlib.Data.List.Perm.Subperm

/-! The hash table, the list of unreferenced entries and the counters of the cache, and what
each call does to them. All calls that end entries have one kind of effect: an entry that
nobody holds is freed, the others are marked. -/
namespace StateThreads.Lru
open Chain

variable {ι K D : Type} [DecidableEq ι] {F : KeyFns K}

structure Rep (F : KeyFns K) (c : Cache ι K D) (chains : Nat → List ι) (es : List ι) : Prop where
  table : c.table.Table chains
  home : ∀ i e, e ∈ chains i → i = c.bucket F (c.entry e).key
  members : ∀ e, e ∈ es ↔ ∃ i, e ∈ chains i
  distinct : es.Nodup
  alive : ∀ e ∈ es, c.life e = .allocated
  loose : ∀ e, e ∉ es → c.table.pthis e = none
  once : c.lruList.Nodup
  lru : ∀ e, e ∈ c.lruList ↔ e ∈ es ∧ (c.entry e).refCount = 0
  size : c.curSize.toNat = es.length
  weight : c.curWeight.toNat = (es.map fun e => (c.entry e).weight.toNat).sum
  sizeBound : c.curSize ≤ c.maxSize
  weightBound : c.curWeight ≤ c.maxWeight
  count : c.inserts - c.deletes = c.curSize

/-- The calls of cleanup_fn for some entries, the last one first. -/
def Cache.calls (c : Cache ι K D) (es : List ι) : List (ι × K × D) :=
  if c.hasCleanup then es.reverse.map fun e => (e, (c.entry e).key, (c.entry e).data) else []

def Cache.keeps (c : Cache ι K D) (ts : List ι) (x : ι) : Bool := !(decide (x ∈ ts) && (c.entry x).refCount == 0)

structure Ended (c : Cache ι K D) (ts : List ι) (c' : Cache ι K D) : Prop where
  entry : ∀ x, c'.entry x = if x ∈ ts then { c.entry x with deletePending := true } else c.entry x
  life : ∀ x, c'.life x = if x ∈ ts ∧ (c.entry x).refCount = 0 then .freed else c.life x
  lruList : c'.lruList = c.lruList.filter fun x => x ∉ ts
  cleaned : c'.cleaned = c.calls (ts.filter fun x => (c.entry x).refCount = 0) ++ c.cleaned
  limits : c'.maxSize = c.maxSize ∧ c'.maxWeight = c.maxWeight ∧ c'.hashSize = c.hashSize ∧ c'.hasCleanup = c.hasCleanup

section
variable {c c' c'' : Cache ι K D} {ts us : List ι} {chains : Nat → List ι} {es : List ι} {e : ι}

theorem Ended.none (c : Cache ι K D) : Ended c [] c where
  entry x := by simp
  life x := by simp
  lruList := by simp
  cleaned := by simp [Cache.calls]
  limits := ⟨rfl, rfl, rfl, rfl⟩

theorem Ended.refCount (ended : Ended c ts c') (x : ι) : (c'.entry x).refCount = (c.entry x).refCount := by
  rw [ended.entry]
  split <;> rfl

theorem Ended.key (ended : Ended c ts c') (x : ι) :
    (c'.entry x).key = (c.entry x).key ∧ (c'.entry x).data = (c.entry x).data ∧ (c'.entry x).weight = (c.entry x).weight := by
  rw [ended.entry]
  split <;> exact ⟨rfl, rfl, rfl⟩

theorem Ended.calls (ended : Ended c ts c') (us : List ι) : c'.calls us = c.calls us := by
  unfold Cache.calls
  rw [ended.limits.2.2.2]
  simp only [(ended.key _).1, (ended.key _).2.1]

omit [DecidableEq ι] in
theorem Cache.calls_append (c : Cache ι K D) (ts us : List ι) : c.calls (ts ++ us) = c.calls us ++ c.calls ts := by
  unfold Cache.calls
  split <;> simp

theorem Ended.trans (first : Ended c ts c') (second : Ended c' us c'') : Ended c (ts ++ us) c'' where
  entry x := by
    rw [second.entry, first.entry]
    by_cases early : x ∈ ts <;> by_cases late : x ∈ us <;> simp [early, late]
  life x := by
    rw [second.life, first.refCount, first.life]
    by_cases early : x ∈ ts <;> by_cases late : x ∈ us <;> by_cases free : (c.entry x).refCount = 0 <;>
      simp [early, late, free]
  lruList := by
    rw [second.lruList, first.lruList, List.filter_filter]
    apply List.filter_congr
    intro x _
    by_cases early : x ∈ ts <;> by_cases late : x ∈ us <;> simp [early, late]
  cleaned := by
    rw [second.cleaned, first.cleaned, first.calls, List.filter_append, Cache.calls_append, List.append_assoc]
    simp only [first.refCount]
  limits := ⟨second.limits.1.trans first.limits.1, second.limits.2.1.trans first.limits.2.1,
    second.limits.2.2.1.trans first.limits.2.2.1, second.limits.2.2.2.trans first.limits.2.2.2⟩

theorem Ended.keeps (ended : Ended c ts c') (us : List ι) (l : List ι) :
    (l.filter (c.keeps ts)).filter (c'.keeps us) = l.filter (c.keeps (ts ++ us)) := by
  rw [List.filter_filter]
  apply List.filter_congr
  intro x _
  simp only [Cache.keeps, ended.refCount, List.mem_append]
  by_cases early : x ∈ ts <;> by_cases late : x ∈ us <;> simp [early, late]

theorem Cache.filter_keeps_self (c : Cache ι K D) {l : List ι} (away : ∀ x ∈ l, x ∈ ts → (c.entry x).refCount ≠ 0) :
    l.filter (c.keeps ts) = l := by
  apply List.filter_eq_self.mpr
  intro x member
  have held := away x member
  simp only [Cache.keeps, Bool.not_eq_true', Bool.and_eq_false_iff, decide_eq_false_iff_not, beq_eq_false_iff_ne]
  by_cases ended : x ∈ ts
  · exact .inr (held ended)
  · exact .inl ended

omit [DecidableEq ι] in
theorem Rep.mem_iff (rep : Rep F c chains es) : e ∈ es ↔ e ∈ chains (c.bucket F (c.entry e).key) := by
  rw [rep.members]
  constructor
  · rintro ⟨i, member⟩
    rw [← rep.home i e member]
    exact member
  · exact fun member => ⟨_, member⟩

theorem Cache.mark_entry (c : Cache ι K D) (e x : ι) :
    (c.mark e).entry x = if x ∈ [e] then { c.entry x with deletePending := true } else c.entry x := by
  by_cases h : x = e
  · subst h; simp [Cache.mark, Cache.setEntry]
  · simp [Cache.mark, Cache.setEntry, h]

theorem Cache.mark_same (c : Cache ι K D) (e x : ι) : ((c.mark e).entry x).key = (c.entry x).key ∧
    ((c.mark e).entry x).data = (c.entry x).data ∧ ((c.mark e).entry x).weight = (c.entry x).weight ∧
    ((c.mark e).entry x).refCount = (c.entry x).refCount := by
  rw [c.mark_entry]
  split <;> exact ⟨rfl, rfl, rfl, rfl⟩

theorem Rep.marked (rep : Rep F c chains es) (e : ι) : Rep F (c.mark e) chains es := by
  constructor
  case home =>
    intro i x member
    rw [rep.home i x member, Cache.bucket, Cache.bucket, (c.mark_same e x).1]
    rfl
  case lru =>
    intro x
    rw [(c.mark_same e x).2.2.2]
    exact rep.lru x
  case weight =>
    simp only [(c.mark_same e _).2.2.1]
    exact rep.weight
  all_goals first | exact rep.table | exact rep.members | exact rep.distinct | exact rep.alive | exact rep.loose |
    exact rep.once | exact rep.size | exact rep.sizeBound | exact rep.weightBound | exact rep.count

theorem Cache.keeps_one (free : (c.entry e).refCount = 0) (x : ι) : c.keeps [e] x = decide (x ≠ e) := by
  unfold Cache.keeps
  by_cases h : x = e
  · subst h; simp [free]
  · simp [h]

theorem Cache.filter_keeps_one (free : (c.entry e).refCount = 0) {l : List ι} (distinct : l.Nodup) :
    l.filter (c.keeps [e]) = l.erase e := by
  rw [distinct.erase_eq_filter]
  apply List.filter_congr
  intro x _
  rw [Cache.keeps_one free]
  by_cases h : x = e <;> simp [h]

theorem Rep.freed (rep : Rep F c chains es) (away : e ∉ es) : Rep F (c.free e) chains es := by
  constructor
  case table => exact rep.table.forget fun j member => away ((rep.members e).mpr ⟨j, member⟩)
  case alive =>
    intro x member
    have other : x ≠ e := by rintro rfl; exact away member
    simpa [Cache.free, other] using rep.alive x member
  case loose =>
    intro x outside
    by_cases h : x = e
    · subst h; simp [Cache.free, Links.forget]
    · simpa [Cache.free, Links.forget, h] using rep.loose x outside
  all_goals first | exact rep.home | exact rep.members | exact rep.distinct | exact rep.once | exact rep.lru |
    exact rep.size | exact rep.weight | exact rep.sizeBound | exact rep.weightBound | exact rep.count

theorem sum_erase {es : List ι} {e : ι} (member : e ∈ es) (w : ι → Nat) :
    (es.map w).sum = w e + ((es.erase e).map w).sum := by
  rw [((List.perm_cons_erase member).map w).sum_eq, List.map_cons, List.sum_cons]

theorem Rep.unlinked (rep : Rep F c chains es) (member : e ∈ es) (free : (c.entry e).refCount = 0) :
    ∃ p c', c.table.pthis e = some p ∧ c.unlink p e = some c' ∧ c'.entry = c.entry ∧ c'.life = c.life ∧
      c'.cleaned = c.cleaned ∧ c'.lruList = c.lruList.erase e ∧
      (c'.maxSize = c.maxSize ∧ c'.maxWeight = c.maxWeight ∧ c'.hashSize = c.hashSize ∧ c'.hasCleanup = c.hasCleanup) ∧
      Rep F (c'.free e) (fun i => (chains i).erase e) (es.erase e) := by
  have inside := rep.mem_iff.mp member
  obtain ⟨p, back, -, before, after, table⟩ := rep.table.unlink inside
  have life : ∀ x, x ∈ chains (c.bucket F (c.entry e).key) → c.life x = .allocated :=
    fun x there => rep.alive x ((rep.members x).mpr ⟨_, there⟩)
  have ok : (c.holds p && c.safe (c.table.load (.next e)) && decide (e ∈ c.lruList)) = true := by
    simp only [Bool.and_eq_true, decide_eq_true_eq]
    refine ⟨⟨?_, ?_⟩, (rep.lru e).mpr ⟨member, free⟩⟩
    · cases p with
      | root i => rfl
      | next x => exact decide_eq_true (life x (before x rfl))
    · cases next : c.table.load (.next e) with
      | none => rfl
      | some x => exact decide_eq_true (life x (after x next))
  have shorter : Function.update chains (c.bucket F (c.entry e).key) ((chains (c.bucket F (c.entry e).key)).erase e) =
      fun i => (chains i).erase e := by
    funext j
    by_cases h : j = c.bucket F (c.entry e).key
    · subst h; simp
    · rw [Function.update_of_ne h, List.erase_of_not_mem]
      intro there
      exact h (rep.home j e there)
  rw [shorter] at table
  have total := sum_erase member fun x => (c.entry x).weight.toNat
  have number := List.length_erase_of_mem member
  have positive := List.length_pos_of_mem member
  have size := rep.size
  have weight := rep.weight
  have sizeBound := rep.sizeBound
  have weightBound := rep.weightBound
  rw [BitVec.le_def] at sizeBound weightBound
  have run : c.unlink p e = some { c with
      table := c.table.unlink p e
      curSize := c.curSize - 1
      curWeight := c.curWeight - (c.entry e).weight
      deletes := c.deletes + 1
      lruList := c.lruList.erase e } := if_pos ok
  refine ⟨p, _, back, run, rfl, rfl, rfl, rfl, ⟨rfl, rfl, rfl, rfl⟩, ?_⟩
  constructor
  case table => exact table
  case home => exact fun i x there => rep.home i x (List.mem_of_mem_erase there)
  case members =>
    intro x
    rw [rep.distinct.mem_erase_iff, rep.members]
    constructor
    · rintro ⟨other, i, there⟩
      exact ⟨i, (List.mem_erase_of_ne other).mpr there⟩
    · rintro ⟨i, there⟩
      obtain ⟨other, there⟩ := (rep.table.distinct i).mem_erase_iff.mp there
      exact ⟨other, i, there⟩
  case distinct => exact rep.distinct.erase e
  case alive =>
    intro x there
    obtain ⟨other, there⟩ := rep.distinct.mem_erase_iff.mp there
    simpa [Cache.free, other] using rep.alive x there
  case loose =>
    intro x outside
    by_cases h : x = e
    · subst h; simp [Cache.free, Links.forget]
    · have away : x ∉ es := fun there => outside (rep.distinct.mem_erase_iff.mpr ⟨h, there⟩)
      have notNext : c.table.load (.next e) ≠ some x :=
        fun next => away ((rep.members x).mpr ⟨_, after x next⟩)
      simpa [Cache.free, Links.forget, Links.unlink, h, notNext] using rep.loose x away
  case once => exact rep.once.erase e
  case lru =>
    intro x
    have same := rep.lru x
    simp only [Cache.free, rep.once.mem_erase_iff, rep.distinct.mem_erase_iff, same]
    tauto
  case size =>
    simp only [Cache.free]
    rw [BitVec.toNat_sub_of_le (by rw [BitVec.le_def]; simp; omega), number, size]
    rfl
  case weight =>
    simp only [Cache.free]
    rw [BitVec.toNat_sub_of_le (by rw [BitVec.le_def]; omega)]
    omega
  case sizeBound =>
    simp only [Cache.free, BitVec.le_def]
    rw [BitVec.toNat_sub_of_le (by rw [BitVec.le_def]; simp; omega)]
    omega
  case weightBound =>
    simp only [Cache.free, BitVec.le_def]
    rw [BitVec.toNat_sub_of_le (by rw [BitVec.le_def]; omega)]
    omega
  case count =>
    simp only [Cache.free]
    rw [← rep.count]
    bv_omega

theorem Ended.freed (free : (c.entry e).refCount = 0) (entry : c'.entry = (c.mark e).entry) (life : c'.life = c.life)
    (cleaned : c'.cleaned = c.cleaned) (lruList : c'.lruList = c.lruList.filter fun x => x ∉ [e])
    (limits : c'.maxSize = c.maxSize ∧ c'.maxWeight = c.maxWeight ∧ c'.hashSize = c.hashSize ∧
      c'.hasCleanup = c.hasCleanup) : Ended c [e] (c'.free e) where
  entry x := by
    rw [← c.mark_entry, ← entry]
    rfl
  life x := by
    simp only [Cache.free, life]
    by_cases h : x = e
    · subst h; simp [free]
    · simp [h]
  lruList := lruList
  cleaned := by
    simp only [Cache.free, entry, cleaned, Cache.calls, (c.mark_same e e).1, (c.mark_same e e).2.1, limits.2.2.2]
    cases c.hasCleanup <;> simp [free]
  limits := limits

theorem delete_held (rep : Rep F c chains es) (alive : c.life e = .allocated) (held : 0 < (c.entry e).refCount) :
    stxCacheEntryDelete c e = some (c.mark e) ∧ Ended c [e] (c.mark e) := by
  have count : ((c.mark e).entry e).refCount = (c.entry e).refCount := (c.mark_same e e).2.2.2
  have only : ∀ x, x ∈ [e] → (c.entry x).refCount ≠ 0 := by
    intro x same
    obtain rfl : x = e := by simpa using same
    omega
  refine ⟨?_, ⟨c.mark_entry e, fun x => ?_, ?_, ?_, ⟨rfl, rfl, rfl, rfl⟩⟩⟩
  · rw [stxCacheEntryDelete, if_neg (by simp [alive])]
    exact if_pos (by omega)
  · rw [if_neg]
    · rfl
    · exact fun ended => only x ended.1 ended.2
  · symm
    apply List.filter_eq_self.mpr
    intro x member
    have free := ((rep.lru x).mp member).2
    exact decide_eq_true fun same => only x same free
  · have none : ([e].filter fun x => (c.entry x).refCount = 0) = [] := by
      apply List.filter_eq_nil_iff.mpr
      intro x same free
      exact only x same (of_decide_eq_true free)
    rw [none]
    simp [Cache.calls, Cache.mark, Cache.setEntry]

theorem delete_free (rep : Rep F c chains es) (alive : c.life e = .allocated) (free : (c.entry e).refCount = 0) :
    ∃ c', stxCacheEntryDelete c e = some c' ∧ Ended c [e] c' ∧ Rep F c' (fun i => (chains i).erase e) (es.erase e) := by
  have free' : ((c.mark e).entry e).refCount = 0 := (c.mark_same e e).2.2.2.trans free
  have start : stxCacheEntryDelete c e = (c.table.pthis e).elim (some ((c.mark e).free e))
      fun p => ((c.mark e).unlink p e).map fun c => c.free e := by
    rw [stxCacheEntryDelete, if_neg (by simp [alive])]
    refine (if_neg (by omega)).trans ?_
    rw [show (c.mark e).table = c.table from rfl]
    cases c.table.pthis e <;> rfl
  rw [start]
  by_cases member : e ∈ es
  · obtain ⟨p, c', back, run, entry, life, cleaned, lruList, limits, rep'⟩ := (rep.marked e).unlinked member free'
    rw [show c.table.pthis e = _ from back, Option.elim_some, run]
    refine ⟨c'.free e, rfl, ?_, rep'⟩
    apply Ended.freed free entry life cleaned _ limits
    rw [lruList]
    exact (rep.once.erase_eq_filter e).trans (List.filter_congr fun x _ => by by_cases h : x = e <;> simp [h])
  · have away : ∀ i, e ∉ chains i := fun i there => member ((rep.members e).mpr ⟨i, there⟩)
    rw [rep.loose e member]
    refine ⟨(c.mark e).free e, rfl, ?_, ?_⟩
    · apply Ended.freed free rfl rfl rfl _ ⟨rfl, rfl, rfl, rfl⟩
      symm
      apply List.filter_eq_self.mpr
      intro x there
      have other : x ≠ e := by rintro rfl; exact member ((rep.lru x).mp there).1
      simpa using other
    · simp only [List.erase_of_not_mem (away _), List.erase_of_not_mem member]
      exact (rep.marked e).freed member

theorem delete_spec (rep : Rep F c chains es) (alive : c.life e = .allocated) :
    ∃ c', stxCacheEntryDelete c e = some c' ∧ Ended c [e] c' ∧
      Rep F c' (fun i => (chains i).filter (c.keeps [e])) (es.filter (c.keeps [e])) := by
  by_cases held : 0 < (c.entry e).refCount
  · obtain ⟨run, ended⟩ := delete_held rep alive held
    have kept : ∀ l : List ι, l.filter (c.keeps [e]) = l := by
      intro l
      apply c.filter_keeps_self
      intro x _ same
      obtain rfl : x = e := by simpa using same
      omega
    simp only [kept]
    exact ⟨_, run, ended, rep.marked e⟩
  · have free : (c.entry e).refCount = 0 := by omega
    obtain ⟨c', run, ended, rep'⟩ := delete_free rep alive free
    simp only [Cache.filter_keeps_one free (rep.table.distinct _), Cache.filter_keeps_one free rep.distinct]
    exact ⟨c', run, ended, rep'⟩

/- Search. -/

def Cache.matches (F : KeyFns K) (c : Cache ι K D) (key : K) (e : ι) : Bool :=
  !(c.entry e).deletePending && F.keyCmpFn key (c.entry e).key == 0

omit [DecidableEq ι] in
theorem findLoop_spec (key : K) {slot : Slot Nat ι} {l : List ι} (seg : c.table.Segment slot l)
    (alive : ∀ e ∈ l, c.life e = .allocated) {fuel : Nat} (enough : l.length < fuel) :
    findLoop F c key fuel (c.table.load slot) = some (l.find? (c.matches F key)) := by
  induction l generalizing slot fuel with
  | nil =>
    obtain ⟨fuel, rfl⟩ : ∃ n, fuel = n + 1 := ⟨fuel - 1, by omega⟩
    rw [show c.table.load slot = none from seg]
    rfl
  | cons e l ih =>
    obtain ⟨here, -, seg⟩ := seg
    rw [List.length_cons] at enough
    obtain ⟨fuel, rfl⟩ : ∃ n, fuel = n + 1 := ⟨fuel - 1, by omega⟩
    rw [here, findLoop, if_neg (by simp [alive e (List.mem_cons_self ..)])]
    have same : ((c.entry e).deletePending = false ∧ F.keyCmpFn key (c.entry e).key = 0) ↔ c.matches F key e = true := by
      simp [Cache.matches]
    by_cases hit : c.matches F key e = true
    · rw [if_pos (same.mpr hit), List.find?_cons_of_pos hit]
    · rw [if_neg fun h => hit (same.mp h), List.find?_cons_of_neg hit]
      exact ih seg (fun x member => alive x (List.mem_cons_of_mem _ member)) (by omega)

omit [DecidableEq ι] in
theorem Rep.chain_length (rep : Rep F c chains es) (i : Nat) : (chains i).length ≤ es.length := by
  have part : chains i ⊆ es := fun x member => (rep.members x).mpr ⟨i, member⟩
  exact ((rep.table.distinct i).subperm part).length_le

omit [DecidableEq ι] in
theorem Rep.find (rep : Rep F c chains es) (key : K) :
    c.find F key = some ((chains (c.bucket F key)).find? (c.matches F key)) := by
  have long := rep.chain_length (c.bucket F key)
  have size := rep.size
  exact findLoop_spec key (rep.table.seg _) (fun x member => rep.alive x ((rep.members x).mpr ⟨_, member⟩)) (by omega)

omit [DecidableEq ι] in
theorem Rep.bucket_of_matches (rep : Rep F c chains es) {key : K} (member : e ∈ es) (hit : c.matches F key e = true) :
    e ∈ chains (c.bucket F key) := by
  have equal : F.keyCmpFn key (c.entry e).key = 0 := by
    simp only [Cache.matches, Bool.and_eq_true, beq_iff_eq] at hit
    exact hit.2
  have here := rep.mem_iff.mp member
  rw [Cache.bucket, ← F.consistent _ _ equal] at here
  exact here

omit [DecidableEq ι] in
theorem Rep.find_cases (rep : Rep F c chains es) (key : K) :
    ∃ found, c.find F key = some found ∧ (∀ e, found = some e → e ∈ es ∧ c.matches F key e = true) ∧
      (found = none → ∀ e ∈ es, c.matches F key e = false) := by
  refine ⟨_, rep.find key, fun e found => ?_, fun found e member => ?_⟩
  · exact ⟨(rep.members e).mpr ⟨_, List.mem_of_find?_eq_some found⟩, List.find?_some found⟩
  · by_contra hit
    have hit : c.matches F key e = true := by simpa using hit
    exact List.find?_eq_none.mp found e (rep.bucket_of_matches member hit) hit

/- Room for a new entry. -/

theorem Ended.lru_head {l : List ι} (ended : Ended c [e] c') (list : c.lruList = e :: l) (once : c.lruList.Nodup) :
    c'.lruList = l := by
  rw [list] at once
  rw [ended.lruList, list, List.filter_cons_of_neg (by simp)]
  apply List.filter_eq_self.mpr
  intro x member
  have other : x ≠ e := by rintro rfl; exact (List.nodup_cons.mp once).1 member
  simpa using other

theorem delete_lru {l : List ι} (rep : Rep F c chains es) (list : c.lruList = e :: l) :
    ∃ c', stxCacheEntryDelete c e = some c' ∧ Ended c [e] c' ∧ c'.lruList = l ∧
      Rep F c' (fun i => (chains i).filter (c.keeps [e])) (es.filter (c.keeps [e])) := by
  have member : e ∈ c.lruList := by rw [list]; exact List.mem_cons_self ..
  obtain ⟨c', run, ended, rep'⟩ := delete_spec rep (rep.alive e ((rep.lru e).mp member).1)
  exact ⟨c', run, ended, ended.lru_head list rep.once, rep'⟩

theorem evictLoop_spec (weight : Word) {fuel : Nat} (rep : Rep F c chains es) (enough : c.lruList.length < fuel)
    (small : c.maxWeight.toNat + weight.toNat < 2 ^ 64) :
    ∃ c' room n, evictLoop weight fuel c = some (c', room) ∧ Ended c (c.lruList.take n) c' ∧
      c'.lruList = c.lruList.drop n ∧
      Rep F c' (fun i => (chains i).filter (c.keeps (c.lruList.take n))) (es.filter (c.keeps (c.lruList.take n))) ∧
      (room = true → c'.curWeight.toNat + weight.toNat ≤ c'.maxWeight.toNat) := by
  induction fuel generalizing c chains es with
  | zero => omega
  | succ fuel ih =>
    have nothing : ∀ l : List ι, l.filter (c.keeps []) = l := fun l => c.filter_keeps_self (by simp)
    rw [evictLoop]
    split
    · cases list : c.lruList with
      | nil =>
        refine ⟨c, false, 0, by simp [stxCacheEntryGetlru, list], ?_, ?_, ?_, by simp⟩
        · simpa using Ended.none c
        · simp [list]
        · simpa [nothing] using rep
      | cons old l =>
        obtain ⟨c₁, run, ended, rest, rep₁⟩ := delete_lru rep list
        have shorter : c₁.lruList.length < fuel := by
          rw [list, List.length_cons] at enough
          rw [rest]
          omega
        obtain ⟨c', room, n, run', ended', rest', rep', fits⟩ := ih rep₁ shorter (by rw [ended.limits.2.1]; exact small)
        rw [rest] at ended' rest' rep'
        have first : Ended c ((old :: l).take (n + 1)) c' := by
          rw [List.take_succ_cons]
          exact ended.trans ended'
        simp only [ended.keeps, List.singleton_append] at rep'
        refine ⟨c', room, n + 1, ?_, first, ?_, ?_, fits⟩
        · simp only [stxCacheEntryGetlru, list, List.head?_cons, run, Option.bind_eq_bind, Option.bind_some]
          exact run'
        · rw [rest', List.drop_succ_cons]
        · rw [List.take_succ_cons]
          exact rep'
    · rename_i fits
      refine ⟨c, true, 0, rfl, ?_, by simp, ?_, fun _ => ?_⟩
      · simpa using Ended.none c
      · simpa [nothing] using rep
      · have bound := rep.weightBound
        rw [BitVec.le_def] at bound
        rw [BitVec.lt_def, BitVec.toNat_add_of_lt (by omega)] at fits
        omega

theorem Rep.lighter {p : ι → Bool} {chains' : Nat → List ι} (rep : Rep F c chains es) (ended : Ended c ts c')
    (rep' : Rep F c' chains' (es.filter p)) :
    c'.curSize.toNat ≤ c.curSize.toNat ∧ c'.curWeight.toNat ≤ c.curWeight.toNat := by
  rw [rep.size, rep.weight, rep'.size, rep'.weight]
  simp only [(ended.key _).2.2]
  exact ⟨List.length_filter_le .., (List.filter_sublist.map _).sum_le_sum (by simp)⟩

theorem evictOne_spec (rep : Rep F c chains es) :
    ∃ c' room n, evictOne c = some (c', room) ∧ Ended c (c.lruList.take n) c' ∧
      Rep F c' (fun i => (chains i).filter (c.keeps (c.lruList.take n))) (es.filter (c.keeps (c.lruList.take n))) ∧
      (room = true → c'.curSize.toNat < c'.maxSize.toNat) := by
  have nothing : ∀ l : List ι, l.filter (c.keeps []) = l := fun l => c.filter_keeps_self (by simp)
  unfold evictOne
  split
  · rename_i full
    cases list : c.lruList with
    | nil =>
      refine ⟨c, false, 0, by simp [stxCacheEntryGetlru, list], ?_, ?_, by simp⟩
      · simpa using Ended.none c
      · simpa [nothing] using rep
    | cons old l =>
      obtain ⟨c', run, ended, rest, rep'⟩ := delete_lru rep list
      have member := (rep.lru old).mp (by rw [list]; exact List.mem_cons_self ..)
      refine ⟨c', true, 1, by simp [stxCacheEntryGetlru, list, run], by simpa using ended, by simpa using rep', fun _ => ?_⟩
      have bound := rep.sizeBound
      have size := rep.size
      have size' := rep'.size
      rw [Cache.filter_keeps_one member.2 rep.distinct, List.length_erase_of_mem member.1] at size'
      have positive := List.length_pos_of_mem member.1
      rw [BitVec.le_def] at bound full
      rw [ended.limits.1]
      omega
  · rename_i room
    refine ⟨c, true, 0, rfl, ?_, ?_, fun _ => ?_⟩
    · simpa using Ended.none c
    · simpa [nothing] using rep
    · rw [BitVec.le_def] at room
      omega

/- The new entry. -/

structure Linked (c : Cache ι K D) (e : ι) (c' : Cache ι K D) : Prop where
  entry : c'.entry = Function.update c.entry e { c.entry e with refCount := (c.entry e).refCount + 1 }
  life : c'.life = c.life
  lruList : c'.lruList = c.lruList
  cleaned : c'.cleaned = c.cleaned
  limits : c'.maxSize = c.maxSize ∧ c'.maxWeight = c.maxWeight ∧ c'.hashSize = c.hashSize ∧ c'.hasCleanup = c.hasCleanup

theorem link_spec (rep : Rep F c chains es) (away : e ∉ es) (alive : c.life e = .allocated)
    (size : c.curSize.toNat < c.maxSize.toNat)
    (weight : c.curWeight.toNat + (c.entry e).weight.toNat ≤ c.maxWeight.toNat) :
    ∃ c' chains', c.link F e = some c' ∧ Linked c e c' ∧ Rep F c' chains' (e :: es) := by
  have fresh : ∀ i, e ∉ chains i := fun i there => away ((rep.members e).mpr ⟨i, there⟩)
  have safe : c.safe (c.table.load (.root (c.bucket F (c.entry e).key))) = true := by
    rw [(rep.table.seg _).load_eq]
    cases head : (chains (c.bucket F (c.entry e).key)).head? with
    | none => rfl
    | some x =>
      have member := List.mem_of_mem_head? (Option.mem_def.mpr head)
      exact decide_eq_true (rep.alive x ((rep.members x).mpr ⟨_, member⟩))
  let entry := Function.update c.entry e { c.entry e with refCount := (c.entry e).refCount + 1 }
  have same : ∀ x, (entry x).key = (c.entry x).key ∧ (entry x).weight = (c.entry x).weight ∧
      (x ≠ e → (entry x).refCount = (c.entry x).refCount) := by
    intro x
    by_cases h : x = e
    · subst h; simp [entry]
    · simp [entry, h]
  have run : c.link F e = some { c with
      entry := entry
      table := c.table.push (c.bucket F (c.entry e).key) e
      inserts := c.inserts + 1
      curSize := c.curSize + 1
      curWeight := c.curWeight + (c.entry e).weight } := by
    rw [Cache.link]
    exact if_pos safe
  have maxSize := c.maxSize.isLt
  have maxWeight := c.maxWeight.isLt
  refine ⟨_, Function.update chains (c.bucket F (c.entry e).key) (e :: chains (c.bucket F (c.entry e).key)), run,
    ⟨rfl, rfl, rfl, rfl, ⟨rfl, rfl, rfl, rfl⟩⟩, ?_⟩
  have added : ∀ i x, x ∈ Function.update chains (c.bucket F (c.entry e).key)
      (e :: chains (c.bucket F (c.entry e).key)) i ↔ x ∈ chains i ∨ i = c.bucket F (c.entry e).key ∧ x = e := by
    intro i x
    by_cases h : i = c.bucket F (c.entry e).key
    · subst h
      rw [Function.update_self, List.mem_cons]
      tauto
    · simp [h]
  constructor
  case table => exact rep.table.push _ fresh
  case home =>
    intro i x member
    rw [Cache.bucket]
    simp only [(same x).1]
    obtain old | ⟨rfl, rfl⟩ := (added i x).mp member
    · exact rep.home i x old
    · rfl
  case members =>
    intro x
    simp only [added, exists_or, ← rep.members, List.mem_cons, exists_eq_left]
    tauto
  case distinct => exact List.nodup_cons.mpr ⟨away, rep.distinct⟩
  case alive =>
    intro x member
    obtain rfl | old := List.mem_cons.mp member
    · exact alive
    · exact rep.alive x old
  case loose =>
    intro x outside
    simp only [List.mem_cons, not_or] at outside
    have notFirst : c.table.load (.root (c.bucket F (c.entry e).key)) ≠ some x := by
      rw [(rep.table.seg _).load_eq]
      intro head
      exact outside.2 ((rep.members x).mpr ⟨_, List.mem_of_mem_head? (Option.mem_def.mpr head)⟩)
    simpa [Links.push, notFirst, Ne.symm outside.1] using rep.loose x outside.2
  case once => exact rep.once
  case lru =>
    intro x
    by_cases h : x = e
    · subst h
      have off : x ∉ c.lruList := fun there => away ((rep.lru x).mp there).1
      simp [off, entry]
    · simp [(same x).2.2 h, h, rep.lru x]
  case size =>
    have size' := rep.size
    dsimp only
    rw [BitVec.toNat_add_of_lt (by simp; omega), List.length_cons, size']
    rfl
  case weight =>
    have weight' := rep.weight
    simp only [(same _).2.1, List.map_cons, List.sum_cons]
    rw [BitVec.toNat_add_of_lt (by omega)]
    omega
  case sizeBound =>
    rw [BitVec.le_def]
    dsimp only
    rw [BitVec.toNat_add_of_lt (by simp; omega)]
    exact size
  case weightBound =>
    rw [BitVec.le_def]
    dsimp only
    rw [BitVec.toNat_add_of_lt (by omega)]
    exact weight
  case count =>
    dsimp only
    rw [← rep.count]
    bv_omega

end

end StateThreads.Lru
