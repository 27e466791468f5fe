import StateThreads.Cache.Calls
import StateThreads.Lib.Run

/-! The cache and those who use it. A caller inserts an entry that is not yet in the cache,
gives back only references it holds, and leaves freed entries alone. -/
namespace StateThreads.Lru
open Chain LabelledRun

variable {ι η K D : Type}

structure World (ι η K D : Type) where
  cache : Cache ι K D
  refs : List (η × ι)
  inserted : ι → Bool

inductive CacheOp (ι η K D : Type) where
  | create (e : Option ι) (key : K) (data : D) (weight : Word)
  | insert (holder : η) (e : ι)
  | lookup (holder : η) (key : K)
  | release (holder : η) (e : ι)
  | delete (e : ι)
  | empty

inductive CacheRet (ι : Type) where
  | entry (e : Option ι)
  | status (ok : Bool)
  | done
deriving DecidableEq, Repr

variable [DecidableEq ι]

def cacheStep [DecidableEq η] (F : KeyFns K) (w : World ι η K D) : CacheOp ι η K D → Option (World ι η K D × CacheRet ι)
  | .create none _ _ _ => some (w, .entry none)
  | .create (some e) key data weight =>
    some ({ w with cache := stxCacheEntryCreate w.cache e key data weight }, .entry (some e))
  | .insert holder e => do
    let (c, ok) ← stxCacheEntryInsert F w.cache e
    if ok then some (⟨c, (holder, e) :: w.refs, Function.update w.inserted e true⟩, .status true)
    else some ({ w with cache := c }, .status false)
  | .lookup holder key => do
    let (c, found) ← stxCacheEntryLookup F w.cache key
    match found with
    | none => some ({ w with cache := c }, .entry none)
    | some e => some ({ w with cache := c, refs := (holder, e) :: w.refs }, .entry (some e))
  | .release holder e => do
    let c ← stxCacheEntryRelease w.cache e
    some ({ w with cache := c, refs := w.refs.erase (holder, e) }, .done)
  | .delete e => do
    let c ← stxCacheEntryDelete w.cache e
    some ({ w with cache := c }, .done)
  | .empty => do
    let c ← stxCacheEmpty w.cache
    some ({ w with cache := c }, .done)

def cacheEnabled [DecidableEq η] (w : World ι η K D) : CacheOp ι η K D → Bool
  | .create e _ _ _ => e.all fun e => w.cache.life e = .unborn
  | .insert _ e => w.cache.life e = .allocated && !w.inserted e &&
      decide (w.cache.maxWeight.toNat + (w.cache.entry e).weight.toNat < 2 ^ 64)
  | .lookup _ _ | .empty => true
  | .release holder e => (holder, e) ∈ w.refs
  | .delete e => w.cache.life e = .allocated

def cacheMachine [DecidableEq η] (F : KeyFns K) : Machine (World ι η K D) (CacheOp ι η K D) (CacheRet ι) where
  enabled := cacheEnabled
  step := cacheStep F

def CacheStarted (w : World ι η K D) : Prop :=
  ∃ maxSize maxWeight hashSize hasCleanup entry, 0 < hashSize ∧
    w = ⟨stxCacheCreate maxSize maxWeight hashSize hasCleanup entry, [], fun _ => false⟩

abbrev CacheEvent (ι η K D : Type) := Event (World ι η K D) (CacheOp ι η K D) (CacheRet ι)

abbrev CacheRun [DecidableEq η] (F : KeyFns K) := Run (cacheMachine F) (CacheStarted (ι := ι) (η := η) (K := K) (D := D))

structure Kept (F : KeyFns K) (w : World ι η K D) (es : List ι) : Prop where
  positive : 0 < w.cache.hashSize
  unique : ∀ x ∈ es, ∀ y ∈ es, (w.cache.entry x).deletePending = false → (w.cache.entry y).deletePending = false →
    F.keyCmpFn (w.cache.entry x).key (w.cache.entry y).key = 0 → x = y
  table : ∀ x, x ∈ es ↔ w.inserted x = true ∧ w.cache.life x = .allocated
  counts : ∀ x ∈ es, (w.cache.entry x).refCount = w.refs.countP fun r => r.2 = x
  held : ∀ r ∈ w.refs, r.2 ∈ es
  fresh : ∀ x, w.cache.life x = .allocated → x ∉ es →
    (w.cache.entry x).refCount = 0 ∧ (w.cache.entry x).deletePending = false
  unborn : ∀ x, w.cache.life x = .unborn → w.inserted x = false
  cleaned : w.cache.hasCleanup = true → (w.cache.cleaned.map Prod.fst).Nodup ∧
    ∀ x, x ∈ w.cache.cleaned.map Prod.fst ↔ w.cache.life x = .freed

def Waiting (c : Cache ι K D) (es : List ι) : Prop := ∀ x ∈ es, (c.entry x).deletePending = true → 0 < (c.entry x).refCount

section
variable {F : KeyFns K} {w : World ι η K D} {c' : Cache ι K D} {es ts : List ι} {e : ι} {h : η}

theorem Kept.start (started : CacheStarted w) : Kept F w [] ∧ Rep F w.cache (fun _ => []) [] := by
  obtain ⟨maxSize, maxWeight, hashSize, hasCleanup, entry, positive, rfl⟩ := started
  constructor
  · refine ⟨positive, by simp, ?_, by simp, by simp, ?_, by simp, ?_⟩
    all_goals simp [stxCacheCreate]
  · refine ⟨⟨fun i => rfl, by simp, by simp⟩, by simp, by simp, by simp, by simp, fun e _ => rfl, ?_, ?_, rfl, rfl, ?_, ?_, ?_⟩
    all_goals simp [stxCacheCreate, BitVec.le_def]

theorem Kept.referenced (kept : Kept F w es) {r : η × ι} (held : r ∈ w.refs) :
    0 < (w.cache.entry r.2).refCount := by
  rw [kept.counts r.2 (kept.held r held)]
  exact List.countP_pos_iff.mpr ⟨r, held, by simp⟩

omit [DecidableEq ι] in
theorem Cache.mem_calls (c : Cache ι K D) (cleans : c.hasCleanup = true) (us : List ι) :
    (c.calls us).map Prod.fst = us.reverse := by
  simp [Cache.calls, cleans, Function.comp_def]

theorem Kept.alive (kept : Kept F w es) (member : e ∈ es) : w.cache.life e = .allocated := ((kept.table e).mp member).2

theorem Kept.ended (kept : Kept F w es) (ended : Ended w.cache ts c') (alive : ∀ x ∈ ts, w.cache.life x = .allocated)
    (once : ts.Nodup) : Kept F { w with cache := c' } (es.filter (w.cache.keeps ts)) where
  positive := by
    rw [ended.limits.2.2.1]
    exact kept.positive
  unique x here y there live live' same := by
    have visible : ∀ z, (c'.entry z).deletePending = false → (w.cache.entry z).deletePending = false := by
      intro z live
      rw [ended.entry] at live
      split at live
      · cases live
      · exact live
    simp only [(ended.key _).1] at same
    exact kept.unique x (List.mem_of_mem_filter here) y (List.mem_of_mem_filter there) (visible x live) (visible y live') same
  table x := by
    rw [List.mem_filter, kept.table, ended.life]
    by_cases gone : x ∈ ts ∧ (w.cache.entry x).refCount = 0
    · simp [Cache.keeps, gone]
    · have stays : w.cache.keeps ts x = true := by
        rw [not_and] at gone
        by_cases there : x ∈ ts <;> simp_all [Cache.keeps]
      simp [gone, stays]
  counts x member := by
    rw [ended.refCount]
    exact kept.counts x (List.mem_of_mem_filter member)
  held r member := by
    have positive := kept.referenced member
    refine List.mem_filter.mpr ⟨kept.held r member, ?_⟩
    have used : ((w.cache.entry r.2).refCount == 0) = false := by
      rw [beq_eq_false_iff_ne]
      omega
    simp [Cache.keeps, used]
  fresh x live outside := by
    rw [ended.life] at live
    split at live
    · cases live
    · rename_i stays
      have away : x ∉ es := by
        intro member
        apply outside
        refine List.mem_filter.mpr ⟨member, ?_⟩
        rw [not_and] at stays
        by_cases there : x ∈ ts <;> simp_all [Cache.keeps]
      obtain ⟨free, live'⟩ := kept.fresh x live away
      have still : x ∉ ts := fun there => stays ⟨there, free⟩
      rw [ended.entry, if_neg still]
      exact ⟨free, live'⟩
  unborn x none := by
    rw [ended.life] at none
    split at none
    · cases none
    · exact kept.unborn x none
  cleaned cleans := by
    rw [ended.limits.2.2.2] at cleans
    obtain ⟨distinct, exact_⟩ := kept.cleaned cleans
    rw [ended.cleaned, List.map_append, Cache.mem_calls _ cleans]
    constructor
    · rw [List.nodup_append]
      refine ⟨List.nodup_reverse.mpr (once.filter _), distinct, ?_⟩
      rintro x here y there rfl
      have live := alive x (List.mem_of_mem_filter (List.mem_reverse.mp here))
      rw [(exact_ x).mp there] at live
      cases live
    · intro x
      rw [List.mem_append, List.mem_reverse, List.mem_filter, exact_, ended.life]
      by_cases gone : x ∈ ts ∧ (w.cache.entry x).refCount = 0
      · simp [gone]
      · rw [if_neg gone, decide_eq_true_eq]
        tauto

theorem Waiting.ended (waiting : Waiting w.cache es) (ended : Ended w.cache ts c') :
    Waiting c' (es.filter (w.cache.keeps ts)) := by
  intro x member pending
  obtain ⟨member, stays⟩ := List.mem_filter.mp member
  rw [ended.refCount]
  rw [ended.entry] at pending
  by_cases there : x ∈ ts
  · by_contra free
    have free : (w.cache.entry x).refCount = 0 := by omega
    simp [Cache.keeps, there, free] at stays
  · rw [if_neg there] at pending
    exact waiting x member pending

theorem Kept.created (kept : Kept F w es) (unborn : w.cache.life e = .unborn) (key : K) (data : D) (weight : Word) :
    Kept F { w with cache := stxCacheEntryCreate w.cache e key data weight } es := by
  have other : ∀ x, x ∈ es → x ≠ e := by
    rintro x member rfl
    rw [kept.alive member] at unborn
    cases unborn
  have same : ∀ x, x ≠ e → (stxCacheEntryCreate w.cache e key data weight).entry x = w.cache.entry x ∧
      (stxCacheEntryCreate w.cache e key data weight).life x = w.cache.life x := by
    intro x h
    simp [stxCacheEntryCreate, Cache.setEntry, h]
  constructor
  case positive => exact kept.positive
  case unique =>
    intro x here y there
    rw [(same x (other x here)).1, (same y (other y there)).1]
    exact kept.unique x here y there
  case table =>
    intro x
    rw [kept.table x]
    by_cases h : x = e
    · subst h
      simp [unborn, kept.unborn x unborn]
    · rw [(same x h).2]
  case counts =>
    intro x member
    rw [(same x (other x member)).1]
    exact kept.counts x member
  case held => exact kept.held
  case fresh =>
    intro x live outside
    by_cases h : x = e
    · subst h
      simp [stxCacheEntryCreate, Cache.setEntry]
    · rw [(same x h).2] at live
      rw [(same x h).1]
      exact kept.fresh x live outside
  case unborn =>
    intro x none
    by_cases h : x = e
    · subst h
      exact kept.unborn x unborn
    · rw [(same x h).2] at none
      exact kept.unborn x none
  case cleaned =>
    intro cleans
    obtain ⟨distinct, exact_⟩ := kept.cleaned cleans
    refine ⟨distinct, fun x => (exact_ x).trans ?_⟩
    by_cases h : x = e
    · subst h
      simp [stxCacheEntryCreate, unborn]
    · rw [(same x h).2]

theorem Kept.linked (kept : Kept F w es) (linked : Linked w.cache e c') (alive : w.cache.life e = .allocated) (away : e ∉ es)
    (alone : ∀ x ∈ es, w.cache.matches F (w.cache.entry e).key x = false) :
    Kept F ⟨c', (h, e) :: w.refs, Function.update w.inserted e true⟩ (e :: es) := by
  obtain ⟨free, live⟩ := kept.fresh e alive away
  have self : c'.entry e = { w.cache.entry e with refCount := 1 } := by
    rw [linked.entry, Function.update_self, free]
  have others : ∀ x, x ∈ es → c'.entry x = w.cache.entry x := by
    intro x member
    have other : x ≠ e := by rintro rfl; exact away member
    rw [linked.entry, Function.update_of_ne other]
  have different : ∀ x ∈ es, (w.cache.entry x).deletePending = false →
      F.keyCmpFn (w.cache.entry e).key (w.cache.entry x).key ≠ 0 := by
    intro x member visible same
    have missed := alone x member
    simp [Cache.matches, visible, same] at missed
  constructor
  case positive =>
    rw [linked.limits.2.2.1]
    exact kept.positive
  case unique =>
    intro x here y there live live' same
    obtain rfl | old := List.mem_cons.mp here
    · obtain rfl | old' := List.mem_cons.mp there
      · rfl
      · rw [self, others y old'] at same
        rw [others y old'] at live'
        exact absurd same (different y old' live')
    · obtain rfl | old' := List.mem_cons.mp there
      · rw [self, others x old] at same
        rw [others x old] at live
        exact absurd (F.symm _ _ same) (different x old live)
      · rw [others x old, others y old'] at same
        rw [others x old] at live
        rw [others y old'] at live'
        exact kept.unique x old y old' live live' same
  case table =>
    intro x
    rw [List.mem_cons, kept.table, linked.life]
    by_cases same : x = e
    · subst same; simp [alive]
    · simp [same]
  case counts =>
    intro x member
    obtain rfl | old := List.mem_cons.mp member
    · have none : w.refs.countP (fun r => r.2 = x) = 0 := by
        apply List.countP_eq_zero.mpr
        intro r held same
        exact away (of_decide_eq_true same ▸ kept.held r held)
      simp [self, none]
    · have other : x ≠ e := by rintro rfl; exact away old
      simp [others x old, kept.counts x old, Ne.symm other]
  case held =>
    intro r member
    obtain rfl | old := List.mem_cons.mp member
    · exact List.mem_cons_self ..
    · exact List.mem_cons_of_mem _ (kept.held r old)
  case fresh =>
    intro x live' outside
    rw [List.mem_cons, not_or] at outside
    rw [linked.life] at live'
    rw [linked.entry, Function.update_of_ne outside.1]
    exact kept.fresh x live' outside.2
  case unborn =>
    intro x none
    rw [linked.life] at none
    have other : x ≠ e := by
      rintro rfl
      rw [alive] at none
      cases none
    simp [other, kept.unborn x none]
  case cleaned =>
    intro cleans
    rw [linked.limits.2.2.2] at cleans
    rw [linked.cleaned, linked.life]
    exact kept.cleaned cleans

theorem Kept.counted (kept : Kept F w es) {count : Nat} {lru : List ι} {refs : List (η × ι)}
    (counted : Counted w.cache e count lru c') (member : e ∈ es)
    (same : ∀ x ∈ es, x ≠ e → (refs.countP fun r => r.2 = x) = w.refs.countP fun r => r.2 = x)
    (this : count = refs.countP fun r => r.2 = e) (held : ∀ r ∈ refs, r.2 ∈ es) :
    Kept F { w with cache := c', refs := refs } es := by
  have fields : ∀ x, (c'.entry x).key = (w.cache.entry x).key ∧
      (c'.entry x).deletePending = (w.cache.entry x).deletePending := by
    intro x
    rw [counted.entry]
    by_cases h : x = e
    · subst h; simp
    · simp [h]
  constructor
  case positive =>
    rw [counted.limits.2.2.1]
    exact kept.positive
  case unique =>
    intro x here y there
    rw [(fields x).1, (fields x).2, (fields y).1, (fields y).2]
    exact kept.unique x here y there
  case table =>
    intro x
    rw [counted.life]
    exact kept.table x
  case counts =>
    intro x there
    rw [counted.entry]
    by_cases h : x = e
    · subst h
      rw [Function.update_self]
      exact this
    · rw [Function.update_of_ne h, same x there h]
      exact kept.counts x there
  case held => exact held
  case fresh =>
    intro x live outside
    have other : x ≠ e := by rintro rfl; exact outside member
    rw [counted.life] at live
    rw [counted.entry, Function.update_of_ne other]
    exact kept.fresh x live outside
  case unborn =>
    intro x none
    rw [counted.life] at none
    exact kept.unborn x none
  case cleaned =>
    intro cleans
    rw [counted.limits.2.2.2] at cleans
    rw [counted.cleaned, counted.life]
    exact kept.cleaned cleans

end

inductive Effect [DecidableEq η] (F : KeyFns K) (w : World ι η K D) (es : List ι) :
    CacheOp ι η K D → CacheRet ι → World ι η K D → List ι → Prop
  | noMemory {key : K} {data : D} {weight : Word} : Effect F w es (.create none key data weight) (.entry none) w es
  | created {e : ι} {key : K} {data : D} {weight : Word} (unborn : w.cache.life e = .unborn) :
    Effect F w es (.create (some e) key data weight) (.entry (some e))
      { w with cache := stxCacheEntryCreate w.cache e key data weight } es
  | refused {h : η} {e : ι} {c' : Cache ι K D} {es' : List ι} (new : w.inserted e = false)
    (inserted : Inserted F w.cache es e c' false es') :
    Effect F w es (.insert h e) (.status false) { w with cache := c' } es'
  | inserted {h : η} {e : ι} {c' : Cache ι K D} {es' : List ι} (alive : w.cache.life e = .allocated)
    (new : w.inserted e = false) (inserted : Inserted F w.cache es e c' true es') :
    Effect F w es (.insert h e) (.status true) ⟨c', (h, e) :: w.refs, Function.update w.inserted e true⟩ es'
  | missed {h : η} {key : K} {c' : Cache ι K D} (missed : LookedUp F w.cache es key c' none) :
    Effect F w es (.lookup h key) (.entry none) { w with cache := c' } es
  | found {h : η} {key : K} {e : ι} {c' : Cache ι K D} (found : LookedUp F w.cache es key c' (some e)) :
    Effect F w es (.lookup h key) (.entry (some e)) { w with cache := c', refs := (h, e) :: w.refs } es
  | released {h : η} {e : ι} {c' : Cache ι K D} (holds : (h, e) ∈ w.refs) (released : Released w.cache e c') :
    Effect F w es (.release h e) .done { w with cache := c', refs := w.refs.erase (h, e) }
      (if (w.cache.entry e).refCount = 1 ∧ (w.cache.entry e).deletePending = true then es.erase e else es)
  | deleted {e : ι} {c' : Cache ι K D} (alive : w.cache.life e = .allocated) (ended : Ended w.cache [e] c') :
    Effect F w es (.delete e) .done { w with cache := c' } (es.filter (w.cache.keeps [e]))
  | emptied {c' : Cache ι K D} {ts : List ι} (all : ∀ x, x ∈ ts ↔ x ∈ es) (once : ts.Nodup) (ended : Ended w.cache ts c') :
    Effect F w es .empty .done { w with cache := c' } (es.filter (w.cache.keeps ts))

section
variable [DecidableEq η] {F : KeyFns K} {w : World ι η K D} {chains : Nat → List ι} {es : List ι}

theorem Kept.step_effect (kept : Kept F w es) (rep : Rep F w.cache chains es) {op : CacheOp ι η K D} (ok : cacheEnabled w op = true) :
    ∃ w' out es' chains', cacheStep F w op = some (w', out) ∧ Effect F w es op out w' es' ∧
      Rep F w'.cache chains' es' := by
  cases op with
  | create e key data weight =>
    cases e with
    | none => exact ⟨w, _, es, chains, rfl, .noMemory, rep⟩
    | some e =>
      have unborn : w.cache.life e = .unborn := by simpa [cacheEnabled] using ok
      exact ⟨_, _, es, chains, rfl, .created unborn, create_spec rep unborn key data weight⟩
  | insert h e =>
    simp only [cacheEnabled, Bool.and_eq_true, decide_eq_true_eq, Bool.not_eq_true'] at ok
    obtain ⟨⟨alive, new⟩, small⟩ := ok
    have away : e ∉ es := by
      rw [kept.table, new]
      simp
    obtain ⟨c', ok, es', chains', run, inserted, rep'⟩ := insert_spec rep alive away small
    simp only [cacheStep, run, Option.bind_eq_bind, Option.bind_some]
    cases ok with
    | true => exact ⟨_, _, es', chains', rfl, .inserted alive new inserted, rep'⟩
    | false => exact ⟨_, _, es', chains', rfl, .refused new inserted, rep'⟩
  | lookup h key =>
    obtain ⟨c', found, run, looked, rep'⟩ := lookup_spec rep key
    simp only [cacheStep, run, Option.bind_eq_bind, Option.bind_some]
    cases found with
    | none => exact ⟨_, _, es, chains, rfl, .missed looked, rep'⟩
    | some e => exact ⟨_, _, es, chains, rfl, .found looked, rep'⟩
  | release h e =>
    have holds : (h, e) ∈ w.refs := by simpa [cacheEnabled] using ok
    obtain ⟨c', chains', run, released, rep'⟩ := release_spec rep (kept.held _ holds) (kept.referenced holds)
    simp only [cacheStep, run, Option.bind_eq_bind, Option.bind_some]
    exact ⟨_, _, _, chains', rfl, .released holds released, rep'⟩
  | delete e =>
    have alive : w.cache.life e = .allocated := by simpa [cacheEnabled] using ok
    obtain ⟨c', run, ended, rep'⟩ := delete_spec rep alive
    simp only [cacheStep, run, Option.bind_eq_bind, Option.bind_some]
    exact ⟨_, _, _, _, rfl, .deleted alive ended, rep'⟩
  | empty =>
    obtain ⟨c', ts, chains', run, all, ended, once, rep'⟩ := empty_spec rep kept.positive
    simp only [cacheStep, run, Option.bind_eq_bind, Option.bind_some]
    exact ⟨_, _, _, chains', rfl, .emptied all once ended, rep'⟩

theorem countP_erase {refs : List (η × ι)} {h : η} {e : ι} (holds : (h, e) ∈ refs) (x : ι) :
    (refs.countP fun r => r.2 = x) = ((refs.erase (h, e)).countP fun r => r.2 = x) + if x = e then 1 else 0 := by
  rw [(List.perm_cons_erase holds).countP_eq, List.countP_cons]
  by_cases same : x = e
  · subst same; simp
  · simp [same, Ne.symm same]

omit [DecidableEq η] in
theorem Kept.lookedUp {e : ι} {h : η} {key : K} {c' : Cache ι K D} (kept : Kept F w es)
    (looked : LookedUp F w.cache es key c' (some e)) : Kept F { w with cache := c', refs := (h, e) :: w.refs } es := by
  cases looked with
  | found member hit counted =>
    refine kept.counted counted member (fun x _ other => ?_) ?_ fun r holds => ?_
    · simp [Ne.symm other]
    · simp [kept.counts e member]
    · obtain rfl | old := List.mem_cons.mp holds
      · exact member
      · exact kept.held r old

theorem Kept.released {e : ι} {h : η} {c' : Cache ι K D} {count : Nat} {lru : List ι} (kept : Kept F w es)
    (holds : (h, e) ∈ w.refs) (counted : Counted w.cache e count lru c') (less : count + 1 = (w.cache.entry e).refCount) :
    Kept F { w with cache := c', refs := w.refs.erase (h, e) } es := by
  have member := kept.held _ holds
  refine kept.counted counted member (fun x _ other => ?_) ?_ fun r there => kept.held r (List.mem_of_mem_erase there)
  · rw [countP_erase holds x, if_neg other, Nat.add_zero]
  · have old := kept.counts e member
    rw [countP_erase holds e, if_pos rfl] at old
    omega

omit [DecidableEq η] in
theorem Kept.prefix_alive (kept : Kept F w es) (rep : Rep F w.cache chains es) (n : Nat) :
    (∀ x ∈ w.cache.lruList.take n, w.cache.life x = .allocated) ∧ (w.cache.lruList.take n).Nodup := by
  refine ⟨fun x member => ?_, rep.once.sublist (List.take_sublist ..)⟩
  exact kept.alive ((rep.lru x).mp (List.mem_of_mem_take member)).1

omit [DecidableEq ι] [DecidableEq η] in
theorem Rep.insertion {e : ι} {n : Nat} {old : Option ι} (rep : Rep F w.cache chains es)
    (same : ∀ x, old = some x → x ∈ es ∧ x ∉ w.cache.lruList.take n ∧
      w.cache.matches F (w.cache.entry e).key x = true) :
    (∀ x ∈ w.cache.lruList.take n ++ old.toList, x ∈ es) ∧ (w.cache.lruList.take n ++ old.toList).Nodup := by
  have listed : ∀ x ∈ w.cache.lruList.take n, x ∈ es :=
    fun x member => ((rep.lru x).mp (List.mem_of_mem_take member)).1
  constructor
  · intro x member
    obtain early | late := List.mem_append.mp member
    · exact listed x early
    · exact (same x (by simpa using late)).1
  · rw [List.nodup_append]
    refine ⟨rep.once.sublist (List.take_sublist ..), by cases old <;> simp, ?_⟩
    rintro x here y there rfl
    exact (same x (by simpa using there)).2.1 here

omit [DecidableEq η] in
theorem Kept.alone {e : ι} {n : Nat} {old : Option ι} {c₁ : Cache ι K D} (kept : Kept F w es)
    (ended : Ended w.cache (w.cache.lruList.take n ++ old.toList) c₁)
    (same : ∀ x, old = some x → x ∈ es ∧ x ∉ w.cache.lruList.take n ∧
      w.cache.matches F (w.cache.entry e).key x = true)
    (only : old = none → ∀ x ∈ es, w.cache.matches F (w.cache.entry e).key x = true → x ∈ w.cache.lruList.take n)
    {x : ι} (member : x ∈ es) : c₁.matches F (c₁.entry e).key x = false := by
  by_contra hit
  obtain ⟨away, hit⟩ := ended.matched (by simpa using hit)
  rw [(ended.key e).1] at hit
  rw [List.mem_append, not_or] at away
  cases old with
  | none => exact away.1 (only rfl x member hit)
  | some y =>
    obtain ⟨there, -, hit'⟩ := same y rfl
    simp only [Cache.matches, Bool.and_eq_true, Bool.not_eq_true', beq_iff_eq] at hit hit'
    apply away.2
    rw [kept.unique x member y there hit.1 hit'.1 (F.trans _ _ _ (F.symm _ _ hit.2) hit'.2)]
    simp

theorem Effect.kept {op : CacheOp ι η K D} {out : CacheRet ι} {w' : World ι η K D} {es' : List ι}
    (effect : Effect F w es op out w' es') (kept : Kept F w es) (rep : Rep F w.cache chains es) : Kept F w' es' := by
  cases effect with
  | noMemory => exact kept
  | created unborn => exact kept.created unborn _ _ _
  | refused new inserted =>
    cases inserted with
    | refused n ended =>
      obtain ⟨alive, once⟩ := kept.prefix_alive rep n
      exact kept.ended ended alive once
  | @inserted h e c' es' alive new inserted =>
    cases inserted with
    | @done c₁ _ n old ended same only linked =>
      obtain ⟨inside, once⟩ := rep.insertion same
      have away : e ∉ es := by
        rw [kept.table, new]
        simp
      have outside : e ∉ w.cache.lruList.take n ++ old.toList := fun there => away (inside e there)
      have kept₁ := kept.ended ended (fun x member => kept.alive (inside x member)) once
      refine kept₁.linked linked ?_ (fun there => away (List.mem_of_mem_filter there))
        fun x member => kept.alone ended same only (List.mem_of_mem_filter member)
      rw [ended.life, if_neg fun gone => outside gone.1]
      exact alive
  | missed missed =>
    cases missed with
    | missed misses =>
      exact ⟨kept.positive, kept.unique, kept.table, kept.counts, kept.held, kept.fresh, kept.unborn, kept.cleaned⟩
  | found found => exact kept.lookedUp found
  | @released h e c' holds released =>
    cases released with
    | kept more counted =>
      rw [if_neg (by omega)]
      exact kept.released holds counted (by omega)
    | listed last wanted counted =>
      rw [if_neg (by simp [wanted])]
      exact kept.released holds counted last.symm
    | @dropped c₁ _ last pending counted ended =>
      have kept₁ := kept.released holds counted last.symm
      have free : (c₁.entry e).refCount = 0 := by
        rw [counted.entry, Function.update_self]
      rw [if_pos ⟨last, pending⟩, ← Cache.filter_keeps_one free rep.distinct]
      refine kept₁.ended ended (fun x same => ?_) (by simp)
      obtain rfl : x = e := by simpa using same
      exact kept₁.alive (kept.held _ holds)
  | @deleted e c' alive ended =>
    refine kept.ended ended (fun x same => ?_) (by simp)
    obtain rfl : x = e := by simpa using same
    exact alive
  | emptied all once ended => exact kept.ended ended (fun x member => kept.alive ((all x).mp member)) once

theorem Effect.waiting {op : CacheOp ι η K D} {out : CacheRet ι} {w' : World ι η K D} {es' : List ι}
    (effect : Effect F w es op out w' es') (kept : Kept F w es) (rep : Rep F w.cache chains es)
    (waiting : Waiting w.cache es) : Waiting w'.cache es' := by
  cases effect with
  | noMemory => exact waiting
  | @created e key data weight unborn =>
    intro x member
    have other : x ≠ e := by
      rintro rfl
      rw [kept.alive member] at unborn
      cases unborn
    simpa [stxCacheEntryCreate, Cache.setEntry, other] using waiting x member
  | refused new inserted =>
    cases inserted with
    | refused n ended => exact waiting.ended ended
  | @inserted h e c' es' alive new inserted =>
    cases inserted with
    | @done c₁ _ n old ended same only linked =>
      have waiting₁ := waiting.ended ended
      intro x member pending
      rw [linked.entry] at pending ⊢
      by_cases this : x = e
      · subst this
        simp
      · rw [Function.update_of_ne this] at pending ⊢
        exact waiting₁ x (by simpa [this] using member) pending
  | missed missed =>
    cases missed with
    | missed misses => exact waiting
  | @found h key e c' found =>
    cases found with
    | found member hit counted =>
      intro x there pending
      rw [counted.entry] at pending ⊢
      by_cases this : x = e
      · subst this
        simp
      · rw [Function.update_of_ne this] at pending ⊢
        exact waiting x there pending
  | @released h e c' holds released =>
    cases released with
    | kept more counted =>
      rw [if_neg (by omega)]
      intro x there pending
      rw [counted.entry] at pending ⊢
      by_cases this : x = e
      · subst this
        rw [Function.update_self]
        dsimp only
        omega
      · rw [Function.update_of_ne this] at pending ⊢
        exact waiting x there pending
    | listed last wanted counted =>
      rw [if_neg (by simp [wanted])]
      intro x there pending
      rw [counted.entry] at pending ⊢
      by_cases this : x = e
      · subst this
        simp [wanted] at pending
      · rw [Function.update_of_ne this] at pending ⊢
        exact waiting x there pending
    | dropped last pending counted ended =>
      rw [if_pos ⟨last, pending⟩]
      intro x there pending'
      obtain ⟨this, there⟩ := rep.distinct.mem_erase_iff.mp there
      rw [ended.entry, if_neg (by simpa using this), counted.entry, Function.update_of_ne this] at pending' ⊢
      exact waiting x there pending'
  | deleted alive ended => exact waiting.ended ended
  | emptied all once ended => exact waiting.ended ended

end

end StateThreads.Lru
