import StateThreads.Cache.Clients

/-! The cache over whole histories of calls by any number of callers. -/
namespace StateThreads.Lru
open Chain LabelledRun

variable {ι η K D : Type} [DecidableEq ι]

def releases (hist : List (CacheEvent ι η K D)) : List ι :=
  hist.filterMap fun ev => match ev.label with
    | .release _ e => some e
    | _ => none

/-- The list goes from the entry whose last release is the oldest to the one whose last
release is the newest. -/
structure LeastRecent (hist : List (CacheEvent ι η K D)) (lru : List ι) : Prop where
  released : ∀ x ∈ lru, x ∈ releases hist
  order : lru.Pairwise fun x y => (releases hist).idxOf y < (releases hist).idxOf x

/-- The table of the cache, with the entries chains i in bucket i and es in all, the list of
unreferenced entries and the counters. -/
structure Represented (F : KeyFns K) (hist : List (CacheEvent ι η K D)) (w : World ι η K D) (chains : Nat → List ι)
    (es : List ι) : Prop where
  buckets : ∀ i, w.cache.table.Segment (.root i) (chains i)
  home : ∀ i x, x ∈ chains i → i = w.cache.bucket F (w.cache.entry x).key
  distinct : es.Nodup
  members : ∀ x, x ∈ es ↔ ∃ i, x ∈ chains i
  once : w.cache.lruList.Nodup
  lru : ∀ x, x ∈ w.cache.lruList ↔ x ∈ es ∧ (w.cache.entry x).refCount = 0
  order : LeastRecent hist w.cache.lruList
  size : w.cache.curSize.toNat = es.length
  weight : w.cache.curWeight.toNat = (es.map fun x => (w.cache.entry x).weight.toNat).sum
  bounds : w.cache.curSize ≤ w.cache.maxSize ∧ w.cache.curWeight ≤ w.cache.maxWeight
  count : w.cache.inserts - w.cache.deletes = w.cache.curSize
  pending : ∀ x ∈ es, (w.cache.entry x).deletePending = true → 0 < (w.cache.entry x).refCount
  unique : ∀ x ∈ es, ∀ y ∈ es, (w.cache.entry x).deletePending = false → (w.cache.entry y).deletePending = false →
    F.keyCmpFn (w.cache.entry x).key (w.cache.entry y).key = 0 → x = y

section
variable {hist : List (CacheEvent ι η K D)} {ev : CacheEvent ι η K D} {lru lru' : List ι} {e : ι} {h : η}

omit [DecidableEq ι] in
theorem releases_release (label : ev.label = .release h e) : releases (ev :: hist) = e :: releases hist := by
  simp [releases, label]

omit [DecidableEq ι] in
theorem releases_other (label : ∀ h e, ev.label ≠ .release h e) : releases (ev :: hist) = releases hist := by
  unfold releases
  rw [List.filterMap_cons_none]
  split
  · rename_i same
    exact absurd same (label _ _)
  · rfl

theorem LeastRecent.sublist (least : LeastRecent hist lru) (label : ∀ h e, ev.label ≠ .release h e)
    (part : lru'.Sublist lru) : LeastRecent (ev :: hist) lru' := by
  constructor
  · rw [releases_other label]
    exact fun x member => least.released x (part.subset member)
  · rw [releases_other label]
    exact least.order.sublist part

theorem LeastRecent.other (least : LeastRecent hist lru) (label : ev.label = .release h e) (away : e ∉ lru) :
    LeastRecent (ev :: hist) lru := by
  have different : ∀ x ∈ lru, e ≠ x := by
    rintro x member rfl
    exact away member
  constructor
  · rw [releases_release label]
    exact fun x member => List.mem_cons_of_mem _ (least.released x member)
  · rw [releases_release label]
    refine least.order.imp_of_mem fun here there older => ?_
    rw [List.idxOf_cons_ne _ (different _ here), List.idxOf_cons_ne _ (different _ there)]
    omega

theorem LeastRecent.append (least : LeastRecent hist lru) (label : ev.label = .release h e) (away : e ∉ lru) :
    LeastRecent (ev :: hist) (lru ++ [e]) := by
  obtain ⟨released, order⟩ := least.other label away
  constructor
  · intro x member
    obtain old | new := List.mem_append.mp member
    · exact released x old
    · rw [releases_release label, List.mem_singleton.mp new]
      exact List.mem_cons_self ..
  · refine List.pairwise_append.mpr ⟨order, List.pairwise_singleton .., fun x old y new => ?_⟩
    rw [List.mem_singleton.mp new, releases_release label, List.idxOf_cons_self]
    have different : e ≠ x := by
      rintro rfl
      exact away old
    rw [List.idxOf_cons_ne _ different]
    omega

end

section
variable [DecidableEq η] {F : KeyFns K} {hist : List (CacheEvent ι η K D)} {ev : CacheEvent ι η K D} {w : World ι η K D}
  {chains : Nat → List ι} {es es' : List ι}

theorem Effect.least (effect : Effect F ev.pre es ev.label ev.out ev.post es') (kept : Kept F ev.pre es)
    (rep : Rep F ev.pre.cache chains es) (least : LeastRecent hist ev.pre.cache.lruList) :
    LeastRecent (ev :: hist) ev.post.cache.lruList := by
  obtain ⟨pre, label, out, post⟩ := ev
  dsimp only at effect kept rep least ⊢
  cases effect with
  | noMemory => exact least.sublist (by simp) (List.Sublist.refl _)
  | created unborn => exact least.sublist (by simp) (List.Sublist.refl _)
  | refused new inserted =>
    cases inserted with
    | refused n ended =>
      refine least.sublist (by simp) ?_
      simp only [ended.lruList]
      exact List.filter_sublist
  | inserted alive new inserted =>
    cases inserted with
    | done n old ended same only linked =>
      refine least.sublist (by simp) ?_
      simp only [linked.lruList, ended.lruList]
      exact List.filter_sublist
  | missed missed =>
    cases missed with
    | missed misses => exact least.sublist (by simp) (List.Sublist.refl _)
  | found found =>
    cases found with
    | found member hit counted =>
      refine least.sublist (by simp) ?_
      simp only [counted.lruList]
      exact List.erase_sublist
  | @released h e c' holds released =>
    have away : e ∉ pre.cache.lruList := by
      intro there
      have free := ((rep.lru e).mp there).2
      have used := kept.referenced holds
      dsimp only at used
      omega
    cases released with
    | kept more counted =>
      simp only [counted.lruList]
      exact least.other rfl away
    | listed last wanted counted =>
      simp only [counted.lruList]
      exact least.append rfl away
    | dropped last pending counted ended =>
      have same : (pre.cache.lruList ++ [e]).filter (fun x => x ∉ [e]) = pre.cache.lruList := by
        rw [List.filter_append]
        have none : [e].filter (fun x => decide (x ∉ [e])) = [] := by simp
        have all : pre.cache.lruList.filter (fun x => decide (x ∉ [e])) = pre.cache.lruList := by
          apply List.filter_eq_self.mpr
          intro x there
          have other : x ≠ e := by rintro rfl; exact away there
          simpa using other
        rw [none, all, List.append_nil]
      simp only [ended.lruList, counted.lruList, same]
      exact least.other rfl away
  | deleted alive ended =>
    refine least.sublist (by simp) ?_
    simp only [ended.lruList]
    exact List.filter_sublist
  | emptied all once ended =>
    refine least.sublist (by simp) ?_
    simp only [ended.lruList]
    exact List.filter_sublist

structure CacheInv (F : KeyFns K) (hist : List (CacheEvent ι η K D)) (w : World ι η K D) (chains : Nat → List ι)
    (es : List ι) : Prop where
  rep : Rep F w.cache chains es
  kept : Kept F w es
  waiting : Waiting w.cache es
  least : LeastRecent hist w.cache.lruList

theorem CacheInv.effect (inv : CacheInv F hist ev.pre chains es) (fired : ev.Fired (cacheMachine F)) :
    ∃ es' chains', Effect F ev.pre es ev.label ev.out ev.post es' ∧ CacheInv F (ev :: hist) ev.post chains' es' := by
  obtain ⟨w', out, es', chains', run, effect, rep'⟩ := inv.kept.step_effect inv.rep fired.enabled
  have same := fired.step
  simp only [cacheMachine] at same
  rw [run] at same
  obtain ⟨rfl, rfl⟩ := Prod.mk.inj (Option.some.inj same)
  exact ⟨es', chains', effect, rep', effect.kept inv.kept inv.rep, effect.waiting inv.kept inv.rep inv.waiting,
    effect.least inv.kept inv.rep inv.least⟩

theorem CacheRun.inv (run : CacheRun F hist w) : ∃ chains es, CacheInv F hist w chains es := by
  refine run.induct (P := fun hist w => ∃ chains es, CacheInv F hist w chains es) ?_ ?_
  · intro w started
    obtain ⟨kept, rep⟩ := Kept.start (F := F) started
    obtain ⟨maxSize, maxWeight, hashSize, hasCleanup, entry, positive, rfl⟩ := started
    exact ⟨_, _, rep, kept, by simp [Waiting], ⟨by simp [stxCacheCreate], by simp [stxCacheCreate]⟩⟩
  · rintro hist ev before ⟨chains, es, inv⟩ fired
    obtain ⟨es', chains', -, inv'⟩ := inv.effect fired
    exact ⟨chains', es', inv'⟩

/-- After every history of calls the table, the list of unreferenced entries and the counters
agree, and whatever callers may do next returns. -/
theorem cache_representation (F : KeyFns K) (hist : List (CacheEvent ι η K D)) (w : World ι η K D)
    (run : CacheRun F hist w) :
    (∃ chains es, Represented F hist w chains es) ∧ ∀ op, cacheEnabled w op = true → (cacheStep F w op).isSome = true := by
  obtain ⟨chains, es, inv⟩ := run.inv
  have rep := inv.rep
  refine ⟨⟨chains, es, ?_⟩, fun op ok => ?_⟩
  · exact {
      buckets := rep.table.seg
      home := rep.home
      distinct := rep.distinct
      members := rep.members
      once := rep.once
      lru := rep.lru
      order := inv.least
      size := rep.size
      weight := rep.weight
      bounds := ⟨rep.sizeBound, rep.weightBound⟩
      count := rep.count
      pending := inv.waiting
      unique := inv.kept.unique }
  · obtain ⟨w', out, es', chains', taken, -⟩ := inv.kept.step_effect rep ok
    rw [taken]
    rfl

end

def numbers : KeyFns Nat where
  keyHashFn := BitVec.ofNat 64
  keyCmpFn a b := a - b
  refl a := by omega
  symm a b same := by omega
  trans a b c first second := by omega
  consistent a b same := by rw [show a = b by omega]

def pair : World Nat Nat Nat Nat := ⟨stxCacheCreate 2 100 1 true fun _ => ⟨0, 0, 0, 0, false⟩, [], fun _ => false⟩

theorem pair_started : CacheStarted pair := ⟨2, 100, 1, true, _, by decide, rfl⟩

/-- Entry 0 is replaced by entry 1 while somebody holds it, and stays in the table; entry 1
is evicted for entry 2, and entry 3 is refused since the others are in use. -/
theorem cache_representation_full_of_held :
    ∃ (hist : List (CacheEvent Nat Nat Nat Nat)) (w : World Nat Nat Nat Nat), CacheRun numbers hist w ∧
      (w.cache.curSize = 2 ∧ w.cache.lruList = [] ∧ (w.cache.entry 0).deletePending = true ∧
        w.cache.life 1 = .freed ∧ (hist.map (·.out)).take 1 = [.status false]) ∧
      (∃ chains es, Represented numbers hist w chains es) ∧
        ∀ op, cacheEnabled w op = true → (cacheStep numbers w op).isSome = true := by
  obtain ⟨hist, w, run, seen⟩ := Run.found (M := cacheMachine (ι := Nat) (η := Nat) (D := Nat) numbers)
    [.create (some 0) 7 70 10, .insert 5 0, .create (some 1) 7 71 10, .insert 6 1, .release 6 1, .create (some 2) 8 80 10,
      .insert 5 2, .create (some 3) 9 90 10, .insert 6 3]
    pair_started
    (p := fun hist w => decide (w.cache.curSize = 2 ∧ w.cache.lruList = [] ∧ (w.cache.entry 0).deletePending = true ∧
      w.cache.life 1 = .freed ∧ (hist.map (·.out)).take 1 = [.status false]))
    (by decide +kernel)
  exact ⟨hist, w, run, of_decide_eq_true seen, cache_representation numbers hist w run⟩

end StateThreads.Lru
