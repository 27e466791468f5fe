import StateThreads.Cache.Traverse
import StateThreads.Contract.CacheMap

/-! What the traversals of the cache show, in every state that calls can lead to. -/
namespace StateThreads.Lru
open Chain LabelledRun

variable {ι η K D : Type}

section
variable {F : KeyFns K} {c : Cache ι K D} {chains : Nat → List ι} {es : List ι}

/-- The entries of a chain that a lookup may find. -/
def Cache.live (c : Cache ι K D) (l : List ι) : List ι := l.filter fun e => !(c.entry e).deletePending

theorem traverseLoop_spec {slot : Slot Nat ι} {l : List ι} (seg : c.table.Segment slot l)
    (alive : ∀ e ∈ l, c.life e = .allocated) {fuel : Nat} (enough : l.length < fuel) :
    traverseLoop c fuel (c.table.load slot) = some ((c.live l).map c.shown) := by
  induction l generalizing slot fuel with
  | nil =>
    obtain ⟨fuel, rfl⟩ : ∃ n, fuel = n + 1 := ⟨fuel - 1, by omega⟩
    have ended : c.table.load slot = none := seg
    rw [ended]
    rfl
  | cons e l ih =>
    obtain ⟨here, -, seg⟩ := seg
    rw [List.length_cons] at enough
    obtain ⟨fuel, rfl⟩ : ∃ n, fuel = n + 1 := ⟨fuel - 1, by omega⟩
    have rest : traverseLoop c fuel (c.table.load (.next e)) = some ((c.live l).map c.shown) :=
      ih seg (fun x member => alive x (List.mem_cons_of_mem _ member)) (by omega)
    rw [here, traverseLoop, if_neg (by simp [alive e (List.mem_cons_self ..)]), rest]
    simp only [Option.bind_eq_bind, Option.bind_some, Cache.live, List.filter_cons]
    split <;> rfl

def Cache.visited (c : Cache ι K D) (chains : Nat → List ι) : List ι :=
  (List.range c.hashSize.toNat).flatMap fun i => c.live (chains i)

theorem Rep.traverse (rep : Rep F c chains es) : stxCacheTraverse c = some ((c.visited chains).map c.shown) := by
  have chain (i : Nat) : traverseLoop c (c.curSize.toNat + 1) (c.table.load (.root i)) =
      some ((c.live (chains i)).map c.shown) := by
    have long := rep.chain_length i
    have size := rep.size
    exact traverseLoop_spec (rep.table.seg i) (fun x member => rep.alive x ((rep.members x).mpr ⟨i, member⟩)) (by omega)
  unfold stxCacheTraverse
  simp only [chain]
  have all : (List.range c.hashSize.toNat).mapM (fun i => some ((c.live (chains i)).map c.shown)) =
      some ((List.range c.hashSize.toNat).map fun i => (c.live (chains i)).map c.shown) := List.mapM_pure
  rw [all]
  simp only [Option.bind_eq_bind, Option.bind_some, Cache.visited, List.map_flatMap]
  rfl

theorem Rep.visited_nodup (rep : Rep F c chains es) : (c.visited chains).Nodup := by
  rw [Cache.visited, List.nodup_flatMap]
  constructor
  · intro i _
    exact (rep.table.distinct i).filter _
  · apply List.nodup_range.imp
    intro i j differs x here there
    have home := rep.home i x (List.mem_of_mem_filter here)
    have home' := rep.home j x (List.mem_of_mem_filter there)
    exact differs (home.trans home'.symm)

theorem Rep.mem_visited (rep : Rep F c chains es) (positive : 0 < c.hashSize) (x : ι) :
    x ∈ c.visited chains ↔ x ∈ es ∧ (c.entry x).deletePending = false := by
  have inside : c.bucket F (c.entry x).key < c.hashSize.toNat := by
    rw [Cache.bucket, BitVec.toNat_umod]
    exact Nat.mod_lt _ (BitVec.lt_def.mp positive)
  simp only [Cache.visited, Cache.live, List.mem_flatMap, List.mem_range, List.mem_filter, Bool.not_eq_true']
  constructor
  · rintro ⟨i, -, here, live⟩
    exact ⟨(rep.members x).mpr ⟨i, here⟩, live⟩
  · rintro ⟨member, live⟩
    obtain ⟨i, here⟩ := (rep.members x).mp member
    refine ⟨i, ?_, here, live⟩
    rw [rep.home i x here]
    exact inside

theorem lruLoop_spec {q : List ι} (alive : ∀ e ∈ q, c.life e = .allocated) (n : Nat) :
    lruLoop c q n = some ((q.take n).map c.shown) := by
  induction q generalizing n with
  | nil =>
    rw [List.take_nil]
    cases n <;> rfl
  | cons e q ih =>
    cases n with
    | zero => rfl
    | succ n =>
      rw [lruLoop, if_neg (by simp [alive e (List.mem_cons_self ..)]),
        ih (fun x member => alive x (List.mem_cons_of_mem _ member))]
      rfl

end

variable [DecidableEq ι]

/-- The traversals of a cache. The first one shows the entries that a lookup may find, each
once, so that it answers as a lookup does for every key. The other two show those of them that
nobody holds, in the order in which an insertion would evict them, and in the opposite one. -/
structure Traversed [DecidableEq η] (F : KeyFns K) (w : World ι η K D) (visited order : List ι) : Prop where
  traverse : stxCacheTraverse w.cache = some (visited.map w.cache.shown)
  once : visited.Nodup
  visible : ∀ x, x ∈ visited ↔ w.Visible x
  finds : ∀ key, w.cache.find F key = some (visited.find? (w.cache.matches F key))
  lru : ∀ n, stxCacheTraverseLru w.cache n = some ((order.take n).map w.cache.shown)
  mru : ∀ n, stxCacheTraverseMru w.cache n = some ((order.reverse.take n).map w.cache.shown)
  ordered : order.Nodup
  unheld : ∀ x, x ∈ order ↔ w.Visible x ∧ ∀ r ∈ w.refs, r.2 ≠ x
  evicts : ∀ h e out w', Event.Fired (cacheMachine F) ⟨w, .insert h e, out, w'⟩ → w.cache.hasCleanup = true →
    ∃ n replaced, replaced.length ≤ 1 ∧ (∀ p ∈ replaced, F.keyCmpFn (w.cache.entry e).key p.1 = 0) ∧
      w'.cache.cleaned.map Prod.snd =
        replaced ++ ((order.take n).map w.cache.shown).reverse ++ w.cache.cleaned.map Prod.snd

section
variable {F : KeyFns K} {hist : List (CacheEvent ι η K D)} {w w' : World ι η K D} {chains : Nat → List ι} {es : List ι}

theorem CacheInv.finds (inv : CacheInv F hist w chains es) (key : K) :
    w.cache.find F key = some ((w.cache.visited chains).find? (w.cache.matches F key)) := by
  have mem := inv.rep.mem_visited inv.kept.positive
  obtain ⟨found, run, hit, miss⟩ := inv.rep.find_cases key
  rw [run]
  congr 1
  cases found with
  | none =>
    symm
    rw [List.find?_eq_none]
    intro x here
    rw [miss rfl x ((mem x).mp here).1]
    simp
  | some e =>
    obtain ⟨member, here⟩ := hit e rfl
    have live : ∀ x, w.cache.matches F key x = true →
        (w.cache.entry x).deletePending = false ∧ F.keyCmpFn key (w.cache.entry x).key = 0 := by
      intro x same
      simpa [Cache.matches] using same
    cases other : (w.cache.visited chains).find? (w.cache.matches F key) with
    | none =>
      have there := (mem e).mpr ⟨member, (live e here).1⟩
      exact absurd here (List.find?_eq_none.mp other e there)
    | some e' =>
      obtain ⟨member', live'⟩ := (mem e').mp (List.mem_of_find?_eq_some other)
      have equal := F.trans _ _ _ (F.symm _ _ (live e here).2) (live e' (List.find?_some other)).2
      rw [inv.kept.unique e member e' member' (live e here).1 live' equal]

/-- An entry that nobody holds has not been ended, so the list needs no check for that. -/
theorem CacheInv.unheld (inv : CacheInv F hist w chains es) (x : ι) :
    x ∈ w.cache.lruList ↔ w.Visible x ∧ ∀ r ∈ w.refs, r.2 ≠ x := by
  have held : x ∈ es → ((w.cache.entry x).refCount = 0 ↔ ∀ r ∈ w.refs, r.2 ≠ x) := by
    intro member
    rw [inv.kept.counts x member, List.countP_eq_zero]
    simp
  rw [inv.rep.lru]
  constructor
  · rintro ⟨member, free⟩
    have live : (w.cache.entry x).deletePending = false := by
      by_contra pending
      have waits := inv.waiting x member (by simpa using pending)
      omega
    exact ⟨⟨(inv.kept.table x).mp member, live⟩, (held member).mp free⟩
  · rintro ⟨⟨stored, -⟩, nobody⟩
    have member := (inv.kept.table x).mpr stored
    exact ⟨member, (held member).mpr nobody⟩

theorem Ended.cleaned_shown {c c' : Cache ι K D} {ts : List ι} (ended : Ended c ts c') (cleans : c.hasCleanup = true) :
    c'.cleaned.map Prod.snd =
      ((ts.filter fun x => (c.entry x).refCount = 0).map c.shown).reverse ++ c.cleaned.map Prod.snd := by
  rw [ended.cleaned, List.map_append, Cache.calls, if_pos cleans, List.map_map, ← List.map_reverse]
  rfl

theorem CacheInv.free_take (inv : CacheInv F hist w chains es) (n : Nat) :
    ((w.cache.lruList.take n).filter fun x => (w.cache.entry x).refCount = 0) = w.cache.lruList.take n := by
  apply List.filter_eq_self.mpr
  intro x member
  exact decide_eq_true ((inv.rep.lru x).mp (List.mem_of_mem_take member)).2

variable [DecidableEq η]

theorem CacheInv.evicts (inv : CacheInv F hist w chains es) {h : η} {e : ι} {out : CacheRet ι}
    (fired : Event.Fired (cacheMachine F) ⟨w, .insert h e, out, w'⟩) (cleans : w.cache.hasCleanup = true) :
    ∃ n replaced, replaced.length ≤ 1 ∧ (∀ p ∈ replaced, F.keyCmpFn (w.cache.entry e).key p.1 = 0) ∧
      w'.cache.cleaned.map Prod.snd =
        replaced ++ ((w.cache.lruList.take n).map w.cache.shown).reverse ++ w.cache.cleaned.map Prod.snd := by
  obtain ⟨es', chains', effect, -⟩ := inv.effect fired
  dsimp only at effect
  cases effect with
  | refused new inserted =>
    cases inserted with
    | refused n ended =>
      refine ⟨n, [], Nat.zero_le 1, by simp, ?_⟩
      rw [ended.cleaned_shown cleans, inv.free_take, List.nil_append]
  | inserted alive new inserted =>
    cases inserted with
    | done n old ended same only linked =>
      refine ⟨n, (old.toList.filter fun x => (w.cache.entry x).refCount = 0).map w.cache.shown, ?_, ?_, ?_⟩
      · rw [List.length_map]
        exact (List.length_filter_le _ _).trans (by cases old <;> simp)
      · intro p member
        obtain ⟨x, there, rfl⟩ := List.mem_map.mp member
        have hit := (same x (Option.mem_toList.mp (List.mem_of_mem_filter there))).2.2
        simp only [Cache.matches, Bool.and_eq_true, beq_iff_eq] at hit
        exact hit.2
      · rw [linked.cleaned, ended.cleaned_shown cleans, List.filter_append, inv.free_take, List.map_append,
          List.reverse_append]
        congr 2
        -- at most one entry is replaced, so its order does not matter
        cases old with
        | none => rfl
        | some x => by_cases free : (w.cache.entry x).refCount = 0 <;> simp [free]

theorem CacheInv.traversed (inv : CacheInv F hist w chains es) :
    Traversed F w (w.cache.visited chains) w.cache.lruList := by
  have alive : ∀ e ∈ w.cache.lruList, w.cache.life e = .allocated :=
    fun e member => inv.rep.alive e ((inv.rep.lru e).mp member).1
  constructor
  case traverse => exact inv.rep.traverse
  case once => exact inv.rep.visited_nodup
  case visible =>
    intro x
    rw [inv.rep.mem_visited inv.kept.positive, inv.kept.table]
    rfl
  case finds => exact inv.finds
  case lru => exact lruLoop_spec alive
  case mru => exact lruLoop_spec fun e member => alive e (List.mem_reverse.mp member)
  case ordered => exact inv.rep.once
  case unheld => exact inv.unheld
  case evicts =>
    intro h e out w' fired cleans
    exact inv.evicts fired cleans

end

/-- After every history of calls the traversals show what lookups would find and what
insertions would evict. -/
theorem cache_traversals [DecidableEq η] (F : KeyFns K) (hist : List (CacheEvent ι η K D)) (w : World ι η K D)
    (run : CacheRun F hist w) : ∃ visited order, Traversed F w visited order := by
  obtain ⟨chains, es, inv⟩ := run.inv
  exact ⟨_, _, inv.traversed⟩

/-- Entry 0 was deleted while somebody holds it, and entries 1 and 2 were given back in the
opposite order. -/
theorem cache_traversals_deleted_and_released :
    ∃ (hist : List (CacheEvent Nat Nat Nat Nat)) (w : World Nat Nat Nat Nat), CacheRun numbers hist w ∧
      (w.cache.curSize = 3 ∧ stxCacheTraverse w.cache = some [(9, 90), (8, 80)] ∧
        stxCacheTraverseLru w.cache 1 = some [(9, 90)] ∧ stxCacheTraverseMru w.cache 5 = some [(8, 80), (9, 90)]) ∧
      ∃ visited order, Traversed numbers w visited order := by
  have started : CacheStarted (⟨stxCacheCreate 3 100 1 true fun _ => ⟨0, 0, 0, 0, false⟩, [], fun _ => false⟩ :
      World Nat Nat Nat Nat) := ⟨3, 100, 1, true, _, by decide, rfl⟩
  obtain ⟨hist, w, run, seen⟩ := Run.found (M := cacheMachine (ι := Nat) (η := Nat) (D := Nat) numbers)
    [.create (some 0) 7 70 10, .insert 5 0, .create (some 1) 8 80 10, .insert 6 1, .create (some 2) 9 90 10,
      .insert 5 2, .delete 0, .release 5 2, .release 6 1]
    started
    (p := fun _ w => decide (w.cache.curSize = 3 ∧ stxCacheTraverse w.cache = some [(9, 90), (8, 80)] ∧
      stxCacheTraverseLru w.cache 1 = some [(9, 90)] ∧ stxCacheTraverseMru w.cache 5 = some [(8, 80), (9, 90)]))
    (by decide +kernel)
  exact ⟨hist, w, run, of_decide_eq_true seen, cache_traversals numbers hist w run⟩

end StateThreads.Lru
