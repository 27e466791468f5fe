import StateThreads.Contract.Cache

/-! What the cache is for: a bounded map whose values stay as long as somebody holds them.
All of it is said in terms of the calls that have been made. -/
namespace StateThreads.Lru
open Chain LabelledRun

variable {ι η K D : Type} [DecidableEq ι]

def Puts (F : KeyFns K) (ev : CacheEvent ι η K D) (key : K) (x : ι) : Prop :=
  ∃ h, ev.label = .insert h x ∧ ev.out = .status true ∧ F.keyCmpFn key (ev.pre.cache.entry x).key = 0

def World.Stored (w : World ι η K D) (x : ι) : Prop := w.inserted x = true ∧ w.cache.life x = .allocated

def Evicted (ev : CacheEvent ι η K D) (x : ι) : Prop := x ∈ ev.pre.cache.lruList ∧ ev.post.cache.life x = .freed

def Replaced (F : KeyFns K) (ev : CacheEvent ι η K D) (e x : ι) : Prop :=
  ev.out = .status true ∧ ev.pre.Stored x ∧ F.keyCmpFn (ev.pre.cache.entry e).key (ev.pre.cache.entry x).key = 0

def Removed (F : KeyFns K) (ev : CacheEvent ι η K D) (x : ι) : Prop :=
  match ev.label with
  | .delete e => x = e
  | .empty => ev.pre.Stored x
  | .insert _ e => Evicted ev x ∨ Replaced F ev e x
  | _ => False

/-- The most recent insertion for the key is that of x, which has not been removed since. -/
def Current (F : KeyFns K) (hist : List (CacheEvent ι η K D)) (key : K) (x : ι) : Prop :=
  ∃ newer ev older, hist = newer ++ ev :: older ∧ Puts F ev key x ∧
    ∀ n ∈ newer, ¬ Removed F n x ∧ ∀ y, ¬ Puts F n key y

/-- An entry that a lookup may find. -/
def World.Visible (w : World ι η K D) (x : ι) : Prop := w.Stored x ∧ (w.cache.entry x).deletePending = false

section
variable {c c' : Cache ι K D} {e x : ι} {ts : List ι}

theorem Linked.same (linked : Linked c e c') (x : ι) : (c'.entry x).key = (c.entry x).key ∧
    (c'.entry x).data = (c.entry x).data ∧ (c'.entry x).deletePending = (c.entry x).deletePending := by
  rw [linked.entry]
  by_cases h : x = e
  · subst h; simp
  · simp [h]

theorem Counted.same {count : Nat} {lru : List ι} (counted : Counted c e count lru c') (x : ι) :
    (c'.entry x).key = (c.entry x).key ∧ (c'.entry x).data = (c.entry x).data ∧
      (c'.entry x).deletePending = (c.entry x).deletePending := by
  rw [counted.entry]
  by_cases h : x = e
  · subst h; simp
  · simp [h]

theorem Ended.pending (ended : Ended c ts c') (x : ι) :
    (c'.entry x).deletePending = true ↔ (c.entry x).deletePending = true ∨ x ∈ ts := by
  rw [ended.entry]
  by_cases there : x ∈ ts <;> simp [there]

structure Touched (c : Cache ι K D) (ts : List ι) (c' : Cache ι K D) : Prop where
  same : ∀ x, (c'.entry x).key = (c.entry x).key ∧ (c'.entry x).data = (c.entry x).data
  pending : ∀ x, (c'.entry x).deletePending = true ↔ (c.entry x).deletePending = true ∨ x ∈ ts
  born : ∀ x, c'.life x = .unborn ↔ c.life x = .unborn
  freed : ∀ x, c'.life x = .freed → c.life x = .freed ∨ x ∈ ts
  capacity : c'.maxWeight = c.maxWeight

omit [DecidableEq ι] in
theorem Touched.none (entry : c'.entry = c.entry) (life : c'.life = c.life) (capacity : c'.maxWeight = c.maxWeight) :
    Touched c [] c' where
  same _ := by rw [entry]; exact ⟨rfl, rfl⟩
  pending _ := by simp [entry]
  born _ := by rw [life]
  freed _ gone := .inl (by rwa [life] at gone)
  capacity := capacity

omit [DecidableEq ι] in
theorem Touched.trans {c'' : Cache ι K D} {us : List ι} (first : Touched c ts c') (second : Touched c' us c'') :
    Touched c (ts ++ us) c'' where
  same x := ⟨(second.same x).1.trans (first.same x).1, (second.same x).2.trans (first.same x).2⟩
  pending x := by rw [second.pending, first.pending, List.mem_append, or_assoc]
  born x := (second.born x).trans (first.born x)
  freed x gone := by
    rw [List.mem_append, ← or_assoc]
    obtain before | this := second.freed x gone
    · exact .inl (first.freed x before)
    · exact .inr this
  capacity := second.capacity.trans first.capacity

theorem Linked.touched (linked : Linked c e c') : Touched c [] c' where
  same x := ⟨(linked.same x).1, (linked.same x).2.1⟩
  pending x := by simp [(linked.same x).2.2]
  born x := by rw [linked.life]
  freed x gone := .inl (by rwa [linked.life] at gone)
  capacity := linked.limits.2.1

theorem Counted.touched {count : Nat} {lru : List ι} (counted : Counted c e count lru c') : Touched c [] c' where
  same x := ⟨(counted.same x).1, (counted.same x).2.1⟩
  pending x := by simp [(counted.same x).2.2]
  born x := by rw [counted.life]
  freed x gone := .inl (by rwa [counted.life] at gone)
  capacity := counted.limits.2.1

theorem Ended.touched (ended : Ended c ts c') (alive : ∀ x ∈ ts, c.life x = .allocated) : Touched c ts c' where
  same x := ⟨(ended.key x).1, (ended.key x).2.1⟩
  pending := ended.pending
  born x := by
    rw [ended.life]
    split
    · rename_i gone
      simp [alive x gone.1]
    · rfl
  freed x gone := by
    rw [ended.life] at gone
    split at gone
    · rename_i this
      exact .inr this.1
    · exact .inl gone
  capacity := ended.limits.2.1

end

section
variable [DecidableEq η] {F : KeyFns K} {hist : List (CacheEvent ι η K D)} {ev : CacheEvent ι η K D} {w : World ι η K D}
  {chains : Nat → List ι} {es es' : List ι} {x : ι}

theorem Effect.touched (effect : Effect F ev.pre es ev.label ev.out ev.post es') (kept : Kept F ev.pre es)
    (rep : Rep F ev.pre.cache chains es) :
    (∃ e key data weight, ev.pre.cache.life e = .unborn ∧
      ev.post.cache = stxCacheEntryCreate ev.pre.cache e key data weight) ∨ ∃ ts, Touched ev.pre.cache ts ev.post.cache := by
  obtain ⟨pre, label, out, post⟩ := ev
  dsimp only at effect kept rep ⊢
  cases effect with
  | noMemory => exact .inr ⟨[], Touched.none rfl rfl rfl⟩
  | created unborn => exact .inl ⟨_, _, _, _, unborn, rfl⟩
  | refused new inserted =>
    cases inserted with
    | refused n ended => exact .inr ⟨_, ended.touched (kept.prefix_alive rep n).1⟩
  | inserted alive new inserted =>
    cases inserted with
    | done n old ended same only linked =>
      have inside := (rep.insertion same).1
      exact .inr ⟨_, (ended.touched fun x member => kept.alive (inside x member)).trans linked.touched⟩
  | missed missed =>
    cases missed with
    | missed misses => exact .inr ⟨[], Touched.none rfl rfl rfl⟩
  | found found =>
    cases found with
    | found member hit counted => exact .inr ⟨[], counted.touched⟩
  | released holds released =>
    cases released with
    | kept more counted | listed last wanted counted => exact .inr ⟨[], counted.touched⟩
    | dropped last pending counted ended =>
      refine .inr ⟨_, counted.touched.trans (ended.touched fun x same => ?_)⟩
      rw [counted.life, List.mem_singleton.mp same]
      exact kept.alive (kept.held _ holds)
  | deleted alive ended =>
    refine .inr ⟨_, ended.touched fun x same => ?_⟩
    rw [List.mem_singleton.mp same]
    exact alive
  | emptied all once ended => exact .inr ⟨_, ended.touched fun x member => kept.alive ((all x).mp member)⟩

theorem Effect.constant (effect : Effect F ev.pre es ev.label ev.out ev.post es') (kept : Kept F ev.pre es)
    (rep : Rep F ev.pre.cache chains es) (born : ev.pre.cache.life x ≠ .unborn) :
    ev.post.cache.life x ≠ .unborn ∧ (ev.post.cache.entry x).key = (ev.pre.cache.entry x).key ∧
      (ev.post.cache.entry x).data = (ev.pre.cache.entry x).data := by
  obtain ⟨e, key, data, weight, unborn, same⟩ | ⟨ts, touched⟩ := effect.touched kept rep
  · have other : x ≠ e := by rintro rfl; exact born unborn
    simp [same, stxCacheEntryCreate, Cache.setEntry, other, born]
  · exact ⟨fun unborn => born ((touched.born x).mp unborn), touched.same x⟩

omit [DecidableEq η] in
theorem Inserted.removes {pre post : World ι η K D} {h : η} {e : ι} {c' : Cache ι K D} {ok : Bool}
    (inserted : Inserted F pre.cache es e c' ok es') (kept : Kept F pre es) (rep : Rep F pre.cache chains es)
    (result : post.cache = c') :
    (c'.entry x).deletePending = true ↔ (pre.cache.entry x).deletePending = true ∨
      Removed F ⟨pre, .insert h e, .status ok, post⟩ x := by
  have listed : ∀ n, x ∈ pre.cache.lruList.take n → x ∈ pre.cache.lruList ∧ (pre.cache.entry x).refCount = 0 := by
    intro n member
    have there := List.mem_of_mem_take member
    exact ⟨there, ((rep.lru x).mp there).2⟩
  -- an entry on the list was alive before, so it is freed only when it is among the ended ones
  have ended_of : ∀ {ts c₁}, Ended pre.cache ts c₁ → x ∈ pre.cache.lruList → c₁.life x = .freed → x ∈ ts := by
    intro ts c₁ ended there freed
    rw [ended.life] at freed
    split at freed
    · rename_i gone
      exact gone.1
    · rw [kept.alive ((rep.lru x).mp there).1] at freed
      cases freed
  simp only [Removed, Evicted, Replaced, result]
  cases inserted with
  | refused n ended =>
    rw [ended.pending]
    refine or_congr_right ⟨fun member => ?_, ?_⟩
    · obtain ⟨there, free⟩ := listed n member
      exact .inl ⟨there, by rw [ended.life, if_pos ⟨member, free⟩]⟩
    · rintro (⟨there, freed⟩ | ⟨never, -⟩)
      · exact ended_of ended there freed
      · cases never
  | @done c₁ _ n old ended same only linked =>
    rw [(linked.same x).2.2, linked.life, ended.pending]
    constructor
    · rintro (before | member)
      · exact .inl before
      · obtain early | late := List.mem_append.mp member
        · obtain ⟨there, free⟩ := listed n early
          exact .inr (.inl ⟨there, by rw [ended.life, if_pos ⟨member, free⟩]⟩)
        · obtain ⟨there, -, hit⟩ := same x (by simpa using late)
          simp only [Cache.matches, Bool.and_eq_true, beq_iff_eq] at hit
          exact .inr (.inr ⟨rfl, (kept.table x).mp there, hit.2⟩)
    · rintro (before | ⟨there, freed⟩ | ⟨-, stored, equal⟩)
      · exact .inl before
      · exact .inr (ended_of ended there freed)
      · -- the entry with the same key, unless it was marked before, is evicted or found
        by_contra stays
        rw [not_or] at stays
        have member : x ∈ es := (kept.table x).mpr stored
        have hit : pre.cache.matches F (pre.cache.entry e).key x = true := by
          simp [Cache.matches, equal, stays.1]
        have silent := kept.alone ended same only member
        rw [(ended.key e).1, ended.matches _ stays.2, hit] at silent
        cases silent

theorem Effect.marks (effect : Effect F ev.pre es ev.label ev.out ev.post es') (kept : Kept F ev.pre es)
    (rep : Rep F ev.pre.cache chains es) (born : ev.pre.cache.life x ≠ .unborn) :
    (ev.post.cache.entry x).deletePending = true ↔ (ev.pre.cache.entry x).deletePending = true ∨ Removed F ev x := by
  obtain ⟨pre, label, out, post⟩ := ev
  dsimp only at effect born kept rep ⊢
  cases effect with
  | noMemory => simp [Removed]
  | @created e key data weight unborn =>
    have other : x ≠ e := by rintro rfl; exact born unborn
    simp [Removed, stxCacheEntryCreate, Cache.setEntry, other]
  | refused new inserted => exact inserted.removes kept rep rfl
  | inserted alive new inserted => exact inserted.removes kept rep rfl
  | missed missed =>
    cases missed with
    | missed misses => simp [Removed]
  | found found =>
    cases found with
    | found member hit counted => simp [Removed, (counted.same x).2.2]
  | @released h e c' holds released =>
    cases released with
    | kept more counted | listed last wanted counted => simp [Removed, (counted.same x).2.2]
    | dropped last pending counted ended =>
      simp only [Removed, or_false]
      rw [ended.pending, (counted.same x).2.2]
      constructor
      · rintro (before | same)
        · exact before
        · rw [List.mem_singleton.mp same]
          exact pending
      · exact .inl
  | deleted alive ended =>
    rw [ended.pending]
    simp [Removed]
  | emptied all once ended =>
    rw [ended.pending, all, kept.table]
    rfl

theorem Effect.removed_alive (effect : Effect F ev.pre es ev.label ev.out ev.post es') (kept : Kept F ev.pre es)
    (rep : Rep F ev.pre.cache chains es) (removed : Removed F ev x) : ev.pre.cache.life x = .allocated := by
  have ofInsert : ∀ {h : η} {e : ι}, ev.label = .insert h e → ev.pre.cache.life x = .allocated := by
    intro h e label
    simp only [Removed, label] at removed
    obtain evicted | replaced := removed
    · exact kept.alive ((rep.lru x).mp evicted.1).1
    · exact replaced.2.1.2
  obtain ⟨pre, label, out, post⟩ := ev
  dsimp only at effect kept rep ⊢
  cases effect with
  | deleted alive ended =>
    simp only [Removed] at removed
    rw [removed]
    exact alive
  | emptied all once ended => exact removed.2
  | refused new inserted => exact ofInsert rfl
  | inserted alive new inserted => exact ofInsert rfl
  | _ => simp [Removed] at removed

theorem Effect.created_unmarked (effect : Effect F ev.pre es ev.label ev.out ev.post es') (kept : Kept F ev.pre es)
    (rep : Rep F ev.pre.cache chains es) (unborn : ev.pre.cache.life x = .unborn)
    (born : ev.post.cache.life x ≠ .unborn) : ¬ (ev.post.cache.entry x).deletePending = true := by
  obtain ⟨e, key, data, weight, -, same⟩ | ⟨ts, touched⟩ := effect.touched kept rep
  · by_cases this : x = e
    · simp [same, this, stxCacheEntryCreate, Cache.setEntry]
    · simp only [same, stxCacheEntryCreate, Function.update_of_ne this] at born
      exact absurd unborn born
  · exact absurd ((touched.born x).mpr unborn) born

theorem Effect.freedMarked (effect : Effect F ev.pre es ev.label ev.out ev.post es') (kept : Kept F ev.pre es)
    (rep : Rep F ev.pre.cache chains es)
    (before : ev.pre.cache.life x = .freed → (ev.pre.cache.entry x).deletePending = true)
    (freed : ev.post.cache.life x = .freed) : (ev.post.cache.entry x).deletePending = true := by
  obtain ⟨e, key, data, weight, unborn, same⟩ | ⟨ts, touched⟩ := effect.touched kept rep
  · by_cases this : x = e
    · simp [same, this, stxCacheEntryCreate] at freed
    · simp only [same, stxCacheEntryCreate, Cache.setEntry, Function.update_of_ne this] at freed ⊢
      exact before freed
  · rw [touched.pending]
    exact (touched.freed x freed).imp_left before

theorem Effect.inserted_iff (effect : Effect F ev.pre es ev.label ev.out ev.post es') (x : ι) :
    ev.post.inserted x = true ↔ ev.pre.inserted x = true ∨ ∃ h, ev.label = .insert h x ∧ ev.out = .status true := by
  obtain ⟨pre, label, out, post⟩ := ev
  dsimp only at effect ⊢
  cases effect with
  | @inserted h e c' es' alive new inserted =>
    by_cases same : x = e
    · subst same; simp
    · simp [same, Ne.symm same]
  | _ => simp

structure CacheLog (F : KeyFns K) (hist : List (CacheEvent ι η K D)) (w : World ι η K D) : Prop where
  marked : ∀ x, w.cache.life x ≠ .unborn → ((w.cache.entry x).deletePending = true ↔ ∃ ev ∈ hist, Removed F ev x)
  early : ∀ x, w.cache.life x = .unborn → ∀ ev ∈ hist, ¬ Removed F ev x
  freed : ∀ x, w.cache.life x = .freed → (w.cache.entry x).deletePending = true
  put : ∀ x, w.inserted x = true ↔ ∃ ev ∈ hist, ∃ h, ev.label = .insert h x ∧ ev.out = .status true
  constant : ∀ ev ∈ hist, ∀ x, ev.pre.cache.life x ≠ .unborn → w.cache.life x ≠ .unborn ∧
    (w.cache.entry x).key = (ev.pre.cache.entry x).key ∧ (w.cache.entry x).data = (ev.pre.cache.entry x).data

theorem CacheLog.step (log : CacheLog F hist ev.pre) (effect : Effect F ev.pre es ev.label ev.out ev.post es')
    (kept : Kept F ev.pre es) (rep : Rep F ev.pre.cache chains es) : CacheLog F (ev :: hist) ev.post where
  marked x born := by
    by_cases unborn : ev.pre.cache.life x = .unborn
    · -- a new entry: nothing has removed it, and it is not marked
      have none : ¬ ∃ n ∈ ev :: hist, Removed F n x := by
        rintro ⟨n, member, removed⟩
        obtain rfl | old := List.mem_cons.mp member
        · rw [effect.removed_alive kept rep removed] at unborn
          cases unborn
        · exact log.early x unborn n old removed
      refine iff_of_false ?_ none
      exact effect.created_unmarked kept rep unborn born
    · rw [effect.marks kept rep unborn, log.marked x unborn]
      simp only [List.mem_cons, exists_eq_or_imp]
      exact or_comm
  early x unborn n member removed := by
    have before : ev.pre.cache.life x = .unborn := by
      by_contra born
      exact (effect.constant kept rep born).1 unborn
    obtain rfl | old := List.mem_cons.mp member
    · rw [effect.removed_alive kept rep removed] at before
      cases before
    · exact log.early x before n old removed
  freed x := effect.freedMarked kept rep (log.freed x)
  put x := by
    rw [effect.inserted_iff, log.put]
    simp only [List.mem_cons, exists_eq_or_imp]
    exact or_comm
  constant n member x born := by
    obtain rfl | old := List.mem_cons.mp member
    · exact effect.constant kept rep born
    · obtain ⟨born', key, data⟩ := log.constant n old x born
      obtain ⟨later, key', data'⟩ := effect.constant kept rep born'
      exact ⟨later, key'.trans key, data'.trans data⟩

theorem CacheLog.run (run : CacheRun F hist w) : CacheLog F hist w := by
  refine run.induct (P := fun hist w => CacheLog F hist w) ?_ ?_
  · rintro w ⟨maxSize, maxWeight, hashSize, hasCleanup, entry, positive, rfl⟩
    constructor <;> simp [stxCacheCreate]
  · intro hist ev before log fired
    obtain ⟨chains, es, inv⟩ := CacheRun.inv before
    obtain ⟨es', chains', effect, -⟩ := inv.effect fired
    exact log.step effect inv.kept inv.rep

omit [DecidableEq ι] [DecidableEq η] in
theorem CacheLog.visible (log : CacheLog F hist w) (unborn : ∀ x, w.cache.life x = .unborn → w.inserted x = false) (x : ι) :
    w.Visible x ↔ w.inserted x = true ∧ ∀ ev ∈ hist, ¬ Removed F ev x := by
  constructor
  · rintro ⟨⟨put, alive⟩, unmarked⟩
    refine ⟨put, fun ev member removed => ?_⟩
    rw [(log.marked x (by simp [alive])).mpr ⟨ev, member, removed⟩] at unmarked
    cases unmarked
  · rintro ⟨put, never⟩
    have born : w.cache.life x ≠ .unborn := by
      intro none
      rw [unborn x none] at put
      cases put
    have unmarked : (w.cache.entry x).deletePending = false := by
      by_contra marked
      obtain ⟨ev, member, removed⟩ := (log.marked x born).mp (by simpa using marked)
      exact never ev member removed
    refine ⟨⟨put, ?_⟩, unmarked⟩
    cases life : w.cache.life x with
    | unborn => exact absurd life born
    | allocated => rfl
    | freed =>
      rw [log.freed x life] at unmarked
      cases unmarked

theorem CacheRun.visible (run : CacheRun F hist w) (x : ι) :
    w.Visible x ↔ w.inserted x = true ∧ ∀ ev ∈ hist, ¬ Removed F ev x := by
  obtain ⟨chains, es, inv⟩ := run.inv
  exact (CacheLog.run run).visible inv.kept.unborn x

theorem CacheRun.fresh {h : η} (run : CacheRun F hist ev.pre) (fired : ev.Fired (cacheMachine F))
    (label : ev.label = .insert h x) : ev.pre.cache.life x = .allocated ∧ ∀ n ∈ ev :: hist, ¬ Removed F n x := by
  obtain ⟨chains, es, inv⟩ := run.inv
  have enabled := fired.enabled
  simp only [cacheMachine, label, cacheEnabled, Bool.and_eq_true, decide_eq_true_eq, Bool.not_eq_true'] at enabled
  obtain ⟨⟨alive, new⟩, -⟩ := enabled
  have away : x ∉ es := by
    rw [inv.kept.table, new]
    simp
  refine ⟨alive, fun n member removed => ?_⟩
  obtain rfl | old := List.mem_cons.mp member
  · simp only [Removed, label] at removed
    obtain evicted | replaced := removed
    · exact away ((inv.rep.lru x).mp evicted.1).1
    · rw [replaced.2.1.1] at new
      cases new
  · have unmarked := (inv.kept.fresh x alive away).2
    rw [((CacheLog.run run).marked x (by simp [alive])).mpr ⟨n, old, removed⟩] at unmarked
    cases unmarked

theorem CacheRun.current (run : CacheRun F hist w) (key : K) (x : ι) :
    Current F hist key x ↔ w.Visible x ∧ F.keyCmpFn key (w.cache.entry x).key = 0 := by
  have log := CacheLog.run run
  constructor
  · rintro ⟨newer, ev, older, rfl, ⟨h, label, ok, equal⟩, since⟩
    obtain ⟨before, fired, -⟩ := run.split
    obtain ⟨alive, never⟩ := CacheRun.fresh before fired label
    have member : ev ∈ newer ++ ev :: older := by simp
    rw [run.visible, (log.constant ev member x (by simp [alive])).2.1]
    refine ⟨⟨(log.put x).mpr ⟨ev, member, h, label, ok⟩, fun n there => ?_⟩, equal⟩
    obtain late | early := List.mem_append.mp there
    · exact (since n late).1
    · exact never n early
  · rintro ⟨visible, equal⟩
    obtain ⟨put, never⟩ := (run.visible x).mp visible
    obtain ⟨ev, member, h, label, ok⟩ := (log.put x).mp put
    obtain ⟨newer, older, rfl⟩ := List.append_of_mem member
    obtain ⟨before, fired, after⟩ := run.split
    obtain ⟨alive, -⟩ := CacheRun.fresh before fired label
    have key' := (log.constant ev member x (by simp [alive])).2.1
    refine ⟨newer, ev, older, rfl, ⟨h, label, ok, by rw [← key']; exact equal⟩, fun n there => ⟨?_, ?_⟩⟩
    · exact never n (List.mem_append_left _ there)
    · -- a later insertion for the key would have replaced x
      rintro y ⟨h', label', ok', equal'⟩
      obtain ⟨late, early, rfl⟩ := List.append_of_mem there
      rw [List.append_assoc, List.cons_append] at run never
      obtain ⟨between, -, -⟩ := run.split
      have inside : n ∈ late ++ n :: (early ++ ev :: older) := by simp
      have stored : n.pre.Visible x := by
        rw [CacheRun.visible between]
        refine ⟨((CacheLog.run between).put x).mpr ⟨ev, by simp, h, label, ok⟩, fun m old => never m ?_⟩
        exact List.mem_append_right _ (List.mem_cons_of_mem _ old)
      apply never n inside
      simp only [Removed, label']
      refine .inr ⟨ok', stored.1, F.trans _ _ _ (F.symm _ _ equal') ?_⟩
      rw [← ((CacheLog.run run).constant n inside x (by simp [stored.1.2])).2.1]
      exact equal

theorem CacheRun.looksUp (run : CacheRun F hist ev.pre) (fired : ev.Fired (cacheMachine F)) {h : η} {key : K}
    {found : Option ι} (label : ev.label = .lookup h key) (out : ev.out = .entry found) (x : ι) :
    found = some x ↔ Current F hist key x := by
  obtain ⟨chains, es, inv⟩ := run.inv
  obtain ⟨es', chains', effect, -⟩ := inv.effect fired
  rw [CacheRun.current run, World.Visible, World.Stored, ← inv.kept.table]
  rw [label, out] at effect
  generalize ev.post = post at effect
  cases effect with
  | missed missed =>
    cases missed with
    | missed misses =>
      refine iff_of_false (by simp) ?_
      rintro ⟨⟨member, unmarked⟩, equal⟩
      have silent := misses x member
      simp [Cache.matches, unmarked, equal] at silent
  | @found _ _ e c' found =>
    cases found with
    | found member hit counted =>
      simp only [Cache.matches, Bool.and_eq_true, Bool.not_eq_true', beq_iff_eq] at hit
      constructor
      · rintro ⟨rfl⟩
        exact ⟨⟨member, hit.1⟩, hit.2⟩
      · rintro ⟨⟨member', unmarked⟩, equal⟩
        rw [inv.kept.unique e member x member' hit.1 unmarked (F.trans _ _ _ (F.symm _ _ hit.2) equal)]

omit [DecidableEq η] in
theorem CacheInv.unreferenced (inv : CacheInv F hist w chains es) (x : ι) :
    x ∈ w.cache.lruList ↔ w.Stored x ∧ ∀ r ∈ w.refs, r.2 ≠ x := by
  rw [inv.rep.lru, World.Stored, ← inv.kept.table]
  refine and_congr_right fun member => ?_
  rw [inv.kept.counts x member, List.countP_eq_zero]
  simp

/-- What an insertion of e takes away: an initial part of the unreferenced entries in the order
of their last releases, and, when it succeeds, the entry with the same key. -/
structure InsertTakes (F : KeyFns K) (hist : List (CacheEvent ι η K D)) (ev : CacheEvent ι η K D) (e : ι) : Prop where
  unreferenced : ∀ x, x ∈ ev.pre.cache.lruList ↔ ev.pre.Stored x ∧ ∀ r ∈ ev.pre.refs, r.2 ≠ x
  order : LeastRecent hist ev.pre.cache.lruList
  takes : ∃ n, (∀ x, ev.pre.Visible x → (¬ ev.post.Visible x ↔ x ∈ ev.pre.cache.lruList.take n ∨
      ev.out = .status true ∧ F.keyCmpFn (ev.pre.cache.entry e).key (ev.pre.cache.entry x).key = 0)) ∧
    ∀ x, ev.pre.Stored x → x ∉ ev.pre.cache.lruList.take n →
      ¬ (ev.out = .status true ∧ F.keyCmpFn (ev.pre.cache.entry e).key (ev.pre.cache.entry x).key = 0) →
      ev.post.cache.entry x = ev.pre.cache.entry x ∧ ev.post.cache.life x = .allocated

theorem Ended.stays {c c' : Cache ι K D} {ts : List ι} (ended : Ended c ts c') (away : x ∉ ts) :
    c'.entry x = c.entry x ∧ c'.life x = c.life x := by
  rw [ended.entry, ended.life, if_neg away, if_neg fun gone => away gone.1]
  exact ⟨rfl, rfl⟩

theorem CacheRun.inserts (run : CacheRun F hist ev.pre) (fired : ev.Fired (cacheMachine F)) {h : η} {e : ι}
    (label : ev.label = .insert h e) : InsertTakes F hist ev e := by
  obtain ⟨chains, es, inv⟩ := run.inv
  obtain ⟨es', chains', effect, -⟩ := inv.effect fired
  refine ⟨inv.unreferenced, inv.least, ?_⟩
  have marked : ∀ y, (ev.post.cache.entry y).deletePending = true → ¬ ev.post.Visible y := by
    intro y pending visible
    rw [visible.2] at pending
    cases pending
  obtain ⟨pre, op, out, post⟩ := ev
  dsimp only at label effect inv marked ⊢
  subst label
  cases effect with
  | refused new inserted =>
    cases inserted with
    | refused n ended =>
      refine ⟨n, fun x visible => ?_, fun x stored away _ => ?_⟩
      · simp only [CacheRet.status.injEq, Bool.false_eq_true, false_and, or_false]
        constructor
        · intro gone
          by_contra away
          obtain ⟨entry, life⟩ := ended.stays away
          exact gone ⟨⟨visible.1.1, life.trans visible.1.2⟩, by rw [entry]; exact visible.2⟩
        · exact fun member => marked x ((ended.pending x).mpr (.inr member))
      · obtain ⟨entry, life⟩ := ended.stays away
        exact ⟨entry, life.trans stored.2⟩
  | @inserted _ _ c' es' alive new inserted =>
    cases inserted with
    | @done c₁ _ n old ended same only linked =>
      have others : ∀ x, pre.Stored x → x ∉ pre.cache.lruList.take n →
          ¬ F.keyCmpFn (pre.cache.entry e).key (pre.cache.entry x).key = 0 →
          x ≠ e ∧ x ∉ pre.cache.lruList.take n ++ old.toList := by
        intro x stored away different
        constructor
        · rintro rfl
          exact different (F.refl _)
        · rw [List.mem_append, not_or]
          refine ⟨away, fun found => different ?_⟩
          have hit := (same x (by simpa using found)).2.2
          simp only [Cache.matches, Bool.and_eq_true, beq_iff_eq] at hit
          exact hit.2
      have kept : ∀ x, pre.Stored x → x ∉ pre.cache.lruList.take n →
          ¬ F.keyCmpFn (pre.cache.entry e).key (pre.cache.entry x).key = 0 →
          c'.entry x = pre.cache.entry x ∧ c'.life x = .allocated := by
        intro x stored away different
        obtain ⟨other, outside⟩ := others x stored away different
        obtain ⟨entry, life⟩ := ended.stays outside
        rw [linked.entry, linked.life, Function.update_of_ne other]
        exact ⟨entry, life.trans stored.2⟩
      refine ⟨n, fun x visible => ?_, fun x stored away different => kept x stored away (by simpa using different)⟩
      simp only [true_and]
      constructor
      · intro gone
        by_contra away
        rw [not_or] at away
        obtain ⟨entry, life⟩ := kept x visible.1 away.1 away.2
        obtain ⟨other, -⟩ := others x visible.1 away.1 away.2
        refine gone ⟨⟨?_, life⟩, by rw [entry]; exact visible.2⟩
        simp [other, visible.1.1]
      · intro member
        apply marked x
        rw [(linked.same x).2.2, ended.pending]
        obtain early | equal := member
        · exact .inr (List.mem_append_left _ early)
        · by_contra stays
          rw [not_or] at stays
          have hit : pre.cache.matches F (pre.cache.entry e).key x = true := by
            simp [Cache.matches, equal, visible.2]
          have silent := inv.kept.alone ended same only ((inv.kept.table x).mpr visible.1)
          rw [(ended.key e).1, ended.matches _ stays.2, hit] at silent
          cases silent

theorem CacheRun.cleans (run : CacheRun F hist w) (cleans : w.cache.hasCleanup = true) :
    (w.cache.cleaned.map Prod.fst).Nodup ∧
      ∀ x, x ∈ w.cache.cleaned.map Prod.fst ↔ (∃ ev ∈ hist, Removed F ev x) ∧ ∀ r ∈ w.refs, r.2 ≠ x := by
  obtain ⟨chains, es, inv⟩ := run.inv
  have log := CacheLog.run run
  obtain ⟨once, called⟩ := inv.kept.cleaned cleans
  refine ⟨once, fun x => (called x).trans ⟨fun freed => ⟨?_, ?_⟩, ?_⟩⟩
  · exact (log.marked x (by simp [freed])).mp (log.freed x freed)
  · rintro r held rfl
    rw [inv.kept.alive (inv.kept.held r held)] at freed
    cases freed
  · rintro ⟨⟨ev, member, removed⟩, nobody⟩
    have born : w.cache.life x ≠ .unborn := fun unborn => log.early x unborn ev member removed
    have marked := (log.marked x born).mpr ⟨ev, member, removed⟩
    cases life : w.cache.life x with
    | unborn => exact absurd life born
    | freed => rfl
    | allocated =>
      -- an entry that is marked and not freed waits for somebody
      by_cases inside : x ∈ es
      · have waits := inv.waiting x inside marked
        rw [inv.kept.counts x inside, List.countP_pos_iff] at waits
        obtain ⟨r, held, same⟩ := waits
        exact absurd (of_decide_eq_true same) (nobody r held)
      · rw [(inv.kept.fresh x life inside).2] at marked
        cases marked

/-- The cache as a bounded map whose values stay as long as somebody holds them. -/
structure CacheContract (F : KeyFns K) (hist : List (CacheEvent ι η K D)) (w : World ι η K D) : Prop where
  lookup : ∀ ev older h key, (ev :: older) <:+ hist → ev.label = .lookup h key →
    ∃ found, ev.out = .entry found ∧ ∀ x, found = some x ↔ Current F older key x
  insert : ∀ ev older h e, (ev :: older) <:+ hist → ev.label = .insert h e → InsertTakes F older ev e
  cleanup : w.cache.hasCleanup = true → (w.cache.cleaned.map Prod.fst).Nodup ∧
    ∀ x, x ∈ w.cache.cleaned.map Prod.fst ↔ (∃ ev ∈ hist, Removed F ev x) ∧ ∀ r ∈ w.refs, r.2 ≠ x

/-- A lookup finds the entry of the last insertion for the key unless that has been removed, an
insertion removes the entry with the same key and the first ones of the unreferenced entries
only, and the entries are cleaned up once, when they are removed and nobody holds them. -/
theorem cache_bounded_map (F : KeyFns K) (hist : List (CacheEvent ι η K D)) (w : World ι η K D)
    (run : CacheRun F hist w) : CacheContract F hist w := by
  refine ⟨?_, ?_, fun cleans => run.cleans cleans⟩
  · rintro ev older h key ⟨newer, rfl⟩ label
    obtain ⟨before, fired, -⟩ := run.split
    obtain ⟨found, out⟩ : ∃ found, ev.out = .entry found := by
      obtain ⟨chains, es, inv⟩ := CacheRun.inv before
      obtain ⟨es', chains', effect, -⟩ := inv.effect fired
      rw [label] at effect
      generalize ev.out = out, ev.post = post at effect
      cases effect with
      | missed _ | found _ => exact ⟨_, rfl⟩
    exact ⟨found, out, CacheRun.looksUp before fired label out⟩
  · rintro ev older h e ⟨newer, rfl⟩ label
    obtain ⟨before, fired, -⟩ := run.split
    exact CacheRun.inserts before fired label

end

/-- The key 7 is put in again while somebody holds its first entry: a lookup finds the second
one, and the first is cleaned up when its holder gives it back. -/
theorem cache_bounded_map_replaced_while_held :
    ∃ (hist : List (CacheEvent Nat Nat Nat Nat)) (w : World Nat Nat Nat Nat), CacheRun numbers hist w ∧
      ((hist.map (·.out)).take 2 = [.done, .entry (some 1)] ∧ w.cache.cleaned = [(0, 7, 70)] ∧ w.refs = [(6, 1), (6, 1)]) ∧
      CacheContract numbers hist w := by
  obtain ⟨hist, w, run, seen⟩ := Run.found (M := cacheMachine (ι := Nat) (η := Nat) (D := Nat) numbers)
    [.create (some 0) 7 70 10, .insert 5 0, .create (some 1) 7 71 10, .insert 6 1, .lookup 6 7, .release 5 0]
    pair_started
    (p := fun hist w => decide ((hist.map (·.out)).take 2 = [.done, .entry (some 1)] ∧
      w.cache.cleaned = [(0, 7, 70)] ∧ w.refs = [(6, 1), (6, 1)]))
    (by decide +kernel)
  exact ⟨hist, w, run, of_decide_eq_true seen, cache_bounded_map numbers hist w run⟩

end StateThreads.Lru
