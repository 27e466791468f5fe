import StateThreads.Contract.CacheMap

/-! The calls of the cache one by one, for those who use it: each returns, and leaves the
entries with their keys and data. -/
namespace StateThreads.Lru
open Chain LabelledRun

variable {ι η K D : Type} [DecidableEq ι]

structure Follows (w w' : World ι η K D) : Prop where
  constant : ∀ x, w.cache.life x ≠ .unborn → w'.cache.life x ≠ .unborn ∧
    (w'.cache.entry x).key = (w.cache.entry x).key ∧ (w'.cache.entry x).data = (w.cache.entry x).data
  capacity : w'.cache.maxWeight = w.cache.maxWeight

omit [DecidableEq ι] in
theorem Follows.refl (w : World ι η K D) : Follows w w := ⟨fun _ born => ⟨born, rfl, rfl⟩, rfl⟩

omit [DecidableEq ι] in
theorem Follows.trans {w₁ w₂ w₃ : World ι η K D} (first : Follows w₁ w₂) (second : Follows w₂ w₃) : Follows w₁ w₃ := by
  refine ⟨fun x born => ?_, second.capacity.trans first.capacity⟩
  obtain ⟨born₂, key₂, data₂⟩ := first.constant x born
  obtain ⟨born₃, key₃, data₃⟩ := second.constant x born₂
  exact ⟨born₃, key₃.trans key₂, data₃.trans data₂⟩

variable [DecidableEq η] {F : KeyFns K} {hist : List (CacheEvent ι η K D)} {w w' : World ι η K D} {es es' : List ι}
  {op : CacheOp ι η K D} {out : CacheRet ι} {x e : ι} {h : η} {key : K}

theorem Effect.follows {ev : CacheEvent ι η K D} {chains : Nat → List ι}
    (effect : Effect F ev.pre es ev.label ev.out ev.post es') (kept : Kept F ev.pre es)
    (rep : Rep F ev.pre.cache chains es) : Follows ev.pre ev.post := by
  refine ⟨fun x born => effect.constant kept rep born, ?_⟩
  obtain ⟨e, key, data, weight, -, same⟩ | ⟨ts, touched⟩ := effect.touched kept rep
  · rw [same]
    rfl
  · exact touched.capacity

structure Called (F : KeyFns K) (hist : List (CacheEvent ι η K D)) (w : World ι η K D) (op : CacheOp ι η K D)
    (w' : World ι η K D) (out : CacheRet ι) : Prop where
  fired : Event.Fired (cacheMachine F) ⟨w, op, out, w'⟩
  run : CacheRun F (⟨w, op, out, w'⟩ :: hist) w'
  follows : Follows w w'
  inserted : ∀ x, w'.inserted x = true ↔ w.inserted x = true ∨ ∃ h, op = .insert h x ∧ out = .status true
  effect : ∃ es es', Effect F w es op out w' es'

theorem Called.step (called : Called F hist w op w' out) : cacheStep F w op = some (w', out) := called.fired.step

theorem Called.same (called : Called F hist w op w' out) (other : ∀ h x, op ≠ .insert h x) (put : w'.inserted x = true) :
    w.inserted x = true := by
  obtain old | ⟨h, this, -⟩ := (called.inserted x).mp put
  · exact old
  · exact absurd this (other h x)

theorem CacheRun.call (run : CacheRun F hist w) (op : CacheOp ι η K D) (ok : cacheEnabled w op = true) :
    ∃ w' out, Called F hist w op w' out := by
  obtain ⟨chains, es, inv⟩ := run.inv
  obtain ⟨w', out, es', chains', step, effect, -⟩ := inv.kept.step_effect inv.rep ok
  have fired : Event.Fired (cacheMachine F) ⟨w, op, out, w'⟩ := ⟨ok, step⟩
  refine ⟨w', out, fired, run.next fired, ?_, ?_, es, es', effect⟩
  · exact @Effect.follows _ _ _ _ _ _ F es es' ⟨w, op, out, w'⟩ chains effect inv.kept inv.rep
  · exact @Effect.inserted_iff _ _ _ _ _ _ F ⟨w, op, out, w'⟩ es es' effect

theorem CacheRun.lives (run : CacheRun F hist w) (born : w.cache.life x ≠ .unborn)
    (never : ∀ ev ∈ hist, ¬ Removed F ev x) : w.cache.life x = .allocated := by
  have log := CacheLog.run run
  cases life : w.cache.life x with
  | unborn => exact absurd life born
  | allocated => rfl
  | freed =>
    obtain ⟨ev, member, removed⟩ := (log.marked x born).mp (log.freed x life)
    exact absurd removed (never ev member)

theorem CacheRun.lookup (run : CacheRun F hist w) (h : η) (key : K) :
    ∃ w' found, Called F hist w (.lookup h key) w' (.entry found) ∧
      ∀ e, found = some e → (h, e) ∈ w'.refs ∧ w.inserted e = true ∧ F.keyCmpFn key (w.cache.entry e).key = 0 ∧
        w.cache.life e ≠ .unborn ∧ ∀ ev ∈ hist, ¬ Removed F ev e := by
  obtain ⟨w', out, called⟩ := run.call (.lookup h key) rfl
  obtain ⟨es, es', effect⟩ := called.effect
  cases effect with
  | missed missed => exact ⟨_, none, called, by simp⟩
  | @found _ _ e c' found =>
    refine ⟨_, some e, called, ?_⟩
    rintro x ⟨rfl⟩
    have current := (CacheRun.looksUp run called.fired rfl rfl e).mp rfl
    obtain ⟨visible, equal⟩ := (run.current key e).mp current
    obtain ⟨put, never⟩ := (run.visible e).mp visible
    exact ⟨List.mem_cons_self .., put, equal, by simp [visible.1.2], never⟩

theorem CacheRun.release (run : CacheRun F hist w) (holds : (h, e) ∈ w.refs) :
    ∃ w', Called F hist w (.release h e) w' .done := by
  obtain ⟨w', out, called⟩ := run.call (.release h e) (by simpa [cacheEnabled] using holds)
  obtain ⟨es, es', effect⟩ := called.effect
  cases effect with
  | released holds released => exact ⟨_, called⟩

theorem CacheRun.delete (run : CacheRun F hist w) (alive : w.cache.life e = .allocated) :
    ∃ w', Called F hist w (.delete e) w' .done := by
  obtain ⟨w', out, called⟩ := run.call (.delete e) (by simpa [cacheEnabled] using alive)
  obtain ⟨es, es', effect⟩ := called.effect
  cases effect with
  | deleted alive ended => exact ⟨_, called⟩

theorem CacheRun.insert (run : CacheRun F hist w) (alive : w.cache.life e = .allocated) (new : w.inserted e = false)
    (small : w.cache.maxWeight.toNat + (w.cache.entry e).weight.toNat < 2 ^ 64) (h : η) :
    ∃ w' ok, Called F hist w (.insert h e) w' (.status ok) ∧ w'.cache.life e = .allocated ∧
      (ok = true → (h, e) ∈ w'.refs) := by
  have enabled : cacheEnabled w (.insert h e : CacheOp ι η K D) = true := by
    simpa [cacheEnabled, alive, new] using small
  obtain ⟨w', out, called⟩ := run.call _ enabled
  obtain ⟨-, never⟩ := CacheRun.fresh run called.fired rfl
  have lives := CacheRun.lives called.run (called.follows.constant e (by simp [alive])).1 never
  obtain ⟨es, es', effect⟩ := called.effect
  cases effect with
  | refused new inserted => exact ⟨_, false, called, lives, by simp⟩
  | inserted alive new inserted => exact ⟨_, true, called, lives, fun _ => List.mem_cons_self ..⟩

theorem CacheRun.create (run : CacheRun F hist w) (unborn : w.cache.life e = .unborn) (key : K) (data : D) (weight : Word) :
    ∃ w', Called F hist w (.create (some e) key data weight) w' (.entry (some e)) ∧ w'.cache.life e = .allocated ∧
      w'.cache.entry e = ⟨key, data, weight, 0, false⟩ ∧ w'.inserted e = false := by
  obtain ⟨w', out, called⟩ := run.call (.create (some e) key data weight) (by simpa [cacheEnabled] using unborn)
  obtain ⟨chains, es, inv⟩ := run.inv
  obtain ⟨es, es', effect⟩ := called.effect
  cases effect with
  | created unborn =>
    refine ⟨_, called, ?_, ?_, inv.kept.unborn e unborn⟩
    all_goals simp [stxCacheEntryCreate, Cache.setEntry]

end StateThreads.Lru
