import StateThreads.Stack.FreeList
import StateThreads.Contract.Calls

/-! The stack pool: every stack is free or has one owner. -/
namespace StateThreads
open LabelledRun

/- The threads. -/

variable {σ ω : Type}

section
variable {e : SysEvent σ ω} (stepped : Stepped e)
include stepped

theorem Stepped.exit_out {r : Nat} (cause : e.label = .call (.threadExit r)) : e.out = none := by
  obtain ⟨vp', switch, -, move, -⟩ := stepped.move
  rw [cause] at move
  generalize e.out = out at move
  cases move with
  | interrupted blocks => cases blocks
  | exits | dies => rfl

theorem Stepped.gone (ends : e.pre.vp.ends e.label = true) : (e.post.vp.thr e.actor).context = .gone := by
  have out : ∀ r, e.label = .call (.threadExit r) → e.out = none := fun r => stepped.exit_out
  obtain ⟨th, acted, picked⟩ := stepped.self
  rw [picked.context]
  unfold Vp.ends at ends
  split at ends
  · rename_i retval cause
    have detached : (e.pre.vp.thr e.pre.vp.current).term = none := by simpa using ends
    cases acted with
    | left | ended => rfl
    | same _ returned _ =>
      obtain ⟨change, outside⟩ | answered := returned
      · rw [cause] at outside
        cases outside
      · exact absurd (out retval cause) answered
    | cleared called blocks =>
      rw [cause] at called
      cases called
      cases blocks
    | parked where_ =>
      rw [cause] at where_
      cases where_
    | died _ joinable =>
      rw [detached] at joinable
      cases joinable
    | flagged called | began called | returned called | rejoined called | idled called =>
      rw [cause] at called
      cases called
  · rename_i cause
    have place : (e.pre.vp.thr e.pre.vp.current).context = .exiting := by simpa using ends
    cases acted with
    | left | ended => rfl
    | same _ _ call => exact absurd cause call
    | parked where_ =>
      rw [cause] at where_
      cases where_
    | began _ fresh | rejoined _ fresh | idled _ fresh =>
      rw [place] at fresh
      cases fresh
    | returned _ back =>
      rw [place] at back
      cases back
    | cleared called | flagged called | died called =>
      rw [cause] at called
      cases called
  · cases ends

theorem Stepped.stays_live (stays : e.pre.vp.ends e.label = false) : (e.post.vp.thr e.actor).context.live = true := by
  have live : (e.pre.vp.thr e.actor).context.live = true := stepped.pre.inv.running.1
  obtain ⟨th, acted, picked⟩ := stepped.self
  rw [picked.context]
  cases acted with
  | same | cleared | flagged | idled => exact live
  | began | returned | rejoined | died => rfl
  | parked where_ =>
    generalize e.label = l at where_
    cases where_ <;> rfl
  | left cause detached =>
    rw [cause] at stays
    simp [Vp.ends, detached] at stays
  | ended cause place =>
    rw [cause] at stays
    simp [Vp.ends, place] at stays

theorem Stepped.lives (quiet : e.label.creates = false) (t : Tid) : (e.post.vp.thr t).context.live = true ↔
    (e.pre.vp.thr t).context.live = true ∧ ¬(t = e.actor ∧ e.pre.vp.ends e.label = true) := by
  by_cases acts : t = e.actor
  · have live : (e.pre.vp.thr e.actor).context.live = true := stepped.pre.inv.running.1
    rw [acts]
    cases ends : e.pre.vp.ends e.label with
    | true => simp [stepped.gone ends, Context.live]
    | false => simp [stepped.stays_live ends, live]
  · obtain ⟨th, touched, picked⟩ := stepped.other t acts
    rw [picked.context]
    cases touched with
    | created cause =>
      rw [cause] at quiet
      cases quiet
    | _ => simp [acts]

theorem Stepped.primordial (quiet : e.label.creates = false) (t : Tid) :
    (e.post.vp.thr t).flags.primordial = (e.pre.vp.thr t).flags.primordial := by
  by_cases acts : t = e.actor
  · rw [acts]
    obtain ⟨th, acted, picked⟩ := stepped.self
    rw [picked.flags]
    cases acted with
    | returned _ back =>
      generalize (e.pre.vp.thr e.pre.vp.current).context = place at back
      generalize e.out = out at back
      cases back <;> rfl
    | _ => rfl
  · obtain ⟨th, touched, picked⟩ := stepped.other t acts
    rw [picked.flags]
    cases touched with
    | created cause =>
      rw [cause] at quiet
      cases quiet
    | woken _ _ why =>
      cases why with
      | timer =>
        simp only [Thread.expired]
        split <;> rfl
      | _ => rfl
    | _ => rfl

end

/- A step of the library with its pool. -/

variable {E : EventSys σ ω} {layout : Layout}

inductive PoolMoved (E : EventSys σ ω) (layout : Layout) (e : PoolEvent σ ω) : Prop
  | lib {l : Label ω} {pool : Pool} (cause : e.label = .lib l) (quiet : l.creates = false)
    (freed : stStackFree e.pre.pool (e.pre.frees l) = some pool)
    (fired : Event.Fired (machine E) ⟨e.pre.sys, l, e.out, e.post.sys⟩) (pool_ : e.post.pool = pool)
    (stack : e.post.stack = e.pre.stack)
  | refused {thread : Tid} {joinable : Bool} {cvar : Option CondId} {stkSize : Int} {answers : StkAnswers} {pool : Pool}
    (cause : e.label = .create thread joinable cvar stkSize answers)
    (taken : stStackNew e.pre.pool (adjustStkSize e.pre.pool.pagesize stkSize) answers = some (pool, none))
    (fired : Event.Fired (machine E) ⟨e.pre.sys, .call (.threadCreate none joinable cvar), e.out, e.post.sys⟩)
    (pool_ : e.post.pool = pool) (stack : e.post.stack = e.pre.stack)
  | abandoned {thread : Tid} {stkSize : Int} {answers : StkAnswers} {pool pool' : Pool} {ts : StkId}
    (cause : e.label = .create thread true none stkSize answers)
    (taken : stStackNew e.pre.pool (adjustStkSize e.pre.pool.pagesize stkSize) answers = some (pool, some ts))
    (freed : stStackFree (pool.carved layout ts) (some ts) = some pool')
    (fired : Event.Fired (machine E) ⟨e.pre.sys, .call (.threadCreate (some thread) true none), e.out, e.post.sys⟩)
    (pool_ : e.post.pool = pool') (stack : e.post.stack = e.pre.stack)
  | created {thread : Tid} {joinable : Bool} {cvar : Option CondId} {stkSize : Int} {answers : StkAnswers} {pool : Pool}
    {ts : StkId} (cause : e.label = .create thread joinable cvar stkSize answers) (term : ¬(joinable = true ∧ cvar = none))
    (taken : stStackNew e.pre.pool (adjustStkSize e.pre.pool.pagesize stkSize) answers = some (pool, some ts))
    (fired : Event.Fired (machine E) ⟨e.pre.sys, .call (.threadCreate (some thread) joinable cvar), e.out, e.post.sys⟩)
    (pool_ : e.post.pool = pool.carved layout ts) (stack : e.post.stack = Function.update e.pre.stack thread (some ts))
  | randomized {on : Bool} (cause : e.label = .randomize on) (sys : e.post.sys = e.pre.sys)
    (pool_ : e.post.pool = { e.pre.pool with randomizeStacks := on }) (stack : e.post.stack = e.pre.stack)

theorem refused_enabled {s : System σ} {thread : Tid} {joinable : Bool} {cvar : Option CondId}
    (ok : enabled E s (.call (.threadCreate (some thread) joinable cvar)) = true) :
    enabled E s (.call (.threadCreate none joinable cvar)) = true := by
  simp only [enabled, callable, Option.all_none, Option.all_some, Bool.and_eq_true, Bool.true_and] at ok ⊢
  exact ⟨ok.1, ok.2.2⟩

theorem poolStep_moved {e : PoolEvent σ ω} (fired : e.Fired (poolMachine E layout)) : PoolMoved E layout e := by
  obtain ⟨enabled, run⟩ := fired
  obtain ⟨pre, label, out, post⟩ := e
  simp only [poolMachine] at enabled run
  cases label with
  | lib l =>
    simp only [poolEnabled, Bool.and_eq_true, Bool.not_eq_true'] at enabled
    simp only [poolStep, Option.bind_eq_bind, Option.bind_eq_some_iff] at run
    obtain ⟨pool, freed, ⟨sys, out'⟩, stepped, same⟩ := run
    cases same
    exact .lib rfl enabled.2 freed ⟨enabled.1, stepped⟩ rfl rfl
  | create thread joinable cvar stkSize answers =>
    simp only [poolEnabled, Bool.and_eq_true] at enabled
    simp only [poolStep, Option.bind_eq_bind, Option.bind_eq_some_iff] at run
    obtain ⟨⟨pool, stack⟩, taken, run⟩ := run
    cases stack with
    | none =>
      obtain ⟨⟨sys, out'⟩, stepped, same⟩ := Option.bind_eq_some_iff.mp run
      cases same
      exact .refused rfl taken ⟨refused_enabled enabled.1.1, stepped⟩ rfl rfl
    | some ts =>
      obtain ⟨⟨sys, out'⟩, stepped, run⟩ := Option.bind_eq_some_iff.mp run
      dsimp only at run
      split at run
      · rename_i fails
        obtain ⟨pool', freed, same⟩ := Option.bind_eq_some_iff.mp run
        cases same
        obtain ⟨rfl, rfl⟩ := fails
        exact .abandoned rfl taken freed ⟨enabled.1.1, stepped⟩ rfl rfl
      · rename_i term
        cases run
        exact .created rfl term taken ⟨enabled.1.1, stepped⟩ rfl rfl
  | randomize on =>
    cases run
    exact .randomized rfl rfl rfl rfl

theorem PoolRun.sys {hist : List (PoolEvent σ ω)} {s : PoolSystem σ} (run : PoolRun E layout hist s) :
    ∃ hist', SysRun E hist' s.sys := by
  induction run with
  | begin started => exact ⟨[], .begin started.1⟩
  | next before fired ih =>
    obtain ⟨hist', before'⟩ := ih
    cases poolStep_moved fired with
    | lib _ _ _ fired' | refused _ _ fired' | abandoned _ _ _ fired' | created _ _ _ fired' => exact ⟨_, before'.next fired'⟩
    | randomized _ same =>
      rw [same]
      exact ⟨hist', before'⟩

theorem startThread_thr {vp vp' : Vp} {t : Tid} {context : Context} {term : Option CondId}
    (run : startThread vp t context term = some vp') :
    vp'.thr = Function.update vp.thr t ⟨.runnable, ⟨false, false, false, false⟩, 0, term, context⟩ := by
  simp only [startThread, Vp.addRunq] at run
  split at run
  · cases run
  · cases run
    rfl

theorem threadCreate_run {s s' : System σ} {stack : Option Tid} {joinable : Bool} {cvar : Option CondId} {out : Option Ret}
    (fired : Event.Fired (machine E) ⟨s, .call (.threadCreate stack joinable cvar), out, s'⟩) :
    stThreadCreate s.vp stack joinable cvar = some (s'.vp, out) := by
  have run : s.lift (stThreadCreate s.vp stack joinable cvar) = some (s', out) := fired.step
  exact System.lift_some run

theorem stThreadCreate_fails {vp vp' : Vp} {stack : Option Tid} {joinable : Bool} {cvar : Option CondId}
    {out : Option Ret} (fails : stack = none ∨ joinable = true ∧ cvar = none)
    (run : stThreadCreate vp stack joinable cvar = some (vp', out)) : vp' = vp := by
  obtain rfl | ⟨rfl, rfl⟩ := fails
  · cases run
    rfl
  · cases stack with
    | none | some t =>
      cases run
      rfl

theorem stThreadCreate_starts {vp vp' : Vp} {t : Tid} {joinable : Bool} {cvar : Option CondId} {out : Option Ret}
    (term : ¬(joinable = true ∧ cvar = none)) (run : stThreadCreate vp (some t) joinable cvar = some (vp', out)) :
    ∃ term, vp'.thr = Function.update vp.thr t ⟨.runnable, ⟨false, false, false, false⟩, 0, term, .fresh⟩ := by
  cases joinable with
  | false =>
    simp only [stThreadCreate, Bool.false_eq_true, if_false, Option.bind_eq_bind, Option.bind_eq_some_iff] at run
    obtain ⟨vp₁, started, same⟩ := run
    cases same
    exact ⟨none, startThread_thr started⟩
  | true =>
    cases cvar with
    | none => simp at term
    | some c =>
      simp only [stThreadCreate, if_true, Option.bind_eq_bind, Option.bind_eq_some_iff] at run
      obtain ⟨vp₁, started, same⟩ := run
      cases same
      have thr := startThread_thr started
      exact ⟨some c, thr⟩

/- The invariant. -/

/-- The thread has not finished, and the stack is its own. -/
def PoolSystem.Owns (s : PoolSystem σ) (t : Tid) (ts : StkId) : Prop :=
  (s.sys.vp.thr t).context.live = true ∧ s.stack t = some ts

structure StackPool (s : PoolSystem σ) (free : List StkId) : Prop where
  listed : s.pool.Free free
  placed : ∀ ts, ts ∈ s.pool.made ↔ ts ∈ free ∨ ∃ t, s.Owns t ts
  apart : ∀ t ts, s.Owns t ts → ts ∉ free
  one : ∀ t u ts, s.Owns t ts → s.Owns u ts → t = u

structure PoolInv (s : PoolSystem σ) (free : List StkId) : Prop extends StackPool s free where
  primordial : ∀ t, (s.sys.vp.thr t).context.live = true → (s.sys.vp.thr t).flags.primordial = true → s.stack t = none

theorem PoolInv.kept {s s' : PoolSystem σ} {free free' : List StkId} (inv : PoolInv s free) (new : StkId → Prop)
    (unowned : ∀ t ts, new ts → ¬s.Owns t ts) (listed : s'.pool.Free free')
    (made : ∀ ts, ts ∈ s'.pool.made ↔ ts ∈ s.pool.made ∨ new ts) (member : ∀ ts, ts ∈ free' ↔ ts ∈ free ∨ new ts)
    (stack : s'.stack = s.stack)
    (live : ∀ t ts, s.stack t = some ts →
      ((s'.sys.vp.thr t).context.live = true ↔ (s.sys.vp.thr t).context.live = true))
    (primordial : ∀ t, (s'.sys.vp.thr t).context.live = true → (s'.sys.vp.thr t).flags.primordial = true →
      s.stack t = none) : PoolInv s' free' := by
  have owns : ∀ t ts, s'.Owns t ts ↔ s.Owns t ts := by
    intro t ts
    unfold PoolSystem.Owns
    rw [stack]
    constructor
    · exact fun ⟨alive, own⟩ => ⟨(live t ts own).mp alive, own⟩
    · exact fun ⟨alive, own⟩ => ⟨(live t ts own).mpr alive, own⟩
  constructor
  · constructor
    case listed => exact listed
    case placed =>
      intro ts
      simp only [owns]
      rw [made, member, inv.placed]
      tauto
    case apart =>
      intro t ts owned listed
      rw [owns] at owned
      obtain listed | fresh := (member ts).mp listed
      · exact inv.apart t ts owned listed
      · exact unowned t ts fresh owned
    case one => simpa only [owns] using inv.one
  · rw [stack]
    exact primordial

theorem PoolInv.untouched {s s' : PoolSystem σ} {free : List StkId} (inv : PoolInv s free) (listed : s'.pool.Free free)
    (made : s'.pool.made = s.pool.made) (stack : s'.stack = s.stack) (vp : s'.sys.vp = s.sys.vp) : PoolInv s' free := by
  apply inv.kept (fun _ => False) (by simp) listed (by simp [made]) (by simp) stack
  · intro t ts own
    rw [vp]
  · rw [vp]
    exact inv.primordial

theorem PoolInv.granted {s s' : PoolSystem σ} {free free' : List StkId} (inv : PoolInv s free) {t : Tid} {ts : StkId}
    (unborn : (s.sys.vp.thr t).context.live = false) (unowned : ∀ u, ¬s.Owns u ts) (listed : s'.pool.Free free')
    (made : ∀ us, us ∈ s'.pool.made ↔ us ∈ s.pool.made ∨ us = ts) (member : ∀ us, us ∈ free' ↔ us ∈ free ∧ us ≠ ts)
    (stack : s'.stack = Function.update s.stack t (some ts)) {th : Thread} (starts : th.context.live = true)
    (flag : th.flags.primordial = false) (thr : s'.sys.vp.thr = Function.update s.sys.vp.thr t th) : PoolInv s' free' := by
  have owns : ∀ u us, s'.Owns u us ↔ s.Owns u us ∨ u = t ∧ us = ts := by
    intro u us
    unfold PoolSystem.Owns
    rw [stack, thr]
    by_cases same : u = t
    · rw [same, Function.update_self, Function.update_self, starts, unborn]
      simp [eq_comm]
    · rw [Function.update_of_ne same, Function.update_of_ne same]
      simp [same]
  constructor
  · constructor
    case listed => exact listed
    case placed =>
      intro us
      simp only [owns, exists_or, exists_and_right, exists_eq, true_and]
      rw [made, member, inv.placed]
      tauto
    case apart =>
      intro u us owned listed
      obtain ⟨listed, other⟩ := (member us).mp listed
      rcases (owns u us).mp owned with owned | ⟨-, rfl⟩
      · exact inv.apart u us owned listed
      · exact other rfl
    case one =>
      intro u v us owned owned'
      rcases (owns u us).mp owned with owned | ⟨rfl, rfl⟩
      · rcases (owns v us).mp owned' with owned' | ⟨rfl, rfl⟩
        · exact inv.one u v us owned owned'
        · exact absurd owned (unowned u)
      · rcases (owns v us).mp owned' with owned' | ⟨rfl, -⟩
        · exact absurd owned' (unowned v)
        · rfl
  · intro u alive set
    by_cases same : u = t
    · subst same
      rw [thr, Function.update_self, flag] at set
      cases set
    · rw [thr, Function.update_of_ne same] at alive set
      rw [stack, Function.update_of_ne same]
      exact inv.primordial u alive set

theorem PoolInv.released {s s' : PoolSystem σ} {front back : List StkId} (inv : PoolInv s (front ++ back)) {t : Tid}
    {ts : StkId} (owner : s.Owns t ts) (listed : s'.pool.Free (front ++ ts :: back)) (made : s'.pool.made = s.pool.made)
    (stack : s'.stack = s.stack)
    (live : ∀ u, (s'.sys.vp.thr u).context.live = true ↔ (s.sys.vp.thr u).context.live = true ∧ u ≠ t)
    (primordial : ∀ u, (s'.sys.vp.thr u).flags.primordial = (s.sys.vp.thr u).flags.primordial) :
    PoolInv s' (front ++ ts :: back) := by
  have owns : ∀ u us, s'.Owns u us ↔ s.Owns u us ∧ u ≠ t := by
    intro u us
    unfold PoolSystem.Owns
    rw [stack, live]
    tauto
  have member : ∀ us, us ∈ front ++ ts :: back ↔ us = ts ∨ us ∈ front ++ back := by
    intro us
    simp only [List.mem_append, List.mem_cons]
    tauto
  constructor
  · constructor
    case listed => exact listed
    case placed =>
      intro us
      rw [made, inv.placed, member]
      constructor
      · rintro (listed | ⟨u, owned⟩)
        · exact .inl (.inr listed)
        · by_cases same : u = t
          · subst same
            exact .inl (.inl (Option.some.inj (owned.2.symm.trans owner.2)))
          · exact .inr ⟨u, (owns u us).mpr ⟨owned, same⟩⟩
      · rintro ((rfl | listed) | ⟨u, owned⟩)
        · exact .inr ⟨t, owner⟩
        · exact .inl listed
        · exact .inr ⟨u, ((owns u us).mp owned).1⟩
    case apart =>
      intro u us owned listed
      obtain ⟨owned, other⟩ := (owns u us).mp owned
      obtain rfl | listed := (member us).mp listed
      · exact other (inv.one u t us owned owner)
      · exact inv.apart u us owned listed
    case one =>
      intro u v us owned owned'
      exact inv.one u v us ((owns u us).mp owned).1 ((owns v us).mp owned').1
  · intro u alive flag
    rw [stack]
    exact inv.primordial u ((live u).mp alive).1 (by rw [← primordial]; exact flag)

theorem Taken.took {s : PoolSystem σ} {free : List StkId} (inv : PoolInv s free) {stackSize : Int} {answers : StkAnswers}
    (new : ∀ ts, answers.object = some ts → ts ∉ s.pool.made) {pool : Pool} {ts : StkId}
    (taken : Taken s.pool free stackSize answers pool (some ts)) :
    ∃ free', pool.Free free' ∧ (∀ us, us ∈ free' ↔ us ∈ free ∧ us ≠ ts) ∧
      (∀ us, us ∈ pool.made ↔ us ∈ s.pool.made ∨ us = ts) ∧ ∀ u, ¬s.Owns u ts := by
  cases taken with
  | @reused _ front back whole large listed same =>
    have nodup := inv.listed.nodup
    rw [whole] at nodup
    have mem : ts ∈ free := by
      rw [whole]
      exact List.mem_append_right _ List.mem_cons_self
    refine ⟨front ++ back, listed, fun us => ?_, fun us => ?_, fun u owned => inv.apart u ts owned mem⟩
    · have apart : ts ∉ front ++ back := (List.nodup_cons.mp (List.perm_middle.nodup_iff.mp nodup)).1
      rw [whole]
      simp only [List.mem_append, List.mem_cons] at apart ⊢
      constructor
      · intro listed
        refine ⟨by tauto, ?_⟩
        rintro rfl
        exact apart listed
      · rintro ⟨listed, other⟩
        tauto
    · rw [same.made]
      constructor
      · exact .inl
      · rintro (made | rfl)
        · exact made
        · exact (inv.placed us).mpr (.inl mem)
  | @mapped _ vaddr small object positive segment same =>
    have fresh := new ts object
    refine ⟨free, ?_, fun us => ?_, fun us => ?_, fun u owned => fresh ((inv.placed ts).mpr (.inr ⟨u, owned⟩))⟩
    · rw [same]
      exact ⟨inv.listed.ring, inv.listed.count⟩
    · constructor
      · intro listed
        refine ⟨listed, ?_⟩
        rintro rfl
        exact fresh ((inv.placed us).mpr (.inl listed))
      · exact fun both => both.1
    · rw [same]
      simp only [List.mem_cons]
      tauto

theorem create_enabled {s : PoolSystem σ} {thread : Tid} {joinable : Bool} {cvar : Option CondId} {stkSize : Int}
    {answers : StkAnswers} (enabled : poolEnabled E s (.create thread joinable cvar stkSize answers) = true) :
    (s.sys.vp.thr thread).context = .unborn ∧ IsInt stkSize ∧ ∀ ts, answers.object = some ts → ts ∉ s.pool.made := by
  simp only [poolEnabled, StateThreads.enabled, callable, Option.all_some, Bool.and_eq_true, decide_eq_true_eq] at enabled
  refine ⟨enabled.1.1.2.1, enabled.1.2, fun ts object => ?_⟩
  have fresh := enabled.2
  rw [object, Option.all_some] at fresh
  simpa using fresh

section
variable {hist : List (SysEvent σ ω)} {e : PoolEvent σ ω} {free : List StkId} (inv : PoolInv e.pre free)
  (sys : SysRun E hist e.pre.sys)
include inv sys

theorem PoolInv.library {l : Label ω} {pool : Pool} (quiet : l.creates = false)
    (freed : stStackFree e.pre.pool (e.pre.frees l) = some pool)
    (fired : Event.Fired (machine E) ⟨e.pre.sys, l, e.out, e.post.sys⟩) (pool_ : e.post.pool = pool)
    (stack : e.post.stack = e.pre.stack) : ∃ free', PoolInv e.post free' := by
  have stepped := SysRun.stepped sys fired
  have lives := stepped.lives quiet
  have primordial := stepped.primordial quiet
  have running : (e.pre.sys.vp.thr e.pre.sys.vp.current).context.live = true := stepped.pre.inv.running.1
  simp only [SysEvent.actor] at lives primordial
  cases frees : e.pre.frees l with
  | none =>
    rw [frees] at freed
    cases freed
    refine ⟨free, inv.kept (fun _ => False) (by simp) (pool_ ▸ inv.listed) (by simp [pool_]) (by simp) stack ?_ ?_⟩
    · intro t ts own
      rw [lives]
      refine ⟨fun both => both.1, fun alive => ⟨alive, ?_⟩⟩
      rintro ⟨rfl, ends⟩
      unfold PoolSystem.frees at frees
      simp only [ends, Bool.true_and, Bool.not_eq_true', own] at frees
      split at frees
      · cases frees
      · rename_i flag
        have none_ := inv.primordial _ running (by simpa using flag)
        rw [own] at none_
        cases none_
    · intro t alive flag
      rw [primordial] at flag
      exact inv.primordial t ((lives t).mp alive).1 flag
  | some ts =>
    rw [frees] at freed
    unfold PoolSystem.frees at frees
    split at frees
    · rename_i leaves
      have ends : e.pre.sys.vp.ends l = true := (Bool.and_eq_true_iff.mp leaves).1
      have owner : e.pre.Owns e.pre.sys.vp.current ts := ⟨running, frees⟩
      obtain ⟨pool', front, back, run, rfl, listed, same⟩ := stStackFree_spec inv.listed (inv.apart _ ts owner)
      rw [freed] at run
      cases run
      refine ⟨_, inv.released owner (pool_ ▸ listed) (by rw [pool_, same.made]) stack ?_ primordial⟩
      intro u
      rw [lives]
      simp [ends]
    · cases frees

theorem PoolInv.step (fired : e.Fired (poolMachine E layout)) : ∃ free', PoolInv e.post free' := by
  have enabled := fired.enabled
  simp only [poolMachine] at enabled
  cases poolStep_moved fired with
  | lib cause quiet freed fired pool_ stack => exact inv.library sys quiet freed fired pool_ stack
  | @refused thread joinable cvar stkSize answers pool cause taken fired pool_ stack =>
    obtain ⟨pool', ts, run, took⟩ := stStackNew_spec inv.listed (adjustStkSize e.pre.pool.pagesize stkSize) answers
    rw [taken] at run
    cases run
    cases took with
    | failed small same =>
      have same' : e.post.sys.vp = e.pre.sys.vp := stThreadCreate_fails (.inl rfl) (threadCreate_run fired)
      rw [same] at pool_
      exact ⟨free, inv.untouched (pool_ ▸ inv.listed) (by rw [pool_]) stack same'⟩
  | @abandoned thread stkSize answers pool pool' ts cause taken freed fired pool_ stack =>
    rw [cause] at enabled
    obtain ⟨-, -, new⟩ := create_enabled enabled
    obtain ⟨pool₁, us, run, took⟩ := stStackNew_spec inv.listed (adjustStkSize e.pre.pool.pagesize stkSize) answers
    rw [taken] at run
    cases run
    obtain ⟨free₁, listed, member, made, unowned⟩ := took.took inv new
    have absent : ts ∉ free₁ := fun listed => ((member ts).mp listed).2 rfl
    obtain ⟨pool₂, front, back, run, rfl, listed', same⟩ := stStackFree_spec (listed.carved ts) absent
    rw [freed] at run
    cases run
    have same' : e.post.sys.vp = e.pre.sys.vp := stThreadCreate_fails (.inr ⟨rfl, rfl⟩) (threadCreate_run fired)
    refine ⟨_, inv.kept (fun us => us = ts) ?_ (pool_ ▸ listed') ?_ ?_ stack ?_ ?_⟩
    · rintro u us rfl
      exact unowned u
    · intro us
      rw [pool_, same.made]
      exact made us
    · intro us
      have split := member us
      simp only [List.mem_append, List.mem_cons] at split ⊢
      tauto
    · intro t us own
      rw [same']
    · rw [same']
      exact inv.primordial
  | @created thread joinable cvar stkSize answers pool ts cause term taken fired pool_ stack =>
    rw [cause] at enabled
    obtain ⟨unborn, -, new⟩ := create_enabled enabled
    obtain ⟨pool₁, us, run, took⟩ := stStackNew_spec inv.listed (adjustStkSize e.pre.pool.pagesize stkSize) answers
    rw [taken] at run
    cases run
    obtain ⟨free₁, listed, member, made, unowned⟩ := took.took inv new
    obtain ⟨term', thr⟩ := stThreadCreate_starts term (threadCreate_run fired)
    refine ⟨free₁, inv.granted ?_ unowned (pool_ ▸ listed.carved ts) ?_ member stack ?_ ?_ thr⟩
    · rw [unborn]
      rfl
    · rw [pool_]
      exact made
    · rfl
    · rfl
  | randomized cause same pool_ stack =>
    exact ⟨free, inv.untouched (pool_ ▸ ⟨inv.listed.ring, inv.listed.count⟩) (by rw [pool_]) stack (by rw [same])⟩

end

theorem Started.idle {s : System σ} (started : Started E s) :
    (s.vp.thr s.vp.idleThread).context.live = true ∧ (s.vp.thr s.vp.idleThread).flags.primordial = false := by
  obtain ⟨-, ⟨ioInit, eventInit, now, stack, object⟩, ok, distinct⟩ := started
  cases ioInit <;> cases eventInit <;> cases stack <;> cases object <;>
    simp [stInit, Vp.boot, startThread, Vp.addRunq, Vp.setThr] at ok
  rename_i i p
  have apart : i ≠ p := fun same => distinct (by rw [same])
  rw [← ok]
  simp [apart, Context.live]

theorem PoolStarted.inv {s : PoolSystem σ} (started : PoolStarted E layout s) : ∃ free, PoolInv s free := by
  obtain ⟨sys, pagesize, randomize, answers, pool, ts, -, taken, pool_, stack⟩ := started
  obtain ⟨live, flag⟩ := sys.idle
  obtain ⟨pool', us, run, took⟩ := stStackNew_spec (.boot pagesize randomize) (adjustStkSize pagesize 0) answers
  rw [taken] at run
  cases run
  have owns : ∀ t us, s.Owns t us ↔ t = s.sys.vp.idleThread ∧ us = ts := by
    intro t us
    unfold PoolSystem.Owns
    rw [stack]
    by_cases same : t = s.sys.vp.idleThread
    · rw [same, Function.update_self]
      simp [live, eq_comm]
    · rw [Function.update_of_ne same]
      simp [same]
  cases took with
  | reused whole => simp at whole
  | mapped small object positive segment same =>
    refine ⟨[], ⟨?_, ?_, by simp, ?_⟩, ?_⟩
    · rw [pool_, same]
      exact .carved ⟨Ring.Circle.init none, rfl⟩ ts
    · intro us
      simp only [owns]
      rw [pool_, same]
      simp [Pool.carved, Pool.boot]
    · intro t u us own own'
      rw [((owns t us).mp own).1, ((owns u us).mp own').1]
    · intro t alive set
      rw [stack, Function.update_of_ne]
      rintro rfl
      rw [flag] at set
      cases set

theorem PoolRun.inv {hist : List (PoolEvent σ ω)} {s : PoolSystem σ} (run : PoolRun E layout hist s) :
    ∃ free, PoolInv s free := by
  induction run with
  | begin started => exact started.inv
  | next before fired ih =>
    obtain ⟨free, inv⟩ := ih
    obtain ⟨hist', sys⟩ := PoolRun.sys before
    exact inv.step sys fired

/-- What _st_stack_new answers in a state: never a stack of a thread that has not finished,
never one that is too small, and a new one only when no free one would do. -/
structure NewStack (s : PoolSystem σ) (free : List StkId) (stackSize : Int) (answers : StkAnswers) : Prop where
  total : ∃ pool ts, stStackNew s.pool stackSize answers = some (pool, ts)
  unowned : ∀ pool ts, stStackNew s.pool stackSize answers = some (pool, some ts) → ∀ t, ¬s.Owns t ts
  large : ∀ pool ts, stStackNew s.pool stackSize answers = some (pool, some ts) → stackSize ≤ (pool.stk ts).stkSize
  mapped : ∀ pool ts, stStackNew s.pool stackSize answers = some (pool, ts) → pool.made ≠ s.pool.made →
    ∀ us ∈ free, (s.pool.stk us).stkSize < stackSize

theorem PoolInv.newStack {s : PoolSystem σ} {free : List StkId} (inv : PoolInv s free) (stackSize : Int)
    {answers : StkAnswers} (new : ∀ ts, answers.object = some ts → ts ∉ s.pool.made) :
    NewStack s free stackSize answers := by
  obtain ⟨pool, ts, run, taken⟩ := stStackNew_spec inv.listed stackSize answers
  constructor
  case total => exact ⟨pool, ts, run⟩
  case unowned =>
    intro pool' ts' run'
    rw [run] at run'
    cases run'
    obtain ⟨free', -, -, -, unowned⟩ := taken.took inv new
    exact unowned
  case large =>
    intro pool' ts' run'
    rw [run] at run'
    cases run'
    cases taken with
    | reused whole large listed same =>
      rw [same.stk]
      exact large
    | mapped small object positive segment same =>
      rw [same]
      dsimp only
      rw [Function.update_self]
      exact Int.le_refl _
  case mapped =>
    intro pool' ts' run' grew
    rw [run] at run'
    cases run'
    cases taken with
    | reused whole large listed same => exact absurd same.made grew
    | failed small same => exact small
    | mapped small object positive segment same => exact small

theorem PoolInv.steps {s : PoolSystem σ} {free : List StkId} (inv : PoolInv s free) {hist : List (SysEvent σ ω)}
    (sys : SysRun E hist s.sys) {l : PoolLabel ω} (enabled : poolEnabled E s l = true) :
    ∃ s' out, poolStep E layout s l = some (s', out) := by
  have library : ∀ l, StateThreads.enabled E s.sys l = true →
      ∃ sys' out, StateThreads.step E s.sys l = some (sys', out) := by
    intro l ok
    obtain ⟨s', -, out, -, run, -⟩ := step_moves E (SysRun.settled sys) ok
    exact ⟨s', out, run⟩
  cases l with
  | lib l =>
    simp only [poolEnabled, Bool.and_eq_true] at enabled
    obtain ⟨sys', out, run⟩ := library l enabled.1
    have free_ : ∃ pool, stStackFree s.pool (s.frees l) = some pool := by
      cases frees : s.frees l with
      | none => exact ⟨_, rfl⟩
      | some ts =>
        unfold PoolSystem.frees at frees
        split at frees
        · have running : (s.sys.vp.thr s.sys.vp.current).context.live = true := (SysRun.settled sys).inv.running.1
          obtain ⟨pool, front, back, run, -⟩ := stStackFree_spec inv.listed (inv.apart _ ts ⟨running, frees⟩)
          exact ⟨pool, run⟩
        · cases frees
    obtain ⟨pool, freed⟩ := free_
    simp [poolStep, freed, run]
  | create thread joinable cvar stkSize answers =>
    obtain ⟨-, -, new⟩ := create_enabled enabled
    simp only [poolEnabled, Bool.and_eq_true] at enabled
    obtain ⟨pool, ts, run, taken⟩ := stStackNew_spec inv.listed (adjustStkSize s.pool.pagesize stkSize) answers
    cases ts with
    | none =>
      have ok : StateThreads.enabled E s.sys (.call (.threadCreate none joinable cvar)) = true := refused_enabled enabled.1.1
      obtain ⟨sys', out, created⟩ := library _ ok
      simp [poolStep, run, created]
    | some ts =>
      obtain ⟨sys', out, created⟩ := library _ enabled.1.1
      obtain ⟨free', listed, member, -, -⟩ := taken.took inv new
      have absent : ts ∉ free' := fun listed => ((member ts).mp listed).2 rfl
      have carved : (pool.carved layout ts).Free free' := listed.carved ts
      obtain ⟨pool', front, back, freed, -⟩ := stStackFree_spec carved absent
      simp only [poolStep, run, created, Option.bind_eq_bind, Option.bind_some]
      split
      · simp [freed]
      · exact ⟨_, _, rfl⟩
  | randomize on => exact ⟨_, _, rfl⟩

/-- The stack pool after any run of creations, exits and joins. -/
theorem stack_pool {hist : List (PoolEvent σ ω)} {s : PoolSystem σ} (run : PoolRun E layout hist s) :
    ∃ free, free.Nodup ∧ StackPool s free ∧
      (∀ stackSize answers, (∀ ts, answers.object = some ts → ts ∉ s.pool.made) → NewStack s free stackSize answers) ∧
      ∀ l, poolEnabled E s l = true → ∃ s' out, poolStep E layout s l = some (s', out) := by
  obtain ⟨free, inv⟩ := PoolRun.inv run
  obtain ⟨hist', sys⟩ := PoolRun.sys run
  exact ⟨free, inv.listed.nodup, inv.toStackPool, fun stackSize answers new => inv.newStack stackSize new,
    fun l enabled => inv.steps sys enabled⟩

/-- The sizes on a 64 bit Linux. -/
def Layout.linux64 : Layout := ⟨128, 320, 128, by decide, by decide⟩

def Poll.pooled : PoolSystem (Poll.State Unit) where
  sys := Poll.started
  pool := ((stStackNew (.boot 4096 false) (adjustStkSize 4096 0) ⟨some 0, some 65536, 0⟩).getD
    (.boot 4096 false, none)).1.carved .linux64 0
  stack := Function.update (fun _ => none) 0 (some 0)

theorem Poll.pooled_ok : PoolStarted (Poll.eventSys Poll.silent) .linux64 Poll.pooled :=
  ⟨Poll.started_ok, 4096, false, ⟨some 0, some 65536, 0⟩, _, 0, ⟨12, by decide⟩, rfl, rfl, rfl⟩

/-- A creation that fails for want of a termination variable leaves a free stack. The stack
of a joined thread is free only when the thread has run to its end. -/
theorem stack_pool_joined_thread :
    ∃ hist s, PoolRun (Poll.eventSys Poll.silent) .linux64 hist s ∧
      (s.pool.numFreeStacks = 2 ∧ s.pool.links.next none = some (some 20) ∧ s.pool.made = [21, 20, 0]) ∧
      ∃ free, free.Nodup ∧ StackPool s free := by
  obtain ⟨hist, s, run, seen⟩ := Run.found (M := poolMachine (Poll.eventSys Poll.silent) .linux64)
    [.create 2 true (some 0) 0 ⟨some 20, some 1048576, 0⟩, .create 3 true none 100000 ⟨some 21, some 8388608, 0⟩,
      .lib (.call (.threadJoin 2)), .lib .resume, .lib (.call (.threadExit 7)), .lib .resume,
      .lib (.call (.usleep 10)), .lib .resume]
    Poll.pooled_ok
    (p := fun _ s => decide (s.pool.numFreeStacks = 2 ∧ s.pool.links.next none = some (some 20) ∧
      s.pool.made = [21, 20, 0]))
    (by decide +kernel)
  obtain ⟨free, nodup, pool, -⟩ := stack_pool run
  exact ⟨hist, s, run, of_decide_eq_true seen, free, nodup, pool⟩

end StateThreads
