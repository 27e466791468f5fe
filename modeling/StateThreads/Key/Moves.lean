import StateThreads.Contract.Stacks
import StateThreads.Key.Specific

/-! The steps of the library with private data: what each does, and which threads stay apart
from it. -/
namespace StateThreads
open LabelledRun

variable {σ ω : Type} {E : EventSys σ ω} {layout : Layout}

/- Threads and their stacks. -/

/-- The thread has left st_thread_exit for good, but for the part after a join. -/
def Context.ended : Context → Bool
  | .exiting | .gone => true
  | _ => false

theorem Stepped.ended {e : SysEvent σ ω} (stepped : Stepped e) {t : Tid}
    (before : (e.pre.vp.thr t).context.ended = true) : (e.post.vp.thr t).context.ended = true := by
  by_cases acts : t = e.actor
  · subst acts
    have live : (e.pre.vp.thr e.actor).context.live = true := stepped.pre.inv.running.1
    have exiting : (e.pre.vp.thr e.actor).context = .exiting := by
      cases place : (e.pre.vp.thr e.actor).context <;> simp_all [Context.ended, Context.live]
    obtain ⟨th, picked, rfl | gone⟩ := stepped.exiting_acts exiting
    · rw [picked.context]
      exact before
    · rw [picked.context, gone]
      rfl
  · obtain ⟨th, touched, picked⟩ := stepped.other t acts
    rw [picked.context]
    obtain same | ⟨unborn, -⟩ := touched.context
    · rw [same]
      exact before
    · rw [unborn] at before
      cases before

inductive Fate (e : PoolEvent σ ω) (t : Tid) : Prop
  | stays (stack : e.post.stack t = e.pre.stack t)
    (born : (e.post.sys.vp.thr t).context = .unborn → (e.pre.sys.vp.thr t).context = .unborn)
    (lives : (e.post.sys.vp.thr t).context.live = true → (e.pre.sys.vp.thr t).context.live = true)
    (ended : (e.pre.sys.vp.thr t).context.ended = true → (e.post.sys.vp.thr t).context.ended = true)
  | starts {joinable : Bool} {cvar : Option CondId} {stkSize : Int} {answers : StkAnswers} {pool : Pool} {ts : StkId}
    (cause : e.label = .create t joinable cvar stkSize answers) (unborn : (e.pre.sys.vp.thr t).context = .unborn)
    (taken : stStackNew e.pre.pool (adjustStkSize e.pre.pool.pagesize stkSize) answers = some (pool, some ts))
    (fresh : (e.post.sys.vp.thr t).context = .fresh) (stack : e.post.stack t = some ts)

theorem Fate.same {e : PoolEvent σ ω} {t : Tid} (stack : e.post.stack t = e.pre.stack t)
    (thr : e.post.sys.vp.thr t = e.pre.sys.vp.thr t) : Fate e t :=
  .stays stack (by rw [thr]; exact id) (by rw [thr]; exact id) (by rw [thr]; exact id)

section
variable {hist : List (PoolEvent σ ω)} {e : PoolEvent σ ω} (run : PoolRun E layout hist e.pre)
  (fired : e.Fired (poolMachine E layout))
include run fired

theorem PoolRun.fate (t : Tid) : Fate e t := by
  have enabled := fired.enabled
  simp only [poolMachine] at enabled
  obtain ⟨hist', sys⟩ := PoolRun.sys run
  cases poolStep_moved fired with
  | lib cause quiet freed fired' pool_ stack =>
    have stepped := SysRun.stepped sys fired'
    have lives := stepped.lives quiet t
    exact .stays (congrFun stack t) stepped.born (fun live => (lives.mp live).1) stepped.ended
  | refused cause taken fired' pool_ stack =>
    have same : e.post.sys.vp = e.pre.sys.vp := stThreadCreate_fails (.inl rfl) (threadCreate_run fired')
    exact .same (congrFun stack t) (by rw [same])
  | abandoned cause taken freed fired' pool_ stack =>
    have same : e.post.sys.vp = e.pre.sys.vp := stThreadCreate_fails (.inr ⟨rfl, rfl⟩) (threadCreate_run fired')
    exact .same (congrFun stack t) (by rw [same])
  | @created thread joinable cvar stkSize answers pool ts cause term taken fired' pool_ stack =>
    obtain ⟨term', thr⟩ := stThreadCreate_starts term (threadCreate_run fired')
    rw [cause] at enabled
    obtain ⟨unborn, -⟩ := create_enabled enabled
    by_cases here : t = thread
    · subst here
      exact .starts cause unborn taken (by rw [thr, Function.update_self]) (by rw [stack, Function.update_self])
    · exact .same (by rw [stack, Function.update_of_ne here]) (by rw [thr, Function.update_of_ne here])
  | randomized cause same pool_ stack => exact .same (congrFun stack t) (by rw [same])

end

theorem Stepped.exit_ends {e : SysEvent σ ω} (stepped : Stepped e) {r : Nat} (cause : e.label = .call (.threadExit r)) :
    (e.post.vp.thr e.actor).context.ended = true := by
  have out : e.out = none := stepped.exit_out cause
  obtain ⟨th, acted, picked⟩ := stepped.self
  rw [picked.context]
  cases acted with
  | died | left | ended => rfl
  | same _ returned _ =>
    obtain ⟨change, outside⟩ | answered := returned
    · rw [cause] at outside
      cases outside
    · exact absurd out answered
  | cleared _ _ _ result | flagged _ result =>
    rw [out] at result
    cases result
  | parked where_ =>
    rw [cause] at where_
    cases where_
  | began called | returned called | rejoined called | idled called =>
    rw [cause] at called
    cases called

theorem PoolRun.exit_ends {hist : List (PoolEvent σ ω)} {s s' : PoolSystem σ} (run : PoolRun E layout hist s) {r : Nat}
    {out : Option Ret} (fired : Event.Fired (poolMachine E layout) ⟨s, .lib (.call (.threadExit r)), out, s'⟩) :
    s'.stack = s.stack ∧ (s'.sys.vp.thr s.sys.vp.current).context.ended = true := by
  obtain ⟨hist', sys⟩ := PoolRun.sys run
  cases poolStep_moved fired with
  | lib cause quiet freed fired' pool_ stack =>
    cases cause
    exact ⟨stack, (SysRun.stepped sys fired').exit_ends rfl⟩
  | refused cause | abandoned cause | created cause | randomized cause => cases cause

theorem Started.two {s : System σ} (started : Started E s) :
    ∃ p, ∀ t, (s.vp.thr t).context.live = true → t = s.vp.idleThread ∨ t = p := by
  obtain ⟨-, ⟨ioInit, eventInit, now, stack, object⟩, ok, distinct⟩ := started
  cases ioInit <;> cases eventInit <;> cases stack <;> cases object <;>
    simp [stInit, Vp.boot, startThread, Vp.addRunq, Vp.setThr] at ok
  rename_i i p
  rw [← ok]
  refine ⟨p, fun t live => ?_⟩
  by_cases first : t = i
  · exact .inl first
  · by_cases second : t = p
    · exact .inr second
    · simp [first, second, Context.live] at live

theorem PoolRun.rooted {hist : List (PoolEvent σ ω)} {s : PoolSystem σ} (run : PoolRun E layout hist s) :
    ∃ p, ∀ t, (s.sys.vp.thr t).context.live = true → s.stack t = none → t = p := by
  induction run with
  | begin started =>
    obtain ⟨sys, pagesize, randomize, answers, pool, ts, -, -, -, stack⟩ := started
    obtain ⟨p, two⟩ := sys.two
    refine ⟨p, fun t live off => ?_⟩
    obtain rfl | rfl := two t live
    · rw [stack, Function.update_self] at off
      cases off
    · rfl
  | next before fired ih =>
    obtain ⟨p, only⟩ := ih
    refine ⟨p, fun t live off => ?_⟩
    cases PoolRun.fate before fired t with
    | stays stack born lives ended => exact only t (lives live) (stack ▸ off)
    | starts cause unborn taken fresh stack =>
      rw [stack] at off
      cases off

theorem PoolRun.apart {hist : List (PoolEvent σ ω)} {s : PoolSystem σ} (run : PoolRun E layout hist s) {t u : Tid}
    (live : (s.sys.vp.thr t).context.live = true) (live' : (s.sys.vp.thr u).context.live = true)
    (same : s.stack t = s.stack u) : t = u := by
  obtain ⟨free, inv⟩ := PoolRun.inv run
  obtain ⟨p, only⟩ := PoolRun.rooted run
  cases place : s.stack t with
  | none => rw [only t live place, only u live' (same ▸ place)]
  | some ts => exact inv.one t u ts ⟨live, place⟩ ⟨live', same ▸ place⟩

end StateThreads

namespace StateThreads.Key
open LabelledRun

variable {σ ω : Type} {E : EventSys σ ω} {layout : Layout}

/- The operations on the state. -/

section
variable (s : KeySystem σ) (t : Tid) (key : Nat) (value : Option Nat) (rest : Option Rest)

@[simp] theorem KeySystem.store_pending : (s.store key value).pending = s.pending := rfl
@[simp] theorem KeySystem.wait_lib : (s.wait rest).lib = s.lib := rfl
@[simp] theorem KeySystem.wait_destructors : (s.wait rest).destructors = s.destructors := rfl
@[simp] theorem KeySystem.wait_privateData : (s.wait rest).privateData t = s.privateData t := rfl
@[simp] theorem KeySystem.wait_self : (s.wait rest).pending s.me = rest := Function.update_self ..

@[simp] theorem KeySystem.store_self :
    (s.store key value).privateData s.me = Function.update (s.privateData s.me) key value := Function.update_self ..

variable {s t key value rest}

theorem KeySystem.wait_ne (other : t ≠ s.me) : (s.wait rest).pending t = s.pending t := Function.update_of_ne other ..

theorem KeySystem.store_ne (other : s.lib.stack t ≠ s.lib.stack s.me) :
    (s.store key value).privateData t = s.privateData t := Function.update_of_ne other ..

theorem KeySystem.store_same (same : value = s.privateData s.me key) : s.store key value = s := by
  subst same
  simp only [KeySystem.store, Function.update_eq_self]
  rw [KeySystem.privateData, Function.update_eq_self]

theorem KeySystem.valid_some {key : Int} {k : Nat} (valid : s.valid key = some k) : k < s.keyMax ∧ key = k := by
  unfold KeySystem.valid at valid
  split at valid
  · cases valid
  · cases valid
    omega

theorem KeySystem.destructible_some {old destructor : Nat} (found : s.destructible t key = some (old, destructor)) :
    s.privateData t key = some old ∧ s.destructors key = some destructor := by
  simp only [KeySystem.destructible, Option.bind_eq_bind, Option.bind_eq_some_iff] at found
  obtain ⟨old', held, destructor', registered, same⟩ := found
  cases same
  exact ⟨held, registered⟩

end

theorem stThreadCleanup_some {s : KeySystem σ} {t : Tid} {turns first key value destructor : Nat}
    (found : stThreadCleanup s t turns first = some (key, value, destructor)) :
    first ≤ key ∧ key < first + turns ∧ s.destructible t key = some (value, destructor) ∧
      ∀ k, first ≤ k → k < key → s.destructible t k = none := by
  induction turns generalizing first with
  | zero => cases found
  | succ turns ih =>
    rw [stThreadCleanup] at found
    cases here : s.destructible t first with
    | some pair =>
      rw [here] at found
      cases found
      exact ⟨Nat.le_refl _, by omega, here, fun k low high => by omega⟩
    | none =>
      rw [here] at found
      obtain ⟨low, high, call, skipped⟩ := ih found
      refine ⟨by omega, by omega, call, fun k above below => ?_⟩
      obtain rfl | later := Nat.eq_or_lt_of_le above
      · exact here
      · exact skipped k later below

theorem stThreadCleanup_none {s : KeySystem σ} {t : Tid} {turns first : Nat}
    (done : stThreadCleanup s t turns first = none) (k : Nat) (low : first ≤ k) (high : k < first + turns) :
    s.destructible t k = none := by
  induction turns generalizing first with
  | zero => omega
  | succ turns ih =>
    rw [stThreadCleanup] at done
    cases here : s.destructible t first with
    | some pair =>
      rw [here] at done
      cases done
    | none =>
      rw [here] at done
      obtain rfl | later := Nat.eq_or_lt_of_le low
      · exact here
      · exact ih done later (by omega)

/- The steps. -/

inductive Cleans (e : KeyEvent σ ω) : KeySystem σ → Nat → Nat → Prop
  | begins {retval : Nat} (cause : e.label = .exit retval) (free : e.pre.pending e.pre.me = none) :
    Cleans e e.pre 0 retval
  | goesOn {key retval : Nat} (cause : e.label = .returned) (rest : e.pre.pending e.pre.me = some (.exit key retval)) :
    Cleans e (e.pre.store key none) (key + 1) retval

inductive KeyMoved (E : EventSys σ ω) (layout : Layout) (e : KeyEvent σ ω) : Prop
  | lib {l : PoolLabel ω} {out : Option Ret} (cause : e.label = .lib l) (quiet : exits l = false)
    (fired : Event.Fired (poolMachine E layout) ⟨e.pre.lib, l, out, e.post.lib⟩) (result : e.out = .lib out)
    (table : e.post.table = wiped e.pre.table (e.pre.wipes l)) (keyMax : e.post.keyMax = e.pre.keyMax)
    (destructors : e.post.destructors = e.pre.destructors) (pending : e.post.pending = e.pre.pending)
  | creates {destructor : Option Nat} (cause : e.label = .create destructor) (room : e.pre.keyMax < keysMax)
    (result : e.out = .key (some e.pre.keyMax))
    (post : e.post = { e.pre with
      keyMax := e.pre.keyMax + 1, destructors := Function.update e.pre.destructors e.pre.keyMax destructor })
  | full {destructor : Option Nat} (cause : e.label = .create destructor) (result : e.out = .key none)
    (post : e.post = e.pre)
  | invalid {key : Int} {value : Option Nat} (cause : e.label = .setspecific key value) (invalid : e.pre.valid key = none)
    (result : e.out = .status (some .einval)) (post : e.post = e.pre)
  | stores {i : Int} {key : Nat} {value : Option Nat} (cause : e.label = .setspecific i value)
    (valid : e.pre.valid i = some key)
    (quiet : value = e.pre.privateData e.pre.me key ∨ e.pre.destructible e.pre.me key = none)
    (free : e.pre.pending e.pre.me = none) (result : e.out = .status none) (post : e.post = e.pre.store key value)
  | replaces {i : Int} {key old destructor : Nat} {value : Option Nat} (cause : e.label = .setspecific i value)
    (valid : e.pre.valid i = some key) (differs : value ≠ e.pre.privateData e.pre.me key)
    (found : e.pre.destructible e.pre.me key = some (old, destructor)) (free : e.pre.pending e.pre.me = none)
    (result : e.out = .destroy key old destructor) (post : e.post = e.pre.wait (some (.set key value)))
  | gets {key : Int} (cause : e.label = .getspecific key) (result : e.out = .got (stThreadGetspecific e.pre key))
    (free : e.pre.pending e.pre.me = none) (post : e.post = e.pre)
  | stored {key : Nat} {value : Option Nat} (cause : e.label = .returned)
    (rest : e.pre.pending e.pre.me = some (.set key value)) (result : e.out = .status none)
    (post : e.post = (e.pre.store key value).wait none)
  | destroys {s : KeySystem σ} {first key value destructor retval : Nat} (cleans : Cleans e s first retval)
    (found : stThreadCleanup s s.me (s.keyMax - first) first = some (key, value, destructor))
    (result : e.out = .destroy key value destructor) (post : e.post = s.wait (some (.exit key retval)))
  | leaves {s : KeySystem σ} {first retval : Nat} {out : Option Ret} (cleans : Cleans e s first retval)
    (done : stThreadCleanup s s.me (s.keyMax - first) first = none)
    (fired : Event.Fired (poolMachine E layout) ⟨e.pre.lib, .lib (.call (.threadExit retval)), out, e.post.lib⟩)
    (result : e.out = .lib out) (post : e.post = { s.wait none with lib := e.post.lib })

theorem Cleans.lib {e : KeyEvent σ ω} {s : KeySystem σ} {first retval : Nat} (cleans : Cleans e s first retval) :
    s.lib = e.pre.lib := by
  cases cleans <;> rfl

theorem Cleans.called {e : KeyEvent σ ω} {s : KeySystem σ} {first retval : Nat} (cleans : Cleans e s first retval)
    (l : PoolLabel ω) : e.label ≠ .lib l := by
  cases cleans with
  | begins cause | goesOn cause => simp [cause]

theorem Cleans.me {e : KeyEvent σ ω} {s : KeySystem σ} {first retval : Nat} (cleans : Cleans e s first retval) :
    s.me = e.pre.me := by
  rw [KeySystem.me, cleans.lib, KeySystem.me]

theorem Cleans.other {e : KeyEvent σ ω} {s : KeySystem σ} {first retval : Nat} (cleans : Cleans e s first retval)
    {t : Tid} (other : e.pre.lib.stack t ≠ e.pre.lib.stack e.pre.me) : s.privateData t = e.pre.privateData t := by
  cases cleans with
  | begins => rfl
  | goesOn => exact KeySystem.store_ne other

theorem Cleans.moved {e : KeyEvent σ ω} {s : KeySystem σ} {first retval : Nat} (cleans : Cleans e s first retval)
    (user : (e.pre.lib.sys.vp.thr e.pre.me).context = .user)
    (run : stThreadExit E layout s first retval = some (e.post, e.out)) : KeyMoved E layout e := by
  unfold stThreadExit at run
  split at run
  · rename_i key value destructor found
    obtain ⟨post, result⟩ := Prod.mk.inj (Option.some.inj run)
    exact .destroys cleans found result.symm post.symm
  · rename_i done
    simp only [Option.bind_eq_bind, Option.bind_eq_some_iff] at run
    obtain ⟨⟨lib, out⟩, stepped, same⟩ := run
    obtain ⟨post, result⟩ := Prod.mk.inj (Option.some.inj same)
    have lib' : e.post.lib = lib := by rw [← post]
    rw [cleans.lib] at stepped
    refine .leaves cleans done ⟨?_, by rw [lib']; exact stepped⟩ result.symm ?_
    · have ok : enabled E e.pre.lib.sys (.call (.threadExit retval)) = true := by
        simpa [enabled, callable, KeySystem.me] using user
      simp [poolMachine, poolEnabled, ok, Label.creates]
    · rw [lib']
      exact post.symm

theorem keyStep_moved {e : KeyEvent σ ω} (fired : e.Fired (keyMachine E layout)) : KeyMoved E layout e := by
  obtain ⟨enabled, run⟩ := fired
  simp only [keyMachine] at enabled run
  cases cause : e.label with
  | lib l =>
    rw [cause] at enabled run
    simp only [keyEnabled, Bool.and_eq_true, Bool.not_eq_true'] at enabled
    simp only [keyStep, Option.bind_eq_bind, Option.bind_eq_some_iff] at run
    obtain ⟨⟨lib, out⟩, stepped, same⟩ := run
    obtain ⟨post, result⟩ := Prod.mk.inj (Option.some.inj same)
    refine .lib cause enabled.2 ⟨enabled.1, ?_⟩ result.symm ?_ ?_ ?_ ?_ <;> rw [← post]
    exact stepped
  | create destructor =>
    rw [cause, keyStep, stKeyCreate] at run
    split at run
    · obtain ⟨post, result⟩ := Prod.mk.inj (Option.some.inj run)
      exact .full cause result.symm post.symm
    · rename_i room
      obtain ⟨post, result⟩ := Prod.mk.inj (Option.some.inj run)
      exact .creates cause (by omega) result.symm post.symm
  | setspecific i value =>
    rw [cause, keyEnabled, Bool.and_eq_true, Option.isNone_iff_eq_none] at enabled
    rw [cause, keyStep, stThreadSetspecific] at run
    split at run
    · rename_i invalid
      obtain ⟨post, result⟩ := Prod.mk.inj (Option.some.inj run)
      exact .invalid cause invalid result.symm post.symm
    · rename_i key valid
      split at run
      · rename_i differs
        split at run
        · rename_i old destructor found
          obtain ⟨post, result⟩ := Prod.mk.inj (Option.some.inj run)
          exact .replaces cause valid differs found enabled.2 result.symm post.symm
        · rename_i none_
          obtain ⟨post, result⟩ := Prod.mk.inj (Option.some.inj run)
          exact .stores cause valid (.inr none_) enabled.2 result.symm post.symm
      · rename_i same
        obtain ⟨post, result⟩ := Prod.mk.inj (Option.some.inj run)
        have old : value = e.pre.privateData e.pre.me key := not_not.mp same
        -- the value is not stored again, which makes no difference
        exact .stores cause valid (.inl old) enabled.2 result.symm (by rw [KeySystem.store_same old, post])
  | getspecific key =>
    rw [cause, keyEnabled, Bool.and_eq_true, Option.isNone_iff_eq_none] at enabled
    rw [cause, keyStep] at run
    obtain ⟨post, result⟩ := Prod.mk.inj (Option.some.inj run)
    exact .gets cause result.symm enabled.2 post.symm
  | exit retval =>
    rw [cause, keyEnabled, Bool.and_eq_true, decide_eq_true_eq, Option.isNone_iff_eq_none] at enabled
    rw [cause, keyStep] at run
    exact (Cleans.begins cause enabled.2).moved enabled.1 run
  | returned =>
    rw [cause, keyEnabled, Bool.and_eq_true, decide_eq_true_eq] at enabled
    rw [cause, keyStep] at run
    split at run
    · cases run
    · rename_i key value rest
      obtain ⟨post, result⟩ := Prod.mk.inj (Option.some.inj run)
      exact .stored cause rest result.symm post.symm
    · rename_i key retval rest
      exact (Cleans.goesOn cause rest).moved enabled.1 run

section
variable {e : KeyEvent σ ω}

theorem Cleans.same {s : KeySystem σ} {first retval : Nat} (cleans : Cleans e s first retval) :
    s.keyMax = e.pre.keyMax ∧ s.destructors = e.pre.destructors ∧ s.pending = e.pre.pending := by
  cases cleans <;> exact ⟨rfl, rfl, rfl⟩

theorem KeyMoved.keys (moved : KeyMoved E layout e) : e.pre.keyMax ≤ e.post.keyMax ∧
    ∀ key, key < e.pre.keyMax → e.post.destructors key = e.pre.destructors key := by
  have kept : e.post.keyMax = e.pre.keyMax → e.post.destructors = e.pre.destructors → e.pre.keyMax ≤ e.post.keyMax ∧
      ∀ key, key < e.pre.keyMax → e.post.destructors key = e.pre.destructors key :=
    fun keyMax destructors => ⟨Nat.le_of_eq keyMax.symm, fun key _ => congrFun destructors key⟩
  cases moved with
  | lib _ _ _ _ _ keyMax destructors => exact kept keyMax destructors
  | creates _ _ _ post =>
    rw [post]
    exact ⟨Nat.le_succ _, fun key low => Function.update_of_ne (Nat.ne_of_lt low) ..⟩
  | destroys cleans _ _ post | leaves cleans _ _ _ post =>
    obtain ⟨keyMax, destructors, -⟩ := cleans.same
    apply kept
    · rw [post]
      exact keyMax
    · rw [post]
      exact destructors
  | full _ _ post | invalid _ _ _ post | stores _ _ _ _ _ post | replaces _ _ _ _ _ _ post | gets _ _ _ post
  | stored _ _ _ post =>
    rw [post]
    exact ⟨Nat.le_refl _, fun key _ => rfl⟩

theorem KeyMoved.waits (moved : KeyMoved E layout e) {t : Tid} (other : t ≠ e.pre.me) :
    e.post.pending t = e.pre.pending t := by
  cases moved with
  | lib _ _ _ _ _ _ _ pending => rw [pending]
  | destroys cleans _ _ post | leaves cleans _ _ _ post =>
    rw [← cleans.me] at other
    rw [post, ← cleans.same.2.2]
    exact KeySystem.wait_ne other
  | replaces _ _ _ _ _ _ post | stored _ _ _ post =>
    rw [post]
    exact KeySystem.wait_ne other
  | stores _ _ _ _ _ post => rw [post, KeySystem.store_pending]
  | creates _ _ _ post | full _ _ post | invalid _ _ _ post | gets _ _ _ post => rw [post]

end

theorem KeyRun.lib {hist : List (KeyEvent σ ω)} {s : KeySystem σ} (run : KeyRun E layout hist s) :
    ∃ hist', PoolRun E layout hist' s.lib := by
  induction run with
  | begin started => exact ⟨[], .begin started.1⟩
  | next before fired ih =>
    obtain ⟨hist', before'⟩ := ih
    cases keyStep_moved fired with
    | lib _ _ fired' | leaves _ _ fired' => exact ⟨_, before'.next fired'⟩
    | destroys cleans _ _ post =>
      rw [post, KeySystem.wait_lib, cleans.lib]
      exact ⟨hist', before'⟩
    | creates _ _ _ post | full _ _ post | invalid _ _ _ post | stores _ _ _ _ _ post | replaces _ _ _ _ _ _ post
    | gets _ _ _ post | stored _ _ _ post =>
      rw [post]
      exact ⟨hist', before'⟩

/- The key table of one thread. -/

inductive Apart (e : KeyEvent σ ω) (t : Tid) : Prop
  | stays (lives : (e.post.lib.sys.vp.thr t).context.live = true → (e.pre.lib.sys.vp.thr t).context.live = true)
    (data : (e.post.lib.sys.vp.thr t).context.live = true → e.post.privateData t = e.pre.privateData t)
    (born : (e.post.lib.sys.vp.thr t).context = .unborn → (e.pre.lib.sys.vp.thr t).context = .unborn)
    (ended : (e.pre.lib.sys.vp.thr t).context.ended = true → (e.post.lib.sys.vp.thr t).context.ended = true)
  | starts (unborn : (e.pre.lib.sys.vp.thr t).context = .unborn) (fresh : (e.post.lib.sys.vp.thr t).context = .fresh)
    (data : ∀ key, e.post.privateData t key = none)

theorem Apart.same {e : KeyEvent σ ω} {t : Tid} (lib : e.post.lib = e.pre.lib)
    (data : (e.pre.lib.sys.vp.thr t).context.live = true → e.post.privateData t = e.pre.privateData t) : Apart e t :=
  .stays (by rw [lib]; exact id) (by rw [lib]; exact data) (by rw [lib]; exact id) (by rw [lib]; exact id)

theorem wipes_unowned {hist : List (PoolEvent σ ω)} {s : KeySystem σ} (run : PoolRun E layout hist s.lib)
    {l : PoolLabel ω} (enabled : poolEnabled E s.lib l = true) {ts : StkId} (wipes : s.wipes l = some ts) {t : Tid}
    (live : (s.lib.sys.vp.thr t).context.live = true) : s.lib.stack t ≠ some ts := by
  cases l with
  | lib l => cases wipes
  | randomize on => cases wipes
  | create thread joinable cvar stkSize answers =>
    obtain ⟨⟨pool, stack⟩, taken, rfl⟩ := Option.bind_eq_some_iff.mp wipes
    obtain ⟨-, -, new⟩ := create_enabled enabled
    obtain ⟨free, inv⟩ := PoolRun.inv run
    have unowned := (inv.newStack _ new).unowned pool ts taken t
    exact fun own => unowned ⟨live, own⟩

section
variable {hist : List (PoolEvent σ ω)} {e : KeyEvent σ ω} (run : PoolRun E layout hist e.pre.lib)
include run

theorem apart_lib {l : PoolLabel ω} {out : Option Ret}
    (fired : Event.Fired (poolMachine E layout) ⟨e.pre.lib, l, out, e.post.lib⟩)
    (table : e.post.table = wiped e.pre.table (e.pre.wipes l)) (t : Tid) : Apart e t := by
  cases PoolRun.fate run fired t with
  | stays stack born lives ended =>
    refine .stays lives (fun live => ?_) born ended
    unfold KeySystem.privateData
    rw [table, show e.post.lib.stack t = e.pre.lib.stack t from stack]
    cases wipes : e.pre.wipes l with
    | none => rfl
    | some ts => exact Function.update_of_ne (wipes_unowned run fired.enabled wipes (lives live)) ..
  | @starts joinable cvar stkSize answers pool ts cause unborn taken fresh stack =>
    refine .starts unborn fresh fun key => ?_
    have wipes : e.pre.wipes l = some ts := by
      rw [show l = _ from cause, KeySystem.wipes, taken]
      rfl
    unfold KeySystem.privateData
    rw [table, wipes, show e.post.lib.stack t = _ from stack, wiped, Function.update_self]

theorem KeyMoved.apart (moved : KeyMoved E layout e) {t : Tid} (other : t ≠ e.pre.me) : Apart e t := by
  obtain ⟨hist', sys⟩ := PoolRun.sys run
  have running : (e.pre.lib.sys.vp.thr e.pre.me).context.live = true := (SysRun.settled sys).inv.running.1
  have stack : (e.pre.lib.sys.vp.thr t).context.live = true → e.pre.lib.stack t ≠ e.pre.lib.stack e.pre.me :=
    fun live same => other (PoolRun.apart run live running same)
  cases moved with
  | lib cause quiet fired result table => exact apart_lib run fired table t
  | full _ _ post | invalid _ _ _ post | gets _ _ _ post => exact .same (by rw [post]) fun _ => by rw [post]
  | creates _ _ _ post => exact .same (by rw [post]) fun _ => by rw [post]; rfl
  | replaces _ _ _ _ _ _ post => exact .same (by rw [post]; rfl) fun _ => by rw [post]; rfl
  | stores _ _ _ _ _ post | stored _ _ _ post =>
    exact .same (by rw [post]; rfl) fun live => by rw [post]; exact KeySystem.store_ne (stack live)
  | destroys cleans _ _ post =>
    refine .same (by rw [post]; exact cleans.lib) fun live => ?_
    rw [post, KeySystem.wait_privateData]
    exact cleans.other (stack live)
  | leaves cleans done fired result post =>
    cases PoolRun.fate run fired t with
    | stays same born lives ended =>
      refine .stays lives (fun live => ?_) born ended
      rw [← cleans.other (stack (lives live)), post, KeySystem.privateData, KeySystem.privateData, cleans.lib]
      exact congrArg _ same
    | starts cause => cases cause

end

end StateThreads.Key
