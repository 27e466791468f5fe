import StateThreads.Contract.Netfd
import StateThreads.Key.Moves

/-! Thread-specific data over whole runs: what a thread gets, and which destructors are called. -/
namespace StateThreads.Key
open LabelledRun

variable {σ ω : Type}

/- What a thread did. -/

def KeyEvent.actor (e : KeyEvent σ ω) : Tid := e.pre.me

def KeyEvent.binds (key : Nat) (e : KeyEvent σ ω) : Option Use :=
  match e.label with
  | .setspecific i value => if e.pre.valid i = some key then some (.bind value (e.pre.destructors key)) else none
  | _ => none

def KeyEvent.destroys (key : Nat) (e : KeyEvent σ ω) : Option (Nat × Nat) :=
  match e.out with
  | .destroy k value destructor => if k = key then some (value, destructor) else none
  | _ => none

def KeyEvent.exits (e : KeyEvent σ ω) : Bool :=
  match e.label with
  | .exit _ => true
  | _ => false

def ofThread {α : Type} (t : Tid) (f : KeyEvent σ ω → Option α) (hist : List (KeyEvent σ ω)) : List α :=
  hist.filterMap fun e => if e.actor = t then f e else none

def binds (t : Tid) (key : Nat) (hist : List (KeyEvent σ ω)) : List Use := ofThread t (KeyEvent.binds key) hist

def destroyed (t : Tid) (key : Nat) (hist : List (KeyEvent σ ω)) : List (Nat × Nat) :=
  ofThread t (KeyEvent.destroys key) hist

def exited (t : Tid) (hist : List (KeyEvent σ ω)) : Bool := hist.any fun e => e.actor = t && e.exits

def released (rest : Option Rest) (exited : Bool) (key : Nat) : Bool :=
  exited && match rest with
    | some (.exit last _) => key ≤ last
    | _ => true

def uses (s : KeySystem σ) (t : Tid) (key : Nat) (hist : List (KeyEvent σ ω)) : List Use :=
  if released (s.pending t) (exited t hist) key then .free :: binds t key hist else binds t key hist

structure Specific (E : EventSys σ ω) (layout : Layout) (hist : List (KeyEvent σ ω)) (s : KeySystem σ) : Prop where
  limit : s.keyMax ≤ keysMax
  got : ∀ newer e older i, hist = newer ++ e :: older → e.label = .getspecific i →
    e.out = .got ((e.pre.valid i).bind fun key => (current (binds e.actor key older)).1)
  null : ∀ t key, (s.lib.sys.vp.thr t).context.live = true → s.keyMax ≤ key → s.privateData t key = none
  destroyed : ∀ t key, destroyed t key hist = due (uses s t key hist)
  /-- A value that is destroyed is bound no more, or the thread has begun to exit. -/
  spent : ∀ newer e older key value destructor, hist = newer ++ e :: older → e.out = .destroy key value destructor →
    (current (binds e.actor key (e :: older))).1 ≠ some value ∨ exited e.actor (e :: older) = true
  silent : ∀ newer e older i, hist = newer ++ e :: older → e.label = .getspecific i → exited e.actor older = false
  total : ∀ l, keyEnabled E s l = true → ∃ s' out, keyStep E layout s l = some (s', out)

/- Histories. -/

section
variable {t : Tid} {key : Nat} {e : KeyEvent σ ω} {hist : List (KeyEvent σ ω)}

theorem ofThread_self {α : Type} (acts : e.actor = t) (f : KeyEvent σ ω → Option α) :
    ofThread t f (e :: hist) = (f e).toList ++ ofThread t f hist := by
  rw [ofThread, List.filterMap_cons, if_pos acts]
  cases f e <;> rfl

theorem ofThread_none {α : Type} {f : KeyEvent σ ω → Option α} (quiet : e.actor = t → f e = none) :
    ofThread t f (e :: hist) = ofThread t f hist := by
  rw [ofThread, List.filterMap_cons]
  split
  · rfl
  · rename_i a found
    split at found
    · rename_i acts
      rw [quiet acts] at found
      cases found
    · cases found

theorem binds_self (acts : e.actor = t) : binds t key (e :: hist) = (e.binds key).toList ++ binds t key hist :=
  ofThread_self acts _

theorem destroyed_self (acts : e.actor = t) :
    destroyed t key (e :: hist) = (e.destroys key).toList ++ destroyed t key hist := ofThread_self acts _

theorem exited_self (acts : e.actor = t) : exited t (e :: hist) = (e.exits || exited t hist) := by
  simp [exited, acts]

structure Quiet (e : KeyEvent σ ω) (t : Tid) : Prop where
  binds : e.actor = t → ∀ key, e.binds key = none
  destroys : e.actor = t → ∀ key, e.destroys key = none
  exits : e.actor = t → e.exits = false

theorem Quiet.of_ne (other : t ≠ e.actor) : Quiet e t :=
  ⟨fun acts => absurd acts.symm other, fun acts => absurd acts.symm other, fun acts => absurd acts.symm other⟩

theorem Quiet.binds_cons (quiet : Quiet e t) (key : Nat) : Key.binds t key (e :: hist) = Key.binds t key hist :=
  ofThread_none fun acts => quiet.binds acts key

theorem Quiet.destroyed_cons (quiet : Quiet e t) (key : Nat) : destroyed t key (e :: hist) = destroyed t key hist :=
  ofThread_none fun acts => quiet.destroys acts key

theorem Quiet.exited_cons (quiet : Quiet e t) : exited t (e :: hist) = exited t hist := by
  unfold exited
  rw [List.any_cons]
  by_cases acts : e.actor = t
  · simp [quiet.exits acts]
  · simp [acts]

end

/- The invariant. -/

def keeps (rest : Option Rest) (exited : Bool) (key : Nat) : Bool :=
  match rest with
  | none => !exited
  | some (.set at_ _) => key ≠ at_
  | some (.exit last _) => last < key

structure Registers (hist : List (KeyEvent σ ω)) (s : KeySystem σ) (t : Tid) : Prop where
  fresh : ∀ key, s.keyMax ≤ key → binds t key hist = []
  registered : ∀ key, binds t key hist = [] ∨ (current (binds t key hist)).2 = s.destructors key

structure Tracks (hist : List (KeyEvent σ ω)) (s : KeySystem σ) (t : Tid) : Prop extends Registers hist s t where
  unborn : (s.lib.sys.vp.thr t).context = .unborn →
    (∀ key, binds t key hist = []) ∧ exited t hist = false ∧ s.pending t = none
  null : (s.lib.sys.vp.thr t).context.live = true → ∀ key, s.keyMax ≤ key → s.privateData t key = none
  held : (s.lib.sys.vp.thr t).context.live = true → ∀ key, keeps (s.pending t) (exited t hist) key = true →
    s.privateData t key = (current (binds t key hist)).1
  setting : ∀ key value, s.pending t = some (.set key value) →
    key < s.keyMax ∧ exited t hist = false ∧ (current (binds t key hist)).1 = value
  exiting : ∀ key retval, s.pending t = some (.exit key retval) → exited t hist = true
  left : exited t hist = true → s.pending t = none → (s.lib.sys.vp.thr t).context.ended = true
  destroyed : ∀ key, destroyed t key hist = due (uses s t key hist)

section
variable {t : Tid} {e : KeyEvent σ ω} {hist : List (KeyEvent σ ω)}

theorem Registers.kept (registers : Registers hist e.pre t)
    (binds : ∀ key, Key.binds t key (e :: hist) = Key.binds t key hist) (more : e.pre.keyMax ≤ e.post.keyMax)
    (destructors : ∀ key, key < e.pre.keyMax → e.post.destructors key = e.pre.destructors key) :
    Registers (e :: hist) e.post t := by
  constructor
  case fresh =>
    intro key high
    rw [binds]
    exact registers.fresh key (Nat.le_trans more high)
  case registered =>
    intro key
    rw [binds]
    rcases Nat.lt_or_ge key e.pre.keyMax with low | high
    · rw [destructors key low]
      exact registers.registered key
    · exact .inl (registers.fresh key high)

theorem Tracks.apart (tracks : Tracks hist e.pre t) (quiet : Quiet e t) (apart : Apart e t)
    (pending : e.post.pending t = e.pre.pending t) (more : e.pre.keyMax ≤ e.post.keyMax)
    (destructors : ∀ key, key < e.pre.keyMax → e.post.destructors key = e.pre.destructors key) :
    Tracks (e :: hist) e.post t := by
  constructor
  case toRegisters => exact tracks.toRegisters.kept quiet.binds_cons more destructors
  case unborn =>
    intro place
    simp only [quiet.binds_cons, quiet.exited_cons, pending]
    cases apart with
    | stays lives data born ended => exact tracks.unborn (born place)
    | starts unborn fresh data => exact tracks.unborn unborn
  case null =>
    intro live key high
    cases apart with
    | stays lives data born ended =>
      rw [data live]
      exact tracks.null (lives live) key (Nat.le_trans more high)
    | starts unborn fresh data => exact data key
  case held =>
    intro live key keeps
    rw [quiet.exited_cons, pending] at keeps
    rw [quiet.binds_cons]
    cases apart with
    | stays lives data born ended =>
      rw [data live]
      exact tracks.held (lives live) key keeps
    | starts unborn fresh data =>
      rw [data, (tracks.unborn unborn).1 key]
      rfl
  case setting =>
    intro key value rest
    rw [pending] at rest
    obtain ⟨low, stays, bound⟩ := tracks.setting key value rest
    rw [quiet.exited_cons, quiet.binds_cons]
    exact ⟨Nat.lt_of_lt_of_le low more, stays, bound⟩
  case exiting =>
    intro key retval rest
    rw [pending] at rest
    rw [quiet.exited_cons]
    exact tracks.exiting key retval rest
  case left =>
    intro gone free
    rw [quiet.exited_cons] at gone
    rw [pending] at free
    cases apart with
    | stays lives data born ended => exact ended (tracks.left gone free)
    | starts unborn fresh data =>
      rw [(tracks.unborn unborn).2.1] at gone
      cases gone
  case destroyed =>
    intro key
    rw [quiet.destroyed_cons, uses, quiet.binds_cons, quiet.exited_cons, pending]
    exact tracks.destroyed key

theorem call_of_use {s : KeySystem σ} {key : Nat} {bound : List Use}
    (registered : bound = [] ∨ (current bound).2 = s.destructors key)
    (held : s.privateData t key = (current bound).1) (u : Use) :
    (u.ends (current bound)).bind callOf = if u.leaves.1 = s.privateData t key then none else s.destructible t key := by
  unfold KeySystem.destructible Use.ends callOf
  rw [held]
  cases value : (current bound).1 with
  | none => simp
  | some v =>
    have known : (current bound).2 = s.destructors key := by
      rcases registered with empty | known
      · rw [empty] at value
        cases value
      · exact known
    rw [known]
    by_cases same : u.leaves.1 = some v
    · simp [same]
    · cases s.destructors key <;> simp [same]

/- The thread that takes the step. -/

section
variable {E : EventSys σ ω} {layout : Layout} (tracks : Tracks hist e.pre e.actor)
  (user : (e.pre.lib.sys.vp.thr e.pre.me).context = .user)
include tracks user

theorem Tracks.stays (free : e.pre.pending e.pre.me = none) : exited e.actor hist = false := by
  cases gone : exited e.actor hist with
  | false => rfl
  | true =>
    have ended := tracks.left gone free
    rw [show (e.pre.lib.sys.vp.thr e.actor).context = .user from user] at ended
    cases ended

theorem Tracks.bound (free : e.pre.pending e.pre.me = none) (key : Nat) :
    e.pre.privateData e.actor key = (current (binds e.actor key hist)).1 := by
  apply tracks.held
  · rw [show (e.pre.lib.sys.vp.thr e.actor).context = .user from user]
    rfl
  · rw [show e.pre.pending e.actor = none from free, tracks.stays user free]
    rfl

theorem Tracks.unused (free : e.pre.pending e.pre.me = none) (key : Nat) :
    uses e.pre e.actor key hist = binds e.actor key hist := by
  simp [uses, released, tracks.stays user free]

theorem Tracks.sets {i : Int} {key : Nat} {value : Option Nat} (cause : e.label = .setspecific i value)
    (valid : e.pre.valid i = some key) (free : e.pre.pending e.pre.me = none) (lib : e.post.lib = e.pre.lib)
    (keyMax : e.post.keyMax = e.pre.keyMax) (destructors : e.post.destructors = e.pre.destructors)
    (calls : ∀ k, e.destroys k = if k = key then
      if value = e.pre.privateData e.pre.me key then none else e.pre.destructible e.pre.me key else none)
    (effect : e.post.pending e.pre.me = none ∧
        e.post.privateData e.pre.me = Function.update (e.pre.privateData e.pre.me) key value ∨
      e.post.pending e.pre.me = some (.set key value) ∧ e.post.privateData e.pre.me = e.pre.privateData e.pre.me) :
    Tracks (e :: hist) e.post e.actor := by
  have low : key < e.pre.keyMax := (KeySystem.valid_some valid).1
  have stays : exited e.actor (e :: hist) = false := by
    rw [exited_self rfl, tracks.stays user free, KeyEvent.exits, cause]
    rfl
  have place : (e.post.lib.sys.vp.thr e.actor).context = .user := by
    rw [lib]
    exact user
  have mine : binds e.actor key (e :: hist) = .bind value (e.pre.destructors key) :: binds e.actor key hist := by
    rw [binds_self rfl, KeyEvent.binds, cause]
    simp [valid]
  have others : ∀ k, k ≠ key → binds e.actor k (e :: hist) = binds e.actor k hist := by
    intro k other
    rw [binds_self rfl, KeyEvent.binds, cause]
    simp [valid, other.symm]
  have data : ∀ k, k ≠ key → e.post.privateData e.actor k = e.pre.privateData e.actor k := by
    intro k other
    rcases effect with ⟨-, stored⟩ | ⟨-, same⟩
    · rw [show e.post.privateData e.actor = _ from stored, Function.update_of_ne other]
      rfl
    · exact congrFun same k
  constructor
  case unborn =>
    intro unborn
    rw [place] at unborn
    cases unborn
  case toRegisters =>
    constructor
    · intro k high
      rw [others k (by omega)]
      exact tracks.fresh k (keyMax ▸ high)
    · intro k
      rw [destructors]
      by_cases here : k = key
      · rw [here, mine]
        exact .inr rfl
      · rw [others k here]
        exact tracks.registered k
  case null =>
    intro live k high
    rw [data k (by omega)]
    exact tracks.null (by rw [← lib]; exact live) k (keyMax ▸ high)
  case held =>
    intro live k kept
    by_cases here : k = key
    · subst here
      rcases effect with ⟨-, stored⟩ | ⟨waits, -⟩
      · rw [show e.post.privateData e.actor = _ from stored, Function.update_self, mine]
        rfl
      · rw [show e.post.pending e.actor = _ from waits, keeps] at kept
        simp at kept
    · rw [data k here, others k here]
      exact tracks.bound user free k
  case setting =>
    intro k value' rest
    rcases effect with ⟨done, -⟩ | ⟨waits, -⟩
    · cases (show e.post.pending e.actor = none from done).symm.trans rest
    · cases (show e.post.pending e.actor = _ from waits).symm.trans rest
      rw [mine]
      exact ⟨by omega, stays, rfl⟩
  case exiting =>
    intro k retval rest
    rcases effect with ⟨done, -⟩ | ⟨waits, -⟩
    · cases (show e.post.pending e.actor = none from done).symm.trans rest
    · cases (show e.post.pending e.actor = _ from waits).symm.trans rest
  case left =>
    intro gone
    rw [stays] at gone
    cases gone
  case destroyed =>
    intro k
    have before := tracks.destroyed k
    rw [tracks.unused user free] at before
    rw [destroyed_self rfl, calls, before]
    simp only [uses, released, stays, Bool.false_and, Bool.false_eq_true, if_false]
    by_cases here : k = key
    · subst here
      rw [if_pos rfl, mine, due_cons, call_of_use (tracks.registered k) (tracks.bound user free k)]
      rfl
    · rw [if_neg here, others k here]
      rfl

theorem Tracks.stored {key : Nat} {value : Option Nat} (cause : e.label = .returned)
    (rest : e.pre.pending e.pre.me = some (.set key value)) (result : e.out = .status none)
    (post : e.post = (e.pre.store key value).wait none) (more : e.pre.keyMax ≤ e.post.keyMax)
    (destructors : ∀ key, key < e.pre.keyMax → e.post.destructors key = e.pre.destructors key) :
    Tracks (e :: hist) e.post e.actor := by
  obtain ⟨low, stays, bound⟩ := tracks.setting key value rest
  have quiet : Quiet e e.actor := by
    constructor
    · exact fun _ k => by rw [KeyEvent.binds, cause]
    · exact fun _ k => by rw [KeyEvent.destroys, result]
    · exact fun _ => by rw [KeyEvent.exits, cause]
  have live : (e.pre.lib.sys.vp.thr e.actor).context.live = true := by
    rw [show (e.pre.lib.sys.vp.thr e.actor).context = .user from user]
    rfl
  have lib : e.post.lib = e.pre.lib := by rw [post]; rfl
  have pending : e.post.pending e.actor = none := by rw [post]; exact KeySystem.wait_self ..
  have data : e.post.privateData e.actor = Function.update (e.pre.privateData e.actor) key value := by
    rw [post, KeySystem.wait_privateData]
    exact KeySystem.store_self e.pre key value
  have others : ∀ k, k ≠ key → e.pre.privateData e.actor k = (current (binds e.actor k hist)).1 := by
    intro k other
    apply tracks.held live
    rw [show e.pre.pending e.actor = _ from rest, keeps]
    simpa using other
  constructor
  case unborn =>
    intro unborn
    rw [lib, show (e.pre.lib.sys.vp.thr e.actor).context = .user from user] at unborn
    cases unborn
  case toRegisters => exact tracks.toRegisters.kept quiet.binds_cons more destructors
  case null =>
    intro _ k high
    have high' : e.pre.keyMax ≤ k := by rw [post] at high; exact high
    rw [data, Function.update_of_ne (by omega)]
    exact tracks.null live k high'
  case held =>
    intro _ k _
    rw [data, quiet.binds_cons]
    by_cases here : k = key
    · rw [here, Function.update_self, bound]
    · rw [Function.update_of_ne here]
      exact others k here
  case setting =>
    intro k value' waits
    cases pending.symm.trans waits
  case exiting =>
    intro k retval waits
    cases pending.symm.trans waits
  case left =>
    intro gone
    rw [quiet.exited_cons, stays] at gone
    cases gone
  case destroyed =>
    intro k
    have before := tracks.destroyed k
    simp only [uses, released, stays, Bool.false_and, Bool.false_eq_true, if_false] at before
    rw [quiet.destroyed_cons, before, uses, quiet.binds_cons, quiet.exited_cons, stays]
    rfl

/-- Where _st_thread_cleanup has come to: the keys from first on are as they were when the
thread called st_thread_exit, those before are done. -/
structure Reached (e : KeyEvent σ ω) (hist : List (KeyEvent σ ω)) (s : KeySystem σ) (first : Nat) : Prop where
  keyMax : s.keyMax = e.pre.keyMax
  destructors : s.destructors = e.pre.destructors
  binds : ∀ key, Key.binds e.actor key (e :: hist) = Key.binds e.actor key hist
  exited : Key.exited e.actor (e :: hist) = true
  null : ∀ key, e.pre.keyMax ≤ key → s.privateData e.actor key = none
  held : ∀ key, first ≤ key → s.privateData e.actor key = (current (Key.binds e.actor key hist)).1
  destroyed : ∀ key, Key.destroyed e.actor key hist =
    due (if key < first then .free :: Key.binds e.actor key hist else Key.binds e.actor key hist)

theorem Tracks.reached {s : KeySystem σ} {first retval : Nat} (cleans : Cleans e s first retval) :
    Reached e hist s first := by
  have live : (e.pre.lib.sys.vp.thr e.actor).context.live = true := by
    rw [show (e.pre.lib.sys.vp.thr e.actor).context = .user from user]
    rfl
  cases cleans with
  | begins cause free =>
    constructor
    case keyMax | destructors => rfl
    case binds => exact fun key => by rw [binds_self rfl, KeyEvent.binds, cause]; rfl
    case exited => rw [exited_self rfl, KeyEvent.exits, cause]; rfl
    case null => exact tracks.null live
    case held => exact fun key _ => tracks.bound user free key
    case destroyed =>
      intro key
      rw [tracks.destroyed, tracks.unused user free]
      rfl
  | @goesOn last retval cause rest =>
    have data : (e.pre.store last none).privateData e.actor = Function.update (e.pre.privateData e.actor) last none :=
      KeySystem.store_self e.pre last none
    have gone : Key.exited e.actor hist = true := tracks.exiting last retval rest
    constructor
    case keyMax | destructors => rfl
    case binds => exact fun key => by rw [binds_self rfl, KeyEvent.binds, cause]; rfl
    case exited => rw [exited_self rfl, gone, Bool.or_true]
    case null =>
      intro key high
      have before := tracks.null live key high
      rw [data, Function.update_apply]
      split
      · rfl
      · exact before
    case held =>
      intro key later
      rw [data, Function.update_of_ne (by omega)]
      apply tracks.held live
      rw [show e.pre.pending e.actor = _ from rest]
      simp only [keeps, decide_eq_true_eq]
      omega
    case destroyed =>
      intro key
      rw [tracks.destroyed, uses, show e.pre.pending e.actor = _ from rest, gone]
      simp only [released, Bool.true_and, decide_eq_true_eq, Nat.lt_succ_iff]

end

section
variable {s : KeySystem σ} {first : Nat} (tracks : Tracks hist e.pre e.actor) (reached : Reached e hist s first)
  (more : e.pre.keyMax ≤ e.post.keyMax)
  (destructors : ∀ key, key < e.pre.keyMax → e.post.destructors key = e.pre.destructors key)
include tracks reached

theorem Reached.release {key : Nat} (from_ : first ≤ key) :
    due (.free :: Key.binds e.actor key hist) =
      (s.destructible e.actor key).toList ++ due (Key.binds e.actor key hist) := by
  have registered := tracks.registered key
  rw [← reached.destructors] at registered
  have call := call_of_use registered (reached.held key from_) .free
  rw [due_cons, call]
  split
  · rename_i null
    rw [KeySystem.destructible, ← null]
    rfl
  · rfl

include more destructors

theorem Reached.destroys {key value destructor retval : Nat}
    (user : (e.pre.lib.sys.vp.thr e.pre.me).context = .user) (lib : s.lib = e.pre.lib) (me : s.me = e.actor)
    (found : stThreadCleanup s s.me (s.keyMax - first) first = some (key, value, destructor))
    (result : e.out = .destroy key value destructor) (post : e.post = s.wait (some (.exit key retval))) :
    Tracks (e :: hist) e.post e.actor := by
  obtain ⟨from_, below, call, skipped⟩ := stThreadCleanup_some found
  rw [me] at call skipped
  have place : (e.post.lib.sys.vp.thr e.actor).context = .user := by
    rw [post, KeySystem.wait_lib, lib]
    exact user
  have pending : e.post.pending e.actor = some (.exit key retval) := by
    rw [post, ← me]
    exact KeySystem.wait_self ..
  have keyMax : e.post.keyMax = e.pre.keyMax := by
    rw [post]
    exact reached.keyMax
  constructor
  case unborn =>
    intro unborn
    rw [place] at unborn
    cases unborn
  case toRegisters => exact tracks.toRegisters.kept reached.binds more destructors
  case null =>
    intro live k high
    rw [post, KeySystem.wait_privateData]
    exact reached.null k (keyMax ▸ high)
  case held =>
    intro live k kept
    rw [pending, keeps, decide_eq_true_eq] at kept
    rw [reached.binds, post, KeySystem.wait_privateData]
    exact reached.held k (by omega)
  case setting =>
    intro k value' rest
    cases pending.symm.trans rest
  case exiting => exact fun _ _ _ => reached.exited
  case left =>
    intro gone free
    cases pending.symm.trans free
  case destroyed =>
    intro k
    have destroys : e.destroys k = if key = k then some (value, destructor) else none := by
      rw [KeyEvent.destroys, result]
    rw [destroyed_self rfl, destroys, reached.destroyed, uses, reached.binds, reached.exited, pending]
    simp only [released, Bool.true_and, decide_eq_true_eq]
    rcases Nat.lt_or_ge k first with done | next
    · rw [if_neg (by omega), if_pos done, if_pos (by omega)]
      rfl
    · rw [if_neg (Nat.not_lt.mpr next)]
      rcases Nat.lt_trichotomy k key with before | here | after
      · rw [if_neg (by omega), if_pos (by omega), Reached.release tracks reached next, skipped k next before]
      · rw [if_pos here.symm, if_pos (by omega), Reached.release tracks reached next, here, call]
      · rw [if_neg (by omega), if_neg (by omega)]
        rfl

theorem Reached.leaves (done : stThreadCleanup s s.me (s.keyMax - first) first = none) (lib : s.lib = e.pre.lib)
    (me : s.me = e.actor) (stack : e.post.lib.stack = e.pre.lib.stack)
    (ended : (e.post.lib.sys.vp.thr e.actor).context.ended = true) {out : Option Ret} (result : e.out = .lib out)
    (post : e.post = { s.wait none with lib := e.post.lib }) : Tracks (e :: hist) e.post e.actor := by
  have skipped := stThreadCleanup_none done
  rw [me] at skipped
  have pending : e.post.pending e.actor = none := by
    rw [post, ← me]
    exact KeySystem.wait_self ..
  have keyMax : e.post.keyMax = e.pre.keyMax := by
    rw [post]
    exact reached.keyMax
  constructor
  case unborn =>
    intro unborn
    rw [unborn] at ended
    cases ended
  case toRegisters => exact tracks.toRegisters.kept reached.binds more destructors
  case null =>
    intro live k high
    have data : e.post.privateData e.actor = s.privateData e.actor := by
      unfold KeySystem.privateData
      rw [stack, lib, post]
      rfl
    rw [data]
    exact reached.null k (keyMax ▸ high)
  case held =>
    intro live k kept
    rw [pending, reached.exited] at kept
    cases kept
  case setting =>
    intro k value' rest
    cases pending.symm.trans rest
  case exiting => exact fun _ _ _ => reached.exited
  case left => exact fun _ _ => ended
  case destroyed =>
    intro k
    have destroys : e.destroys k = none := by rw [KeyEvent.destroys, result]
    rw [destroyed_self rfl, destroys, reached.destroyed, uses, reached.binds, reached.exited, pending]
    simp only [released, Bool.true_and, if_true]
    rcases Nat.lt_or_ge k first with past | next
    · rw [if_pos past]
      rfl
    · rw [if_neg (Nat.not_lt.mpr next)]
      rcases Nat.lt_or_ge k e.pre.keyMax with low | high
      · rw [Reached.release tracks reached next, skipped k next (by rw [reached.keyMax]; omega)]
      · rw [tracks.fresh k high]
        rfl

end

/- Runs. -/

variable {E : EventSys σ ω} {layout : Layout} {s : KeySystem σ}

theorem KeyEvent.user (fired : e.Fired (keyMachine E layout)) (called : ∀ l, e.label ≠ .lib l) :
    (e.pre.lib.sys.vp.thr e.pre.me).context = .user := by
  have enabled := fired.enabled
  simp only [keyMachine] at enabled
  cases cause : e.label with
  | lib l => exact absurd cause (called l)
  | create | setspecific | getspecific | exit | returned =>
    rw [cause, keyEnabled, Bool.and_eq_true, decide_eq_true_eq] at enabled
    exact enabled.1

theorem KeyStarted.tracks (started : KeyStarted E layout s) (t : Tid) :
    Tracks ([] : List (KeyEvent σ ω)) s t := by
  obtain ⟨⟨sys, pagesize, randomize, answers, pool, ts, -, -, -, stack⟩, -, zero, idle, free⟩ := started
  have null : ∀ key, (s.lib.sys.vp.thr t).context.live = true → s.privateData t key = none := by
    intro key live
    by_cases here : t = s.lib.sys.vp.idleThread
    · rw [here]
      exact idle key
    · rw [KeySystem.privateData, stack, Function.update_of_ne here]
      exact zero key
  constructor
  case unborn => exact fun _ => ⟨fun _ => rfl, rfl, free t⟩
  case toRegisters => exact ⟨fun _ _ => rfl, fun _ => .inl rfl⟩
  case null => exact fun live key _ => null key live
  case held => exact fun live key _ => null key live
  case setting =>
    intro key value rest
    cases (free t).symm.trans rest
  case exiting =>
    intro key retval rest
    cases (free t).symm.trans rest
  case left =>
    intro gone
    cases gone
  case destroyed => exact fun _ => rfl

theorem Quiet.of_call (binds : ∀ key, e.binds key = none) (destroys : ∀ key, e.destroys key = none)
    (exits : e.exits = false) : Quiet e t :=
  ⟨fun _ => binds, fun _ => destroys, fun _ => exits⟩

theorem Tracks.acts (run : KeyRun E layout hist e.pre) (fired : e.Fired (keyMachine E layout))
    (tracks : Tracks hist e.pre e.actor) : Tracks (e :: hist) e.post e.actor := by
  obtain ⟨hist', lib⟩ := KeyRun.lib run
  have moved := keyStep_moved fired
  obtain ⟨more, destructors⟩ := moved.keys
  have user := KeyEvent.user fired
  cases moved with
  | lib cause quiet fired' result table keyMax destructors' pending =>
    have silent : Quiet e e.actor := by
      apply Quiet.of_call <;> simp [KeyEvent.binds, KeyEvent.destroys, KeyEvent.exits, cause, result]
    exact tracks.apart silent (apart_lib lib fired' table e.actor) (by rw [pending]) more destructors
  | creates cause room result post =>
    have silent : Quiet e e.actor := by
      apply Quiet.of_call <;> simp [KeyEvent.binds, KeyEvent.destroys, KeyEvent.exits, cause, result]
    exact tracks.apart silent (.same (by rw [post]) fun _ => by rw [post]; rfl) (by rw [post]) more destructors
  | full cause result post | gets cause result free post =>
    have silent : Quiet e e.actor := by
      apply Quiet.of_call <;> simp [KeyEvent.binds, KeyEvent.destroys, KeyEvent.exits, cause, result]
    exact tracks.apart silent (.same (by rw [post]) fun _ => by rw [post]) (by rw [post]) more destructors
  | invalid cause invalid result post =>
    have silent : Quiet e e.actor := by
      apply Quiet.of_call <;> simp [KeyEvent.binds, KeyEvent.destroys, KeyEvent.exits, cause, result, invalid]
    exact tracks.apart silent (.same (by rw [post]) fun _ => by rw [post]) (by rw [post]) more destructors
  | @stores i key value cause valid quiet free result post =>
    refine tracks.sets (user (by simp [cause])) cause valid free (by rw [post]; rfl) (by rw [post]; rfl)
      (by rw [post]; rfl) (fun k => ?_) (.inl ⟨by rw [post]; exact free, by rw [post]; exact KeySystem.store_self ..⟩)
    rw [KeyEvent.destroys, result]
    rcases quiet with same | none_
    · simp [same]
    · simp [none_]
  | @replaces i key old destructor value cause valid differs found free result post =>
    refine tracks.sets (user (by simp [cause])) cause valid free (by rw [post]; rfl) (by rw [post]; rfl)
      (by rw [post]; rfl) (fun k => ?_) (.inr ⟨by rw [post]; exact KeySystem.wait_self .., by rw [post]; rfl⟩)
    rw [KeyEvent.destroys, result, if_neg differs, found]
    simp [eq_comm]
  | stored cause rest result post => exact tracks.stored (user (by simp [cause])) cause rest result post more destructors
  | destroys cleans found result post =>
    have place := user cleans.called
    exact (tracks.reached place cleans).destroys tracks more destructors place cleans.lib cleans.me found result post
  | leaves cleans done fired' result post =>
    obtain ⟨stack, ended⟩ := PoolRun.exit_ends lib fired'
    have reached := tracks.reached (user cleans.called) cleans
    exact reached.leaves tracks more destructors done cleans.lib cleans.me stack ended result post

theorem KeyRun.tracks (run : KeyRun E layout hist s) (t : Tid) : Tracks hist s t := by
  induction run generalizing t with
  | begin started => exact started.tracks t
  | @next hist e before fired ih =>
    by_cases acts : t = KeyEvent.actor e
    · subst acts
      exact Tracks.acts before fired (ih _)
    · obtain ⟨hist', lib⟩ := KeyRun.lib before
      have moved := keyStep_moved fired
      obtain ⟨more, destructors⟩ := moved.keys
      exact (ih t).apart (.of_ne acts) (moved.apart lib acts) (moved.waits acts) more destructors

theorem KeyRun.limit (run : KeyRun E layout hist s) : s.keyMax ≤ keysMax := by
  induction run with
  | begin started => exact started.2.1
  | next before fired ih =>
    cases keyStep_moved fired with
    | lib _ _ _ _ _ keyMax => rwa [keyMax]
    | creates _ room _ post =>
      rw [post]
      exact room
    | destroys cleans _ _ post | leaves cleans _ _ _ post =>
      rw [post]
      exact cleans.same.1 ▸ ih
    | full _ _ post | invalid _ _ _ post | stores _ _ _ _ _ post | replaces _ _ _ _ _ _ post | gets _ _ _ post
    | stored _ _ _ post =>
      rw [post]
      exact ih

theorem stThreadExit_total {hist : List (PoolEvent σ ω)} (run : PoolRun E layout hist s.lib)
    (user : (s.lib.sys.vp.thr s.me).context = .user) (first retval : Nat) :
    ∃ s' out, stThreadExit E layout s first retval = some (s', out) := by
  unfold stThreadExit
  split
  · exact ⟨_, _, rfl⟩
  · obtain ⟨free, inv⟩ := PoolRun.inv run
    obtain ⟨hist', sys⟩ := PoolRun.sys run
    have ok : poolEnabled E s.lib (.lib (.call (.threadExit retval))) = true := by
      simpa [poolEnabled, enabled, callable, Label.creates, KeySystem.me] using user
    obtain ⟨lib, out, step⟩ : ∃ lib out, poolStep E layout s.lib _ = some (lib, out) := inv.steps sys ok
    simp [step]

theorem KeyRun.total (run : KeyRun E layout hist s) (l : KeyLabel ω) (enabled : keyEnabled E s l = true) :
    ∃ s' out, keyStep E layout s l = some (s', out) := by
  obtain ⟨hist', lib⟩ := KeyRun.lib run
  cases l with
  | lib l =>
    rw [keyEnabled, Bool.and_eq_true] at enabled
    obtain ⟨free, inv⟩ := PoolRun.inv lib
    obtain ⟨hist'', sys⟩ := PoolRun.sys lib
    obtain ⟨lib', out, step⟩ : ∃ lib' out, poolStep E layout s.lib l = some (lib', out) := inv.steps sys enabled.1
    simp [keyStep, step]
  | create | setspecific | getspecific => exact ⟨_, _, rfl⟩
  | exit retval =>
    rw [keyEnabled, Bool.and_eq_true, decide_eq_true_eq] at enabled
    exact stThreadExit_total lib enabled.1 0 retval
  | returned =>
    rw [keyEnabled, Bool.and_eq_true, decide_eq_true_eq] at enabled
    obtain ⟨rest, waits⟩ := Option.isSome_iff_exists.mp enabled.2
    rw [keyStep, waits]
    cases rest with
    | set key value => exact ⟨_, _, rfl⟩
    | exit key retval =>
      have lib' : PoolRun E layout hist' (s.store key none).lib := lib
      exact stThreadExit_total lib' enabled.1 (key + 1) retval

section
variable {older : List (KeyEvent σ ω)} (run : KeyRun E layout older e.pre) (fired : e.Fired (keyMachine E layout))
include run fired

theorem KeyRun.get {i : Int} (cause : e.label = .getspecific i) : exited e.actor older = false ∧
    e.out = .got ((e.pre.valid i).bind fun key => (current (binds e.actor key older)).1) := by
  have user := KeyEvent.user fired (by simp [cause])
  have tracks := KeyRun.tracks run e.actor
  cases keyStep_moved fired with
  | gets cause' result free post =>
    cases cause.symm.trans cause'
    refine ⟨tracks.stays user free, ?_⟩
    rw [result, stThreadGetspecific]
    cases e.pre.valid i with
    | none => rfl
    | some key => exact congrArg KeyOut.got (tracks.bound user free key)
  | destroys cleans | leaves cleans =>
    cases cleans with
    | begins cause' | goesOn cause' => cases cause.symm.trans cause'
  | lib cause' | creates cause' | full cause' | invalid cause' | stores cause' | replaces cause' | stored cause' =>
    cases cause.symm.trans cause'

theorem KeyRun.spent {key value destructor : Nat} (result : e.out = .destroy key value destructor) :
    (current (binds e.actor key (e :: older))).1 ≠ some value ∨ exited e.actor (e :: older) = true := by
  have tracks := KeyRun.tracks run e.actor
  have user := KeyEvent.user fired
  cases keyStep_moved fired with
  | replaces cause valid differs found free result' post =>
    cases result.symm.trans result'
    rw [binds_self rfl, KeyEvent.binds, cause]
    simp only [valid, if_true, Option.toList_some, List.singleton_append]
    rw [(KeySystem.destructible_some found).1] at differs
    exact .inl differs
  | destroys cleans found result' post => exact .inr (tracks.reached (user cleans.called) cleans).exited
  | lib _ _ _ result' | creates _ _ result' | full _ result' | invalid _ _ result' | stores _ _ _ _ result'
  | gets _ result' | stored _ _ result' | leaves _ _ _ result' => cases result.symm.trans result'

end

/-- Every run of any number of threads, created and ended at any time. -/
theorem thread_specific_data (run : KeyRun E layout hist s) : Specific E layout hist s := by
  constructor
  case limit => exact KeyRun.limit run
  case got =>
    rintro newer e older i rfl cause
    obtain ⟨before, fired, -⟩ := run.split
    exact (KeyRun.get before fired cause).2
  case null => exact fun t key live high => (KeyRun.tracks run t).null live key high
  case destroyed => exact fun t key => (KeyRun.tracks run t).destroyed key
  case spent =>
    rintro newer e older key value destructor rfl result
    obtain ⟨before, fired, -⟩ := run.split
    exact KeyRun.spent before fired result
  case silent =>
    rintro newer e older i rfl cause
    obtain ⟨before, fired, -⟩ := run.split
    exact (KeyRun.get before fired cause).1
  case total => exact KeyRun.total run

end

/-- After st_init. What will be stack 20 is not zeroed. -/
def keyed : KeySystem (Poll.State Unit) where
  lib := Poll.pooled
  keyMax := 0
  destructors := fun _ => none
  table := fun stack _ => if stack = some 20 then some 99 else none
  pending := fun _ => none

theorem keyed_ok : KeyStarted (Poll.eventSys Poll.silent) .linux64 keyed :=
  ⟨Poll.pooled_ok, by decide, fun _ => rfl, fun _ => rfl, fun _ => rfl⟩

/-- The primordial thread binds two values to a key. Thread 2 creates a second key, without a
destructor, and leaves a value under it; thread 3 runs on the stack of thread 2. -/
theorem thread_specific_data_recycled :
    ∃ hist s, KeyRun (Poll.eventSys Poll.silent) .linux64 hist s ∧
      (destroyed 1 0 hist = [(7, 100)] ∧ destroyed 2 0 hist = [(9, 100)] ∧ s.lib.stack 2 = some 20 ∧
        s.lib.stack 3 = some 20 ∧ hist.head?.map Event.out = some (.got none) ∧ s.privateData 1 0 = some 8) ∧
      Specific (Poll.eventSys Poll.silent) .linux64 hist s := by
  obtain ⟨hist, s, run, seen⟩ := Run.found (M := keyMachine (Poll.eventSys Poll.silent) .linux64)
    [.create (some 100), .setspecific 0 (some 7), .setspecific 0 (some 8), .returned,
      .lib (.create 2 true (some 0) 0 ⟨some 20, some 1048576, 0⟩), .lib (.lib (.call (.threadJoin 2))),
      .lib (.lib .resume), .getspecific 0, .setspecific 0 (some 9), .create none, .setspecific 1 (some 5), .exit 7,
      .lib (.lib (.call (.usleep 5))), .lib (.lib (.idle 10 0)), .lib (.lib .resume), .returned, .lib (.lib .resume),
      .lib (.lib (.call (.usleep 10))), .lib (.lib .resume), .lib (.lib (.idle 100 0)), .lib (.lib .resume),
      .lib (.create 3 false none 0 ⟨none, none, 0⟩), .lib (.lib (.call (.usleep 10))), .lib (.lib .resume),
      .getspecific 1]
    keyed_ok
    (p := fun hist s => decide (destroyed 1 0 hist = [(7, 100)] ∧ destroyed 2 0 hist = [(9, 100)] ∧
      s.lib.stack 2 = some 20 ∧ s.lib.stack 3 = some 20 ∧ hist.head?.map Event.out = some (.got none) ∧
      s.privateData 1 0 = some 8))
    (by decide +kernel)
  exact ⟨hist, s, run, of_decide_eq_true seen, thread_specific_data run⟩

end StateThreads.Key
