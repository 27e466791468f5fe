import StateThreads.Placement.Effects

/-! One step of a run as every object sees it, and the call that a result belongs to. -/
namespace StateThreads
open LabelledRun

variable {σ ω : Type}

/-- The last thing a step does to a thread is to choose it as the next one to run. -/
inductive Picked (th : Thread) : Thread → Prop
  | same : Picked th th
  | chosen (runnable : th.state = .runnable) : Picked th { th with state := .running }

section
variable {th th' : Thread} (picked : Picked th th')
include picked

theorem Picked.context : th'.context = th.context := by cases picked <;> rfl

theorem Picked.flags : th'.flags = th.flags := by cases picked <;> rfl

theorem Picked.term : th'.term = th.term := by cases picked <;> rfl

theorem Picked.retval : th'.retval = th.retval := by cases picked <;> rfl

theorem Picked.blocked : th'.state.blocked = th.state.blocked := by
  cases picked with
  | same => rfl
  | chosen runnable => rw [runnable]; rfl

theorem Picked.state {s : ThreadState} (waits : s ≠ .running ∧ s ≠ .runnable) : th'.state = s ↔ th.state = s := by
  cases picked with
  | same => rfl
  | chosen runnable => simp [runnable, waits.1.symm, waits.2.symm]

end

theorem Vp.after_picked {vp : Vp} {switch : Bool} {r : Option Tid} (inv : Inv vp (if switch then none else r))
    (u : Tid) : Picked (vp.thr u) ((vp.after switch).thr u) := by
  cases switch with
  | false => exact .same
  | true =>
    have runnable := Inv.next inv
    by_cases h : u = (nextThread vp).1
    · subst h
      simp only [Vp.after, if_true, Vp.yielded, Vp.switched, Function.update_self]
      exact .chosen runnable.1
    · simp only [Vp.after, if_true, Vp.yielded, Vp.switched, Function.update_of_ne h]
      exact .same

@[simp] theorem Vp.after_mutex (vp : Vp) (switch : Bool) : (vp.after switch).mutex = vp.mutex := by
  cases switch <;> rfl

@[simp] theorem Vp.after_cond (vp : Vp) (switch : Bool) : (vp.after switch).cond = vp.cond := by
  cases switch <;> rfl

def SysEvent.actor (e : SysEvent σ ω) : Tid := e.pre.vp.current

structure Stepped (e : SysEvent σ ω) : Prop where
  pre : Settled e.pre.vp
  post : Settled e.post.vp
  move : ∃ vp' switch, e.post.vp = vp'.after switch ∧ Move e.pre.vp e.label vp' e.out switch ∧
    Inv vp' (if switch then none else some e.pre.vp.current)
  self : ∃ th, Acted e.pre.vp e.label e.out th ∧ Picked th (e.post.vp.thr e.actor)
  other : ∀ u, u ≠ e.actor → ∃ th, Touched e.pre.vp e.label u th ∧ Picked th (e.post.vp.thr u)
  mutex : ∀ m, MutexTouched e.pre.vp e.label e.out m (e.post.vp.mutex m)
  cond : ∀ c, CondTouched e.pre.vp e.label c (e.post.vp.cond c)
  user : ∀ op, e.label = .call op → (e.pre.vp.thr e.actor).context = .user
  resumes : e.label = .resume → (e.pre.vp.thr e.actor).context.resumes = true

variable {E : EventSys σ ω} {hist : List (SysEvent σ ω)} {s : System σ} {e : SysEvent σ ω}

theorem System.lift_some {s s' : System σ} {r : Outcome} {out : Option Ret} (run : s.lift r = some (s', out)) :
    r = some (s'.vp, out) := by
  unfold System.lift at run
  obtain ⟨⟨vp, out'⟩, ran, same⟩ := Option.map_eq_some_iff.mp run
  obtain ⟨rfl, rfl⟩ := Prod.mk.inj same
  exact ran

theorem Stepped.actor_running (stepped : Stepped e) : (e.pre.vp.thr e.actor).state = .running :=
  stepped.pre.inv.running.2

theorem Stepped.zombie_away (stepped : Stepped e) {t : Tid} (zombie : (e.pre.vp.thr t).state = .zombie) : t ≠ e.actor := by
  rintro rfl
  rw [stepped.actor_running] at zombie
  cases zombie

theorem SysRun.stepped (run : SysRun E hist e.pre) (fired : e.Fired (machine E)) : Stepped e := by
  have settled := run.settled
  obtain ⟨vp', switch, post, move, current, inv, after⟩ := settled.step fired
  have enabled := fired.enabled
  refine ⟨settled, after, ⟨vp', switch, post, move, inv⟩, ?_, fun u hu => ?_, fun m => ?_, fun c => ?_, ?_, ?_⟩
  · exact ⟨_, move.self settled.inv, by rw [post]; exact Vp.after_picked inv _⟩
  · exact ⟨_, move.other settled.inv hu, by rw [post]; exact Vp.after_picked inv _⟩
  · rw [post, Vp.after_mutex]; exact move.mutex m
  · rw [post, Vp.after_cond]; exact move.cond c
  · intro op cause
    simp only [machine, StateThreads.enabled, cause, Bool.and_eq_true, decide_eq_true_eq] at enabled
    exact enabled.1
  · intro cause
    simp only [machine, StateThreads.enabled, cause] at enabled
    exact enabled

theorem SysRun.callable (fired : e.Fired (machine E)) {op : Op} (cause : e.label = .call op) :
    callable E e.pre op = true := by
  have enabled := fired.enabled
  simp only [machine, StateThreads.enabled, cause, Bool.and_eq_true] at enabled
  exact enabled.2

theorem SysRun.before {older : List (SysEvent σ ω)} (run : SysRun E hist s) (past : (e :: older) <:+ hist) :
    SysRun E older e.pre ∧ e.Fired (machine E) := by
  obtain ⟨newer, rfl⟩ := past
  obtain ⟨before, fired, -⟩ := Run.split run
  exact ⟨before, fired⟩

/- Calls and their results. -/

def Label.isCall : Label ω → Bool
  | .call _ => true
  | _ => false

def lastCall (hist : List (SysEvent σ ω)) (t : Tid) : Option (SysEvent σ ω) :=
  hist.find? fun e => e.actor = t && e.label.isCall

/-- The step e ends the call op with result r; the call began with the step b, which is
e itself unless the caller was switched away. -/
structure Completes (older : List (SysEvent σ ω)) (e : SysEvent σ ω) (op : Op) (r : Ret) (b : SysEvent σ ω) :
    Prop where
  out : e.out = some r
  begun : lastCall (e :: older) e.actor = some b
  op : b.label = .call op

def Op.waitsAt : Op → Context → Bool
  | .usleep _, .usleep => true
  | .poll _ _, .poll => true
  | .condTimedwait c _, .cond d none => c = d
  | .threadJoin t, .cond _ (some u) => t = u
  | .mutexLock m, .lock n => m = n
  | .threadExit _, .exiting => true
  | _, _ => false

theorem lastCall_other {u : Tid} (hu : u ≠ e.actor) : lastCall (e :: hist) u = lastCall hist u := by
  simp [lastCall, Ne.symm hu]

theorem lastCall_call {op : Op} (cause : e.label = .call op) : lastCall (e :: hist) e.actor = some e := by
  simp [lastCall, cause, Label.isCall]

theorem lastCall_quiet {u : Tid} (quiet : e.label.isCall = false) : lastCall (e :: hist) u = lastCall hist u := by
  simp [lastCall, quiet]

def SysEvent.Acts (e : SysEvent σ ω) (t : Tid) : Prop := e.actor = t ∧ (e.label.isCall = true ∨ e.label = .resume)

theorem lastCall_idle {n : SysEvent σ ω} {t : Tid} (idle : ¬ n.Acts t) : lastCall (n :: hist) t = lastCall hist t := by
  unfold lastCall
  rw [List.find?_cons_of_neg]
  intro h
  simp only [Bool.and_eq_true, decide_eq_true_eq] at h
  exact idle ⟨h.1, .inl h.2⟩

theorem lastCall_append {between : List (SysEvent σ ω)} {t : Tid} (idle : ∀ n ∈ between, ¬ SysEvent.Acts n t) :
    lastCall (between ++ hist) t = lastCall hist t := by
  induction between with
  | nil => rfl
  | cons n between ih =>
    rw [List.cons_append, lastCall_idle (idle n (List.mem_cons_self ..)),
      ih fun n' hn' => idle n' (List.mem_cons_of_mem _ hn')]

theorem Touched.context {vp : Vp} {l : Label ω} {u : Tid} {th : Thread} (touched : Touched vp l u th) :
    th.context = (vp.thr u).context ∨ (vp.thr u).context = .unborn ∧ th.context = .fresh := by
  cases touched with
  | created cause unborn fresh => exact .inr ⟨unborn, rfl⟩
  | _ => exact .inl rfl

theorem Parks.waitsAt {vp : Vp} {l : Label ω} {state : ThreadState} {context : Context}
    (parks : Parks vp l state context) : ∃ op, l = .call op ∧ op.waitsAt context = true := by
  cases parks <;> exact ⟨_, rfl, by simp [Op.waitsAt]⟩

theorem Returns.resumes {vp : Vp} {context : Context} {flags : Flags} {out : Option Ret}
    (returns : Returns vp context flags out) : context.resumes = true ∧ context ≠ .fresh := by
  cases returns <;> simp [Context.resumes]

def Inside (hist : List (SysEvent σ ω)) (t : Tid) (context : Context) : Prop :=
  context.resumes = true → context ≠ .fresh →
    ∃ b op, lastCall hist t = some b ∧ b.label = .call op ∧ op.waitsAt context = true

theorem Inside.none {t : Tid} {context : Context} (outside : context.resumes = false) : Inside hist t context :=
  fun h => by simp [outside] at h

theorem Stepped.born (stepped : Stepped e) {t : Tid} (unborn : (e.post.vp.thr t).context = .unborn) :
    (e.pre.vp.thr t).context = .unborn := by
  by_cases h : t = e.actor
  · subst h
    obtain ⟨th, acted, picked⟩ := stepped.self
    rw [picked.context] at unborn
    cases acted with
    | same | cleared | flagged | idled => exact unborn
    | parked where_ =>
      simp only at unborn
      subst unborn
      generalize e.label = l at where_
      cases where_
    | _ => cases unborn
  · obtain ⟨th, touched, picked⟩ := stepped.other t h
    rw [picked.context] at unborn
    obtain same | ⟨before, -⟩ := touched.context
    · exact same ▸ unborn
    · exact before

theorem Stepped.exiting_acts (stepped : Stepped e) (exiting : (e.pre.vp.thr e.actor).context = .exiting) :
    ∃ th, Picked th (e.post.vp.thr e.actor) ∧ (th = e.pre.vp.thr e.actor ∨ th.context = .gone) := by
  have called : ∀ op, e.label ≠ .call op := fun op cause => by
    have user := stepped.user op cause
    rw [exiting] at user
    cases user
  obtain ⟨th, acted, picked⟩ := stepped.self
  refine ⟨th, picked, ?_⟩
  cases acted with
  | same => exact .inl rfl
  | ended => exact .inr rfl
  | cleared cause | flagged cause | died cause | left cause => exact absurd cause (called _)
  | parked where_ =>
    obtain ⟨op, cause, -⟩ := where_.waitsAt
    exact absurd cause (called op)
  | began _ place | rejoined _ place | idled _ place => cases place.symm.trans exiting
  | returned _ back =>
    rw [show (e.pre.vp.thr e.pre.vp.current).context = _ from exiting] at back
    cases back

theorem Stepped.inside (stepped : Stepped e) (before : ∀ t, Inside hist t (e.pre.vp.thr t).context) (t : Tid) :
    Inside (e :: hist) t (e.post.vp.thr t).context := by
  by_cases h : t = e.actor
  · subst h
    obtain ⟨th, acted, picked⟩ := stepped.self
    rw [picked.context]
    have stays : e.label.isCall = false ∨ (e.pre.vp.thr e.actor).context = .user := by
      cases cause : e.label with
      | call op => exact .inr (stepped.user op cause)
      | _ => exact .inl rfl
    have kept : Inside (e :: hist) e.actor (e.pre.vp.thr e.actor).context := by
      obtain quiet | user := stays
      · have same : lastCall (e :: hist) e.actor = lastCall hist e.actor := lastCall_quiet quiet
        unfold Inside
        rw [same]
        exact before e.actor
      · rw [user]
        exact .none rfl
    cases acted with
    | same quiet returned call => exact kept
    | cleared cause blocks flag result => exact kept
    | flagged cause result => exact kept
    | idled cause place result => exact kept
    | parked where_ flag result =>
      obtain ⟨op, cause, place⟩ := where_.waitsAt
      exact fun _ _ => ⟨e, op, lastCall_call cause, cause, place⟩
    | died cause joinable result => exact fun _ _ => ⟨e, _, lastCall_call cause, cause, rfl⟩
    | rejoined cause place signalled alive result =>
      rw [show (e.pre.vp.thr e.actor).context = _ from place] at kept
      exact kept
    | began | returned | left | ended => exact .none rfl
  · obtain ⟨th, touched, picked⟩ := stepped.other t h
    have same : lastCall (e :: hist) _ = lastCall hist _ := lastCall_other h
    unfold Inside
    rw [picked.context, same]
    obtain stays | ⟨-, fresh⟩ := touched.context
    · rw [stays]; exact before t
    · exact fun _ other => absurd fresh other

/-- A thread that has been woken inside a call and does not go on with it changes at most
its interrupt flag. -/
theorem Stepped.stays (stepped : Stepped e) {u : Tid}
    (awake : (e.pre.vp.thr u).state = .runnable ∨ (e.pre.vp.thr u).state = .running)
    (inside : (e.pre.vp.thr u).context.resumes = true) (waits : u = e.actor → e.label ≠ .resume) :
    (e.post.vp.thr u).context = (e.pre.vp.thr u).context ∧
      ((e.post.vp.thr u).state = .runnable ∨ (e.post.vp.thr u).state = .running) ∧
      ((e.post.vp.thr u).flags = (e.pre.vp.thr u).flags ∨
        e.label = .call (.threadInterrupt u) ∧
          (e.post.vp.thr u).flags = { (e.pre.vp.thr u).flags with interrupt := true }) := by
  have chosen : ∀ {th th' : Thread}, Picked th th' → th.state = .runnable ∨ th.state = .running →
      th'.state = .runnable ∨ th'.state = .running := by
    intro th th' picked state
    cases picked with
    | same => exact state
    | chosen => exact .inr rfl
  by_cases h : u = e.actor
  · subst h
    obtain ⟨th, acted, picked⟩ := stepped.self
    have called : ∀ op, e.label ≠ .call op := fun op cause => by
      have user := stepped.user op cause
      rw [user] at inside
      cases inside
    rw [picked.context, picked.flags]
    cases acted with
    | same => exact ⟨rfl, chosen picked awake, .inl rfl⟩
    | cleared cause => exact absurd cause (called _)
    | flagged cause => exact absurd cause (called _)
    | parked where_ =>
      obtain ⟨op, cause, -⟩ := where_.waitsAt
      exact absurd cause (called op)
    | died cause => exact absurd cause (called _)
    | left cause => exact absurd cause (called _)
    | idled cause place =>
      rw [show (e.pre.vp.thr e.actor).context = _ from place] at inside
      cases inside
    | began cause | returned cause | rejoined cause | ended cause => exact absurd cause (waits rfl)
  · obtain ⟨th, touched, picked⟩ := stepped.other u h
    rw [picked.context, picked.flags]
    cases touched with
    | same => exact ⟨rfl, chosen picked awake, .inl rfl⟩
    | flagged cause => exact ⟨rfl, chosen picked awake, .inr ⟨cause, rfl⟩⟩
    | woken live blocked => obtain a | a := awake <;> simp [a, ThreadState.blocked] at blocked
    | reaped zombie => obtain a | a := awake <;> simp [a] at zombie
    | created cause unborn => simp [unborn, Context.resumes] at inside

structure Vp.Blank (vp : Vp) : Prop where
  place : ∀ t, (vp.thr t).context.resumes = false
  flags : ∀ t, (vp.thr t).flags.interrupt = false ∧ (vp.thr t).flags.timedout = false
  term : ∀ t, (vp.thr t).term = none
  state : ∀ t, (vp.thr t).state.blocked = false
  cond : ∀ c, vp.cond c = ⟨[], .unborn, false⟩
  mutex : ∀ m, vp.mutex m = ⟨none, [], .unborn⟩
  ioQ : vp.ioQ = []

theorem Started.blank (started : Started E s) : s.vp.Blank := by
  obtain ⟨-, ⟨ioInit, eventInit, now, stack, object⟩, ok, distinct⟩ := started
  cases ioInit <;> cases eventInit <;> cases stack <;> cases object <;>
    simp [stInit, Vp.boot, startThread, Vp.addRunq, Vp.setThr] at ok
  rename_i i p
  rw [← ok]
  constructor
  case cond | mutex | ioQ => simp
  all_goals
    intro t
    by_cases hp : t = p
    · simp [hp, Context.resumes, ThreadState.blocked]
    · by_cases hi : t = i
      · subst hi; simp [hp, Context.resumes, ThreadState.blocked]
      · simp [hp, hi, Context.resumes, ThreadState.blocked]

theorem SysRun.inside (run : SysRun E hist s) (t : Tid) : Inside hist t (s.vp.thr t).context := by
  refine run.induct (P := fun hist s => ∀ t, Inside hist t (s.vp.thr t).context) ?_ ?_ t
  · intro s started t
    exact .none (started.blank.place t)
  · intro hist e before inside fired t
    exact (SysRun.stepped before fired).inside inside t

theorem Completes.cases {op : Op} {r : Ret} {b : SysEvent σ ω} (done : Completes hist e op r b)
    (run : SysRun E hist e.pre) (fired : e.Fired (machine E)) :
    (e.label = .call op ∧ b = e) ∨
      (e.label = .resume ∧ op.waitsAt (e.pre.vp.thr e.actor).context = true ∧ lastCall hist e.actor = some b) := by
  have stepped := SysRun.stepped run fired
  obtain ⟨out, begun, label⟩ := done
  cases cause : e.label with
  | call op' =>
    rw [lastCall_call cause] at begun
    obtain rfl := Option.some.inj begun
    exact .inl ⟨by rw [← label, cause], rfl⟩
  | resume =>
    rw [lastCall_quiet (by rw [cause]; rfl)] at begun
    refine .inr ⟨rfl, ?_, begun⟩
    have notFresh : (e.pre.vp.thr e.actor).context ≠ .fresh := by
      intro fresh
      obtain ⟨th, acted, -⟩ := stepped.self
      cases acted with
      | returned _ back =>
        have := back.resumes.2
        exact this fresh
      | _ => simp_all
    obtain ⟨b', op', begun', label', place⟩ := run.inside e.actor (stepped.resumes cause) notFresh
    rw [begun] at begun'
    obtain rfl := Option.some.inj begun'
    rw [label] at label'
    obtain ⟨rfl⟩ := label'
    exact place
  | idle now time =>
    obtain ⟨vp', switch, post, move, inv⟩ := stepped.move
    rw [cause, out] at move
    cases move
  | outside change =>
    obtain ⟨vp', switch, post, move, inv⟩ := stepped.move
    rw [cause, out] at move
    cases move

end StateThreads
