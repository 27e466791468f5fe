import StateThreads.Contract.Cond

/-! Joining over whole runs: who is told how a thread ended, and who is left waiting. -/
namespace StateThreads
open LabelledRun

variable {σ ω : Type}

def Vp.Joins (vp : Vp) (t target : Tid) (c : CondId) : Prop := (vp.thr t).context = .cond c (some target)

/-- A joinable thread whose end nobody has taken note of yet. -/
def Vp.Joinable (vp : Vp) (target : Tid) : Prop :=
  (vp.thr target).term ≠ none ∧ (vp.thr target).context.live = true ∧
    ((vp.thr target).context = .exiting → (vp.thr target).state = .zombie)

/-- A join of a thread that has been joined and has not cleaned up yet, by a thread
without a pending interrupt. -/
def Stale (target : Tid) (e : SysEvent σ ω) : Prop :=
  e.label = .call (.threadJoin target) ∧ (e.pre.vp.thr e.actor).flags.interrupt = false ∧
    (e.pre.vp.thr target).context = .exiting ∧ (e.pre.vp.thr target).state ≠ .zombie

variable {E : EventSys σ ω} {hist older : List (SysEvent σ ω)} {s : System σ} {e : SysEvent σ ω} {c : CondId}
  {t target : Tid}

structure TermInv (vp : Vp) : Prop where
  outside : ∀ t, (vp.thr t).context.live = false → (vp.thr t).term = none
  target : ∀ t target c u, vp.Joins t target c → (vp.thr u).term = some c → u = target

theorem Stepped.term (stepped : Stepped e) (u : Tid) :
    (e.post.vp.thr u).term = (e.pre.vp.thr u).term ∨
      ((e.post.vp.thr u).term = none ∧ (e.post.vp.thr u).context = .gone ∧ u = e.actor ∧
        ((e.pre.vp.thr u).term = none ∨ e.label = .resume ∧ (e.pre.vp.thr u).context = .exiting)) ∨
      ((e.pre.vp.thr u).context = .unborn ∧ (e.post.vp.thr u).context = .fresh ∧
        ∀ c, (e.post.vp.thr u).term = some c → (e.pre.vp.cond c).life = .unborn) := by
  by_cases h : u = e.actor
  · subst h
    obtain ⟨th, acted, picked⟩ := stepped.self
    rw [picked.term, picked.context]
    cases acted with
    | left cause detached => exact .inr (.inl ⟨rfl, rfl, rfl, .inl detached⟩)
    | ended cause place => exact .inr (.inl ⟨rfl, rfl, rfl, .inr ⟨cause, place⟩⟩)
    | _ => exact .inl rfl
  · obtain ⟨th, touched, picked⟩ := stepped.other u h
    rw [picked.term, picked.context]
    cases touched with
    | created cause unborn fresh => exact .inr (.inr ⟨unborn, rfl, fresh⟩)
    | _ => exact .inl rfl

theorem Stepped.dead (stepped : Stepped e) (dead : (e.post.vp.thr t).context.live = false) :
    (e.pre.vp.thr t).context.live = false ∨ (e.post.vp.thr t).term = none := by
  by_cases h : t = e.actor
  · subst h
    obtain ⟨th, acted, picked⟩ := stepped.self
    rw [picked.context] at dead
    rw [picked.term]
    cases acted with
    | left | ended => exact .inr rfl
    | same | cleared | flagged | idled => exact .inl dead
    | parked where_ =>
      generalize e.label = l at where_
      cases where_ <;> cases dead
    | _ => cases dead
  · obtain ⟨th, touched, picked⟩ := stepped.other t h
    rw [picked.context] at dead
    obtain same | ⟨-, fresh⟩ := touched.context
    · exact .inl (same ▸ dead)
    · rw [fresh] at dead
      cases dead

theorem TermInv.step (before : TermInv e.pre.vp) (stepped : Stepped e) : TermInv e.post.vp where
  outside t dead := by
    obtain dead' | none := stepped.dead dead
    · obtain same | ⟨none, -⟩ | ⟨-, fresh, -⟩ := stepped.term t
      · rw [same]; exact before.outside t dead'
      · exact none
      · rw [fresh] at dead; cases dead
    · exact none
  target t target c u joins term := by
    have born : (e.pre.vp.cond c).life = .allocated := by
      obtain held | ⟨-, -, -, parks⟩ := stepped.condPlace joins
      · exact stepped.pre.inv.cond_allocated held
      · generalize e.label = l at parks
        cases parks with
        | join joinable => exact (stepped.pre.inv.objects.terms _ c joinable).1
    have kept : (e.pre.vp.thr u).term = some c := by
      obtain same | ⟨none, -⟩ | ⟨-, -, fresh⟩ := stepped.term u
      · exact same ▸ term
      · rw [none] at term; cases term
      · rw [fresh c term] at born; cases born
    obtain held | ⟨-, -, -, parks⟩ := stepped.condPlace joins
    · exact before.target t target c u held kept
    · generalize e.label = l at parks
      cases parks with
      | join joinable => exact stepped.pre.inv.objects.owners u target c kept joinable

theorem SysRun.termInv (run : SysRun E hist s) : TermInv s.vp := by
  refine run.induct (P := fun _ s => TermInv s.vp) ?_ ?_
  · intro s started
    refine ⟨fun t _ => started.blank.term t, fun t target c u joins => ?_⟩
    have outside := started.blank.place t
    rw [show (s.vp.thr t).context = _ from joins] at outside
    cases outside
  · intro hist e before kept fired
    exact kept.step (SysRun.stepped before fired)

structure JoinInv (vp : Vp) (target : Tid) : Prop where
  term : ∀ t c, vp.Joins t target c → (vp.thr target).term = some c
  alone : ∀ t u c d, vp.Joins t target c → vp.Joins u target d → t = u
  exited : (vp.thr target).context = .exiting → ∀ t c, vp.Joins t target c →
    (vp.thr target).state = .zombie ∧ (vp.thr t).state ≠ .condWait
  woken : ∀ t c, vp.Joins t target c → (vp.thr t).state ≠ .condWait → (vp.thr t).flags.interrupt = false →
    (vp.thr t).flags.timedout = false → (vp.thr target).context = .exiting

theorem TermInv.joins {vp : Vp} {r : Option Tid} (terms : TermInv vp) (conds : CondInv vp) (inv : Inv vp r)
    (term : (vp.thr target).term = some c) (waits : t ∈ (vp.cond c).waitQ) : vp.Joins t target c := by
  obtain ⟨join, place⟩ := inv.waitQ_context waits
  have kind := conds t c join place
  rw [(inv.objects.terms target c term).2] at kind
  obtain ⟨u, rfl⟩ := Option.isSome_iff_exists.mp kind.symm
  obtain rfl := terms.target t u c target place term
  exact place

theorem Stepped.joiner (stepped : Stepped e) (joins : e.post.vp.Joins t target c) :
    e.pre.vp.Joins t target c ∨
      (t = e.actor ∧ (e.post.vp.thr t).state = .condWait ∧ (e.pre.vp.thr t).flags.interrupt = false ∧
        e.label = .call (.threadJoin target) ∧ (e.pre.vp.thr target).term = some c ∧ e.actor ≠ target ∧
        (e.pre.vp.cond c).waitQ = [] ∧ (e.pre.vp.thr target).state ≠ .zombie ∧
        (e.pre.vp.thr target).context.live = true) := by
  obtain held | ⟨actor, state, flag, parks⟩ := stepped.condPlace joins
  · exact .inl held
  · generalize cause : e.label = l at parks
    cases parks with
    | join joinable other alone alive live =>
      exact .inr ⟨actor, state, flag, rfl, joinable, other, alone, alive, live⟩

theorem Stepped.joinState (stepped : Stepped e) (conds : CondInv e.pre.vp) (held : e.pre.vp.Joins t target c)
    (stays : e.post.vp.Joins t target c) :
    ((e.post.vp.thr t).flags = (e.pre.vp.thr t).flags ∧
      ((e.post.vp.thr t).state = .condWait ↔ (e.pre.vp.thr t).state = .condWait)) ∨
    ((e.post.vp.thr t).state ≠ .condWait ∧
      ((e.post.vp.thr t).flags.interrupt = true ∨ (e.post.vp.thr t).flags.timedout = true)) ∨
    ((e.post.vp.thr t).state ≠ .condWait ∧ ∃ r, e.label = .call (.threadExit r) ∧
      (e.pre.vp.thr e.actor).term = some c) ∨
    (t = e.actor ∧ (e.pre.vp.thr t).flags.interrupt = false ∧ (e.pre.vp.thr t).flags.timedout = false ∧
      (e.pre.vp.thr target).state ≠ .zombie) := by
  have waits : ThreadState.condWait ≠ .running ∧ ThreadState.condWait ≠ .runnable := by decide
  unfold Vp.Joins at held stays
  by_cases h : t = e.actor
  · subst h
    obtain ⟨th, acted, picked⟩ := stepped.self
    have called : ∀ op, e.label ≠ .call op := fun op cause => by
      have user := stepped.user op cause
      rw [held] at user
      cases user
    rw [picked.context] at stays
    rw [picked.flags, Ne, picked.state waits]
    cases acted with
    | same => exact .inl ⟨rfl, Iff.rfl⟩
    | cleared cause => exact absurd cause (called _)
    | flagged cause => exact absurd cause (called _)
    | parked where_ =>
      obtain ⟨op, cause, -⟩ := where_.waitsAt
      exact absurd cause (called _)
    | idled cause idle => cases idle.symm.trans held
    | rejoined cause place signalled alive =>
      cases stays
      have quiet : (e.pre.vp.thr e.actor).flags.interrupt = false ∧ (e.pre.vp.thr e.actor).flags.timedout = false := by
        unfold waitResult at signalled
        unfold SysEvent.actor
        split at signalled
        · cases signalled
        · split at signalled
          · cases signalled
          · simp_all
      exact .inr (.inr (.inr ⟨rfl, quiet.1, quiet.2, alive⟩))
    | _ => cases stays
  · obtain ⟨th, touched, picked⟩ := stepped.other t h
    rw [picked.flags, Ne, picked.state waits]
    have ok := stepped.pre.inv.views t
    have fits := ok.fits
    simp only [Vp.view, held] at fits
    cases touched with
    | same => exact .inl ⟨rfl, Iff.rfl⟩
    | flagged cause live awake => exact .inr (.inl ⟨by obtain a | a := awake <;> simp [a], .inl rfl⟩)
    | reaped zombie => simp [zombie, Context.fits] at fits
    | created cause unborn => rw [held] at unborn; cases unborn
    | woken live blocked why =>
      have state : (e.pre.vp.thr t).state = .condWait := by
        cases state : (e.pre.vp.thr t).state <;> simp_all [Context.fits, ThreadState.blocked]
      cases why with
      | interrupt => exact .inr (.inl ⟨by simp, .inl rfl⟩)
      | timer => exact .inr (.inl ⟨by simp, .inr (by simp [Thread.expired, state])⟩)
      | handOver cause place => rw [held] at place; cases place
      | ready cause polls =>
        have place := polls.1
        rw [held] at place
        cases place
      | signal _ place cause =>
        rw [held] at place
        cases place
        obtain ⟨-, kind⟩ | ⟨r, cause, term⟩ := cause
        · rw [conds t c (some target) held] at kind
          cases kind
        · exact .inr (.inr (.inl ⟨by simp, r, cause, term⟩))

theorem Stepped.exit (stepped : Stepped e) {r : Nat} (cause : e.label = .call (.threadExit r))
    (term : (e.pre.vp.thr e.actor).term = some c) :
    (e.post.vp.thr e.actor).context = .exiting ∧ (e.post.vp.thr e.actor).state = .zombie ∧
      ∀ t, t ≠ e.actor → t ∈ (e.pre.vp.cond c).waitQ → (∀ u ∈ (e.pre.vp.cond c).waitQ, u = t) →
        (e.post.vp.thr t).state ≠ .condWait := by
  obtain ⟨vp', switch, post, move, inv⟩ := stepped.move
  rw [cause] at move
  generalize e.out = out at move
  unfold SysEvent.actor at term ⊢
  cases move with
  | interrupted blocks => cases blocks
  | exits detached => rw [term] at detached; cases detached
  | @dies _ d _ joinable roused =>
    rw [term] at joinable
    obtain rfl := Option.some.inj joinable
    have zombie : ((e.pre.vp.dying r).thr e.pre.vp.current).state.blocked = false := by
      simp [Vp.dying, ThreadState.blocked]
    have self : vp'.thr e.pre.vp.current = (e.pre.vp.dying r).thr e.pre.vp.current := roused.current_same zombie
    have picked := Vp.after_picked inv
    rw [post]
    refine ⟨?_, ?_, fun t other waits alone => ?_⟩
    · rw [(picked _).context, self]; simp [Vp.dying]
    · rw [(picked _).state (by simp), self]; simp [Vp.dying]
    · rw [Ne, (picked t).state (by simp), roused.thr]
      split
      · simp
      · rename_i missed
        intro state
        have same : (e.pre.vp.dying r).thr t = e.pre.vp.thr t := by simp [Vp.dying, other]
        -- the only waiter is the first one the signal looks at
        have only : (e.pre.vp.cond c).waitQ = [t] := by
          obtain ⟨u, rest, split⟩ := List.exists_cons_of_ne_nil (List.ne_nil_of_mem waits)
          have distinct := stepped.pre.inv.waitQ_nodup c
          rw [split] at alone distinct ⊢
          obtain rfl := alone u (List.mem_cons_self ..)
          cases rest with
          | nil => rfl
          | cons v rest =>
            obtain rfl := alone v (by simp)
            simp at distinct
        exact missed (by simp [only, signalled, state])

theorem Stepped.exiting (stepped : Stepped e) (after : (e.post.vp.thr target).context = .exiting) :
    (e.pre.vp.thr target).context = .exiting ∨
      target = e.actor ∧ ∃ r c, e.label = .call (.threadExit r) ∧ (e.pre.vp.thr target).term = some c := by
  by_cases h : target = e.actor
  · subst h
    obtain ⟨th, acted, picked⟩ := stepped.self
    rw [picked.context] at after
    cases acted with
    | same | cleared | flagged | idled => exact .inl after
    | died cause joinable => exact .inr ⟨rfl, _, _, cause, joinable⟩
    | parked where_ =>
      simp only at after
      subst after
      generalize e.label = l at where_
      cases where_
    | _ => cases after
  · obtain ⟨th, touched, picked⟩ := stepped.other target h
    rw [picked.context] at after
    obtain same | ⟨-, fresh⟩ := touched.context
    · exact .inl (same ▸ after)
    · rw [fresh] at after; cases after

theorem Stepped.exiting_stays (stepped : Stepped e) (before : (e.pre.vp.thr target).context = .exiting)
    (away : target ≠ e.actor) : (e.post.vp.thr target).context = .exiting := by
  obtain ⟨th, touched, picked⟩ := stepped.other target away
  rw [picked.context]
  obtain same | ⟨unborn, -⟩ := touched.context
  · exact same.trans before
  · rw [before] at unborn; cases unborn

section
variable (before : JoinInv e.pre.vp target) (stepped : Stepped e)
include before stepped

theorem JoinInv.term_step (terms : TermInv e.pre.vp) {t : Tid} {c : CondId} (joins : e.post.vp.Joins t target c) :
    (e.post.vp.thr target).term = some c := by
  obtain held | ⟨-, -, -, -, joinable, other, -, -, live⟩ := stepped.joiner joins
  · have known := before.term t c held
    obtain same | ⟨-, -, actor, none | ⟨-, place⟩⟩ | ⟨unborn, -⟩ := stepped.term target
    · exact same.trans known
    · rw [known] at none; cases none
    · -- it would clean up while t waits
      exact absurd actor (stepped.zombie_away (before.exited place t c held).1)
    · have none := terms.outside target (by rw [unborn]; rfl)
      rw [known] at none; cases none
  · obtain same | ⟨-, -, actor, -⟩ | ⟨unborn, -⟩ := stepped.term target
    · exact same.trans joinable
    · exact absurd actor.symm other
    · rw [unborn] at live; cases live

theorem JoinInv.alone_step {t u : Tid} {c d : CondId} (joins : e.post.vp.Joins t target c)
    (joins' : e.post.vp.Joins u target d) : t = u := by
  have fresh : ∀ {v d}, e.pre.vp.Joins v target d → (e.pre.vp.thr target).term = some c →
      (e.pre.vp.cond c).waitQ = [] → False := by
    intro v d held joinable empty
    have same := (before.term v d held).symm.trans joinable
    obtain rfl := Option.some.inj same
    have waits := stepped.pre.inv.cond_mem held
    rw [empty] at waits
    cases waits
  obtain held | ⟨rfl, -, -, -, joinable, -, empty, -⟩ := stepped.joiner joins
  · obtain held' | ⟨rfl, -, -, -, joinable, -, empty, -⟩ := stepped.joiner joins'
    · exact before.alone t u c d held held'
    · have known := before.term t c held
      rw [known] at joinable
      obtain rfl := Option.some.inj joinable
      exact (fresh held known empty).elim
  · obtain held' | ⟨rfl, -⟩ := stepped.joiner joins'
    · exact (fresh held' joinable empty).elim
    · rfl

theorem JoinInv.zombie_step {t : Tid} {c : CondId} (exiting : (e.pre.vp.thr target).context = .exiting)
    (held : e.pre.vp.Joins t target c) (joins : e.post.vp.Joins t target c) : (e.post.vp.thr target).state = .zombie := by
  have zombie := (before.exited exiting t c held).1
  obtain ⟨th, touched, picked⟩ := stepped.other target (stepped.zombie_away zombie)
  rw [picked.state (by simp)]
  cases touched with
  | same => exact zombie
  | woken live blocked => rw [zombie] at blocked; cases blocked
  | flagged cause live awake => exact zombie
  | created cause unborn => rw [exiting] at unborn; cases unborn
  | reaped _ live cause =>
    exfalso
    obtain ⟨cause, d, term, empty⟩ | ⟨cause, d, place, signalled⟩ := cause
    · have known := before.term t c held
      rw [known] at term
      obtain rfl := Option.some.inj term
      have waits := stepped.pre.inv.cond_mem held
      rw [empty] at waits
      cases waits
    · -- the joiner itself took note, so it is out of the call
      obtain rfl := before.alone t e.actor c d held place
      obtain ⟨th', acted, picked'⟩ := stepped.self
      unfold Vp.Joins at joins
      rw [picked'.context] at joins
      cases acted with
      | rejoined _ _ _ alive =>
        cases joins
        exact alive zombie
      | same _ _ call => exact call cause
      | parked where_ =>
        obtain ⟨op, call, -⟩ := where_.waitsAt
        rw [cause] at call; cases call
      | _ => first | cases joins | simp_all

theorem JoinInv.exited_step (terms : TermInv e.pre.vp) (conds : CondInv e.pre.vp) (fresh : ¬ Stale target e)
    (after : (e.post.vp.thr target).context = .exiting) {t : Tid} {c : CondId} (joins : e.post.vp.Joins t target c) :
    (e.post.vp.thr target).state = .zombie ∧ (e.post.vp.thr t).state ≠ .condWait := by
  obtain exiting | ⟨actor, r, d, cause, term⟩ := stepped.exiting after
  · obtain held | ⟨rfl, -, flag, cause, -, -, -, alive, -⟩ := stepped.joiner joins
    · obtain ⟨zombie, state⟩ := before.exited exiting t c held
      refine ⟨before.zombie_step stepped exiting held joins, ?_⟩
      obtain ⟨-, same⟩ | ⟨awake, -⟩ | ⟨awake, -⟩ | ⟨-, -, -, alive⟩ := stepped.joinState conds held joins
      · exact fun h => state (same.mp h)
      · exact awake
      · exact awake
      · exact absurd zombie alive
    · exact absurd ⟨cause, flag, exiting, alive⟩ fresh
  · subst actor
    obtain ⟨-, zombie, signals⟩ := stepped.exit cause term
    refine ⟨zombie, ?_⟩
    obtain held | ⟨rfl, -, -, call, -⟩ := stepped.joiner joins
    · have known := before.term t c held
      rw [known] at term
      obtain rfl := Option.some.inj term
      have other : t ≠ e.actor := by
        rintro rfl
        have user := stepped.user _ cause
        cases user.symm.trans held
      refine signals t other (stepped.pre.inv.cond_mem held) fun u waits => ?_
      exact before.alone u t c c (terms.joins conds stepped.pre.inv known waits) held
    · rw [cause] at call; cases call

theorem JoinInv.woken_step (terms : TermInv e.pre.vp) (conds : CondInv e.pre.vp) {t : Tid} {c : CondId}
    (joins : e.post.vp.Joins t target c) (awake : (e.post.vp.thr t).state ≠ .condWait)
    (flag : (e.post.vp.thr t).flags.interrupt = false) (late : (e.post.vp.thr t).flags.timedout = false) :
    (e.post.vp.thr target).context = .exiting := by
  obtain held | ⟨-, state, -⟩ := stepped.joiner joins
  · have stays : ∀ {u}, (e.pre.vp.thr target).context = .exiting → e.pre.vp.Joins u target c →
        (e.post.vp.thr target).context = .exiting := fun {u} exiting held =>
      stepped.exiting_stays exiting (stepped.zombie_away (before.exited exiting u c held).1)
    obtain ⟨flags, same⟩ | ⟨-, set | set⟩ | ⟨-, r, cause, term⟩ | ⟨rfl, quiet, onTime, -⟩ :=
      stepped.joinState conds held joins
    · rw [flags] at flag late
      exact stays (before.woken t c held (fun h => awake (same.mpr h)) flag late) held
    · rw [flag] at set; cases set
    · rw [late] at set; cases set
    · obtain rfl := terms.target t target c e.actor held term
      exact (stepped.exit cause term).1
    · have running : (e.pre.vp.thr e.actor).state ≠ .condWait := by
        rw [stepped.actor_running]
        decide
      exact stays (before.woken _ c held running quiet onTime) held
  · exact absurd state awake

theorem JoinInv.step (terms : TermInv e.pre.vp) (conds : CondInv e.pre.vp) (fresh : ¬ Stale target e) :
    JoinInv e.post.vp target where
  term _ _ joins := before.term_step stepped terms joins
  alone _ _ _ _ joins joins' := before.alone_step stepped joins joins'
  exited after _ _ joins := before.exited_step stepped terms conds fresh after joins
  woken _ _ joins awake flag late := before.woken_step stepped terms conds joins awake flag late

end

theorem SysRun.joinInv (run : SysRun E hist s) (fresh : ∀ e ∈ hist, ¬ Stale target e) : JoinInv s.vp target := by
  refine run.induct (P := fun hist s => (∀ e ∈ hist, ¬ Stale target e) → JoinInv s.vp target) ?_ ?_ fresh
  · intro s started _
    have none : ∀ t c, ¬ s.vp.Joins t target c := fun t c joins => by
      have outside := started.blank.place t
      rw [show (s.vp.thr t).context = _ from joins] at outside
      cases outside
    exact ⟨fun t c h => absurd h (none t c), fun t _ c _ h => absurd h (none t c), fun _ t c h => absurd h (none t c),
      fun t c h => absurd h (none t c)⟩
  · intro hist e before kept fired fresh
    exact (kept fun n hn => fresh n (List.mem_cons_of_mem _ hn)).step (SysRun.stepped before fired)
      (SysRun.termInv before) (SysRun.condInv before) (fresh e (List.mem_cons_self ..))

/- The exit value. -/

theorem Stepped.exitValue (stepped : Stepped e) (after : (e.post.vp.thr target).context = .exiting) :
    ((e.pre.vp.thr target).context = .exiting ∧ (e.post.vp.thr target).retval = (e.pre.vp.thr target).retval) ∨
      e.actor = target ∧ e.label = .call (.threadExit (e.post.vp.thr target).retval) := by
  by_cases h : target = e.actor
  · subst h
    obtain ⟨th, acted, picked⟩ := stepped.self
    rw [picked.context] at after
    rw [picked.retval]
    cases acted with
    | same | cleared | flagged | idled => exact .inl ⟨after, rfl⟩
    | died cause => exact .inr ⟨rfl, cause⟩
    | parked where_ =>
      simp only at after
      subst after
      generalize e.label = l at where_
      cases where_
    | _ => cases after
  · obtain ⟨th, touched, picked⟩ := stepped.other target h
    rw [picked.context] at after
    rw [picked.retval]
    cases touched with
    | created => cases after
    | _ => exact .inl ⟨after, rfl⟩

theorem SysRun.exitValue (run : SysRun E hist s) (exiting : (s.vp.thr target).context = .exiting) :
    ∃ x ∈ hist, SysEvent.actor x = target ∧ x.label = .call (.threadExit (s.vp.thr target).retval) := by
  refine run.induct (P := fun hist s => (s.vp.thr target).context = .exiting →
    ∃ x ∈ hist, SysEvent.actor x = target ∧ x.label = .call (.threadExit (s.vp.thr target).retval)) ?_ ?_ exiting
  · intro s started exiting
    have outside := started.blank.place target
    rw [exiting] at outside
    cases outside
  · intro hist e before kept fired exiting
    obtain ⟨earlier, same⟩ | ⟨actor, cause⟩ := (SysRun.stepped before fired).exitValue exiting
    · obtain ⟨x, member, actor, cause⟩ := kept earlier
      exact ⟨x, List.mem_cons_of_mem _ member, actor, by rw [same]; exact cause⟩
    · exact ⟨e, List.mem_cons_self .., actor, cause⟩

/-- The end of target has been taken note of. -/
def Vp.Spent (vp : Vp) (target : Tid) : Prop :=
  (vp.thr target).context = .gone ∨ (vp.thr target).context = .exiting ∧ (vp.thr target).state ≠ .zombie

theorem Stepped.spent (stepped : Stepped e) (spent : e.pre.vp.Spent target) : e.post.vp.Spent target := by
  by_cases h : target = e.actor
  · subst h
    obtain gone | ⟨exiting, state⟩ := spent
    · have live := stepped.pre.inv.running.1
      rw [show (e.pre.vp.thr e.pre.vp.current).context = _ from gone] at live
      cases live
    · obtain ⟨th, picked, rfl | gone⟩ := stepped.exiting_acts exiting
      · unfold Vp.Spent
        rw [picked.context, Ne, picked.state (by simp)]
        exact .inr ⟨exiting, state⟩
      · exact .inl (picked.context.trans gone)
  · obtain ⟨th, touched, picked⟩ := stepped.other target h
    unfold Vp.Spent
    rw [picked.context, Ne, picked.state (by simp)]
    cases touched with
    | same => exact spent
    | flagged => exact spent
    | created cause unborn => obtain gone | ⟨exiting, -⟩ := spent <;> simp_all
    | woken live blocked => exact spent.imp id fun h => ⟨h.1, by simp⟩
    | reaped zombie => exact spent.imp id fun h => ⟨h.1, by simp⟩

theorem SysRun.completes_join (run : SysRun E older e.pre) (fired : e.Fired (machine E)) {r : Nat}
    {b : SysEvent σ ω} (done : Completes older e (.threadJoin target) (.joined r) b) :
    (e.pre.vp.thr target).context = .exiting ∧ (e.pre.vp.thr target).state = .zombie ∧
      r = (e.pre.vp.thr target).retval ∧ e.post.vp.Spent target := by
  have stepped := SysRun.stepped run fired
  have zombies : ∀ u, (e.pre.vp.thr u).context.live = true → (e.pre.vp.thr u).state = .zombie →
      (e.pre.vp.thr u).context = .exiting := by
    intro u live zombie
    have fits := (stepped.pre.inv.views u).fits
    simp only [Vp.view, zombie] at fits
    cases place : (e.pre.vp.thr u).context <;> simp_all [Context.fits]
  obtain ⟨vp', switch, post, move, -⟩ := stepped.move
  generalize result : e.out = out at move
  rw [done.out] at result
  obtain ⟨cause, -⟩ | ⟨cause, place, -⟩ := done.cases run fired
  · rw [cause] at move
    cases move with
    | joins joinable other alone zombie live =>
      have exiting := zombies _ live zombie
      refine ⟨exiting, zombie, by simpa using result, .inr ?_⟩
      rw [post]
      simp [Vp.after, Vp.reaped, exiting]
    | _ => simp at result
  · rw [cause] at move
    cases move with
    | @joined cvar thread at_c signalled zombie live =>
      rw [show (e.pre.vp.thr e.actor).context = _ from at_c] at place
      obtain rfl : target = thread := by simpa [Op.waitsAt] using place
      have other : target ≠ e.pre.vp.current := by
        rintro rfl
        rw [stepped.pre.inv.running.2] at zombie
        cases zombie
      have exiting := zombies _ live zombie
      refine ⟨exiting, zombie, by simpa using result, .inr ?_⟩
      rw [post]
      simp [Vp.after, Vp.reaped, Vp.back, Vp.unlinkCond, Vp.setThr, Vp.setCond, other, exiting]
    | waited => unfold waitResult at result; split at result <;> (try split at result) <;> simp at result
    | joinFailed => unfold waitResult at result; split at result <;> (try split at result) <;> simp at result
    | slept => split at result <;> simp at result
    | polled => split at result <;> simp at result
    | locked => split at result <;> simp at result
    | _ => simp at result

theorem SysRun.completes_join_failed (run : SysRun E older e.pre) (fired : e.Fired (machine E)) {error : Errno}
    {b : SysEvent σ ω} (done : Completes older e (.threadJoin target) (.fail error) b)
    (joinable : e.pre.vp.Joinable target) :
    e.post.vp.Joinable target ∧ (e.post.vp.thr target).retval = (e.pre.vp.thr target).retval ∧
      ∀ c, e.actor ∉ (e.post.vp.cond c).waitQ := by
  have stepped := SysRun.stepped run fired
  have off : (e.post.vp.thr e.actor).context = .user → ∀ c, e.actor ∉ (e.post.vp.cond c).waitQ := by
    intro user c waits
    obtain ⟨join, place⟩ := stepped.post.inv.waitQ_context waits
    rw [user] at place
    cases place
  obtain ⟨term, live, zombie⟩ := joinable
  unfold Vp.Joinable
  unfold SysEvent.actor at off ⊢
  obtain ⟨vp', switch, post, move, -⟩ := stepped.move
  generalize result : e.out = out at move
  rw [done.out] at result
  obtain ⟨cause, -⟩ | ⟨cause, place, -⟩ := done.cases run fired
  · have user : (e.pre.vp.thr e.pre.vp.current).context = .user := stepped.user _ cause
    rw [cause] at move
    rw [post] at off ⊢
    cases move with
    | interrupted blocks flag =>
      refine ⟨?_, ?_, off (by simpa [Vp.after, Vp.setInterrupt, Vp.setThr] using user)⟩ <;>
        by_cases h : target = e.pre.vp.current
      · subst h
        simpa [Vp.after, Vp.setInterrupt, Vp.setThr] using ⟨term, live, zombie⟩
      · simpa [Vp.after, Vp.setInterrupt, Vp.setThr, h] using ⟨term, live, zombie⟩
      · subst h
        simp [Vp.after, Vp.setInterrupt, Vp.setThr]
      · simp [Vp.after, Vp.setInterrupt, Vp.setThr, h]
    | joinRejected => exact ⟨⟨term, live, zombie⟩, rfl, off user⟩
    | _ => simp at result
  · unfold SysEvent.actor at place
    rw [cause] at move
    rw [post] at off ⊢
    cases move with
    | joinFailed at_c failed =>
      refine ⟨?_, ?_, off (by simp [Vp.after, Vp.back, Vp.setThr, Vp.unlinkCond, Vp.setCond])⟩ <;>
        by_cases h : target = e.pre.vp.current
      · subst h
        simpa [Vp.after, Vp.back, Vp.setThr, Vp.unlinkCond, Vp.setCond, Context.live] using term
      · simpa [Vp.after, Vp.back, Vp.setThr, Vp.unlinkCond, Vp.setCond, h] using ⟨term, live, zombie⟩
      · subst h
        simp [Vp.after, Vp.back, Vp.setThr, Vp.unlinkCond, Vp.setCond]
      · simp [Vp.after, Vp.back, Vp.setThr, Vp.unlinkCond, Vp.setCond, h]
    | joined => simp at result
    | _ => simp_all [Op.waitsAt]

theorem Stepped.cleanUp (stepped : Stepped e) (joins : JoinInv e.pre.vp target) (terms : TermInv e.pre.vp)
    (conds : CondInv e.pre.vp) (actor : e.actor = target) (cause : e.label = .resume)
    (exiting : (e.pre.vp.thr target).context = .exiting) (term : (e.pre.vp.thr target).term = some c) :
    (e.pre.vp.cond c).waitQ = [] ∧ (e.post.vp.cond c).life = .freed := by
  subst actor
  have empty : (e.pre.vp.cond c).waitQ = [] := by
    rw [List.eq_nil_iff_forall_not_mem]
    intro t waits
    have held := terms.joins conds stepped.pre.inv term waits
    exact stepped.zombie_away (joins.exited exiting t c held).1 rfl
  refine ⟨empty, ?_⟩
  unfold SysEvent.actor at exiting term
  obtain ⟨vp', switch, post, move, -⟩ := stepped.move
  rw [post, Vp.after_cond]
  rw [cause] at move
  generalize e.out = out at move
  cases move with
  | cleansUp place joinable =>
    rw [term] at joinable
    obtain rfl := Option.some.inj joinable
    simp [Vp.finished, Vp.setThr, stCondDestroy, empty, Vp.setCond]
  | _ => simp_all

structure JoinSafe (target : Tid) (hist : List (SysEvent σ ω)) (s : System σ) : Prop where
  once : ∀ e' between e older r r' b b', (e' :: (between ++ e :: older)) <:+ hist →
    Completes older e (.threadJoin target) (.joined r) b →
    ¬ Completes (between ++ e :: older) e' (.threadJoin target) (.joined r') b'
  delivers : ∀ e older r b, (e :: older) <:+ hist → Completes older e (.threadJoin target) (.joined r) b →
    ∃ x ∈ older, SysEvent.actor x = target ∧ x.label = .call (.threadExit r)
  fails : ∀ e older r b, (e :: older) <:+ hist → Completes older e (.threadJoin target) r b →
    (∃ v, r = .joined v) ∨ ∃ error, r = .fail error
  harmless : ∀ e older error b, (e :: older) <:+ hist → Completes older e (.threadJoin target) (.fail error) b →
    e.pre.vp.Joinable target → e.post.vp.Joinable target ∧
      (e.post.vp.thr target).retval = (e.pre.vp.thr target).retval ∧ ∀ c, e.actor ∉ (e.post.vp.cond c).waitQ
  cleanUp : ∀ e ∈ hist, ∀ c, SysEvent.actor e = target → e.label = .resume →
    (e.pre.vp.thr target).context = .exiting → (e.pre.vp.thr target).term = some c →
    (e.pre.vp.cond c).waitQ = [] ∧ (e.post.vp.cond c).life = .freed
  released : (s.vp.thr target).context = .gone → ∀ t c, ¬ s.vp.Joins t target c

theorem SysRun.join_results (run : SysRun E older e.pre) (fired : e.Fired (machine E)) {r : Ret}
    {b : SysEvent σ ω} (done : Completes older e (.threadJoin target) r b) :
    (∃ v, r = .joined v) ∨ ∃ error, r = .fail error := by
  obtain ⟨vp', switch, post, move, -⟩ := (SysRun.stepped run fired).move
  generalize result : e.out = out at move
  rw [done.out] at result
  obtain ⟨cause, -⟩ | ⟨cause, place, -⟩ := done.cases run fired
  · rw [cause] at move
    cases move <;> simp_all
  · rw [cause] at move
    unfold SysEvent.actor at place
    cases move with
    | joinFailed at_c failed =>
      unfold waitResult at result failed
      split at result
      · simp_all
      · split at result <;> simp_all
    | _ => simp_all [Op.waitsAt]

/-- Joining is exclusive and strands nobody in a run in which nobody without a pending
interrupt joins target between its join and its clean-up. -/
theorem join_safety (E : EventSys σ ω) (target : Tid) (hist : List (SysEvent σ ω)) (s : System σ)
    (run : SysRun E hist s) (fresh : ∀ e ∈ hist, ¬ Stale target e) : JoinSafe target hist s where
  once e' between e older r r' b b' past done done' := by
    obtain ⟨before', fired'⟩ := SysRun.before run past
    obtain ⟨before, fired, -⟩ := Run.split before'
    obtain ⟨-, -, -, spent⟩ := SysRun.completes_join before fired done
    have still : e'.pre.vp.Spent target := by
      refine Run.carry (P := fun s => s.vp.Spent target) before' spent ?_
      intro n _ hist run spent fired
      exact (SysRun.stepped run fired).spent spent
    obtain ⟨exiting, zombie, -⟩ := SysRun.completes_join before' fired' done'
    obtain gone | ⟨-, awake⟩ := still
    · rw [exiting] at gone; cases gone
    · exact awake zombie
  delivers e older r b past done := by
    obtain ⟨before, fired⟩ := SysRun.before run past
    obtain ⟨exiting, -, rfl, -⟩ := SysRun.completes_join before fired done
    exact SysRun.exitValue before exiting
  fails e older r b past done := by
    obtain ⟨before, fired⟩ := SysRun.before run past
    exact SysRun.join_results before fired done
  harmless e older error b past done joinable := by
    obtain ⟨before, fired⟩ := SysRun.before run past
    exact SysRun.completes_join_failed before fired done joinable
  cleanUp e member c actor cause exiting term := by
    obtain ⟨newer, older, rfl⟩ := List.append_of_mem member
    obtain ⟨before, fired, -⟩ := Run.split run
    have inv := SysRun.joinInv before fun n hn => fresh n (by simp [hn])
    exact (SysRun.stepped before fired).cleanUp inv (SysRun.termInv before) (SysRun.condInv before) actor cause exiting term
  released gone t c joins := by
    have term := (run.joinInv fresh).term t c joins
    rw [run.termInv.outside target (by rw [gone]; rfl)] at term
    cases term

def joinsLate (target : Tid) (e : SysEvent σ ω) : Bool :=
  match e.label with
  | .call (.threadJoin _) => (e.pre.vp.thr target).context = .exiting && (e.pre.vp.thr target).state ≠ .zombie
  | _ => false

/-- Thread 3 joins thread 2 and is interrupted; thread 4 joins it after its exit and is
given the value 7. -/
theorem join_safety_second_joiner :
    ∃ hist s, SysRun (Poll.eventSys Poll.silent) hist s ∧ (∀ e ∈ hist, ¬ Stale 2 e) ∧
      ((s.vp.thr 2).context = .gone ∧ (s.vp.cond 0).life = .freed ∧
        (hist.map (·.out)).take 12 = [none, none, some (.joined 7), some (.value 0), none, none, some (.value 0), none,
          some (.value 0), none, none, some (.fail .eintr)]) ∧ JoinSafe 2 hist s := by
  obtain ⟨hist, s, run, seen⟩ := Run.found (M := machine (Poll.eventSys Poll.silent))
    [.call (.threadCreate (some 2) true (some 0)), .call (.threadCreate (some 3) false none),
      .call (.threadCreate (some 4) false none), .call (.usleep 500), .resume, .call (.usleep 5000), .resume,
      .call (.threadJoin 2), .resume, .call (.threadInterrupt 3), .call (.usleep 9000), .resume, .call (.usleep 90000),
      .idle 6000 0, .resume, .call (.usleep 90000), .resume, .call (.threadExit 7), .idle 10000 0, .resume,
      .call (.threadJoin 2), .call (.usleep 90000), .resume]
    Poll.started_ok
    (p := fun hist s => decide ((s.vp.thr 2).context = .gone ∧ (s.vp.cond 0).life = .freed ∧
        (hist.map (·.out)).take 12 = [none, none, some (.joined 7), some (.value 0), none, none, some (.value 0), none,
          some (.value 0), none, none, some (.fail .eintr)]) &&
      hist.all fun e => !joinsLate 2 e)
    (by decide +kernel)
  obtain ⟨results, quiet⟩ := Bool.and_eq_true _ _ ▸ seen
  have fresh : ∀ e ∈ hist, ¬ Stale 2 e := by
    rintro e member ⟨cause, -, exiting, awake⟩
    have none := List.all_eq_true.mp quiet e member
    simp [joinsLate, cause, exiting, awake] at none
  exact ⟨hist, s, run, fresh, of_decide_eq_true results, join_safety _ 2 hist s run fresh⟩

/-- Thread 3 joins thread 2, which has exited; before thread 2 runs again thread 4 joins
it too, passes every guard and blocks. Thread 2 cleans up and is gone, its variable is
not freed, and thread 4 waits on it. -/
theorem late_joiner_stranded :
    ∃ hist s, SysRun (Poll.eventSys Poll.silent) hist s ∧ (s.vp.thr 2).context = .gone ∧
      (s.vp.cond 0).life = .allocated ∧ s.vp.Joins 4 2 0 ∧ (s.vp.thr 4).state = .condWait ∧
      ¬ JoinSafe 2 hist s := by
  obtain ⟨hist, s, run, seen⟩ := Run.found (M := machine (Poll.eventSys Poll.silent))
    [.call (.threadCreate (some 2) true (some 0)), .call (.threadCreate (some 3) false none),
      .call (.threadCreate (some 4) false none), .call (.usleep 500), .resume, .call (.threadExit 7), .resume,
      .call (.threadJoin 2), .call (.usleep 9000), .resume, .call (.threadJoin 2), .resume]
    Poll.started_ok
    (p := fun _ s => decide ((s.vp.thr 2).context = .gone ∧ (s.vp.cond 0).life = .allocated ∧
      (s.vp.thr 4).context = .cond 0 (some 2) ∧ (s.vp.thr 4).state = .condWait))
    (by decide +kernel)
  obtain ⟨gone, leaked, joins, blocked⟩ := of_decide_eq_true seen
  exact ⟨hist, s, run, gone, leaked, joins, blocked, fun safe => safe.released gone 4 0 joins⟩

end StateThreads
