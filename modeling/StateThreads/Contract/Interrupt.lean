import StateThreads.Contract.Mutex

/-! Interrupts over whole runs: when the flag is set, which call reports it, and that
none is lost. -/
namespace StateThreads
open LabelledRun

variable {σ ω : Type}

def Vp.interrupt (vp : Vp) (t : Tid) : Bool := (vp.thr t).flags.interrupt

def SysEvent.Eintr (e : SysEvent σ ω) (t : Tid) : Prop := e.actor = t ∧ e.out = some (.fail .eintr)

/-- st_thread_interrupt was called on t since the last call of t that returned EINTR. -/
def Pending (hist : List (SysEvent σ ω)) (t : Tid) : Prop :=
  ∃ newer e older, hist = newer ++ e :: older ∧ e.label = .call (.threadInterrupt t) ∧
    ∀ n ∈ newer, ¬ SysEvent.Eintr n t

/-- The primitives that test the flag; st_thread_join waits by st_cond_timedwait. -/
def Op.primitive : Op → Bool
  | .usleep _ | .poll _ _ | .condTimedwait _ _ | .mutexLock _ => true
  | _ => false

variable {E : EventSys σ ω} {hist older : List (SysEvent σ ω)} {s : System σ} {e : SysEvent σ ω} {t : Tid}

theorem Pending.nil : ¬ Pending ([] : List (SysEvent σ ω)) t := by
  rintro ⟨newer, e, older, split, -⟩
  simp at split

theorem Pending.cons : Pending (e :: hist) t ↔
    e.label = .call (.threadInterrupt t) ∨ ¬ e.Eintr t ∧ Pending hist t := by
  constructor
  · rintro ⟨newer, e', older, split, cause, quiet⟩
    cases newer with
    | nil =>
      obtain ⟨rfl, rfl⟩ := List.cons.inj split
      exact .inl cause
    | cons n newer =>
      obtain ⟨rfl, rfl⟩ := List.cons.inj split
      refine .inr ⟨quiet _ (List.mem_cons_self ..), newer, e', older, rfl, cause, fun n hn => ?_⟩
      exact quiet n (List.mem_cons_of_mem _ hn)
  · rintro (cause | ⟨quiet, newer, e', older, rfl, cause, rest⟩)
    · exact ⟨[], e, hist, rfl, cause, by simp⟩
    · refine ⟨e :: newer, e', older, rfl, cause, fun n hn => ?_⟩
      obtain rfl | hn := List.mem_cons.mp hn
      · exact quiet
      · exact rest n hn

theorem Stepped.interrupts (stepped : Stepped e) (cause : e.label = .call (.threadInterrupt t)) :
    e.out = some (.value 0) ∧
      (((e.pre.vp.thr t).state = .zombie ∧ e.post.vp = e.pre.vp) ∨
      (((e.pre.vp.thr t).state = .running ∨ (e.pre.vp.thr t).state = .runnable) ∧
        e.post.vp = e.pre.vp.setInterrupt t true) ∨
      ((e.pre.vp.thr t).state.blocked = true ∧ ∃ q, e.pre.vp.sleepQ.Without t q ∧
        e.post.vp = e.pre.vp.woken t q { (e.pre.vp.thr t).flags with interrupt := true })) := by
  obtain ⟨vp', switch, post, move, -⟩ := stepped.move
  rw [cause] at move
  rw [post]
  generalize result : e.out = out at move
  cases move with
  | interrupted blocks flag => cases blocks
  | interruptsZombie zombie => exact ⟨rfl, .inl ⟨zombie, rfl⟩⟩
  | interruptsAwake live awake => exact ⟨rfl, .inr (.inl ⟨awake, rfl⟩)⟩
  | interruptsBlocked live blocked without => exact ⟨rfl, .inr (.inr ⟨blocked, _, without, rfl⟩)⟩

theorem waitResult_eintr {flags : Flags} : waitResult flags = .fail .eintr ↔ flags.interrupt = true := by
  unfold waitResult
  split
  · simp_all
  · split <;> simp_all

theorem Returns.flag {vp : Vp} {context : Context} {flags : Flags} {out : Option Ret}
    (returns : Returns vp context flags out) :
    (out = some (.fail .eintr) ∧ (vp.thr vp.current).flags.interrupt = true ∧ flags.interrupt = false) ∨
      (out ≠ some (.fail .eintr) ∧ flags.interrupt = (vp.thr vp.current).flags.interrupt ∧
        ((vp.thr vp.current).flags.interrupt = true →
          ∃ m, context = .lock m ∧ (vp.mutex m).owner = some vp.current ∧ out = some (.value 0))) := by
  cases returns with
  | usleep => cases flag : (vp.thr vp.current).flags.interrupt <;> simp
  | poll => cases flag : (vp.thr vp.current).flags.interrupt <;> simp
  | cond =>
    cases flag : (vp.thr vp.current).flags.interrupt with
    | true => exact .inl ⟨by rw [waitResult_eintr.mpr flag], rfl, rfl⟩
    | false => exact .inr ⟨by simp [waitResult_eintr, flag], rfl, by simp⟩
  | joinFailed failed =>
    cases flag : (vp.thr vp.current).flags.interrupt with
    | true => exact .inl ⟨by rw [waitResult_eintr.mpr flag], rfl, rfl⟩
    | false => exact .inr ⟨by simp [waitResult_eintr, flag], rfl, by simp⟩
  | joined signalled zombie live =>
    have flag : (vp.thr vp.current).flags.interrupt = false := by
      cases flag : (vp.thr vp.current).flags.interrupt with
      | true => rw [waitResult_eintr.mpr flag] at signalled; cases signalled
      | false => rfl
    exact .inr ⟨by simp, by simp [Flags.read, flag], by simp [flag]⟩
  | @lock m =>
    by_cases lost : (vp.thr vp.current).flags.interrupt = true ∧ (vp.mutex m).owner ≠ some vp.current
    · exact .inl ⟨by rw [if_pos lost], lost.1, by simp [Vp.lockFlags, lost]⟩
    · refine .inr ⟨by rw [if_neg lost]; simp, by rw [vp.lockFlags_kept lost], fun flag => ⟨m, rfl, ?_, ?_⟩⟩
      · by_contra other
        exact lost ⟨flag, other⟩
      · rw [if_neg lost]

theorem Stepped.flag (stepped : Stepped e) (live : (e.post.vp.thr t).context.live = true)
    (before : (e.pre.vp.thr t).context ≠ .unborn) :
    (e.Eintr t ∧ e.pre.vp.interrupt t = true ∧ e.post.vp.interrupt t = false) ∨
    (¬ e.Eintr t ∧ e.label = .call (.threadInterrupt t) ∧
      ((e.pre.vp.thr t).state = .zombie ∨ e.post.vp.interrupt t = true)) ∨
    (¬ e.Eintr t ∧ e.label ≠ .call (.threadInterrupt t) ∧ e.post.vp.interrupt t = e.pre.vp.interrupt t) := by
  by_cases cause : e.label = .call (.threadInterrupt t)
  · obtain ⟨out, zombie | awake | blocked⟩ := stepped.interrupts cause
    · exact .inr (.inl ⟨by simp [SysEvent.Eintr, out], cause, .inl zombie.1⟩)
    · refine .inr (.inl ⟨by simp [SysEvent.Eintr, out], cause, .inr ?_⟩)
      rw [awake.2]
      simp [Vp.interrupt, Vp.setInterrupt, Vp.setThr]
    · obtain ⟨-, q, -, post⟩ := blocked
      refine .inr (.inl ⟨by simp [SysEvent.Eintr, out], cause, .inr ?_⟩)
      rw [post]
      simp [Vp.interrupt, Vp.woken]
  · by_cases h : t = e.actor
    · subst h
      obtain ⟨th, acted, picked⟩ := stepped.self
      unfold Vp.interrupt
      rw [picked.context] at live
      rw [picked.flags]
      unfold SysEvent.Eintr
      unfold SysEvent.actor at cause ⊢
      cases acted with
      | same quiet => exact .inr (.inr ⟨fun h => quiet h.2, cause, rfl⟩)
      | cleared call blocks flag result => exact .inl ⟨⟨rfl, result⟩, flag, rfl⟩
      | flagged call => exact absurd call cause
      | returned _ back =>
        obtain ⟨out, set, cleared⟩ | ⟨out, kept, -⟩ := back.flag
        · exact .inl ⟨⟨rfl, out⟩, set, cleared⟩
        · exact .inr (.inr ⟨fun h => out h.2, cause, kept⟩)
      | rejoined _ place signalled alive result =>
        refine .inr (.inr ⟨by simp [result], cause, ?_⟩)
        cases flag : (e.pre.vp.thr e.pre.vp.current).flags.interrupt with
        | true => rw [waitResult_eintr.mpr flag] at signalled; cases signalled
        | false => rfl
      | left | ended => cases live
      | parked | began | died | idled => rename_i result; exact .inr (.inr ⟨by simp [result], cause, rfl⟩)
    · have quiet : ¬ e.Eintr t := fun eintr => h eintr.1.symm
      obtain ⟨th, touched, picked⟩ := stepped.other t h
      refine .inr (.inr ⟨quiet, cause, ?_⟩)
      unfold Vp.interrupt
      rw [picked.flags]
      cases touched with
      | flagged call => exact absurd call cause
      | created _ unborn => exact absurd unborn before
      | woken _ _ why =>
        cases why with
        | interrupt call => exact absurd call cause
        | timer => simp [Thread.expired]; split <;> rfl
        | _ => rfl
      | _ => rfl

def Context.calls (c : Context) : Bool := c.live && c ≠ .exiting

theorem Context.calls_iff {c : Context} : c.calls = true ↔ c.live = true ∧ c ≠ .exiting := by
  simp [Context.calls]

theorem Stepped.calls (stepped : Stepped e) (calls : (e.post.vp.thr t).context.calls = true) :
    (e.pre.vp.thr t).context.calls = true ∨
      ((e.pre.vp.thr t).context = .unborn ∧ e.post.vp.interrupt t = false ∧ ¬ e.Eintr t) := by
  by_cases h : t = e.actor
  · subst h
    left
    have live : (e.pre.vp.thr e.actor).context.live = true := stepped.pre.inv.running.1
    refine Context.calls_iff.mpr ⟨live, fun exiting => ?_⟩
    have called : ∀ op, e.label ≠ .call op := fun op cause => by
      have user := stepped.user op cause
      rw [exiting] at user
      cases user
    obtain ⟨th, acted, picked⟩ := stepped.self
    rw [picked.context] at calls
    cases acted with
    | same | cleared | flagged | idled => simp [exiting, Context.calls, show e.pre.vp.current = e.actor from rfl] at calls
    | parked where_ =>
      obtain ⟨op, cause, -⟩ := where_.waitsAt
      exact called op cause
    | began _ place => cases place.symm.trans exiting
    | returned _ back =>
      rw [show (e.pre.vp.thr e.pre.vp.current).context = _ from exiting] at back
      cases back
    | rejoined _ place => cases place.symm.trans exiting
    | died | left | ended => cases calls
  · obtain ⟨th, touched, picked⟩ := stepped.other t h
    rw [picked.context] at calls
    unfold Vp.interrupt
    rw [picked.flags]
    cases touched with
    | created _ unborn => exact .inr ⟨unborn, rfl, fun eintr => h eintr.1.symm⟩
    | _ => exact .inl calls

structure FlagInv (hist : List (SysEvent σ ω)) (vp : Vp) (t : Tid) : Prop where
  unborn : (vp.thr t).context = .unborn → ¬ Pending hist t
  flag : (vp.thr t).context.calls = true → (vp.interrupt t = true ↔ Pending hist t)

theorem FlagInv.step (before : FlagInv hist e.pre.vp t) (stepped : Stepped e) (fired : e.Fired (machine E)) :
    FlagInv (e :: hist) e.post.vp t := by
  have exists_ : (e.pre.vp.thr t).context = .unborn → e.label ≠ .call (.threadInterrupt t) := by
    intro unborn cause
    have ok := SysRun.callable fired cause
    simp [callable, unborn] at ok
  refine ⟨fun unborn => ?_, fun calls => ?_⟩
  · have earlier := stepped.born unborn
    rw [Pending.cons]
    rintro (cause | ⟨-, pending⟩)
    · exact exists_ earlier cause
    · exact before.unborn earlier pending
  · rw [Pending.cons]
    obtain earlier | ⟨unborn, clear, quiet⟩ := stepped.calls calls
    · obtain ⟨live, notExiting⟩ := Context.calls_iff.mp earlier
      have known := before.flag earlier
      have notUnborn : (e.pre.vp.thr t).context ≠ .unborn := fun h => by simp [h, Context.live] at live
      obtain ⟨eintr, -, cleared⟩ | ⟨-, cause, zombie | set⟩ | ⟨quiet, cause, same⟩ :=
        stepped.flag (Context.calls_iff.mp calls).1 notUnborn
      · have cause : e.label ≠ .call (.threadInterrupt t) := fun cause => by
          have out := (stepped.interrupts cause).1
          rw [eintr.2] at out
          cases out
        simp [cleared, eintr, cause]
      · have fits := (stepped.pre.inv.views t).fits
        simp only [Vp.view, zombie] at fits
        cases place : (e.pre.vp.thr t).context <;> simp_all [Context.fits]
      · simp [set, cause]
      · rw [same, known]
        simp [quiet, cause]
    · simp [clear, exists_ unborn, before.unborn unborn]

theorem SysRun.flagInv (run : SysRun E hist s) (t : Tid) : FlagInv hist s.vp t := by
  refine run.induct (P := fun hist s => FlagInv hist s.vp t) ?_ ?_
  · intro s started
    refine ⟨fun _ => Pending.nil, fun _ => ?_⟩
    simp [Vp.interrupt, started.blank.flags, Pending.nil]
  · intro hist e before kept fired
    exact kept.step (SysRun.stepped before fired) fired

theorem entry_eintr (fired : e.Fired (machine E)) {op : Op} (cause : e.label = .call op) (primitive : op.primitive = true)
    (flag : e.pre.vp.interrupt e.actor = true) :
    e.out = some (.fail .eintr) ∧ e.post = ⟨e.pre.vp.setInterrupt e.actor false, e.pre.evt⟩ := by
  have run := fired.step
  have set : (e.pre.vp.thr e.pre.vp.current).flags.interrupt = true := flag
  simp only [machine, cause, step] at run
  cases op <;> simp only [Op.primitive, Bool.false_eq_true] at primitive <;>
    simp [call, stUsleep, stCondTimedwait, stMutexLock, stPoll, set, Vp.eintr, System.lift] at run <;>
    exact ⟨run.2.symm, run.1.symm⟩

theorem join_entry_eintr (stepped : Stepped e) (fired : e.Fired (machine E)) {u : Tid}
    (cause : e.label = .call (.threadJoin u)) (flag : e.pre.vp.interrupt e.actor = true) :
    e.out ≠ none ∧
      (e.out = some (.fail .eintr) → e.post = ⟨e.pre.vp.setInterrupt e.actor false, e.pre.evt⟩) := by
  have set : (e.pre.vp.thr e.pre.vp.current).flags.interrupt = true := flag
  have evt : e.post.evt = e.pre.evt := by
    have run := fired.step
    simp only [machine, cause, step, call, System.lift, Option.map_eq_some_iff] at run
    obtain ⟨r, -, same⟩ := run
    rw [← (Prod.mk.inj same).1]
  obtain ⟨vp', switch, post, move, -⟩ := stepped.move
  rw [cause] at move
  generalize e.out = out at move
  cases move with
  | interrupted blocks flag =>
    refine ⟨by simp, fun _ => ?_⟩
    rw [← evt, ← show e.post.vp = e.pre.vp.setInterrupt e.actor false from post]
  | joinRejected error => exact ⟨by simp, by obtain rfl | rfl := error <;> simp⟩
  | joinWaits clear => rw [set] at clear; cases clear
  | joins => exact ⟨by simp, by simp⟩

structure Vp.Doomed (vp : Vp) (t : Tid) (place : Context) : Prop where
  here : (vp.thr t).context = place
  awake : (vp.thr t).state = .runnable ∨ (vp.thr t).state = .running
  flag : vp.interrupt t = true
  inside : place.resumes = true ∧ place ≠ .fresh ∧ place ≠ .exiting
  other : ∀ m, place = .lock m → vp.owner m ≠ some t

theorem Stepped.doomed (stepped : Stepped e) {place : Context}
    (doomed : e.pre.vp.Doomed t place) :
    (e.post.vp.Doomed t place ∧ ¬ e.Acts t) ∨
      (e.Eintr t ∧ e.label = .resume ∧ e.post.vp.interrupt t = false) := by
  obtain ⟨here, awake, flag, inside, other⟩ := doomed
  by_cases resumes : t = e.actor ∧ e.label = .resume
  · obtain ⟨rfl, cause⟩ := resumes
    right
    obtain ⟨th, acted, picked⟩ := stepped.self
    unfold Vp.interrupt at flag ⊢
    rw [picked.flags]
    unfold SysEvent.Eintr
    unfold SysEvent.actor at here flag other ⊢
    cases acted with
    | returned _ back =>
      obtain ⟨out, -, cleared⟩ | ⟨-, -, handed⟩ := back.flag
      · exact ⟨⟨rfl, out⟩, cause, cleared⟩
      · obtain ⟨m, at_m, mine, -⟩ := handed flag
        rw [here] at at_m
        exact absurd mine (other m at_m)
    | parked where_ =>
      obtain ⟨op, call, -⟩ := where_.waitsAt
      simp [cause] at call
    | rejoined _ _ signalled => rw [waitResult_eintr.mpr flag] at signalled; cases signalled
    | began _ fresh => exact absurd (here.symm.trans fresh) inside.2.1
    | ended _ exiting => exact absurd (here.symm.trans exiting) inside.2.2
    | _ => simp_all
  · left
    obtain ⟨context, state, flags⟩ := stepped.stays awake (by rw [here]; exact inside.1)
      fun h cause => resumes ⟨h, cause⟩
    refine ⟨⟨context.trans here, state, ?_, inside, fun m at_m => ?_⟩, ?_⟩
    · unfold Vp.interrupt at flag ⊢
      obtain same | ⟨-, set⟩ := flags
      · rw [same]; exact flag
      · rw [set]
    · have at_m := here.trans at_m
      obtain ⟨keeps, -⟩ | ⟨life, none⟩ | ⟨free, mine, -, cause⟩ | unlocks := stepped.owner m
      · rw [keeps]; exact other m (here.symm.trans at_m)
      · rw [none]; simp
      · rw [mine]
        rintro ⟨rfl⟩
        obtain cause | cause := cause <;>
        · have user := stepped.user _ cause
          rw [at_m] at user
          cases user
      · obtain ⟨-, refused⟩ | ⟨-, -, ⟨u, waiter, owner, -⟩ | ⟨-, owner⟩⟩ := stepped.unlock unlocks.2.1
        · rw [unlocks.2.2] at refused
          cases refused
        · rw [owner]
          rintro ⟨rfl⟩
          have waits : (e.pre.vp.thr t).state = .lockWait := by simpa using List.find?_some waiter
          rw [waits] at awake
          obtain h | h := awake <;> cases h
        · rw [owner]; simp
    · rintro ⟨rfl, call | cause⟩
      · cases label : e.label with
        | call op =>
          have user := stepped.user op label
          rw [here] at user
          rw [user] at inside
          cases inside.1
        | _ => simp [label, Label.isCall] at call
      · exact resumes ⟨rfl, cause⟩

structure InterruptsDelivered (t : Tid) (hist : List (SysEvent σ ω)) (s : System σ) : Prop where
  flag : (s.vp.thr t).context.calls = true → (s.vp.interrupt t = true ↔ Pending hist t)
  cleared : ∀ e older, (e :: older) <:+ hist → (e.post.vp.thr t).context.live = true →
    (e.pre.vp.thr t).context ≠ .unborn → e.pre.vp.interrupt t = true → e.post.vp.interrupt t = false →
    e.actor = t ∧ ∃ op b, op.blocks = true ∧ Completes older e op (.fail .eintr) b
  caused : ∀ e ∈ hist, SysEvent.Eintr e t → e.pre.vp.interrupt t = true
  entry : ∀ e ∈ hist, ∀ op, SysEvent.actor e = t → e.label = .call op → op.primitive = true →
    e.pre.vp.interrupt t = true →
    e.out = some (.fail .eintr) ∧ e.post = ⟨e.pre.vp.setInterrupt t false, e.pre.evt⟩
  joinEntry : ∀ e ∈ hist, ∀ u, SysEvent.actor e = t → e.label = .call (.threadJoin u) →
    e.pre.vp.interrupt t = true → e.out ≠ none ∧
      (e.out = some (.fail .eintr) → e.post = ⟨e.pre.vp.setInterrupt t false, e.pre.evt⟩)
  wakes : ∀ e ∈ hist, e.label = .call (.threadInterrupt t) → (e.pre.vp.thr t).state.blocked = true →
    (e.post.vp.thr t).state = .runnable ∧ e.post.vp.runQ = e.pre.vp.runQ ++ [t] ∧
      e.post.vp.runQ.count t = 1 ∧ e.pre.vp.sleepQ.Without t e.post.vp.sleepQ
  delivers : ∀ newer e older, hist = newer ++ e :: older → e.label = .call (.threadInterrupt t) →
    (e.pre.vp.thr t).state.blocked = true →
    ∃ b op, lastCall older t = some b ∧ b.label = .call op ∧
      ((s.vp.Doomed t (e.pre.vp.thr t).context ∧ ∀ n ∈ newer, ¬ SysEvent.Acts n t) ∨
        ∃ later n between, newer = later ++ n :: between ∧ (∀ n' ∈ between, ¬ SysEvent.Acts n' t) ∧
          n.actor = t ∧ Completes (between ++ e :: older) n op (.fail .eintr) b ∧ n.post.vp.interrupt t = false)
  resumed : ∀ e older op r b, (e :: older) <:+ hist → e.actor = t → e.label = .resume →
    Completes older e op r b → e.pre.vp.interrupt t = true →
    r = .fail .eintr ∨ ∃ m, op = .mutexLock m ∧ e.pre.vp.owner m = some t ∧ r = .value 0 ∧
      e.post.vp.interrupt t = true

theorem Op.waitsAt_blocks {op : Op} {place : Context} (waits : op.waitsAt place = true) (inside : place ≠ .exiting) :
    op.blocks = true := by
  cases op <;> cases place <;> simp_all [Op.waitsAt, Op.blocks]

theorem SysRun.completes_eintr (run : SysRun E older e.pre) (fired : e.Fired (machine E)) (eintr : e.Eintr t) :
    ∃ op b, op.blocks = true ∧ Completes older e op (.fail .eintr) b := by
  have stepped := SysRun.stepped run fired
  obtain ⟨rfl, out⟩ := eintr
  obtain ⟨th, acted, -⟩ := stepped.self
  cases acted with
  | same quiet => exact absurd out quiet
  | cleared cause blocks => exact ⟨_, e, blocks, out, lastCall_call cause, cause⟩
  | returned cause back =>
    obtain ⟨resumes, notFresh⟩ := back.resumes
    have notExiting : (e.pre.vp.thr e.actor).context ≠ .exiting := by
      intro exiting
      rw [show (e.pre.vp.thr e.pre.vp.current).context = _ from exiting] at back
      cases back
    obtain ⟨b, op, begun, label, waits⟩ := run.inside e.actor resumes notFresh
    refine ⟨op, b, Op.waitsAt_blocks waits notExiting, out, ?_, label⟩
    rw [lastCall_quiet (by rw [cause]; rfl), begun]
  | _ => simp_all

theorem SysRun.doomed {newer : List (SysEvent σ ω)} {place : Context}
    (run : SysRun E (newer ++ e :: older) s) (doomed : e.post.vp.Doomed t place) :
    (s.vp.Doomed t place ∧ ∀ n ∈ newer, ¬ SysEvent.Acts n t) ∨
      ∃ later n between, newer = later ++ n :: between ∧ (∀ n' ∈ between, ¬ SysEvent.Acts n' t) ∧
        n.Eintr t ∧ n.label = .resume ∧ n.post.vp.interrupt t = false := by
  induction newer generalizing s with
  | nil => cases run; exact .inl ⟨doomed, by simp⟩
  | cons n newer ih =>
    cases run with
    | next before fired =>
      obtain ⟨still, idle⟩ | ⟨later, n', between, rfl, rest⟩ := ih before
      · obtain ⟨still, quiet⟩ | done := (SysRun.stepped before fired).doomed still
        · refine .inl ⟨still, fun n' hn' => ?_⟩
          obtain rfl | hn' := List.mem_cons.mp hn'
          · exact quiet
          · exact idle n' hn'
        · exact .inr ⟨[], n, newer, rfl, idle, done⟩
      · exact .inr ⟨n :: later, n', between, rfl, rest⟩

theorem Inv.blocked_inside {vp : Vp} {r : Option Tid} (inv : Inv vp r) (live : (vp.thr t).context.live = true)
    (blocked : (vp.thr t).state.blocked = true) :
    (vp.thr t).context.resumes = true ∧ (vp.thr t).context ≠ .fresh ∧ (vp.thr t).context ≠ .exiting := by
  have fits := (inv.views t).fits
  simp only [Vp.view] at fits
  cases place : (vp.thr t).context <;> cases state : (vp.thr t).state <;>
    simp_all [Context.fits, Context.resumes, ThreadState.blocked, Context.live]

theorem interrupt_live (fired : e.Fired (machine E)) (cause : e.label = .call (.threadInterrupt t)) :
    (e.pre.vp.thr t).context.live = true := by
  have ok := SysRun.callable fired cause
  simpa [callable, Context.live] using ok

theorem Stepped.interruptsBlocked (stepped : Stepped e) (inv : LockInv e.pre.vp)
    (cause : e.label = .call (.threadInterrupt t)) (blocked : (e.pre.vp.thr t).state.blocked = true)
    (live : (e.pre.vp.thr t).context.live = true) :
    (e.post.vp.thr t).state = .runnable ∧ e.post.vp.runQ = e.pre.vp.runQ ++ [t] ∧
      e.pre.vp.sleepQ.Without t e.post.vp.sleepQ ∧ e.post.vp.Doomed t (e.pre.vp.thr t).context := by
  obtain ⟨-, zombie | awake | ⟨-, q, without, post⟩⟩ := stepped.interrupts cause
  · rw [zombie.1] at blocked; cases blocked
  · obtain h | h := awake.1 <;> rw [h] at blocked <;> cases blocked
  · rw [post]
    refine ⟨by simp [Vp.woken], rfl, without, by simp [Vp.woken], by simp [Vp.woken], by simp [Vp.interrupt, Vp.woken],
      stepped.pre.inv.blocked_inside live blocked, fun m place => ?_⟩
    have fits := (stepped.pre.inv.views t).fits
    have state : (e.pre.vp.thr t).state = .lockWait := by
      simp only [Vp.view, place] at fits
      cases state : (e.pre.vp.thr t).state <;> simp_all [Context.fits, ThreadState.blocked]
    exact (inv.waits t m place state).2

/-- Interrupt delivery over every run, for every thread. -/
theorem interrupt_delivery (E : EventSys σ ω) (t : Tid) (hist : List (SysEvent σ ω)) (s : System σ)
    (run : SysRun E hist s) : InterruptsDelivered t hist s where
  flag := (run.flagInv t).flag
  cleared e older past live born set cleared := by
    obtain ⟨before, fired⟩ := SysRun.before run past
    obtain ⟨eintr, -⟩ | ⟨-, cause, zombie | flag⟩ | ⟨-, -, same⟩ := (SysRun.stepped before fired).flag live born
    · exact ⟨eintr.1, SysRun.completes_eintr before fired eintr⟩
    · obtain ⟨-, ⟨-, post⟩ | ⟨awake, -⟩ | ⟨blocked, -⟩⟩ := (SysRun.stepped before fired).interrupts cause
      · rw [post, set] at cleared; cases cleared
      · obtain h | h := awake <;> rw [h] at zombie <;> cases zombie
      · rw [zombie] at blocked; cases blocked
    · rw [flag] at cleared; cases cleared
    · rw [same, set] at cleared; cases cleared
  caused e member eintr := by
    obtain ⟨newer, older, rfl⟩ := List.append_of_mem member
    obtain ⟨before, fired, -⟩ := Run.split run
    have stepped := SysRun.stepped before fired
    obtain ⟨rfl, out⟩ := eintr
    obtain ⟨th, acted, -⟩ := stepped.self
    cases acted with
    | same quiet => exact absurd out quiet
    | cleared cause blocks flag => exact flag
    | returned cause back =>
      obtain ⟨-, set, -⟩ | ⟨quiet, -⟩ := back.flag
      · exact set
      · exact absurd out quiet
    | _ => simp_all
  entry e member op actor cause primitive flag := by
    obtain ⟨newer, older, rfl⟩ := List.append_of_mem member
    obtain ⟨-, fired, -⟩ := Run.split run
    subst actor
    exact entry_eintr fired cause primitive flag
  joinEntry e member u actor cause flag := by
    obtain ⟨newer, older, rfl⟩ := List.append_of_mem member
    obtain ⟨before, fired, -⟩ := Run.split run
    subst actor
    exact join_entry_eintr (SysRun.stepped before fired) fired cause flag
  wakes e member cause blocked := by
    obtain ⟨newer, older, rfl⟩ := List.append_of_mem member
    obtain ⟨before, fired, -⟩ := Run.split run
    have stepped := SysRun.stepped before fired
    have live := interrupt_live fired cause
    obtain ⟨state, queue, without, -⟩ := stepped.interruptsBlocked (SysRun.lockInv before) cause blocked live
    refine ⟨state, queue, ?_, without⟩
    have off := (stepped.pre.inv.offQueues blocked).1
    rw [queue, List.count_append, List.count_eq_zero.mpr off]
    simp
  delivers newer e older split cause blocked := by
    subst split
    obtain ⟨before, fired, -⟩ := Run.split run
    have stepped := SysRun.stepped before fired
    have live := interrupt_live fired cause
    obtain ⟨-, -, -, doomed⟩ := stepped.interruptsBlocked (SysRun.lockInv before) cause blocked live
    obtain ⟨b, op, begun, label, -⟩ := SysRun.inside before t doomed.inside.1 doomed.inside.2.1
    refine ⟨b, op, begun, label, ?_⟩
    obtain still | ⟨later, n, between, rfl, idle, ⟨actor, out⟩, resumes, cleared⟩ := SysRun.doomed run doomed
    · exact .inl still
    · refine .inr ⟨later, n, between, rfl, idle, actor, ⟨out, ?_, label⟩, cleared⟩
      have other : t ≠ e.actor := by
        rintro rfl
        cases stepped.pre.inv.current_awake.symm.trans blocked
      rw [lastCall_quiet (by rw [resumes]; rfl), actor, lastCall_append idle, lastCall_other other, begun]
  resumed e older op r b past actor cause done set := by
    obtain ⟨before, fired⟩ := SysRun.before run past
    subst actor
    obtain ⟨th, acted, picked⟩ := (SysRun.stepped before fired).self
    obtain ⟨call, -⟩ | ⟨-, waits, -⟩ := done.cases before fired
    · rw [cause] at call; cases call
    · have out := done.out
      unfold Vp.interrupt at set ⊢
      rw [picked.flags]
      cases acted with
      | returned _ back =>
        obtain ⟨eintr, -⟩ | ⟨-, kept, handed⟩ := back.flag
        · rw [out] at eintr
          exact .inl (Option.some.inj eintr)
        · obtain ⟨m, place, mine, zero⟩ := handed set
          rw [out] at zero
          rw [show (e.pre.vp.thr e.actor).context = _ from place] at waits
          refine .inr ⟨m, ?_, mine, Option.some.inj zero, kept.trans set⟩
          cases op <;> simp_all [Op.waitsAt]
      | _ => simp_all

/-- Thread 2 sleeps with a time limit and is interrupted twice before it runs: one call
returns EINTR, the next sleep is not disturbed. -/
theorem interrupt_delivery_twice :
    ∃ hist s, SysRun (Poll.eventSys Poll.silent) hist s ∧
      ((s.vp.thr 2).state = .sleeping ∧ s.vp.interrupt 2 = false ∧
        hist.map (·.out) = [none, some (.fail .eintr), none, some (.value 0), some (.value 0), some (.value 0), none,
          none, none, none, some (.thread (some 2))]) ∧
      InterruptsDelivered 2 hist s := by
  obtain ⟨hist, s, run, seen⟩ := Run.found (M := machine (Poll.eventSys Poll.silent))
    [.call (.threadCreate (some 2) false none), .call (.usleep 500), .resume, .call (.usleep 9000), .idle 1000 0,
      .resume, .call (.threadInterrupt 2), .call (.threadInterrupt 2), .call (.usleep 500), .resume,
      .call (.usleep 9000)]
    Poll.started_ok
    (p := fun hist s => decide ((s.vp.thr 2).state = .sleeping ∧ s.vp.interrupt 2 = false ∧
      hist.map (·.out) = [none, some (.fail .eintr), none, some (.value 0), some (.value 0), some (.value 0), none,
        none, none, none, some (.thread (some 2))]))
    (by decide +kernel)
  exact ⟨hist, s, run, of_decide_eq_true seen, interrupt_delivery _ 2 hist s run⟩

end StateThreads
