import StateThreads.Placement.Reachable

/-! The effect of a step on one thread other than the current one, on one mutex and on
one condition variable. -/
namespace StateThreads

variable {σ ω : Type}

/-- Why a blocked thread u is made runnable, and with which flags. -/
inductive Woken (vp : Vp) (l : Label ω) (u : Tid) : Flags → Prop
  | signal {c : CondId} {join : Option Tid} (state : (vp.thr u).state = .condWait)
    (place : (vp.thr u).context = .cond c join)
    (cause : ((l = .call (.condSignal c) ∨ l = .call (.condBroadcast c)) ∧ (vp.cond c).termination = false) ∨
      ∃ r, l = .call (.threadExit r) ∧ (vp.thr vp.current).term = some c) :
    Woken vp l u (vp.thr u).flags
  | interrupt (cause : l = .call (.threadInterrupt u)) : Woken vp l u { (vp.thr u).flags with interrupt := true }
  | handOver {m : MutexId} (cause : l = .call (.mutexUnlock m)) (place : (vp.thr u).context = .lock m)
    (state : (vp.thr u).state = .lockWait) (first : lockWaiter vp (vp.mutex m).waitQ = some u)
    (owner : (vp.mutex m).owner = some vp.current) : Woken vp l u (vp.thr u).flags
  | ready {now : UTime} {time : Nat} (cause : l = .idle now time) (polls : vp.Polls u) :
    Woken vp l u (vp.thr u).flags
  | timer {now : UTime} {time : Nat} (cause : l = .idle now time) (timer : vp.sleepQ.onSleepq u = true) :
    Woken vp l u (vp.thr u).expired

inductive Touched (vp : Vp) (l : Label ω) (u : Tid) : Thread → Prop
  | same : Touched vp l u (vp.thr u)
  | woken {flags : Flags} (live : (vp.thr u).context.live = true) (blocked : (vp.thr u).state.blocked = true)
    (why : Woken vp l u flags) : Touched vp l u { vp.thr u with state := .runnable, flags := flags }
  | flagged (cause : l = .call (.threadInterrupt u)) (live : (vp.thr u).context.live = true)
    (awake : (vp.thr u).state = .running ∨ (vp.thr u).state = .runnable) :
    Touched vp l u { vp.thr u with flags := { (vp.thr u).flags with interrupt := true } }
  | reaped (zombie : (vp.thr u).state = .zombie) (live : (vp.thr u).context.live = true)
    (cause : (l = .call (.threadJoin u) ∧ ∃ c, (vp.thr u).term = some c ∧ (vp.cond c).waitQ = []) ∨
      l = .resume ∧ ∃ c, (vp.thr vp.current).context = .cond c (some u) ∧
        waitResult (vp.thr vp.current).flags = .value 0) :
    Touched vp l u { vp.thr u with state := .runnable }
  | created {joinable : Bool} {cvar : Option CondId} {term : Option CondId}
    (cause : l = .call (.threadCreate (some u) joinable cvar)) (unborn : (vp.thr u).context = .unborn)
    (fresh : ∀ c, term = some c → (vp.cond c).life = .unborn) :
    Touched vp l u ⟨.runnable, ⟨false, false, false, false⟩, 0, term, .fresh⟩

theorem mem_signalled {vp : Vp} {broadcast : Bool} {q : List Tid} {u : Tid} (h : u ∈ signalled vp broadcast q) :
    u ∈ q ∧ (vp.thr u).state = .condWait := by
  unfold signalled at h
  split at h
  · simpa using h
  · simpa using List.mem_of_mem_take h

theorem Roused.touched {vp vp' : Vp} {ts : List Tid} {flags : Tid → Flags} {l : Label ω}
    (roused : Roused vp ts flags vp') {u : Tid} (why : u ∈ ts → Woken vp l u (flags u)) :
    Touched vp l u (vp'.thr u) := by
  rw [roused.thr]
  split
  · rename_i hu
    obtain ⟨live, blocked⟩ := roused.blocked u hu
    exact .woken live blocked (why hu)
  · exact .same

theorem Touched.update {vp : Vp} {l : Label ω} {u t : Tid} {th : Thread} (here : u = t → Touched vp l u th) :
    Touched vp l u (Function.update vp.thr t th u) := by
  by_cases same : u = t
  · rw [same, Function.update_self, ← same]
    exact here same
  · rw [Function.update_of_ne same]
    exact .same

theorem Move.other {vp vp' : Vp} {l : Label ω} {out : Option Ret} {switch : Bool}
    (move : Move vp l vp' out switch) (inv : Inv vp (some vp.current)) {u : Tid} (hu : u ≠ vp.current) :
    Touched vp l u (vp'.thr u) := by
  cases move with
  | signals kind roused =>
    refine roused.touched fun h => ?_
    obtain ⟨waits, state⟩ := mem_signalled h
    obtain ⟨join, place⟩ := inv.waitQ_context waits
    exact .signal state place (.inl ⟨.inl rfl, kind⟩)
  | broadcasts kind roused =>
    refine roused.touched fun h => ?_
    obtain ⟨waits, state⟩ := mem_signalled h
    obtain ⟨join, place⟩ := inv.waitQ_context waits
    exact .signal state place (.inl ⟨.inr rfl, kind⟩)
  | @dies retval term _ joinable roused =>
    have same : (vp.dying retval).thr u = vp.thr u := by simp [Vp.dying, hu]
    rw [roused.thr, same]
    split
    · rename_i h
      obtain ⟨waits, state⟩ := mem_signalled h
      obtain ⟨join, place⟩ := inv.waitQ_context waits
      obtain ⟨live, blocked⟩ := roused.blocked u h
      rw [same] at live blocked state
      exact .woken live blocked (.signal state place (.inr ⟨_, rfl, joinable⟩))
    · exact .same
  | @handsOver lock thread owner waiter =>
    refine Touched.update fun h => ?_
    subst h
    have state : (vp.thr u).state = .lockWait := by simpa using List.find?_some waiter
    have place := inv.lockQ_context (List.mem_of_find?_eq_some waiter)
    exact .woken (by rw [place]; rfl) (by rw [state]; rfl) (.handOver rfl place state waiter owner)
  | @interruptsAwake thread live awake =>
    refine Touched.update fun h => ?_
    subst h
    exact .flagged rfl live awake
  | @interruptsBlocked thread q live blocked without =>
    refine Touched.update fun h => ?_
    subst h
    exact .woken live blocked (.interrupt rfl)
  | @joins thread term joinable other alone zombie live =>
    refine Touched.update fun h => ?_
    subst h
    exact .reaped zombie live (.inl ⟨rfl, _, joinable, alone⟩)
  | @joined cvar thread place signalled zombie live =>
    have same : ((vp.unlinkCond cvar).back (vp.thr vp.current).flags.read).thr u = vp.thr u := by
      simp [Vp.back, Vp.unlinkCond, Vp.setThr, Vp.setCond, hu]
    by_cases h : u = thread
    · subst h
      simp only [Vp.reaped, Function.update_self, same]
      exact .reaped zombie live (.inr ⟨rfl, _, place, signalled⟩)
    · simp only [Vp.reaped, Function.update_of_ne h, same]
      exact .same
  | @creates t cvar unborn =>
    refine Touched.update fun h => ?_
    subst h
    exact .created rfl unborn (by simp)
  | @createsJoinable t c unborn fresh =>
    refine Touched.update fun h => ?_
    subst h
    exact .created rfl unborn (by rintro d ⟨⟩; exact fresh)
  | @cleansUp term place joinable =>
    simp only [Vp.finished, Vp.setThr, stCondDestroy_thr, stCondDestroy_current, Function.update_of_ne hu]
    exact .same
  | @idles now lastTset time currTime vp₁ vp₂ ts₁ ts₂ place empty dispatched expired timers =>
    simp only [Vp.setState, Vp.setThr, Function.update_of_ne hu, expired.thr, dispatched.thr]
    by_cases ready : u ∈ ts₁
    · have off : u ∉ ts₂ := by
        intro h
        have on := timers u h
        simp [dispatched.off, ready] at on
      obtain ⟨polling, state⟩ := dispatched.polls u ready
      rw [if_neg off, if_pos ready]
      exact .woken (by rw [polling]; rfl) (by rw [state]; rfl) (.ready rfl ⟨polling, state⟩)
    · by_cases late : u ∈ ts₂
      · obtain ⟨live, blocked⟩ := expired.blocked u late
        have on := timers u late
        simp only [dispatched.thr, if_neg ready] at live blocked
        simp only [dispatched.off, List.contains_eq_mem, ready, decide_false, Bool.not_false, Bool.true_and] at on
        rw [if_pos late, if_neg ready]
        exact .woken live blocked (.timer rfl on)
      · rw [if_neg late, if_neg ready]
        exact .same
  | @condNew cvar fresh => cases cvar <;> exact .same
  | @mutexNew lock fresh => cases lock <;> exact .same
  | outside | descriptor | condBusy | mutexBusy | deadlock | notOwner | lockBusy | pollFails | createFails
  | joinRejected | interruptsZombie | condDestroy | mutexDestroy | acquires | tryAcquires | releases => exact .same
  | _ =>
    simp only [Vp.setInterrupt, Vp.parked, Vp.waiting, Vp.locking, Vp.polling, Vp.setThr, Vp.setCond, Vp.setMutex,
      Vp.finished, Vp.leaving, Vp.back, Vp.unlinkCond, Vp.unlinkLock, Vp.unlinkPoll,
      Function.update_of_ne hu]
    exact .same

inductive MutexTouched (vp : Vp) (l : Label ω) (out : Option Ret) (m : MutexId) : Mutex → Prop
  | same : MutexTouched vp l out m (vp.mutex m)
  | created (cause : l = .call (.mutexNew (some m))) (fresh : (vp.mutex m).life = .unborn) :
    MutexTouched vp l out m ⟨none, [], .allocated⟩
  | destroyed (cause : l = .call (.mutexDestroy m)) (owner : (vp.mutex m).owner = none)
    (empty : (vp.mutex m).waitQ = []) : MutexTouched vp l out m { vp.mutex m with life := .freed }
  | acquired (cause : l = .call (.mutexLock m) ∨ l = .call (.mutexTrylock m)) (owner : (vp.mutex m).owner = none)
    (result : out = some (.value 0)) : MutexTouched vp l out m { vp.mutex m with owner := some vp.current }
  | queued (cause : l = .call (.mutexLock m)) (held : (vp.mutex m).owner ≠ none)
    (other : (vp.mutex m).owner ≠ some vp.current) (result : out = none) :
    MutexTouched vp l out m { vp.mutex m with waitQ := (vp.mutex m).waitQ ++ [vp.current] }
  | handed {u : Tid} (cause : l = .call (.mutexUnlock m)) (owner : (vp.mutex m).owner = some vp.current)
    (waiter : lockWaiter vp (vp.mutex m).waitQ = some u) (result : out = some (.value 0)) :
    MutexTouched vp l out m { vp.mutex m with owner := some u }
  | released (cause : l = .call (.mutexUnlock m)) (owner : (vp.mutex m).owner = some vp.current)
    (waiter : lockWaiter vp (vp.mutex m).waitQ = none) (result : out = some (.value 0)) :
    MutexTouched vp l out m { vp.mutex m with owner := none }
  | left (cause : l = .resume) (place : (vp.thr vp.current).context = .lock m) :
    MutexTouched vp l out m { vp.mutex m with waitQ := (vp.mutex m).waitQ.erase vp.current }

theorem MutexTouched.at {vp : Vp} {l : Label ω} {out : Option Ret} {n : MutexId} {mx : Mutex}
    (touched : MutexTouched vp l out n mx) (m : MutexId) :
    MutexTouched vp l out m ((vp.setMutex n mx).mutex m) := by
  by_cases h : m = n
  · subst h; simpa [Vp.setMutex] using touched
  · simp only [Vp.setMutex, Function.update_of_ne h]; exact .same

theorem Move.mutex {vp vp' : Vp} {l : Label ω} {out : Option Ret} {switch : Bool}
    (move : Move vp l vp' out switch) (m : MutexId) : MutexTouched vp l out m (vp'.mutex m) := by
  cases move with
  | signals kind roused | broadcasts kind roused | dies joinable roused =>
    have same := congrArg Vp.mutex roused.rest
    rw [same]
    exact .same
  | mutexNew fresh =>
    rename_i lock
    cases lock with
    | none => exact .same
    | some n => exact (MutexTouched.created rfl (fresh n rfl)).at m
  | mutexDestroy owner empty => exact (MutexTouched.destroyed rfl owner empty).at m
  | acquires flag owner => exact (MutexTouched.acquired (.inl rfl) owner rfl).at m
  | tryAcquires owner => exact (MutexTouched.acquired (.inr rfl) owner rfl).at m
  | locks flag held other => exact (MutexTouched.queued rfl held other rfl).at m
  | handsOver owner waiter => exact (MutexTouched.handed rfl owner waiter rfl).at m
  | releases owner waiter => exact (MutexTouched.released rfl owner waiter rfl).at m
  | locked place => exact (MutexTouched.left rfl place).at m
  | condNew fresh =>
    rename_i cvar
    cases cvar <;> exact .same
  | cleansUp place joinable =>
    rename_i term
    have same : (stCondDestroy vp term).1.mutex = vp.mutex := by unfold stCondDestroy; split <;> rfl
    simp only [Vp.finished, Vp.setThr, same]
    exact .same
  | idles place empty dispatched expired timers =>
    have first := congrArg Vp.mutex dispatched.rest
    have second := congrArg Vp.mutex expired.rest
    simp only [Vp.setState, Vp.setThr]
    rw [second]
    simp only
    rw [first]
    exact .same
  | _ => exact .same

inductive CondTouched (vp : Vp) (l : Label ω) (c : CondId) : Cond → Prop
  | same : CondTouched vp l c (vp.cond c)
  | created {termination : Bool} (fresh : (vp.cond c).life = .unborn)
    (cause : (l = .call (.condNew (some c)) ∧ termination = false) ∨
      ∃ t, l = .call (.threadCreate (some t) true (some c)) ∧ termination = true) :
    CondTouched vp l c ⟨[], .allocated, termination⟩
  | destroyed (empty : (vp.cond c).waitQ = [])
    (cause : (l = .call (.condDestroy c) ∧ (vp.cond c).termination = false) ∨
      (l = .resume ∧ (vp.thr vp.current).context = .exiting ∧ (vp.thr vp.current).term = some c)) :
    CondTouched vp l c { vp.cond c with life := .freed }
  | waited {timeout : UTime} (cause : l = .call (.condTimedwait c timeout))
    (kind : (vp.cond c).termination = false) :
    CondTouched vp l c { vp.cond c with waitQ := (vp.cond c).waitQ ++ [vp.current] }
  | joining {thread : Tid} (cause : l = .call (.threadJoin thread)) (joinable : (vp.thr thread).term = some c)
    (alone : (vp.cond c).waitQ = []) (alive : (vp.thr thread).state ≠ .zombie)
    (live : (vp.thr thread).context.live = true) :
    CondTouched vp l c { vp.cond c with waitQ := (vp.cond c).waitQ ++ [vp.current] }
  | left {join : Option Tid} (cause : l = .resume) (place : (vp.thr vp.current).context = .cond c join) :
    CondTouched vp l c { vp.cond c with waitQ := (vp.cond c).waitQ.erase vp.current }
  | rejoined {thread : Tid} (cause : l = .resume) (place : (vp.thr vp.current).context = .cond c (some thread))
    (signalled : waitResult (vp.thr vp.current).flags = .value 0) (alive : (vp.thr thread).state ≠ .zombie) :
    CondTouched vp l c { vp.cond c with waitQ := (vp.cond c).waitQ.erase vp.current ++ [vp.current] }

theorem CondTouched.at {vp : Vp} {l : Label ω} {d : CondId} {cv : Cond} (touched : CondTouched vp l d cv)
    (c : CondId) : CondTouched vp l c ((vp.setCond d cv).cond c) := by
  by_cases h : c = d
  · subst h; simpa [Vp.setCond] using touched
  · simp only [Vp.setCond, Function.update_of_ne h]; exact .same

theorem Move.cond {vp vp' : Vp} {l : Label ω} {out : Option Ret} {switch : Bool}
    (move : Move vp l vp' out switch) (c : CondId) : CondTouched vp l c (vp'.cond c) := by
  cases move with
  | signals kind roused | broadcasts kind roused | dies joinable roused =>
    have same := congrArg Vp.cond roused.rest
    rw [same]
    exact .same
  | condNew fresh =>
    rename_i cvar
    cases cvar with
    | none => exact .same
    | some d => exact (CondTouched.created (fresh d rfl) (.inl ⟨rfl, rfl⟩)).at c
  | condDestroy free kind => exact (CondTouched.destroyed free (.inl ⟨rfl, kind⟩)).at c
  | waits flag kind => exact (CondTouched.waited rfl kind).at c
  | createsJoinable unborn fresh => exact (CondTouched.created fresh (.inr ⟨_, rfl, rfl⟩)).at c
  | joinWaits flag joinable other alone alive live => exact (CondTouched.joining rfl joinable alone alive live).at c
  | waited place => exact (CondTouched.left rfl place).at c
  | joinFailed place failed => exact (CondTouched.left rfl place).at c
  | joined place signalled zombie live => exact (CondTouched.left rfl place).at c
  | @joinAgain cvar thread q place signalled alive =>
    have touched := (CondTouched.rejoined (l := (.resume : Label ω)) rfl place signalled alive).at c
    by_cases h : c = cvar
    · subst h
      simpa [Vp.waiting, Vp.back, Vp.unlinkCond, Vp.setCond, Vp.setThr, Vp.parked] using touched
    · simpa [Vp.waiting, Vp.back, Vp.unlinkCond, Vp.setCond, Vp.setThr, Vp.parked, h] using touched
  | mutexNew fresh =>
    rename_i lock
    cases lock <;> exact .same
  | @cleansUp term place joinable =>
    by_cases free : (vp.cond term).waitQ = []
    · have freed : (stCondDestroy vp term).1 = vp.setCond term { vp.cond term with life := .freed } := by
        rw [stCondDestroy, if_neg (by simp [free])]
      rw [freed]
      exact (CondTouched.destroyed free (.inr ⟨rfl, place, joinable⟩)).at c
    · have same : (stCondDestroy vp term).1 = vp := by rw [stCondDestroy, if_pos free]
      rw [same]
      exact .same
  | idles place empty dispatched expired timers =>
    have first := congrArg Vp.cond dispatched.rest
    have second := congrArg Vp.cond expired.rest
    simp only [Vp.setState, Vp.setThr]
    rw [second]
    simp only
    rw [first]
    exact .same
  | _ => exact .same

/-- The place a call goes to when it blocks, and the state it waits in. -/
inductive Parks (vp : Vp) : Label ω → ThreadState → Context → Prop
  | usleep {usecs : UTime} {state : ThreadState} (kind : state = .sleeping ∨ state = .suspended) :
    Parks vp (.call (.usleep usecs)) state .usleep
  | poll {pds : List PollFd} {timeout : UTime} : Parks vp (.call (.poll pds timeout)) .ioWait .poll
  | cond {c : CondId} {timeout : UTime} (kind : (vp.cond c).termination = false) :
    Parks vp (.call (.condTimedwait c timeout)) .condWait (.cond c none)
  | join {c : CondId} {thread : Tid} (joinable : (vp.thr thread).term = some c) (other : vp.current ≠ thread)
    (alone : (vp.cond c).waitQ = []) (alive : (vp.thr thread).state ≠ .zombie)
    (live : (vp.thr thread).context.live = true) :
    Parks vp (.call (.threadJoin thread)) .condWait (.cond c (some thread))
  | lock {m : MutexId} (held : (vp.mutex m).owner ≠ none) (other : (vp.mutex m).owner ≠ some vp.current) :
    Parks vp (.call (.mutexLock m)) .lockWait (.lock m)

/-- How a blocking call comes back: the place it waited at, the flags it leaves and its
result. -/
inductive Returns (vp : Vp) : Context → Flags → Option Ret → Prop
  | usleep : Returns vp .usleep { (vp.thr vp.current).flags with interrupt := false }
      (some (if (vp.thr vp.current).flags.interrupt then .fail .eintr else .value 0))
  | poll {n : Nat} : Returns vp .poll { (vp.thr vp.current).flags with interrupt := false }
      (some (if (vp.thr vp.current).flags.interrupt then .fail .eintr else .value n))
  | cond {c : CondId} : Returns vp (.cond c none) (vp.thr vp.current).flags.read
      (some (waitResult (vp.thr vp.current).flags))
  | joinFailed {c : CondId} {thread : Tid} (failed : waitResult (vp.thr vp.current).flags ≠ .value 0) :
    Returns vp (.cond c (some thread)) (vp.thr vp.current).flags.read
      (some (waitResult (vp.thr vp.current).flags))
  | joined {c : CondId} {thread : Tid} (signalled : waitResult (vp.thr vp.current).flags = .value 0)
    (zombie : (vp.thr thread).state = .zombie) (live : (vp.thr thread).context.live = true) :
    Returns vp (.cond c (some thread)) (vp.thr vp.current).flags.read (some (.joined (vp.thr thread).retval))
  | lock {m : MutexId} : Returns vp (.lock m) (vp.lockFlags m)
      (some (if (vp.thr vp.current).flags.interrupt ∧ (vp.mutex m).owner ≠ some vp.current then .fail .eintr
        else .value 0))

inductive Acted (vp : Vp) (l : Label ω) (out : Option Ret) : Thread → Prop
  | same (quiet : out ≠ some (.fail .eintr)) (returned : (∃ change, l = .outside change) ∨ out ≠ none)
    (call : l ≠ .resume) : Acted vp l out (vp.thr vp.current)
  | cleared {op : Op} (cause : l = .call op) (blocks : op.blocks = true)
    (flag : (vp.thr vp.current).flags.interrupt = true) (result : out = some (.fail .eintr)) :
    Acted vp l out { vp.thr vp.current with flags := { (vp.thr vp.current).flags with interrupt := false } }
  | flagged (cause : l = .call (.threadInterrupt vp.current)) (result : out = some (.value 0)) :
    Acted vp l out { vp.thr vp.current with flags := { (vp.thr vp.current).flags with interrupt := true } }
  | parked {state : ThreadState} {context : Context} (where_ : Parks vp l state context)
    (flag : (vp.thr vp.current).flags.interrupt = false) (result : out = none) :
    Acted vp l out { vp.thr vp.current with state := state, context := context }
  | began (cause : l = .resume) (place : (vp.thr vp.current).context = .fresh) (result : out = none) :
    Acted vp l out { vp.thr vp.current with context := .user }
  | returned {flags : Flags} (cause : l = .resume) (back : Returns vp (vp.thr vp.current).context flags out) :
    Acted vp l out { vp.thr vp.current with context := .user, flags := flags }
  | rejoined {c : CondId} {thread : Tid} (cause : l = .resume)
    (place : (vp.thr vp.current).context = .cond c (some thread))
    (signalled : waitResult (vp.thr vp.current).flags = .value 0) (alive : (vp.thr thread).state ≠ .zombie)
    (result : out = none) :
    Acted vp l out { vp.thr vp.current with
      state := .condWait, context := .cond c (some thread), flags := (vp.thr vp.current).flags.read }
  | died {retval : Nat} {term : CondId} (cause : l = .call (.threadExit retval))
    (joinable : (vp.thr vp.current).term = some term) (result : out = none) :
    Acted vp l out { vp.thr vp.current with state := .zombie, context := .exiting, retval := retval }
  | left {retval : Nat} (cause : l = .call (.threadExit retval)) (detached : (vp.thr vp.current).term = none)
    (result : out = none) :
    Acted vp l out { vp.thr vp.current with context := .gone, term := none, retval := retval }
  | ended {term : CondId} (cause : l = .resume) (place : (vp.thr vp.current).context = .exiting)
    (joinable : (vp.thr vp.current).term = some term) (result : out = none) :
    Acted vp l out { vp.thr vp.current with context := .gone, term := none }
  | idled {now : UTime} {time : Nat} (cause : l = .idle now time) (place : (vp.thr vp.current).context = .idle)
    (result : out = none) : Acted vp l out { vp.thr vp.current with state := .runnable }

theorem AddError.errno_ne_eintr (e : AddError) : e.errno ≠ .eintr := by
  cases e <;> simp [AddError.errno]

theorem Roused.current_same {vp vp' : Vp} {ts : List Tid} {flags : Tid → Flags} (roused : Roused vp ts flags vp')
    (awake : (vp.thr vp.current).state.blocked = false) : vp'.thr vp.current = vp.thr vp.current := by
  rw [roused.thr, if_neg]
  intro h
  have := (roused.blocked _ h).2
  rw [awake] at this
  cases this

theorem Inv.current_born {vp : Vp} (inv : Inv vp (some vp.current)) {t : Tid} (unborn : (vp.thr t).context = .unborn) :
    vp.current ≠ t := by
  rintro rfl
  have live := inv.running.1
  rw [unborn] at live
  cases live

theorem Move.self {vp vp' : Vp} {l : Label ω} {out : Option Ret} {switch : Bool}
    (move : Move vp l vp' out switch) (inv : Inv vp (some vp.current)) :
    Acted vp l out (vp'.thr vp.current) := by
  have awake := inv.current_awake
  cases move with
  | outside => exact .same (by simp) (.inl ⟨_, rfl⟩) (by simp)
  | descriptor quiet => exact .same (by simpa using quiet) (.inr (by simp)) (by simp)
  | interrupted blocks flag =>
    simp only [Vp.setInterrupt, Vp.setThr, Function.update_self]
    exact .cleared rfl blocks flag rfl
  | sleeps flag kind =>
    simp only [Vp.parked, Function.update_self]
    exact .parked (.usleep kind) flag rfl
  | @condNew cvar fresh => cases cvar <;> exact .same (by simp) (.inr (by simp)) (by simp)
  | @mutexNew lock fresh => cases lock <;> exact .same (by simp) (.inr (by simp)) (by simp)
  | waits flag kind =>
    simp only [Vp.waiting, Vp.setCond, Vp.parked, Function.update_self]
    exact .parked (.cond kind) flag rfl
  | signals kind roused =>
    rw [roused.current_same awake]
    exact .same (by simp) (.inr (by simp)) (by simp)
  | broadcasts kind roused =>
    rw [roused.current_same awake]
    exact .same (by simp) (.inr (by simp)) (by simp)
  | locks flag held other =>
    simp only [Vp.locking, Vp.setMutex, Vp.parked, Function.update_self]
    exact .parked (.lock held other) flag rfl
  | @handsOver lock thread owner waiter =>
    have state : (vp.thr thread).state = .lockWait := by simpa using List.find?_some waiter
    have other : vp.current ≠ thread := by
      rintro h
      rw [← h, inv.running.2] at state
      cases state
    simp only [Vp.woken, Vp.setOwner, Vp.setMutex, Function.update_of_ne other]
    exact .same (by simp) (.inr (by simp)) (by simp)
  | pollFails flag error =>
    exact .same (by simpa using error.errno_ne_eintr) (.inr (by simp)) (by simp)
  | polls flag =>
    simp only [Vp.polling, Vp.parked, Function.update_self]
    exact .parked .poll flag rfl
  | @creates t cvar unborn =>
    simp only [Vp.started, Function.update_of_ne (inv.current_born unborn)]
    exact .same (by simp) (.inr (by simp)) (by simp)
  | @createsJoinable t c unborn fresh =>
    simp only [Vp.started, Function.update_of_ne (inv.current_born unborn)]
    exact .same (by simp) (.inr (by simp)) (by simp)
  | exits term =>
    simp only [Vp.finished, Vp.leaving, Vp.setThr, Function.update_self]
    exact .left rfl term rfl
  | @dies retval term _ joinable roused =>
    have zombie : ((vp.dying retval).thr vp.current).state.blocked = false := by simp [Vp.dying, ThreadState.blocked]
    have same := roused.current_same zombie
    rw [show (vp.dying retval).current = vp.current from rfl] at same
    rw [same]
    simp only [Vp.dying, Function.update_self]
    exact .died rfl joinable rfl
  | joinRejected error =>
    exact .same (by obtain rfl | rfl := error <;> simp) (.inr (by simp)) (by simp)
  | joinWaits flag joinable other alone alive live =>
    simp only [Vp.waiting, Vp.setCond, Vp.parked, Function.update_self]
    exact .parked (.join joinable other alone alive live) flag rfl
  | @joins thread term joinable other alone zombie live =>
    simp only [Vp.reaped, Function.update_of_ne other]
    exact .same (by simp) (.inr (by simp)) (by simp)
  | @interruptsAwake thread live alert =>
    by_cases h : vp.current = thread
    · subst h
      simp only [Vp.setInterrupt, Vp.setThr, Function.update_self]
      exact .flagged rfl rfl
    · simp only [Vp.setInterrupt, Vp.setThr, Function.update_of_ne h]
      exact .same (by simp) (.inr (by simp)) (by simp)
  | @interruptsBlocked thread q live blocked without =>
    have other : vp.current ≠ thread := by
      rintro rfl
      rw [awake] at blocked
      cases blocked
    simp only [Vp.woken, Function.update_of_ne other]
    exact .same (by simp) (.inr (by simp)) (by simp)
  | begins place =>
    simp only [Vp.back, Vp.setThr, Function.update_self]
    exact .began rfl place rfl
  | slept place =>
    simp only [Vp.back, Vp.setThr, Function.update_self]
    exact .returned rfl (by rw [place]; exact .usleep)
  | polled place =>
    simp only [Vp.back, Vp.unlinkPoll, Vp.setThr, Function.update_self]
    exact .returned rfl (by rw [place]; exact .poll)
  | waited place =>
    simp only [Vp.back, Vp.unlinkCond, Vp.setCond, Vp.setThr, Function.update_self]
    exact .returned rfl (by rw [place]; exact .cond)
  | joinFailed place failed =>
    simp only [Vp.back, Vp.unlinkCond, Vp.setCond, Vp.setThr, Function.update_self]
    exact .returned rfl (by rw [place]; exact .joinFailed failed)
  | joinAgain place signalled alive =>
    simp only [Vp.waiting, Vp.parked, Vp.back, Vp.unlinkCond, Vp.setCond, Vp.setThr, Function.update_self]
    exact .rejoined rfl place signalled alive rfl
  | @joined cvar thread place signalled zombie live =>
    have other : vp.current ≠ thread := by
      rintro h
      rw [← h, inv.running.2] at zombie
      cases zombie
    simp only [Vp.reaped, Vp.back, Vp.unlinkCond, Vp.setCond, Vp.setThr, Function.update_of_ne other,
      Function.update_self]
    exact .returned rfl (by rw [place]; exact .joined signalled zombie live)
  | locked place =>
    simp only [Vp.back, Vp.unlinkLock, Vp.setMutex, Vp.setThr, Function.update_self]
    exact .returned rfl (by rw [place]; exact .lock)
  | @cleansUp term place joinable =>
    simp only [Vp.finished, Vp.setThr, stCondDestroy_thr, stCondDestroy_current, Function.update_self]
    exact .ended rfl place joinable rfl
  | @idles now lastTset time currTime vp₁ vp₂ ts₁ ts₂ place empty dispatched expired timers =>
    have first : vp₁.thr vp.current = vp.thr vp.current := by
      rw [dispatched.thr, if_neg]
      intro h
      have polling := (dispatched.polls _ h).1
      rw [place] at polling
      cases polling
    have second : vp₂.thr vp.current = vp.thr vp.current := by
      rw [expired.thr, if_neg, ← first]
      intro h
      have blocked := (expired.blocked _ h).2
      simp only at blocked
      rw [first, awake] at blocked
      cases blocked
    simp only [Vp.setState, Vp.setThr, Function.update_self, second]
    exact .idled rfl place rfl
  | _ => exact .same (by simp) (.inr (by simp)) (by simp)

end StateThreads
