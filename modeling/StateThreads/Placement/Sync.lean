import StateThreads.Placement.Parking

/-! What the calls of sync.c do under the invariant: none of them faults, and the
state each one leads to is written out. -/
namespace StateThreads

theorem switchContext_run {vp parked : Vp} {context : Context} (place : vp.setContext vp.current context = parked)
    (inv : Inv parked none) : switchContext vp context = some (parked.yielded, none) := by
  simp only [switchContext, place, schedule_run inv, Option.bind_eq_bind, Option.bind_some]

theorem Inv.running {vp : Vp} (inv : Inv vp (some vp.current)) :
    (vp.thr vp.current).context.live = true ∧ (vp.thr vp.current).state = .running :=
  (inv.views vp.current).running.mp (by simp)

theorem Inv.current_awake {vp : Vp} (inv : Inv vp (some vp.current)) :
    (vp.thr vp.current).state.blocked = false := by
  rw [inv.running.2]
  rfl

theorem Inv.eintr {vp : Vp} (inv : Inv vp (some vp.current)) :
    Inv (vp.setInterrupt vp.current false) (some vp.current) :=
  inv.setFlags inv.current_awake rfl fun h => h

section
variable {vp : Vp} (inv : Inv vp (some vp.current)) (user : (vp.thr vp.current).context = .user)
include inv user

theorem stUsleep_run (quiet : (vp.thr vp.current).flags.interrupt = false) (usecs : UTime) :
    ∃ state q, stUsleep vp usecs = some ((vp.parked state .usleep q).yielded, none) ∧
      (state = .sleeping ∨ state = .suspended) ∧ Inv (vp.parked state .usleep q) none := by
  have off : vp.sleepQ.onSleepq vp.current = false := (inv.current_free user).onSleepq
  unfold stUsleep
  simp only [quiet, Bool.false_eq_true, if_false]
  split
  · obtain ⟨q, run, armed, on⟩ := addSleepq_run (vp.setState vp.current .sleeping) inv.heap off usecs
    have kept := inv.sleep user quiet armed (.inl ⟨rfl, on⟩)
    refine ⟨.sleeping, q, ?_, .inl rfl, kept⟩
    rw [run]
    exact switchContext_run (by simp [Vp.setContext, Vp.setState, Vp.setThr, Vp.parked]) kept
  · have kept := inv.sleep user quiet (inv.heap.armed _) (.inr ⟨rfl, off⟩)
    refine ⟨.suspended, vp.sleepQ, ?_, .inr rfl, kept⟩
    exact switchContext_run (by simp [Vp.setContext, Vp.setState, Vp.setThr, Vp.parked]) kept

theorem stCondTimedwait_run (quiet : (vp.thr vp.current).flags.interrupt = false) {cvar : CondId}
    (allocated : (vp.cond cvar).life = .allocated) (timeout : UTime) (join : Option Tid) :
    ∃ q, stCondTimedwait vp cvar timeout join = some ((vp.waiting cvar join q).yielded, none) ∧
      Inv (vp.waiting cvar join q) none := by
  have free := inv.current_free user
  have off : vp.sleepQ.onSleepq vp.current = false := free.onSleepq
  have alone : vp.current ∉ (vp.cond cvar).waitQ := List.count_eq_zero.mp (free.cond cvar)
  unfold stCondTimedwait
  simp only [quiet, Bool.false_eq_true, if_false]
  have link : (vp.setState vp.current .condWait).appendCondLink cvar vp.current =
      some ((vp.setState vp.current .condWait).setCond cvar
        { vp.cond cvar with waitQ := (vp.cond cvar).waitQ ++ [vp.current] }) := by
    simp [Vp.appendCondLink, Vp.setState, Vp.setThr, alone]
  rw [link]
  simp only [Option.bind_eq_bind, Option.bind_some]
  obtain ⟨q, run, armed⟩ := armSleepq_run ((vp.setState vp.current .condWait).setCond cvar
    { vp.cond cvar with waitQ := (vp.cond cvar).waitQ ++ [vp.current] }) inv.heap off timeout
  have kept := inv.wait user join quiet armed allocated
  refine ⟨q, ?_, kept⟩
  rw [run]
  exact switchContext_run
    (by simp [Vp.setContext, Vp.setState, Vp.setThr, Vp.parked, Vp.waiting, Vp.setCond]) kept

theorem stMutexLock_run (quiet : (vp.thr vp.current).flags.interrupt = false) {lock : MutexId}
    (allocated : (vp.mutex lock).life = .allocated) (held : (vp.mutex lock).owner ≠ none)
    (other : (vp.mutex lock).owner ≠ some vp.current) :
    stMutexLock vp lock = some ((vp.locking lock).yielded, none) ∧ Inv (vp.locking lock) none := by
  have alone : vp.current ∉ (vp.mutex lock).waitQ :=
    List.count_eq_zero.mp ((inv.current_free user).lock lock)
  have kept := inv.lock user quiet allocated
  refine ⟨?_, kept⟩
  unfold stMutexLock
  simp only [quiet, Bool.false_eq_true, if_false, held, other]
  have link : (vp.setState vp.current .lockWait).appendMutexLink lock vp.current =
      some ((vp.setState vp.current .lockWait).setMutex lock
        { vp.mutex lock with waitQ := (vp.mutex lock).waitQ ++ [vp.current] }) := by
    simp [Vp.appendMutexLink, Vp.setState, Vp.setThr, alone]
  rw [link]
  exact switchContext_run
    (by simp [Vp.setContext, Vp.setState, Vp.setThr, Vp.parked, Vp.locking, Vp.setMutex]) kept

end

theorem Inv.setOwner {vp : Vp} {r : Option Tid} (inv : Inv vp r) (lock : MutexId) (owner : Option Tid) :
    Inv (vp.setOwner lock owner) r where
  views t := by
    have same : (vp.setOwner lock owner).view r t = vp.view r t := by
      simp only [Vp.view, Vp.setOwner, Vp.setMutex]
      congr 1
      funext m
      by_cases h : m = lock
      · subst h; simp
      · simp [h]
    rw [same]
    exact inv.views t
  heap := inv.heap
  objects := inv.objects.setMutex (inv.objects.mutexes lock)

/- Resuming. -/

theorem Inv.linked_cond {vp : Vp} {r : Option Tid} (inv : Inv vp r) {t : Tid} {cvar : CondId} {join : Option Tid}
    (place : (vp.thr t).context = .cond cvar join) : t ∈ (vp.cond cvar).waitQ := by
  have count := (inv.views t).cond cvar
  apply List.count_pos_iff.mp
  simp only [Vp.view, place, Context.waitsCond, decide_true, if_true] at count
  omega

theorem Inv.linked_lock {vp : Vp} {r : Option Tid} (inv : Inv vp r) {t : Tid} {lock : MutexId}
    (place : (vp.thr t).context = .lock lock) : t ∈ (vp.mutex lock).waitQ := by
  have count := (inv.views t).lock lock
  apply List.count_pos_iff.mp
  simp only [Vp.view, place, Context.waitsLock, decide_true, if_true] at count
  omega

def Flags.read (f : Flags) : Flags := { f with timedout := false, interrupt := false }

theorem stUsleepResume_run {vp : Vp} (inv : Inv vp (some vp.current))
    (place : (vp.thr vp.current).context = .usleep) :
    stUsleepResume vp = some (vp.back { (vp.thr vp.current).flags with interrupt := false },
        some (if (vp.thr vp.current).flags.interrupt then .fail .eintr else .value 0)) ∧
      Inv (vp.back { (vp.thr vp.current).flags with interrupt := false }) (some vp.current) := by
  have quiet : (vp.thr vp.current).flags.timedout = false := by
    have h := (inv.views vp.current).timedout
    simpa [place, Context.inCond] using h
  refine ⟨?_, inv.unpark _ rfl quiet (.inr place)⟩
  unfold stUsleepResume
  by_cases flag : (vp.thr vp.current).flags.interrupt = true
  · simp [Vp.setContext, Vp.setThr, Vp.eintr, Vp.setInterrupt, Vp.back, flag]
  · have same : { (vp.thr vp.current).flags with interrupt := false } = (vp.thr vp.current).flags := by
      rw [← Bool.eq_false_of_not_eq_true flag]
    simp [Vp.setContext, Vp.setThr, Vp.back, flag, same]

theorem stCondTimedwaitResume_run {vp : Vp} (inv : Inv vp (some vp.current)) {cvar : CondId} {join : Option Tid}
    (place : (vp.thr vp.current).context = .cond cvar join) :
    stCondTimedwaitResume vp cvar = some ((vp.unlinkCond cvar).back (vp.thr vp.current).flags.read,
        waitResult (vp.thr vp.current).flags) ∧
      Inv ((vp.unlinkCond cvar).back (vp.thr vp.current).flags.read) (some vp.current) := by
  refine ⟨?_, inv.unwait (vp.thr vp.current).flags.read rfl rfl place⟩
  have linked := inv.linked_cond place
  simp [stCondTimedwaitResume, Vp.removeCondLink, linked, Vp.setTimedout, Vp.setInterrupt, Vp.setContext, Vp.setThr,
    Vp.setCond, Vp.back, Vp.unlinkCond, Flags.read]

def Vp.lockFlags (vp : Vp) (lock : MutexId) : Flags :=
  { (vp.thr vp.current).flags with
    interrupt := (vp.thr vp.current).flags.interrupt && (vp.mutex lock).owner = some vp.current }

theorem Vp.lockFlags_kept (vp : Vp) {lock : MutexId}
    (kept : ¬((vp.thr vp.current).flags.interrupt = true ∧ (vp.mutex lock).owner ≠ some vp.current)) :
    vp.lockFlags lock = (vp.thr vp.current).flags := by
  have same : ((vp.thr vp.current).flags.interrupt && decide ((vp.mutex lock).owner = some vp.current)) =
      (vp.thr vp.current).flags.interrupt := by
    cases flag : (vp.thr vp.current).flags.interrupt <;> simp_all
  rw [Vp.lockFlags, same]

theorem stMutexLockResume_run {vp : Vp} (inv : Inv vp (some vp.current)) {lock : MutexId}
    (place : (vp.thr vp.current).context = .lock lock) :
    stMutexLockResume vp lock = some ((vp.unlinkLock lock).back (vp.lockFlags lock),
        some (if (vp.thr vp.current).flags.interrupt ∧ (vp.mutex lock).owner ≠ some vp.current then .fail .eintr
          else .value 0)) ∧
      Inv ((vp.unlinkLock lock).back (vp.lockFlags lock)) (some vp.current) := by
  have quiet : (vp.thr vp.current).flags.timedout = false := by
    have h := (inv.views vp.current).timedout
    simpa [place, Context.inCond] using h
  refine ⟨?_, inv.unlock (vp.lockFlags lock) rfl quiet place⟩
  have linked := inv.linked_lock place
  by_cases lost : (vp.thr vp.current).flags.interrupt = true ∧ (vp.mutex lock).owner ≠ some vp.current
  · simp [stMutexLockResume, Vp.removeMutexLink, linked, Vp.setContext, Vp.setThr, Vp.setMutex, Vp.eintr,
      Vp.setInterrupt, Vp.back, Vp.unlinkLock, Vp.lockFlags, lost]
  · rw [if_neg lost, vp.lockFlags_kept lost]
    simp [stMutexLockResume, Vp.removeMutexLink, linked, Vp.setContext, Vp.setThr, Vp.setMutex, Vp.back,
      Vp.unlinkLock, lost]

end StateThreads
