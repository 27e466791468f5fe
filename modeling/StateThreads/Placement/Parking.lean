import StateThreads.Placement.Moves

/-! How the current thread gives up the processor and how it comes back. -/
namespace StateThreads

/-- The current thread has given up the processor. -/
def Vp.parked (vp : Vp) (state : ThreadState) (context : Context) (q : SleepQ) : Vp :=
  { vp with
    sleepQ := q
    thr := Function.update vp.thr vp.current { vp.thr vp.current with state := state, context := context } }

def Vp.waiting (vp : Vp) (cvar : CondId) (join : Option Tid) (q : SleepQ) : Vp :=
  (vp.parked .condWait (.cond cvar join) q).setCond cvar
    { vp.cond cvar with waitQ := (vp.cond cvar).waitQ ++ [vp.current] }

def Vp.locking (vp : Vp) (lock : MutexId) : Vp :=
  (vp.parked .lockWait (.lock lock) vp.sleepQ).setMutex lock
    { vp.mutex lock with waitQ := (vp.mutex lock).waitQ ++ [vp.current] }

def Vp.polling (vp : Vp) (pds : List PollFd) (q : SleepQ) : Vp :=
  { vp.parked .ioWait .poll q with
    ioQ := vp.ioQ ++ [vp.current]
    pollq := Function.update vp.pollq vp.current ⟨pds, true⟩ }

def Vp.dying (vp : Vp) (retval : Nat) : Vp :=
  { vp with
    activeCount := vp.activeCount - 1
    zombieQ := vp.zombieQ ++ [vp.current]
    thr := Function.update vp.thr vp.current
      { vp.thr vp.current with state := .zombie, context := .exiting, retval := retval } }

def Vp.back (vp : Vp) (flags : Flags) : Vp :=
  vp.setThr vp.current { vp.thr vp.current with context := .user, flags := flags }

def Vp.unlinkCond (vp : Vp) (cvar : CondId) : Vp :=
  vp.setCond cvar { vp.cond cvar with waitQ := (vp.cond cvar).waitQ.erase vp.current }

def Vp.unlinkLock (vp : Vp) (lock : MutexId) : Vp :=
  vp.setMutex lock { vp.mutex lock with waitQ := (vp.mutex lock).waitQ.erase vp.current }

def Vp.unlinkPoll (vp : Vp) : Vp := { vp with ioQ := vp.ioQ.erase vp.current }

structure SleepQ.Armed (q : SleepQ) (t : Tid) (q' : SleepQ) : Prop where
  flagged : q'.Flagged
  others : ∀ u, u ≠ t → q'.onSleepq u = q.onSleepq u

theorem SleepQ.Flagged.armed {q : SleepQ} (ok : q.Flagged) (t : Tid) : q.Armed t q := ⟨ok, fun _ _ => rfl⟩

theorem addSleepq_run (vp : Vp) (heap : vp.sleepQ.Flagged) {t : Tid} (off : vp.sleepQ.onSleepq t = false)
    (timeout : UTime) :
    ∃ q, vp.addSleepq t timeout = some { vp with sleepQ := q } ∧ vp.sleepQ.Armed t q ∧ q.onSleepq t = true := by
  obtain ⟨q, run, flagged, on, -⟩ := heap.add off vp.lastClock timeout
  refine ⟨q, by simp [Vp.addSleepq, run], ⟨flagged, fun u hu => ?_⟩, ?_⟩
  · rw [on, Function.update_of_ne hu]
  · rw [on, Function.update_self]

theorem armSleepq_run (vp : Vp) (heap : vp.sleepQ.Flagged) {t : Tid} (off : vp.sleepQ.onSleepq t = false)
    (timeout : UTime) :
    ∃ q, vp.armSleepq t timeout = some { vp with sleepQ := q } ∧ vp.sleepQ.Armed t q := by
  unfold Vp.armSleepq
  split
  · obtain ⟨q, run, armed, -⟩ := addSleepq_run vp heap off timeout
    exact ⟨q, run, armed⟩
  · exact ⟨vp.sleepQ, rfl, heap.armed t⟩

section
variable {vp : Vp} (inv : Inv vp (some vp.current)) (user : (vp.thr vp.current).context = .user)
include inv

include user in
theorem Inv.current_free : (vp.view (some vp.current) vp.current).Free := (inv.views vp.current).free user

theorem Inv.parked_objects (state : ThreadState) (context : Context) (q : SleepQ) :
    Objects (vp.parked state context q) :=
  (inv.objects.setThr (t := vp.current)
    { vp.thr vp.current with state := state, context := context } rfl).same rfl rfl fun _ => rfl

include user in
theorem Inv.sleep {state : ThreadState} {q : SleepQ} (quiet : (vp.thr vp.current).flags.interrupt = false)
    (armed : vp.sleepQ.Armed vp.current q)
    (kind : state = .sleeping ∧ q.onSleepq vp.current = true ∨
      state = .suspended ∧ q.onSleepq vp.current = false) :
    Inv (vp.parked state .usleep q) none := by
  refine inv.change vp.current ?_ ?_ armed.flagged (inv.parked_objects _ _ _)
  · intro u hu
    simp [Vp.view, Vp.parked, hu, Ne.symm hu, armed.others u hu]
  · have free := inv.current_free user
    simp only [Vp.view, Vp.parked, Function.update_self]
    apply free.park
    case fits => obtain ⟨rfl, -⟩ | ⟨rfl, -⟩ := kind <;> rfl
    case blocked => obtain ⟨rfl, -⟩ | ⟨rfl, -⟩ := kind <;> rfl
    case live => rfl
    case interrupt => exact quiet
    case inIo => simpa using free.io
    case inCond => exact free.cond
    case inLock => exact free.lock
    all_goals obtain ⟨rfl, h⟩ | ⟨rfl, h⟩ := kind <;> simp [h]

include user in
theorem Inv.wait {q : SleepQ} {cvar : CondId} (join : Option Tid)
    (quiet : (vp.thr vp.current).flags.interrupt = false) (armed : vp.sleepQ.Armed vp.current q)
    (allocated : (vp.cond cvar).life = .allocated) :
    Inv (vp.waiting cvar join q) none := by
  have free := inv.current_free user
  refine inv.change vp.current ?_ ?_ armed.flagged ?_
  · intro u hu
    simp only [Vp.view, Vp.waiting, Vp.parked, Vp.setCond, Function.update_of_ne hu, armed.others u hu]
    congr 1
    · funext c
      by_cases hc : c = cvar
      · subst hc; simp [Ne.symm hu]
      · simp [hc]
    · simp [Ne.symm hu]
  · simp only [Vp.view, Vp.waiting, Vp.parked, Vp.setCond, Function.update_self]
    apply free.park
    case fits => rfl
    case blocked => rfl
    case live => rfl
    case interrupt => exact quiet
    case inIo => simpa using free.io
    case inCond =>
      intro c
      have none := free.cond c
      by_cases hc : c = cvar
      · subst hc; simpa [Context.waitsCond] using none
      · simpa [Context.waitsCond, hc, Ne.symm hc] using none
    case inLock => exact free.lock
    all_goals simp
  · exact (inv.parked_objects .condWait (.cond cvar join) q).setWaitQ fun _ => allocated

include user in
theorem Inv.lock {lock : MutexId} (quiet : (vp.thr vp.current).flags.interrupt = false)
    (allocated : (vp.mutex lock).life = .allocated) :
    Inv (vp.locking lock) none := by
  have free := inv.current_free user
  refine inv.change vp.current ?_ ?_ inv.heap ?_
  · intro u hu
    simp only [Vp.view, Vp.locking, Vp.parked, Vp.setMutex, Function.update_of_ne hu]
    congr 1
    · funext m
      by_cases hm : m = lock
      · subst hm; simp [Ne.symm hu]
      · simp [hm]
    · simp [Ne.symm hu]
  · simp only [Vp.view, Vp.locking, Vp.parked, Vp.setMutex, Function.update_self]
    apply free.park
    case fits => rfl
    case blocked => rfl
    case live => rfl
    case interrupt => exact quiet
    case inIo => simpa using free.io
    case inCond => exact free.cond
    case inLock =>
      intro m
      have none := free.lock m
      by_cases hm : m = lock
      · subst hm; simpa [Context.waitsLock] using none
      · simpa [Context.waitsLock, hm, Ne.symm hm] using none
    case timed => intro h; simp [show vp.sleepQ.onSleepq vp.current = false from free.onSleepq] at h
    all_goals simp
  · exact (inv.parked_objects _ _ _).setMutex fun _ => allocated

include user in
theorem Inv.poll {q : SleepQ} (pds : List PollFd) (quiet : (vp.thr vp.current).flags.interrupt = false)
    (armed : vp.sleepQ.Armed vp.current q) :
    Inv (vp.polling pds q) none := by
  have free := inv.current_free user
  refine inv.change vp.current ?_ ?_ armed.flagged
    ((inv.parked_objects .ioWait .poll q).same rfl rfl fun _ => rfl)
  · intro u hu
    simp [Vp.view, Vp.polling, Vp.parked, hu, Ne.symm hu, armed.others u hu]
  · simp only [Vp.view, Vp.polling, Vp.parked, Function.update_self]
    apply free.park
    case fits => rfl
    case blocked => rfl
    case live => rfl
    case interrupt => exact quiet
    case inIo => simpa using free.io
    case inCond => exact free.cond
    case inLock => exact free.lock
    all_goals simp

include user in
theorem Inv.die (retval : Nat) (joinable : (vp.thr vp.current).term ≠ none) :
    Inv (vp.dying retval) none := by
  refine inv.change vp.current ?_ ?_ inv.heap
    (Objects.same (inv.objects.setThr (t := vp.current)
      { vp.thr vp.current with state := .zombie, context := .exiting, retval := retval } rfl) rfl rfl ?_)
  · intro u hu
    simp [Vp.view, Vp.dying, hu, Ne.symm hu]
  · have ok := (inv.current_free user).die retval joinable
    simpa [Vp.view, Vp.dying] using ok
  · intro u; rfl

end

/- The current thread goes on from a resume point. -/

section
variable {vp : Vp} (inv : Inv vp (some vp.current)) (flags : Flags)
  (idle : flags.idleThread = (vp.thr vp.current).flags.idleThread) (timedout : flags.timedout = false)
include inv

include idle timedout

theorem Inv.unpark (place : (vp.thr vp.current).context = .fresh ∨ (vp.thr vp.current).context = .usleep) :
    Inv (vp.back flags) (some vp.current) := by
  have ok := inv.views vp.current
  have io := ok.io
  have cond := ok.cond
  have lock := ok.lock
  refine inv.change vp.current ?_ ?_ inv.heap (inv.objects.setThr _ rfl)
  · intro u hu
    simp [Vp.view, Vp.back, Vp.setThr, hu]
  · simp only [Vp.view, Vp.back, Vp.setThr, Function.update_self]
    apply ok.unpark (by simp) (by obtain h | h := place <;> simp [h, Context.resumes]) idle timedout
    · obtain h | h := place <;> simpa [h] using io
    · obtain h | h := place <;> simpa [h, Context.waitsCond] using cond
    · obtain h | h := place <;> simpa [h, Context.waitsLock] using lock

theorem Inv.unwait {cvar : CondId} {join : Option Tid} (place : (vp.thr vp.current).context = .cond cvar join) :
    Inv ((vp.unlinkCond cvar).back flags) (some vp.current) := by
  have ok := inv.views vp.current
  have io := ok.io
  have cond := ok.cond
  have lock := ok.lock
  simp only [Vp.view, place, Context.waitsCond, decide_eq_true_eq] at io cond lock
  refine inv.change vp.current ?_ ?_ inv.heap ?_
  · intro u hu
    simp only [Vp.view, Vp.back, Vp.unlinkCond, Vp.setThr, Vp.setCond, Function.update_of_ne hu]
    congr 1
    funext c
    by_cases hc : c = cvar
    · subst hc; simp [List.count_erase_of_ne (Ne.symm hu).symm]
    · simp [hc]
  · simp only [Vp.view, Vp.back, Vp.unlinkCond, Vp.setThr, Vp.setCond, Function.update_self]
    apply ok.unpark (by simp) (by simp [place, Context.resumes]) idle timedout
    · simpa using io
    · intro c
      by_cases hc : c = cvar
      · subst hc; simp [cond]
      · simp [hc, cond, Ne.symm hc]
    · simpa [Context.waitsLock] using lock
  · refine Objects.setThr (inv.objects.setWaitQ fun h => ?_) _ (by rfl)
    apply inv.objects.conds
    intro none
    simp [none] at h

theorem Inv.unlock {lock : MutexId} (place : (vp.thr vp.current).context = .lock lock) :
    Inv ((vp.unlinkLock lock).back flags) (some vp.current) := by
  have ok := inv.views vp.current
  have io := ok.io
  have cond := ok.cond
  have locked := ok.lock
  simp only [Vp.view, place, Context.waitsLock, decide_eq_true_eq] at io cond locked
  refine inv.change vp.current ?_ ?_ inv.heap ?_
  · intro u hu
    simp only [Vp.view, Vp.back, Vp.unlinkLock, Vp.setThr, Vp.setMutex, Function.update_of_ne hu]
    congr 1
    funext m
    by_cases hm : m = lock
    · subst hm; simp [List.count_erase_of_ne (Ne.symm hu).symm]
    · simp [hm]
  · simp only [Vp.view, Vp.back, Vp.unlinkLock, Vp.setThr, Vp.setMutex, Function.update_self]
    apply ok.unpark (by simp) (by simp [place, Context.resumes]) idle timedout
    · simpa using io
    · simpa [Context.waitsCond] using cond
    · intro m
      by_cases hm : m = lock
      · subst hm; simp [locked]
      · simp [hm, locked, Ne.symm hm]
  · refine Objects.setThr (inv.objects.setMutex fun h => ?_) _ (by rfl)
    apply inv.objects.mutexes
    intro none
    simp [none] at h

theorem Inv.unpoll (place : (vp.thr vp.current).context = .poll) :
    Inv (vp.unlinkPoll.back flags) (some vp.current) := by
  have ok := inv.views vp.current
  have io := ok.io
  have cond := ok.cond
  have lock := ok.lock
  simp only [Vp.view, place, true_and] at io cond lock
  refine inv.change vp.current ?_ ?_ inv.heap 
    (Objects.same (inv.objects.setThr (t := vp.current)
      { vp.thr vp.current with context := .user, flags := flags } rfl) rfl rfl ?_)
  · intro u hu
    simp [Vp.view, Vp.back, Vp.unlinkPoll, Vp.setThr, hu, List.count_erase_of_ne (Ne.symm hu).symm]
  · simp only [Vp.view, Vp.back, Vp.unlinkPoll, Vp.setThr, Function.update_self]
    apply ok.unpark (by simp) (by simp [place, Context.resumes]) idle timedout
    · rw [List.count_erase_self, io]; split <;> rfl
    · simpa [Context.waitsCond] using cond
    · simpa [Context.waitsLock] using lock
  · intro u; rfl

end
end StateThreads
