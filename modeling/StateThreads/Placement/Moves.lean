import StateThreads.Placement.View

/-! The moves that calls are made of, each with the state it leads to and the
invariant there. -/
namespace StateThreads

def Vp.woken (vp : Vp) (t : Tid) (q : SleepQ) (flags : Flags) : Vp :=
  { vp with
    sleepQ := q
    runQ := vp.runQ ++ [t]
    thr := Function.update vp.thr t { vp.thr t with state := .runnable, flags := flags } }

def Vp.switched (vp : Vp) (u : Tid) (rest : List Tid) : Vp :=
  { vp with
    runQ := rest
    current := u
    thr := Function.update vp.thr u { vp.thr u with state := .running } }

structure SleepQ.Without (q : SleepQ) (t : Tid) (q' : SleepQ) : Prop where
  flagged : q'.Flagged
  off : q'.onSleepq = Function.update q.onSleepq t false
  due : q'.due = q.due

theorem SleepQ.Flagged.without {q : SleepQ} (ok : q.Flagged) {t : Tid} (off : q.onSleepq t = false) :
    q.Without t q :=
  ⟨ok, by rw [← off, Function.update_eq_self], rfl⟩

theorem offSleepq_run (vp : Vp) (heap : vp.sleepQ.Flagged) (t : Tid) :
    ∃ q, vp.offSleepq t = some { vp with sleepQ := q } ∧ vp.sleepQ.Without t q := by
  unfold Vp.offSleepq
  split
  · rename_i on
    obtain ⟨q, run, flagged, off, due, -⟩ := heap.del on
    exact ⟨q, by simp [Vp.delSleepq, run], flagged, off, due⟩
  · rename_i off
    exact ⟨vp.sleepQ, rfl, heap.without (by simpa using off)⟩

theorem addRunq_run (vp : Vp) {t : Tid} (noRun : t ∉ vp.runQ) (noZombie : t ∉ vp.zombieQ) :
    vp.addRunq t = some { vp with runQ := vp.runQ ++ [t] } := by
  simp [Vp.addRunq, noRun, noZombie]

theorem makeRunnable_run (vp : Vp) {t : Tid} (noRun : t ∉ vp.runQ) (noZombie : t ∉ vp.zombieQ) :
    vp.makeRunnable t = some (vp.woken t vp.sleepQ (vp.thr t).flags) := by
  simp [Vp.makeRunnable, Vp.addRunq, Vp.setState, Vp.setThr, Vp.woken, noRun, noZombie]

theorem Inv.offQueues {vp : Vp} {r : Option Tid} (inv : Inv vp r) {t : Tid}
    (blocked : (vp.thr t).state.blocked = true) : t ∉ vp.runQ ∧ t ∉ vp.zombieQ := by
  obtain ⟨notRunnable, -, notZombie⟩ := ThreadState.blocked_spec blocked
  have run := (inv.views t).run
  have zombie := (inv.views t).zombie
  simp only [Vp.view, notRunnable, notZombie, false_and, and_false, if_false] at run zombie
  exact ⟨List.count_eq_zero.mp run, List.count_eq_zero.mp zombie⟩

theorem Inv.woken {vp : Vp} {r : Option Tid} (inv : Inv vp r) {t : Tid} {q : SleepQ} {flags : Flags}
    (live : (vp.thr t).context.live = true) (blocked : (vp.thr t).state.blocked = true)
    (without : vp.sleepQ.Without t q) (idle : flags.idleThread = (vp.thr t).flags.idleThread)
    (timedout : flags.timedout = true → (vp.thr t).context.inCond = true) : Inv (vp.woken t q flags) r := by
  refine inv.change t ?_ ?_ without.flagged (inv.objects.same rfl rfl ?_)
  · intro u hu
    simp [Vp.view, Vp.woken, hu, without.off, Ne.symm hu]
  · have ok := (inv.views t).wake flags live blocked idle timedout
    simpa [Vp.view, Vp.woken, without.off] using ok
  · intro u
    by_cases h : u = t
    · subst h; simp [Vp.woken]
    · simp [Vp.woken, h]

theorem Inv.setFlags {vp : Vp} {r : Option Tid} (inv : Inv vp r) {t : Tid} {flags : Flags}
    (awake : (vp.thr t).state.blocked = false) (idle : flags.idleThread = (vp.thr t).flags.idleThread)
    (timedout : flags.timedout = true → (vp.thr t).flags.timedout = true) :
    Inv (vp.setThr t { vp.thr t with flags := flags }) r := by
  refine inv.change t ?_ ?_ inv.heap (inv.objects.same rfl rfl ?_)
  · intro u hu
    simp [Vp.view, Vp.setThr, hu]
  · have ok := (inv.views t).flags flags awake idle timedout
    simpa [Vp.view, Vp.setThr] using ok
  · intro u
    by_cases h : u = t
    · subst h; simp [Vp.setThr]
    · simp [Vp.setThr, h]

theorem Inv.next {vp : Vp} (inv : Inv vp none) :
    (vp.thr (nextThread vp).1).state = .runnable ∧ (vp.thr (nextThread vp).1).context.live = true ∧
      ∀ u, (nextThread vp).2.count u =
        if u = (nextThread vp).1 ∧ (vp.thr u).context ≠ .idle then vp.runQ.count u - 1 else vp.runQ.count u := by
  unfold nextThread
  split
  · rename_i thread rest queue
    have run := (inv.views thread).run
    simp only [Vp.view, queue, List.count_cons_self] at run
    split at run
    · rename_i placed
      refine ⟨placed.2.1, placed.1, fun u => ?_⟩
      by_cases h : u = thread
      · subst h; simp [queue, placed.2.2]
      · simp [queue, h, Ne.symm h]
    · omega
  · rename_i queue
    have idle := (inv.views vp.idleThread).idle.mp (by simp [Vp.view])
    have running := (inv.views vp.idleThread).running
    have fits := (inv.views vp.idleThread).fits
    simp only [Vp.view] at idle running fits
    have live : (vp.thr vp.idleThread).context.live = true := by rw [idle]; rfl
    refine ⟨?_, live, fun u => by simp [queue]⟩
    rw [idle] at fits
    have notRunning : (vp.thr vp.idleThread).state ≠ .running := by simpa [live] using running
    simpa [Context.fits, notRunning] using fits

def Vp.yielded (vp : Vp) : Vp := vp.switched (nextThread vp).1 (nextThread vp).2

theorem schedule_run {vp : Vp} (inv : Inv vp none) : stVpSchedule vp = some vp.yielded := by
  have runnable := inv.next.1
  simp only [stVpSchedule, Vp.setState, Vp.setThr, Vp.yielded, Vp.switched]
  rw [if_pos runnable]

theorem Inv.yielded {vp : Vp} (inv : Inv vp none) : Inv vp.yielded (some vp.yielded.current) := by
  obtain ⟨runnable, live, counts⟩ := inv.next
  refine inv.change (nextThread vp).1 ?_ ?_ inv.heap (inv.objects.same rfl rfl ?_)
  · intro u hu
    simp [Vp.view, Vp.yielded, Vp.switched, counts u, hu, Ne.symm hu]
  · have ok := (inv.views (nextThread vp).1).pick live runnable
    simp only [Vp.view] at ok
    simp only [Vp.view, Vp.yielded, Vp.switched, Function.update_self, counts, true_and, beq_self_eq_true]
    convert ok using 2
    by_cases h : (vp.thr (nextThread vp).1).context = .idle <;> simp [h]
  · intro u
    by_cases h : u = (nextThread vp).1
    · subst h; simp [Vp.yielded, Vp.switched]
    · simp [Vp.yielded, Vp.switched, h]

end StateThreads
