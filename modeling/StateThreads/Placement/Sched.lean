import StateThreads.Placement.Dispatch

/-! What the calls of sched.c do under the invariant. -/
namespace StateThreads

variable {σ ω : Type}

/-- The first lines of st_thread_exit. -/
def Vp.leaving (vp : Vp) (retval : Nat) : Vp :=
  { vp with
    activeCount := vp.activeCount - 1
    thr := Function.update vp.thr vp.current { vp.thr vp.current with retval := retval } }

def Vp.finished (vp : Vp) (term : Option CondId) : Vp :=
  vp.setThr vp.current { vp.thr vp.current with context := .gone, term := term }

def Vp.reaped (vp : Vp) (t : Tid) : Vp :=
  { vp with
    runQ := vp.runQ ++ [t]
    zombieQ := vp.zombieQ.erase t
    thr := Function.update vp.thr t { vp.thr t with state := .runnable } }

def Vp.started (vp : Vp) (t : Tid) (term : Option CondId) : Vp :=
  { vp with
    activeCount := vp.activeCount + 1
    runQ := vp.runQ ++ [t]
    thr := Function.update vp.thr t ⟨.runnable, ⟨false, false, false, false⟩, 0, term, .fresh⟩ }

theorem Inv.clock {vp : Vp} {r : Option Tid} (inv : Inv vp r) (lastClock lastTset : UTime) (currTime : Nat)
    (activeCount : Int) :
    Inv { vp with lastClock := lastClock, lastTset := lastTset, currTime := currTime, activeCount := activeCount } r :=
  ⟨inv.views, inv.heap, inv.objects.same rfl rfl fun _ => rfl⟩

theorem stVpCheckClock_run {vp : Vp} {r : Option Tid} (inv : Inv vp r) (now : UTime) (time : Nat) :
    ∃ vp' ts lastTset currTime, stVpCheckClock vp now time = some vp' ∧ Inv vp' r ∧
      Roused { vp with lastClock := now, lastTset := lastTset, currTime := currTime } ts
        (fun t => (vp.thr t).expired) vp' ∧ vp.sleepQ.Expires now ts := by
  by_cases stale : vp.currTime ≠ 0 ∧ 999000 < now - vp.lastTset
  · obtain ⟨vp', ts, run, inv', roused, expires⟩ :=
      checkClockLoop_run now (vp.sleepQ.sleepqSize + 1) (inv.clock now now time vp.activeCount) (Nat.lt_succ_self _)
    exact ⟨vp', ts, now, time, by simpa only [stVpCheckClock, if_pos stale] using run, inv', roused, expires⟩
  · obtain ⟨vp', ts, run, inv', roused, expires⟩ := checkClockLoop_run now (vp.sleepQ.sleepqSize + 1)
      (inv.clock now vp.lastTset vp.currTime vp.activeCount) (Nat.lt_succ_self _)
    exact ⟨vp', ts, vp.lastTset, vp.currTime, by simpa only [stVpCheckClock, if_neg stale] using run, inv', roused,
      expires⟩

theorem Inv.rest {vp : Vp} (inv : Inv vp (some vp.current)) (idle : (vp.thr vp.current).context = .idle) :
    Inv (vp.setState vp.current .runnable) none := by
  refine inv.change vp.current ?_ ?_ inv.heap (inv.objects.setThr _ rfl)
  · intro u hu
    simp [Vp.view, Vp.setState, Vp.setThr, hu, Ne.symm hu]
  · have ok := (inv.views vp.current).rest idle (by simp)
    simpa [Vp.view, Vp.setState, Vp.setThr] using ok

theorem Inv.finished {vp : Vp} (inv : Inv vp (some vp.current)) (term : Option CondId)
    (last : (vp.thr vp.current).context = .user ∨ (vp.thr vp.current).context = .exiting)
    (objects : Objects (vp.finished term)) : Inv (vp.finished term) none := by
  refine inv.change vp.current ?_ ?_ inv.heap objects
  · intro u hu
    simp [Vp.view, Vp.finished, Vp.setThr, hu, Ne.symm hu]
  · have ok := (inv.views vp.current).finish (by simp) last term
    simpa [Vp.view, Vp.finished, Vp.setThr] using ok

theorem Inv.reaped {vp : Vp} {r : Option Tid} (inv : Inv vp r) {t : Tid}
    (live : (vp.thr t).context.live = true) (zombie : (vp.thr t).state = .zombie) :
    t ∈ vp.zombieQ ∧ t ∉ vp.runQ ∧ t ∉ vp.zombieQ.erase t ∧ Inv (vp.reaped t) r := by
  obtain ⟨-, run, count, ok⟩ := (inv.views t).reap live zombie
  simp only [Vp.view_run, Vp.view_zombie] at run count
  refine ⟨List.count_pos_iff.mp (by omega), List.count_eq_zero.mp run, ?_, ?_⟩
  · apply List.count_eq_zero.mp
    rw [List.count_erase_self]
    omega
  · refine inv.change t ?_ ?_ inv.heap
      (Objects.same (inv.objects.setThr (t := t) { vp.thr t with state := .runnable } rfl) rfl rfl ?_)
    · intro u hu
      simp [Vp.view, Vp.reaped, hu, Ne.symm hu, List.count_erase_of_ne hu]
    · simpa [Vp.view, Vp.reaped] using ok
    · intro u; rfl

theorem Inv.started {vp : Vp} {r : Option Tid} (inv : Inv vp r) {t : Tid} (term : Option CondId)
    (unborn : (vp.thr t).context = .unborn) (objects : Objects (vp.started t term)) :
    t ∉ vp.runQ ∧ t ∉ vp.zombieQ ∧ Inv (vp.started t term) r := by
  obtain ⟨run, zombie, ok⟩ := (inv.views t).create unborn term
  refine ⟨List.count_eq_zero.mp run, List.count_eq_zero.mp zombie, ?_⟩
  refine inv.change t ?_ ?_ inv.heap objects
  · intro u hu
    simp [Vp.view, Vp.started, hu, Ne.symm hu]
  · simpa [Vp.view, Vp.started] using ok

/- Objects that come and go have no waiters, so no view changes with them. -/

theorem Inv.setCond_empty {vp : Vp} {r : Option Tid} (inv : Inv vp r) {c : CondId} (cv : Cond)
    (was : (vp.cond c).waitQ = []) (is : cv.waitQ = []) (objects : Objects (vp.setCond c cv)) :
    Inv (vp.setCond c cv) r where
  views t := by
    have same : (vp.setCond c cv).view r t = vp.view r t := by
      simp only [Vp.view, Vp.setCond]
      congr 1
      funext d
      by_cases h : d = c
      · subst h; simp [was, is]
      · simp [h]
    rw [same]
    exact inv.views t
  heap := inv.heap
  objects := objects

theorem Inv.setMutex_empty {vp : Vp} {r : Option Tid} (inv : Inv vp r) {m : MutexId} {mx : Mutex}
    (was : (vp.mutex m).waitQ = []) (is : mx.waitQ = []) : Inv (vp.setMutex m mx) r where
  views t := by
    have same : (vp.setMutex m mx).view r t = vp.view r t := by
      simp only [Vp.view, Vp.setMutex]
      congr 1
      funext n
      by_cases h : n = m
      · subst h; simp [was, is]
      · simp [h]
    rw [same]
    exact inv.views t
  heap := inv.heap
  objects := inv.objects.setMutex fun h => absurd is h

theorem Objects.unborn_cond {vp : Vp} (obj : Objects vp) {c : CondId} (fresh : (vp.cond c).life = .unborn) :
    (vp.cond c).waitQ = [] := by
  by_contra h
  have := obj.conds c h
  rw [fresh] at this
  cases this

theorem Objects.setCond {vp : Vp} (obj : Objects vp) {c : CondId} {cv : Cond} (is : cv.waitQ = [])
    (unused : ∀ t, (vp.thr t).term ≠ some c) : Objects (vp.setCond c cv) where
  conds d h := by
    by_cases hd : d = c
    · subst hd; simp [Vp.setCond, is] at h
    · simp only [Vp.setCond, Function.update_of_ne hd] at h ⊢
      exact obj.conds d h
  mutexes := obj.mutexes
  terms t d h := by
    have other : d ≠ c := by rintro rfl; exact unused t h
    simpa [Vp.setCond, other] using obj.terms t d h
  owners := obj.owners

theorem Inv.condNew {vp : Vp} {r : Option Tid} (inv : Inv vp r) {c : CondId} {termination : Bool}
    (fresh : (vp.cond c).life = .unborn) : Inv (vp.setCond c ⟨[], .allocated, termination⟩) r := by
  apply inv.setCond_empty _ (inv.objects.unborn_cond fresh) rfl (inv.objects.setCond rfl _)
  intro t h
  have := (inv.objects.terms t c h).1
  rw [fresh] at this
  cases this

theorem Inv.condFree {vp : Vp} {r : Option Tid} (inv : Inv vp r) {c : CondId}
    (empty : (vp.cond c).waitQ = []) (kind : (vp.cond c).termination = false) :
    Inv (vp.setCond c { vp.cond c with life := .freed }) r := by
  refine inv.setCond_empty { vp.cond c with life := .freed } empty empty (inv.objects.setCond empty ?_)
  intro t h
  have := (inv.objects.terms t c h).2
  rw [kind] at this
  cases this

theorem Objects.started {vp : Vp} (obj : Objects vp) {t : Tid} {term : Option CondId}
    (new : ∀ c, term = some c → (vp.cond c).life = .allocated ∧ (vp.cond c).termination = true ∧
      ∀ u, (vp.thr u).term ≠ some c) : Objects (vp.started t term) where
  conds := obj.conds
  mutexes := obj.mutexes
  terms u c h := by
    by_cases hu : u = t
    · subst hu
      simp only [Vp.started, Function.update_self] at h
      exact ⟨(new c h).1, (new c h).2.1⟩
    · simp only [Vp.started, Function.update_of_ne hu] at h
      exact obj.terms u c h
  owners u w c hu hw := by
    by_cases htu : u = t <;> by_cases htw : w = t
    · rw [htu, htw]
    · subst htu
      simp only [Vp.started, Function.update_self, Function.update_of_ne htw] at hu hw
      exact absurd hw ((new c hu).2.2 w)
    · subst htw
      simp only [Vp.started, Function.update_self, Function.update_of_ne htu] at hu hw
      exact absurd hu ((new c hw).2.2 u)
    · simp only [Vp.started, Function.update_of_ne htu, Function.update_of_ne htw] at hu hw
      exact obj.owners u w c hu hw

theorem Objects.finished {vp : Vp} (obj : Objects vp) : Objects (vp.finished none) where
  conds := obj.conds
  mutexes := obj.mutexes
  terms t c h := by
    by_cases ht : t = vp.current
    · subst ht; simp [Vp.finished, Vp.setThr] at h
    · simp only [Vp.finished, Vp.setThr, Function.update_of_ne ht] at h
      exact obj.terms t c h
  owners t u c ht hu := by
    by_cases hc : t = vp.current
    · subst hc; simp [Vp.finished, Vp.setThr] at ht
    · by_cases hd : u = vp.current
      · subst hd; simp [Vp.finished, Vp.setThr] at hu
      · simp only [Vp.finished, Vp.setThr, Function.update_of_ne hc, Function.update_of_ne hd] at ht hu
        exact obj.owners t u c ht hu

theorem Inv.cleanUp {vp : Vp} (inv : Inv vp (some vp.current)) {term : CondId}
    (place : (vp.thr vp.current).context = .exiting) (joinable : (vp.thr vp.current).term = some term) :
    Inv ((stCondDestroy vp term).1.finished none) none := by
  unfold stCondDestroy
  by_cases busy : (vp.cond term).waitQ = []
  · rw [if_neg (by simp [busy])]
    -- the variable is freed only together with the pointer to it
    have gone := inv.finished _ (.inr place) inv.objects.finished
    refine gone.setCond_empty (c := term) { vp.cond term with life := .freed } busy busy
      (inv.objects.finished.setCond busy ?_)
    intro t h
    by_cases ht : t = vp.current
    · subst ht; simp [Vp.finished, Vp.setThr] at h
    · simp only [Vp.finished, Vp.setThr, Function.update_of_ne ht] at h
      exact ht (inv.objects.owners t vp.current term h joinable)
  · rw [if_pos busy]
    exact inv.finished _ (.inr place) inv.objects.finished

theorem joinLoop_zombie {vp : Vp} {r : Option Tid} (inv : Inv vp r) {thread : Tid} (term : CondId)
    (live : (vp.thr thread).context.live = true) (zombie : (vp.thr thread).state = .zombie) :
    joinLoop vp thread term = some (vp.reaped thread, some (.joined (vp.thr thread).retval)) ∧
      Inv (vp.reaped thread) r := by
  obtain ⟨linked, noRun, noZombie, kept⟩ := inv.reaped live zombie
  refine ⟨?_, kept⟩
  unfold joinLoop
  simp only [zombie, ne_eq, not_true_eq_false, if_false]
  have unlink : (vp.setState thread .runnable).delZombieq thread =
      some { vp.setState thread .runnable with zombieQ := vp.zombieQ.erase thread } := by
    rw [Vp.delZombieq, if_pos (by exact linked)]
    rfl
  have link : ({ vp.setState thread .runnable with zombieQ := vp.zombieQ.erase thread } : Vp).addRunq thread =
      some (vp.reaped thread) :=
    addRunq_run { vp.setState thread .runnable with zombieQ := vp.zombieQ.erase thread } noRun noZombie
  rw [unlink, Option.bind_eq_bind, Option.bind_some, link]
  rfl

end StateThreads
